import TheClub.Endpoints
import TheClub.Events.Contracts
import TheClub.Exceptions
import TheClub.HouseEdge
import TheClub.Ledger

/-!
Every event that is enqueued keeps the published contract. The bounds of the contract are carried
through the use case: from the request model, the wallet's currency and check constraint, the spin
and the payouts.
-/

namespace TheClub
open ReadCommitted Program Roulette

/-- An exception with which the construction of an event aborts the transaction. -/
def Aborts (e : Error) : Prop := e = .assertionError ∨ ∃ fields, e = .validationError fields

/-- What the statements of a deposit or a bet are answered with. -/
structure Sound (c : Cmd) (r : Except Error c.Ret) : Prop where
  raises : ∀ e, r = .error e → ¬Aborts e
  currency : ∀ userId rows, (.ran c r : Event signature) = .ran (.sql .wallets (.getByUserId userId)) (.ok rows) →
    ∀ wallet ∈ rows, wallet.currency = DEFAULT_CURRENCY
  debited : ∀ walletId amount balance,
    (.ran c r : Event signature) = .ran (.sql .wallets (.debit walletId amount)) (.ok (some balance)) → 0 ≤ balance
  credited : ∀ walletId amount balance,
    (.ran c r : Event signature) = .ran (.sql .wallets (.credit walletId amount)) (.ok (some balance)) → 0 ≤ balance
  spun : ∀ seed outcome, (.ran c r : Event signature) = .ran (.spin seed) (.ok outcome) → outcome < POCKET_COUNT

/-- An outbox row of this user with an event that keeps its contract. -/
structure Contracted {platform : Platform} (settings : Settings) (formats : FormatChecker platform) (userId : Id)
    (topic key : String) (payload : Dict) : Prop where
  conforms : ∃ eventType : EventType, payload.lookup "event_type" = some (.str eventType.value) ∧
    eventType.schema formats (.obj payload) ∧ topic = s!"{settings.kafkaTopicPrefix}.{eventType.topicSuffix}"
  user : ∃ data, payload.lookup "data" = some (.obj data) ∧ data.lookup "user_id" = some (.str key)
  key : key = platform.uuidText userId

/-- Events are only inserted as the contract has them. -/
def contracts {platform : Platform} (settings : Settings) (formats : FormatChecker platform) (userId : Id) :
    Protocol signature where
  Ghost := Unit
  start := ()
  allowed := fun _ c => ∀ topic key payload, c = .sql .outbox (.insert topic key payload) →
    Contracted settings formats userId topic key payload
  possible := Sound
  next := fun _ _ _ => ()
  died := fun _ => ()

variable {platform : Platform} {settings : Settings} {formats : FormatChecker platform} {userId : Id} {α β : Type}

/-- The program inserts events of this user that keep the contract, is not aborted by one, and returns
a value in `Q`. -/
def Delivers (settings : Settings) (formats : FormatChecker platform) (userId : Id) (Q : α → Prop)
    (p : Prog α) : Prop :=
  p.Follows (contracts settings formats userId) (fun _ r => (∀ a, r = .ok a → Q a) ∧ ∀ e, r = .error e → ¬Aborts e) ()

section
variable {Q : α → Prop} {R : β → Prop}

theorem delivers_return {a : α} (h : Q a) : Delivers settings formats userId Q (.done (.ok a)) := by
  refine ⟨?_, ?_⟩
  · rintro _ ⟨⟩
    exact h
  · rintro _ ⟨⟩

theorem delivers_raise {e : Error} (h : ¬Aborts e) : Delivers settings formats userId Q (raise e : Prog α) := by
  refine ⟨?_, ?_⟩
  · rintro _ ⟨⟩
  · rintro _ ⟨⟩
    exact h

theorem Delivers.bind {p : Prog α} {f : α → Prog β} (first : Delivers settings formats userId Q p)
    (rest : ∀ a, Q a → Delivers settings formats userId R (f a)) : Delivers settings formats userId R (p.bind f) := by
  refine follows_bind.mpr (first.mono fun g r done => ?_)
  cases r with
  | ok a => exact rest a (done.1 a rfl)
  | error e => exact show Delivers settings formats userId R (raise e : Prog β) from delivers_raise (done.2 e rfl)

theorem Delivers.mono {Q' : α → Prop} {p : Prog α} (h : Delivers settings formats userId Q p)
    (weaker : ∀ a, Q a → Q' a) : Delivers settings formats userId Q' p :=
  Follows.mono h fun _ _ done => ⟨fun a same => weaker a (done.1 a same), done.2⟩

/-- A command that inserts no event, and what its answer is good for. -/
theorem delivers_perform {c : Cmd} {Q : c.Ret → Prop}
    (quiet : ∀ topic key payload, c ≠ .sql .outbox (.insert topic key payload))
    (good : ∀ a, Sound c (.ok a) → Q a) : Delivers settings formats userId Q (perform c) := by
  refine ⟨fun topic key payload same => (quiet topic key payload same).elim, fun r sound => ⟨?_, ?_⟩⟩
  · rintro a rfl
    exact good a sound
  · exact sound.raises

theorem delivers_mapM {γ : Type} {f : γ → Prog α} {xs : List γ}
    (each : ∀ x ∈ xs, Delivers settings formats userId Q (f x)) :
    Delivers settings formats userId (fun as => as.length = xs.length) (xs.mapM f) := by
  induction xs with
  | nil => exact delivers_return rfl
  | cons x xs ih =>
    rw [List.mapM_cons]
    refine (each x List.mem_cons_self).bind fun a _ => ?_
    refine (ih fun y member => each y (List.mem_cons_of_mem _ member)).bind fun as length => ?_
    exact delivers_return (by rw [List.length_cons, List.length_cons, length])

theorem delivers_forM {γ : Type} {f : γ → Prog PUnit} {xs : List γ}
    (each : ∀ x ∈ xs, Delivers settings formats userId (fun _ => True) (f x)) :
    Delivers settings formats userId (fun _ => True) (xs.forM f) := by
  induction xs with
  | nil => exact delivers_return trivial
  | cons x xs ih =>
    exact (each x List.mem_cons_self).bind fun _ _ => ih fun y member => each y (List.mem_cons_of_mem _ member)

end

/-! ### The steps of a deposit and a bet -/

theorem requireWallet_delivers :
    Delivers settings formats userId (fun wallet : Wallet => wallet.currency = DEFAULT_CURRENCY)
    (requireWallet platform userId) := by
  refine Delivers.bind (Q := fun found : Option Wallet => ∀ wallet ∈ found, wallet.currency = DEFAULT_CURRENCY)
    (Delivers.bind (delivers_perform (c := .sql .wallets (.getByUserId userId)) (by simp)
      fun rows sound => sound.currency userId rows rfl) fun rows good => ?_) fun found good => ?_
  · rcases rows with _ | ⟨wallet, _ | ⟨second, rest⟩⟩
    · exact delivers_return (by simp)
    · exact delivers_return (by simpa using good)
    · exact delivers_raise (by simp [Aborts])
  · cases found with
    | none => exact delivers_raise (by simp [Aborts])
    | some wallet => exact delivers_return (good wallet rfl)

theorem credit_delivers {walletId : Id} {amount : Money} :
    Delivers settings formats userId (fun balance => 0 ≤ balance) (WalletRepository.credit walletId amount) := by
  refine Delivers.bind (delivers_perform (c := .sql .wallets (.credit walletId amount.minor)) (by simp)
    (Q := fun found : Option Int => ∀ balance ∈ found, 0 ≤ balance) ?_) fun found good => ?_
  · rintro (_ | balance) sound
    · simp
    · simpa using sound.credited walletId amount.minor balance rfl
  · cases found with
    | none => exact delivers_raise (by simp [Aborts])
    | some balance => exact delivers_return (good balance rfl)

theorem debit_delivers {walletId : Id} {amount : Money} :
    Delivers settings formats userId (fun balance => 0 ≤ balance)
      (WalletRepository.debit platform walletId amount) := by
  refine Delivers.bind (delivers_perform (c := .sql .wallets (.debit walletId amount.minor)) (by simp)
    (Q := fun found : Option Int => ∀ balance ∈ found, 0 ≤ balance) ?_) fun found good => ?_
  · rintro (_ | balance) sound
    · simp
    · simpa using sound.debited walletId amount.minor balance rfl
  · cases found with
    | none => exact delivers_raise (by simp [Aborts])
    | some balance => exact delivers_return (good balance rfl)

theorem requireActiveSeedPair_delivers :
    Delivers settings formats userId (fun _ => True) (requireActiveSeedPair platform userId) := by
  refine Delivers.bind (Q := fun _ => True)
    (Delivers.bind (delivers_perform (c := .sql .seedPairs (.getActiveByUserId userId)) (by simp)
      (Q := fun _ => True) fun _ _ => trivial) fun rows _ => ?_) fun found _ => ?_
  · rcases rows with _ | ⟨pair, _ | ⟨second, rest⟩⟩
    · exact delivers_return trivial
    · exact delivers_return trivial
    · exact delivers_raise (by simp [Aborts])
  · cases found with
    | none => exact delivers_raise (by simp [Aborts])
    | some pair => exact delivers_return trivial

theorem consumeNonce_delivers {seedPairId : Id} :
    Delivers settings formats userId (fun _ => True) (SeedPairRepository.consumeNonce seedPairId) := by
  refine Delivers.bind (delivers_perform (c := .sql .seedPairs (.consumeNonce seedPairId)) (by simp)
    (Q := fun _ => True) fun _ _ => trivial) fun found _ => ?_
  cases found with
  | none => exact delivers_raise (by simp [Aborts])
  | some nonce => exact delivers_return trivial

theorem liftBet_delivers {result : Except InvalidBetError α} :
    Delivers settings formats userId (fun a => result = .ok a) (liftBet result) := by
  cases result with
  | ok a => exact delivers_return rfl
  | error e => exact delivers_raise (by simp [Aborts])

theorem now_delivers : Delivers settings formats userId (fun _ => True) datetimeNow :=
  delivers_perform (c := .datetimeNow) (by simp) fun _ _ => trivial

theorem append_delivers {walletId : Id} {amount : Money} {balanceAfterMinor : Int} {kind : LedgerKind}
    {refType : Option String} {refId : Option Id} : Delivers settings formats userId (fun _ => True)
      (LedgerRepository.append walletId amount balanceAfterMinor kind refType refId) :=
  delivers_perform (c := .sql .ledgerEntries _) (by simp) fun _ _ => trivial

theorem createSettledRound_delivers {seedPairId : Id} {nonce : Nat} {outcome : Int} {bets : List ResolvedBetInput} :
    Delivers settings formats userId (fun round => round.2.length = bets.length)
      (RoundRepository.createSettledRound userId seedPairId nonce outcome bets) := by
  refine now_delivers.bind fun now _ => ?_
  refine Delivers.bind (delivers_perform (c := .sql .rounds _) (by simp) (Q := fun _ => True) fun _ _ => trivial)
    fun round _ => ?_
  refine (delivers_mapM (Q := fun _ => True) fun bet _ => ?_).bind fun rows length => delivers_return length
  exact delivers_perform (c := .sql .bets _) (by simp) fun _ _ => trivial

/-- An event of the user whose data could be built is written as the contract has it. -/
theorem enqueue_delivers (eventType : EventType) {data : Except Error Dict} {idempotencyKey : Option String}
    (builds : Builds platform (eventType.dataSchema formats) userId data) :
    Delivers settings formats userId (fun _ => True) (do
      let envelope ← newEnvelope eventType data idempotencyKey
      enqueueEvent platform settings envelope (platform.uuidText userId)) := by
  obtain ⟨dict, rfl, conforms, user⟩ := builds
  have opens : Delivers settings formats userId
      (fun envelope : EventEnvelope => envelope.eventType = eventType ∧ envelope.data = dict)
      (newEnvelope eventType (.ok dict) idempotencyKey) := by
    refine Delivers.bind (Q := fun data => data = dict) (delivers_return rfl) ?_
    rintro _ rfl
    refine Delivers.bind (delivers_perform (c := .uuid4) (by simp) (Q := fun _ => True) fun _ _ => trivial)
      fun eventId _ => ?_
    exact now_delivers.bind fun occurredAt _ => delivers_return ⟨rfl, rfl⟩
  refine opens.bind ?_
  rintro envelope ⟨rfl, rfl⟩
  refine Delivers.bind (Q := fun _ => True) ⟨?_, fun r sound => ⟨fun _ _ => trivial, sound.raises⟩⟩ fun _ _ =>
    delivers_return trivial
  rintro topic key payload ⟨⟩
  exact ⟨⟨envelope.eventType, rfl, EventEnvelope.conforms conforms, rfl⟩, ⟨envelope.data, rfl, user⟩, rfl⟩

theorem enqueue_delivers_then (eventType : EventType) {data : Except Error Dict} {idempotencyKey : Option String}
    {rest : Prog α} {Q : α → Prop} (builds : Builds platform (eventType.dataSchema formats) userId data)
    (later : Delivers settings formats userId Q rest) : Delivers settings formats userId Q (do
      let envelope ← newEnvelope eventType data idempotencyKey
      enqueueEvent platform settings envelope (platform.uuidText userId)
      rest) := by
  have first : Delivers settings formats userId (fun _ => True) (do
      let envelope ← newEnvelope eventType data idempotencyKey
      enqueueEvent platform settings envelope (platform.uuidText userId)) := enqueue_delivers eventType builds
  have both := first.bind fun _ _ => later
  rwa [bind_eq, Program.bind_assoc] at both

/-! ### A deposit -/

theorem deposit_delivers {key : String} {amountMinor : Int} :
    Delivers settings formats userId (fun _ => True) (deposit platform settings userId key amountMinor) := by
  refine requireWallet_delivers.bind fun wallet currency => ?_
  refine credit_delivers.bind fun balanceAfter balance => ?_
  refine append_delivers.bind fun entry _ => ?_
  have builds : Builds platform (walletTransactionDataSchema formats) userId (WalletTransactionData.build platform
      { transactionId := entry.id, userId, walletId := wallet.id, kind := .deposit, amountMinor,
        balanceAfterMinor := balanceAfter, currency := wallet.currency, refType := none, refId := none }) :=
    WalletTransactionData.builds balance currency (by simp)
  exact enqueue_delivers_then .walletTransaction builds (delivers_return trivial)

/-! ### A bet -/

/-- The values that the events of a round are built from are within the bounds of the contract. -/
structure RoundContext.InRange (ctx : RoundContext) : Prop where
  outcome : 0 ≤ ctx.outcome ∧ ctx.outcome ≤ 36
  rows : ctx.betRows.length = ctx.resolved.length
  bets : ctx.resolved ≠ []
  stakes : ∀ r ∈ ctx.resolved, 0 < r.bet.stake.minor
  payouts : ∀ r ∈ ctx.resolved, 0 ≤ r.payout.minor
  totalStake : 0 < ctx.totalStake
  totalPayout : 0 ≤ ctx.totalPayout
  balanceAfterStake : 0 ≤ ctx.balanceAfterStake
  /-- A payout entry comes with the balance after it. -/
  payoutEntry : ctx.payoutEntryId ≠ none → ∃ balance, ctx.balanceAfterPayout = some balance ∧ 0 ≤ balance
  currency : ctx.currency = DEFAULT_CURRENCY

theorem enqueueRoundTransaction_delivers {ctx : RoundContext} {transactionId : Id} {kind : LedgerKind}
    {amountMinor balanceAfterMinor : Int} (currency : ctx.currency = DEFAULT_CURRENCY)
    (balance : 0 ≤ balanceAfterMinor) :
    Delivers settings formats ctx.userId (fun _ => True)
      (enqueueRoundTransaction platform settings ctx transactionId kind amountMinor balanceAfterMinor) :=
  enqueue_delivers .walletTransaction (WalletTransactionData.builds balance currency (by simp))

theorem enqueueRoundEvents_delivers {ctx : RoundContext} (own : ctx.userId = userId) (ranges : ctx.InRange) :
    Delivers settings formats userId (fun _ => True) (enqueueRoundEvents platform settings ctx) := by
  subst own
  have zipped : ∀ bet ∈ ctx.betRows.zip ctx.resolved, bet.2 ∈ ctx.resolved := fun bet member =>
    (List.of_mem_zip member).2
  refine (delivers_forM fun bet member => ?_).bind fun _ _ => ?_
  · exact enqueue_delivers .betPlaced (BetPlacedData.builds (ranges.stakes _ (zipped bet member)) ranges.currency)
  have round : Builds platform (roundSettledDataSchema formats) ctx.userId (RoundSettledData.build platform
      { roundId := ctx.round.id, userId := ctx.userId, seedPairId := ctx.seedPairId, nonce := ctx.nonce,
        outcome := ctx.outcome, bets := (ctx.betRows.zip ctx.resolved).map settledBet, totalStakeMinor :=
          ctx.totalStake,
        totalPayoutMinor := ctx.totalPayout, netMinor := ctx.totalPayout - ctx.totalStake, currency :=
            ctx.currency }) := by
    refine RoundSettledData.builds ranges.outcome ?_ ?_ ?_ ranges.totalStake ranges.totalPayout ranges.currency
    · have many := List.length_pos_iff.mpr ranges.bets
      refine List.length_pos_iff.mp ?_
      rw [List.length_map, List.length_zip, ranges.rows]
      omega
    · intro bet member
      obtain ⟨pair, zippedPair, rfl⟩ := List.mem_map.mp member
      exact ranges.stakes _ (zipped pair zippedPair)
    · intro bet member
      obtain ⟨pair, zippedPair, rfl⟩ := List.mem_map.mp member
      exact ranges.payouts _ (zipped pair zippedPair)
  refine enqueue_delivers_then .roundSettled round ?_
  refine (enqueueRoundTransaction_delivers ranges.currency ranges.balanceAfterStake).bind fun _ _ => ?_
  have entry := ranges.payoutEntry
  cases written : ctx.payoutEntryId with
  | none => exact delivers_return trivial
  | some payoutEntryId =>
    obtain ⟨balance, found, nonneg⟩ := entry (by simp [written])
    simp only [found]
    exact enqueueRoundTransaction_delivers ranges.currency nonneg

theorem creditPayout_delivers {walletId : Id} {totalPayout : Int} : Delivers settings formats userId
    (fun balance => 0 < totalPayout → ∃ n, balance = some n ∧ 0 ≤ n) (creditPayout walletId totalPayout) := by
  unfold creditPayout
  split
  · exact credit_delivers.bind fun balance nonneg => delivers_return fun _ => ⟨balance, rfl, nonneg⟩
  · rename_i nothing
    exact delivers_return fun won => (nothing won).elim

theorem appendPayout_delivers {walletId roundId : Id} {totalPayout : Int} {balanceAfterPayout : Option Int}
    (credited : 0 < totalPayout → ∃ n, balanceAfterPayout = some n ∧ 0 ≤ n) : Delivers settings formats userId
      (fun entry => entry ≠ none → ∃ n, balanceAfterPayout = some n ∧ 0 ≤ n)
      (appendPayout walletId roundId totalPayout balanceAfterPayout) := by
  unfold appendPayout
  split
  · rename_i won
    obtain ⟨balance, rfl, nonneg⟩ := credited won
    exact append_delivers.bind fun entry _ => delivers_return fun _ => ⟨balance, rfl, nonneg⟩
  · exact delivers_return fun written => (written rfl).elim

theorem settleRound_delivers {key : String} {wallet : Wallet} {pair : SeedPair} {nonce outcome : Nat}
    {totalStake balanceAfterStake : Int} {resolved : List ResolvedBet} (currency : wallet.currency = DEFAULT_CURRENCY)
    (pocket : outcome < POCKET_COUNT) (bets : resolved ≠ []) (stakes : ∀ r ∈ resolved, 0 < r.bet.stake.minor)
    (payouts : ∀ r ∈ resolved, 0 ≤ r.payout.minor) (staked : 0 < totalStake) (balance : 0 ≤ balanceAfterStake) :
    Delivers settings formats userId (fun _ => True)
      (settleRound platform settings userId key wallet pair nonce totalStake balanceAfterStake outcome resolved) := by
  refine creditPayout_delivers.bind fun balanceAfterPayout credited => ?_
  refine createSettledRound_delivers.bind fun round rows => ?_
  refine append_delivers.bind fun stakeEntry _ => ?_
  refine (appendPayout_delivers credited).bind fun payoutEntryId written => ?_
  have pockets : POCKET_COUNT = 37 := rfl
  have on_table : (outcome : Int) ≤ 36 := by omega
  refine Delivers.bind (Q := fun _ => True) (enqueueRoundEvents_delivers rfl ?_) fun _ _ => delivers_return trivial
  exact {
    outcome := ⟨Int.natCast_nonneg _, on_table⟩
    rows := by rw [rows, List.length_map]
    bets
    stakes
    payouts
    totalStake := staked
    totalPayout := List.sum_nonneg (by simpa using payouts)
    balanceAfterStake := balance
    payoutEntry := written
    currency }

/-- A bet with the slips that the request model admits. -/
theorem placeBet_delivers {key : String} {betRequests : List BetRequest} (some_bet : betRequests ≠ [])
    (stakes : ∀ bet ∈ betRequests, 0 < bet.stakeMinor) :
    Delivers settings formats userId (fun _ => True) (placeBet platform settings userId key betRequests) := by
  have placed : ∀ bet ∈ betRequests.map placedBet, 0 < bet.stake.minor := by
    intro bet member
    obtain ⟨request, admitted, rfl⟩ := List.mem_map.mp member
    exact stakes request admitted
  have staked : 0 < ((betRequests.map placedBet).map fun bet => bet.stake.minor).sum := by
    refine List.sum_pos _ ?_ (by simpa using some_bet)
    intro stake member
    obtain ⟨bet, known, rfl⟩ := List.mem_map.mp member
    exact placed bet known
  refine liftBet_delivers.bind fun _ _ => ?_
  refine requireWallet_delivers.bind fun wallet currency => ?_
  refine debit_delivers.bind fun balanceAfterStake balance => ?_
  refine requireActiveSeedPair_delivers.bind fun pair _ => ?_
  refine consumeNonce_delivers.bind fun nonce _ => ?_
  refine Delivers.bind (delivers_perform (c := .spin _) (by simp) fun outcome sound => sound.spun _ outcome rfl)
    fun outcome pocket => ?_
  refine liftBet_delivers.bind fun resolved ended => ?_
  obtain ⟨same, payouts⟩ := resolveBets_payouts placed ended
  refine settleRound_delivers currency pocket ?_ ?_ payouts staked balance
  · rintro rfl
    exact some_bet (List.map_eq_nil_iff.mp same.symm)
  · intro r member
    exact placed r.bet (same ▸ List.mem_map_of_mem member)

/-! ### Whole requests -/

/-- A deposit or a bet has values that its request model has admitted. -/
def Request.Admitted (parser : BodyParser) : Request → Prop
  | placeBet _ _ bets => ∃ body, placeRoundRequest parser body = some bets
  | deposit _ _ amountMinor => ∃ body, depositRequest parser body = some amountMinor
  | q => q.isAccepted parser = true

/-- Runs in which every deposit and every bet has been admitted. -/
def Admitted (parser : BodyParser) (_ : World (application platform settings)) :
    Label (application platform settings) → Prop
  | .start _ q => q.Admitted parser
  | _ => True

/-- A request that runs a deposit or a bet. -/
def Request.movesMoney : Request → Bool
  | placeBet _ _ _ | deposit _ _ _ | createRound _ _ _ _ | createDeposit _ _ _ _ => true
  | _ => false

theorem Delivers.always {Q : α → Prop} {p : Prog α} (h : Delivers settings formats userId Q p) :
    p.Always (contracts settings formats userId) := fun _ => Follows.mono h fun _ _ _ => trivial

theorem Delivers.throws {Q : α → Prop} {p : Prog α} (h : Delivers settings formats userId Q p) :
    Throws Sound (fun e => ¬Aborts e) p := by
  induction p with
  | done r => exact h.2
  | call c next ih => exact ⟨trivial, fun r sound => ih r (h.2 r sound)⟩

/-- Commands that insert no event are as the contract has them. -/
theorem contracts_free {c : Cmd}
    (quiet : ∀ topic key payload, c ≠ .sql .outbox (.insert topic key payload)) (g : Unit) :
    (contracts settings formats userId).allowed g c :=
  fun topic key payload same => (quiet topic key payload same).elim

theorem reserves_contracts {user : Id} {key requestHash : String} :
    Reserves (fun c => ∀ g, (contracts settings formats userId).allowed g c) user key requestHash :=
  .of_statement (fun _ => contracts_free (by simp)) (contracts_free (by simp)) (contracts_free (by simp))
    fun _ => contracts_free (by simp)

variable {parser : BodyParser}

theorem uses_quiet {L : List TableName} (outbox : .outbox ∉ L) {c : Cmd} (used : Uses L c) (topic key : String)
    (payload : Dict) : c ≠ .sql .outbox (.insert topic key payload) := by
  rintro rfl
  exact outbox used

/-- Only deposits and bets insert events. -/
theorem code_quiet {q : Request} (useCase : q.isUseCase = true) (still : q.movesMoney = false) :
    (q.code platform settings).Only fun (c : Cmd) =>
      ∀ topic key payload, c ≠ .sql .outbox (.insert topic key payload) := by
  have relays : Relaying fun (c : Cmd) => ∀ topic key payload, c ≠ .sql .outbox (.insert topic key payload) :=
    ⟨by simp, by simp, by simp, by simp, by simp, by simp⟩
  by_cases relaying : q.tables = [.outbox]
  · cases q with
    | relayOnce batchSize => exact (relayOnce_only relays).bind fun _ => trivial
    | purgeOnce retentionHours => exact (purgeOnce_only relays).bind fun _ => trivial
    | _ => cases relaying
  · refine code_only (fun c used _ => uses_quiet ?_ used) (by simp) (by simp)
      (fun same => (relaying same).elim) ?_ ?_ ?_
    · cases q with
      | placeBet | deposit | createRound | createDeposit => cases still
      | relayOnce | purgeOnce => exact (relaying rfl).elim
      | _ => simp [Request.tables]
    · intro user key requestHash called
      cases q with
      | createRound | createDeposit => cases still
      | runIdempotent => cases useCase
      | _ => cases called
    · rintro user key requestHash ttlHours work rfl
      cases useCase
    · rintro work rfl
      cases useCase

/-- Every admitted request inserts the events of its user, as the contract has them. -/
theorem code_contracts {q : Request} (admitted : q.Admitted parser) (own : ∀ u, q.user = some u → u = userId) :
    (q.code platform settings).Always (contracts settings formats userId) := by
  have unit : ∀ {α : Type} {Q : α → Prop} {p : Prog α} {f : α → Reply}, Delivers settings formats userId Q p →
      (f <$> unitOfWork .request p).Always (contracts settings formats userId) := fun h =>
    (unitOfWork_always (contracts_free (by simp)) (contracts_free (by simp)) h.always).bind fun _ _ => trivial
  have call : ∀ {α : Type} {Q : α → Prop} {p : Prog α} {f : α → Dict} {key requestHash : String} {ttlHours : Int},
      Delivers settings formats userId Q p →
        (Reply.body <$> runIdempotent userId key requestHash ttlHours (f <$> p)).Always
        (contracts settings formats userId) := by
    intro α Q p f key requestHash ttlHours h
    have work : (f <$> p).Always (contracts settings formats userId) := h.always.bind fun _ _ => trivial
    exact (runIdempotent_always reserves_contracts work).bind fun _ _ => trivial
  have other : q.movesMoney = false → q.isUseCase = true →
      (q.code platform settings).Always (contracts settings formats userId) :=
    fun still useCase => (code_quiet useCase still).always fun g _ quiet => contracts_free quiet g
  cases q with
  | placeBet user key bets =>
    obtain rfl := own user rfl
    obtain ⟨body, accepted⟩ := admitted
    obtain ⟨some_bet, stakes⟩ := placeRoundRequest_bets accepted
    exact unit (placeBet_delivers some_bet stakes)
  | deposit user key amountMinor =>
    obtain rfl := own user rfl
    exact unit deposit_delivers
  | createRound user key body bets =>
    obtain rfl := own user rfl
    obtain ⟨some_bet, stakes⟩ := placeRoundRequest_bets (of_decide_eq_true admitted)
    exact call (placeBet_delivers some_bet stakes)
  | createDeposit user key body amountMinor =>
    obtain rfl := own user rfl
    exact call deposit_delivers
  | runIdempotent => cases admitted
  | transaction => cases admitted
  | _ => exact other rfl rfl

/-- No exception of a statement, and none that a deposit or a bet raises, comes from an event. -/
theorem sound_raising (userId : Id) : Raising Sound (fun e => ¬Aborts e) userId where
  fails c e answer := Or.inl (answer.raises e rfl)
  mapped e mapped := by
    rintro (rfl | ⟨fields, rfl⟩) <;> cases mapped
  noWallet := by simp [Aborts]
  noPair := by simp [Aborts]
  manyWallets := by simp [Aborts]
  manyPairs := by simp [Aborts]
  manyUsers := by simp [Aborts]
  manyTokens := by simp [Aborts]
  manyKeys := by simp [Aborts]
  noCredit := by simp [Aborts]
  noNonce := by simp [Aborts]

/-- No admitted deposit or bet ends with an exception of an event. -/
theorem code_throws (formats : FormatChecker platform) {q : Request} (admitted : q.Admitted parser)
    (money : q.movesMoney = true) : Throws Sound (fun e => ¬Aborts e) (q.code platform settings) := by
  have unit : ∀ {α : Type} {Q : α → Prop} {p : Prog α} {f : α → Reply} {userId : Id},
      Delivers settings formats userId Q p → Throws Sound (fun e => ¬Aborts e) (f <$> unitOfWork .request p) := by
    intro α Q p f userId h
    exact ((sound_raising userId).unitOfWork h.throws).bind fun _ => throws_return _
  have call : ∀ {α : Type} {Q : α → Prop} {p : Prog α} {f : α → Dict} {userId : Id} {key requestHash : String}
    {ttlHours : Int},
      Delivers settings formats userId Q p → Throws Sound (fun e => ¬Aborts e)
        (Reply.body <$> runIdempotent userId key requestHash ttlHours (f <$> p)) := by
    intro α Q p f userId key requestHash ttlHours h
    have work : Throws Sound (fun e => ¬Aborts e) (f <$> p) := h.throws.bind fun _ => throws_return _
    exact ((sound_raising userId).runIdempotent work).bind fun _ => throws_return _
  cases q with
  | placeBet user key bets =>
    obtain ⟨body, accepted⟩ := admitted
    obtain ⟨some_bet, stakes⟩ := placeRoundRequest_bets accepted
    have delivers : Delivers settings formats user _ (placeBet platform settings user key bets) :=
      placeBet_delivers some_bet stakes
    exact unit delivers
  | deposit user key amountMinor =>
    have delivers : Delivers settings formats user _ (deposit platform settings user key amountMinor) :=
      deposit_delivers
    exact unit delivers
  | createRound user key body bets =>
    obtain ⟨some_bet, stakes⟩ := placeRoundRequest_bets (of_decide_eq_true admitted)
    exact call (placeBet_delivers some_bet stakes)
  | createDeposit user key body amountMinor => exact call deposit_delivers
  | _ => cases money

/-! ### Runs -/

section
variable {ok : World (application platform settings) → Label (application platform settings) → Prop}
  {w : World (application platform settings)}

/-- Every version of every wallet has the currency it was created with. -/
theorem wallet_currency (reached : Reachable ok w) {k : Id} {row : WalletRow}
    (version : ((w.state.tables .wallets).slot k).Version row) : row.currency = DEFAULT_CURRENCY := by
  obtain ⟨new, ⟨i, q, a, ran, reports⟩, -, fixed⟩ := (reachable_origins reached .wallets).origin k row version
  change WalletQuery.fixed row = WalletQuery.fixed new at fixed
  have same : (WalletQuery.fixed row).currency = (WalletQuery.fixed new).currency := by rw [fixed]
  change row.currency = (new : WalletRow).currency at same
  rw [same]
  obtain ⟨before, after, env, -, -, -, -, done, -⟩ := Run.moment reached ran
  cases q with
  | add userId balanceMinor =>
    cases reports
    rcases exec_sql done with ⟨e, failed, -⟩ | ⟨a', result, done⟩
    · cases failed
    · cases result
      simp only [Query.exec, WalletQuery.exec] at done
      split at done
      · cases done
      · split at done
        · rename_i inserted
          cases done
          obtain ⟨rfl, -⟩ := insertRow_ok inserted
          rfl
        · cases done
        · cases done
  | _ => cases reports

theorem move_nonneg {i : Nat} {t t' : Table Id WalletRow} {walletId : Id} {p : WalletRow → Bool} {amount balance : Int}
    (moved : WalletQuery.move i t walletId p amount = .ok (some balance) t') : 0 ≤ balance := by
  unfold WalletQuery.move at moved
  split at moved
  · cases moved
  · cases moved
  · split at moved
    · rename_i checked
      cases moved
      exact WalletRow.check_none checked
    · cases moved

theorem exec_sound (reached : Reachable ok w) {i : Nat} {env : Env} {c : Cmd} {r : Except Error c.Ret} {s' : Database}
    (ran : exec platform env i c w.state = some (r, s')) : Sound c r where
  raises e raised := by
    subst raised
    rintro (rfl | ⟨fields, rfl⟩) <;>
      rcases exec_raises ran with same | same | ⟨_, same⟩ | ⟨_, same⟩ | same | ⟨_, same⟩ <;> cases same
  currency userId rows same wallet member := by
    cases same
    rcases exec_sql ran with ⟨e, failed, -⟩ | ⟨a, result, done⟩
    · cases failed
    · cases result
      simp only [Query.exec, WalletQuery.exec] at done
      injection done with same
      rw [← same] at member
      obtain ⟨row, kept, rfl⟩ := List.mem_map.mp member
      obtain ⟨k, seen⟩ := Table.mem_rows.mp (List.mem_filter.mp kept).1
      exact wallet_currency reached (Slot.version_view seen)
  debited walletId amount balance same := by
    cases same
    rcases exec_sql ran with ⟨e, failed, -⟩ | ⟨a, result, done⟩
    · cases failed
    · cases result
      exact move_nonneg done
  credited walletId amount balance same := by
    cases same
    rcases exec_sql ran with ⟨e, failed, -⟩ | ⟨a, result, done⟩
    · cases failed
    · cases result
      exact move_nonneg done
  spun seed outcome same := by
    cases same
    exact derivesOutcome_lt (by decide) (exec_answer ran)

/-- Every command of a run was answered soundly. -/
theorem sound_of_ran (reached : Reachable ok w) {i : Nat} {c : Cmd} {r : Except Error c.Ret} (ran : w.Ran i c r) :
    Sound c r := by
  obtain ⟨before, after, env, start, -, -, -, done, -⟩ := Run.moment reached ran
  exact exec_sound start done

end

variable {ok : World (application platform settings) → Label (application platform settings) → Prop}
  {w : World (application platform settings)}

theorem request_admitted (reached : Reachable (Admitted parser) w) {i : Nat} {q : Request}
    (asked : w.request i = some q) :
    q.Admitted parser := by
  obtain ⟨before, -, admitted⟩ := asked_by reached asked
  exact admitted

theorem useCase_of_admitted {q : Request} (admitted : q.Admitted parser) : q.isUseCase = true := by
  cases q with
  | runIdempotent | transaction => cases admitted
  | _ => rfl

theorem still_of_anonymous {q : Request} (user : q.user = none) : q.movesMoney = false := by
  cases q with
  | placeBet | deposit | createRound | createDeposit => cases user
  | _ => rfl

/-- An event that a process has inserted is one of its user, and keeps the contract. -/
theorem inserted_contracted (reached : Reachable (Admitted parser) w) {i : Nat} {topic key : String} {payload : Dict}
    {r : Except Error OutboxEvent} (ran : w.Ran i (.sql .outbox (.insert topic key payload)) r) : ∃ q userId,
      w.request i = some q ∧ q.user = some userId ∧ Contracted settings formats userId topic key payload := by
  have asked : w.request i ≠ none := by
    intro none
    unfold World.Ran at ran
    rw [(history_of_unstarted reached i none).1] at ran
    cases ran
  obtain ⟨q, asked⟩ := Option.ne_none_iff_exists'.mp asked
  have admitted := request_admitted reached asked
  obtain ⟨h, rest, p, past, resumed, mine⟩ := resumed_of_ran reached asked ran
  have answered : ∀ c r, .ran c r ∈ h → Sound c r := fun c r ran =>
    sound_of_ran (i := i) reached (by unfold World.Ran; rw [past]; exact List.mem_append_left rest ran)
  cases user : q.user with
  | none =>
    -- a request without a user inserts nothing
    exact ((resumed.only (code_quiet (useCase_of_admitted admitted) (still_of_anonymous user))).2 _ _ mine
      _ _ _ rfl).elim
  | some userId =>
    have always : (q.code platform settings).Always (contracts settings formats userId) :=
      code_contracts admitted fun u own => Option.some.inj (own.symm.trans user)
    obtain ⟨g, allowed⟩ := ((always ()).resumed resumed answered).2 _ _ mine
    exact ⟨q, userId, asked, user, allowed topic key payload rfl⟩

/-- Whatever part of a run a deposit or bet with admitted values has been through, no event has aborted it. -/
theorem not_aborted (reached : Reachable ok w) (formats : FormatChecker platform) {i : Nat}
    {front during rest : List (Event signature)}
    {α : Type} {Q : α → Prop} {p : Prog α} {e : Error} (delivers : Delivers settings formats userId Q p)
    (past : w.history i = front ++ during ++ rest) (resumed : p.Resumed during (.done (.error e))) : ¬Aborts e := by
  have answered : ∀ c r, .ran c r ∈ during → Sound c r := by
    intro c r ran
    refine sound_of_ran (i := i) reached ?_
    unfold World.Ran
    rw [past]
    exact List.mem_append_left rest (List.mem_append_right front ran)
  obtain ⟨⟨g, follows⟩, -⟩ := Follows.resumed delivers resumed answered
  exact follows.2 e rfl

/-- The events of a run keep the published contract. -/
structure KeepsContract (settings : Settings) (formats : FormatChecker platform) (parser : BodyParser)
    (w : World (application platform settings)) : Prop where
  /-- Every payload that is written conforms to the schema of its event type, under the topic that
  `EVENT_TOPIC_SUFFIXES` assigns to it, with the id of the user whose request writes it as key. -/
  written : ∀ i topic key payload row, w.Ran i (.sql .outbox (.insert topic key payload)) (.ok row) → ∃ q userId,
    w.request i = some q ∧ q.user = some userId ∧ Contracted settings formats userId topic key payload
  /-- So does every row of the outbox, committed or not. -/
  stored : ∀ k row, ((w.state.tables .outbox).slot k).Version row →
    ∃ userId, Contracted settings formats userId (OutboxEvent.topic row) row.key row.payload
  /-- No execution of `place_bet` on an admitted body is aborted by an event. -/
  placeBet : ∀ i userId key body bets front during rest e, placeRoundRequest parser body = some bets →
    w.history i = front ++ during ++ rest →
    (placeBet platform settings userId key bets).Resumed during (.done (.error e)) → ¬Aborts e
  /-- No execution of `deposit` on an admitted body is aborted by an event. -/
  deposit : ∀ i userId key body amountMinor front during rest e, depositRequest parser body = some amountMinor →
    w.history i = front ++ during ++ rest →
    (deposit platform settings userId key amountMinor).Resumed during (.done (.error e)) → ¬Aborts e
  /-- And so no deposit or bet ends with a validation error. -/
  ended : ∀ i q e, w.request i = some q → q.movesMoney = true → w.Finished i (.error e) → ¬Aborts e

theorem inserted_columns (reached : Reachable ok w) {i : Nat} {topic key : String} {payload : Dict} {row : OutboxEvent}
    (ran : w.Ran i (.sql .outbox (.insert topic key payload)) (.ok row)) :
    row.topic = topic ∧ row.key = key ∧ row.payload = payload := by
  obtain ⟨before, after, env, -, -, -, -, done, -⟩ := Run.moment reached ran
  rcases exec_sql done with ⟨e, failed, -⟩ | ⟨a, result, done⟩
  · cases failed
  · cases result
    obtain ⟨rfl, -⟩ := insertRow_ok done
    exact ⟨rfl, rfl, rfl⟩

theorem columns_of_fixed {row row' : OutboxEvent} (same : OutboxQuery.fixed row = OutboxQuery.fixed row') :
    row.topic = row'.topic ∧ row.key = row'.key ∧ row.payload = row'.payload := by
  unfold OutboxQuery.fixed at same
  injection same with id topic key payload
  exact ⟨topic, key, payload⟩

theorem keeps_contract (formats : FormatChecker platform) (reached : Reachable (Admitted parser) w) :
    KeepsContract settings formats parser w where
  written i topic key payload row ran := inserted_contracted reached ran
  stored k row version := by
    obtain ⟨new, ⟨i, q, a, ran, reports⟩, -, fixed⟩ := (reachable_origins reached .outbox).origin k row version
    cases q with
    | insert topic key payload =>
      cases reports
      obtain ⟨q, userId, -, -, (contracted : Contracted settings formats userId topic key payload)⟩ :=
        inserted_contracted reached ran
      obtain ⟨topics, keys, payloads⟩ := inserted_columns reached ran
      obtain ⟨topics', keys', payloads'⟩ := columns_of_fixed fixed
      refine ⟨userId, ?_⟩
      rw [topics', keys', payloads', topics, keys, payloads]
      exact contracted
    | _ => cases reports
  placeBet i userId key body bets front during rest e accepted past resumed := by
    obtain ⟨some_bet, stakes⟩ := placeRoundRequest_bets accepted
    exact not_aborted reached formats (placeBet_delivers some_bet stakes) past resumed
  deposit i userId key body amountMinor front during rest e _ past resumed :=
    not_aborted reached formats deposit_delivers past resumed
  ended i q e asked money finished := by
    obtain ⟨q', asked', resumed⟩ := resumed_of_finished reached finished
    cases asked.symm.trans asked'
    have throws : Throws Sound (fun e => ¬Aborts e) (q.code platform settings) :=
      code_throws formats (request_admitted reached asked) money
    obtain ⟨⟨g, follows⟩, -⟩ := Follows.resumed throws resumed fun c r => sound_of_ran reached
    exact follows e rfl

/-- The labels of the endpoints, whose bodies `sampleParser` has accepted. -/
def isSampleCall (_ : SampleWorld) : SampleLabel → Bool
  | .start _ q => q.isAccepted sampleParser && q.movesMoney == (q.call samplePlatform).isSome
  | _ => true

theorem sampleCall_admitted (w : SampleWorld) (l : SampleLabel) (check : isSampleCall w l = true) :
    Admitted sampleParser w l := by
  cases l with
  | start i q =>
    obtain ⟨accepted, through⟩ := Bool.and_eq_true_iff.mp check
    cases q with
    | placeBet | deposit => cases through
    | _ => exact accepted
  | _ => trivial

/-- A validator that only annotates formats. -/
def sampleFormats : FormatChecker samplePlatform where
  uuid := fun _ => true
  dateTime := fun _ => true
  uuid_uuidText := fun _ => rfl
  dateTime_isoformat := fun _ => rfl

/-- User 12 deposits 1000 and wins a bet of 100. -/
def sampleCalls : SampleWorld := World.initial.replay isSampleCall (sampleRegistration ++
  .start 1 (.createDeposit 12 "key-1" depositBody 1000) :: turns 1 2 30 15 ++
  .start 2 (.createRound 12 "key-2" roundBody sampleBets) :: turns 2 3 60 40)

theorem keeps_contract_sampleCalls :
    ((sampleCalls.state.tables .outbox).committedRows.map fun (row : OutboxEvent) => (row.topic, row.key)) =
      [("theclub.wallet.transactions.v1", "12"), ("theclub.bets.placed.v1", "12"), ("theclub.rounds.settled.v1", "12"),
        ("theclub.wallet.transactions.v1", "12"), ("theclub.wallet.transactions.v1", "12")] ∧
      KeepsContract sampleSettings sampleFormats sampleParser sampleCalls :=
  ⟨by decide +kernel, keeps_contract sampleFormats (run_replay sampleCall_admitted _ _)⟩

end TheClub
