import TheClub.ReadCommitted.Totals
import TheClub.Ledger
import TheClub.HouseEdge

/-!
The books of the house. A bet's row and the ledger entries of its round are written by different
statements, the entries from totals taken before the bets are written; together they cancel out
when the transaction commits. So the money in all wallets is what was deposited, less what the
committed bets have lost.
-/

namespace TheClub
open ReadCommitted Program Roulette

/-- What a bet has won for its player. -/
def Bet.net (bet : Bet) : Int := bet.payoutMinor - bet.stakeMinor

/-- What a ledger entry says was won or lost at the table. -/
def LedgerEntry.play (e : LedgerEntry) : Int := if e.kind = .deposit then 0 else e.amountMinor

theorem Bet.sum_net (rows : List Bet) :
    (rows.map Bet.net).sum = (rows.map Bet.payoutMinor).sum - (rows.map Bet.stakeMinor).sum := by
  induction rows with
  | nil => rfl
  | cons bet rows ih =>
    simp only [List.map_cons, List.sum_cons, ih, Bet.net]
    omega

/-- Every entry is a deposit or tells of play. -/
theorem LedgerEntry.sum_amounts (rows : List LedgerEntry) : (rows.map LedgerEntry.amountMinor).sum =
    ((rows.filter fun e => e.kind = .deposit).map LedgerEntry.amountMinor).sum + (rows.map LedgerEntry.play).sum := by
  induction rows with
  | nil => rfl
  | cons e rows ih =>
    by_cases deposited : e.kind = .deposit
    · simp only [LedgerEntry.play, deposited, ih, List.map_cons, List.sum_cons, List.filter_cons, decide_true, if_true]
      omega
    · simp only [LedgerEntry.play, deposited, ih, List.map_cons, List.sum_cons, List.filter_cons, decide_false,
        Bool.false_eq_true, if_false]
      omega

/-- What the bets written by the open transaction have won, less what its entries say. -/
def Unbooked.after (g : Int) : (c : Cmd) → Except Error c.Ret → Int
  | .sql .bets (.insert _ _ _ stakeMinor payoutMinor _), .ok _ => g + (payoutMinor - stakeMinor)
  | .sql .ledgerEntries (.append _ amountMinor _ kind _ _), .ok _ => g - if kind = .deposit then 0 else amountMinor
  | _, _ => g

def bookProtocol (platform : Platform) : Protocol signature where
  Ghost := Int
  start := 0
  allowed := fun g c => match c with
    | .commit _ => g = 0
    | _ => True
  possible := Answer platform
  next := fun g c r => if fate c r = .isOpen then Unbooked.after g c r else 0
  died := fun _ => 0

/-- The commands that write neither bets nor ledger entries. -/
def OffBook : Cmd → Prop
  | .sql .bets (.insert _ _ _ _ _ _) => False
  | .sql .ledgerEntries (.append _ _ _ _ _ _) => False
  | .commit _ => False
  | .rollback => False
  | _ => True

variable {platform : Platform} {settings : Settings}

theorem bookProtocol_transactional :
    Transactional platform (bookProtocol platform) OffBook (fun g => g = (0 : Int)) where
  possible := rfl
  off g c quiet := by
    cases c with
    | sql f q => cases f <;> cases q <;> first | exact quiet.elim | exact ⟨trivial, fun a => rfl⟩
    | commit tx => exact quiet.elim
    | rollback => exact quiet.elim
    | _ => exact ⟨trivial, fun a => rfl⟩
  ends g c r h := if_neg h
  stays g message e := rfl
  commit g tx ready := ready
  rollback g := trivial
  readyStart := rfl

/-! ### The services follow it -/

section
variable {α : Type} {p : Prog α} {g : Int}

theorem uses_offBook {L : List TableName} (bets : .bets ∉ L) (entries : .ledgerEntries ∉ L) {c : Cmd} (h : Uses L c) :
    OffBook c := by
  cases c with
  | sql f q =>
    cases f with
    | bets => exact (bets h).elim
    | ledgerEntries => exact (entries h).elim
    | _ => trivial
  | commit tx => exact h.elim
  | rollback => exact h.elim
  | _ => trivial

theorem looks_offBook {c : Cmd} (h : Looks c) : OffBook c := by
  unfold Looks at h
  split at h <;> trivial

/-- A plain program that writes neither bets nor entries changes nothing. -/
theorem keepsBooks {A : Cmd → Prop} (h : p.Plain A) (quiet : ∀ c, A c → OffBook c) :
    p.Follows (bookProtocol platform) (Then fun g' _ => g' = g) g :=
  h.follows fun c member => bookProtocol_transactional.off g c (quiet c member)

theorem uses_keepsBooks {L : List TableName} (h : p.Plain (Uses L)) (bets : .bets ∉ L) (entries : .ledgerEntries ∉ L) :
    p.Follows (bookProtocol platform) (Then fun g' _ => g' = g) g :=
  keepsBooks h fun _ => uses_offBook bets entries

theorem perform_keepsBooks {c : Cmd} (quiet : OffBook c) :
    (perform c : Prog c.Ret).Follows (bookProtocol platform) (Then fun g' _ => g' = g) g :=
  keepsBooks (plain_perform (S := signature) (A := OffBook) quiet) fun _ => id

theorem append_books {walletId : Id} {amount : Money} {balanceAfter : Int} {kind : LedgerKind} {refType : Option String}
    {refId : Option Id} : (LedgerRepository.append walletId amount balanceAfter kind refType refId).Follows
      (bookProtocol platform) (Then fun g' _ => g' = g - if kind = .deposit then 0 else amount.minor) g := by
  refine ⟨trivial, fun r _ => ?_⟩
  cases r <;> trivial

theorem insertBet_books {roundId : Id} {bet : ResolvedBetInput} : (RoundRepository.insertBet roundId bet).Follows
    (bookProtocol platform) (Then fun g' _ => g' = g + (bet.payoutMinor - bet.stakeMinor)) g := by
  refine ⟨trivial, fun r _ => ?_⟩
  cases r <;> trivial

theorem insertBets_books {roundId : Id} {bets : List ResolvedBetInput} :
    (bets.mapM (RoundRepository.insertBet roundId)).Follows (bookProtocol platform)
      (Then fun g' _ => g' = g + (bets.map fun bet => bet.payoutMinor - bet.stakeMinor).sum) g := by
  induction bets generalizing g with
  | nil => exact (Int.add_zero g).symm
  | cons bet bets ih =>
    rw [List.mapM_cons]
    refine insertBet_books.seq fun row => ?_
    refine ih.seq fun rows => ?_
    rw [List.map_cons, List.sum_cons, ← Int.add_assoc]
    rfl

theorem createSettledRound_books {userId seedPairId : Id} {nonce : Nat} {outcome : Int} {bets : List ResolvedBetInput} :
    (RoundRepository.createSettledRound userId seedPairId nonce outcome bets).Follows (bookProtocol platform)
      (Then fun g' _ => g' = g + (bets.map fun bet => bet.payoutMinor - bet.stakeMinor).sum) g := by
  refine (perform_keepsBooks (c := .datetimeNow) trivial).seq fun now => ?_
  refine (perform_keepsBooks (c := .sql .rounds _) trivial).seq fun round => ?_
  exact insertBets_books.seq fun rows => rfl

theorem appendPayout_books {walletId roundId : Id} {totalPayout : Int} {balance : Option Int}
    (nonneg : 0 ≤ totalPayout) :
    (appendPayout walletId roundId totalPayout balance).Follows (bookProtocol platform)
      (Then fun g' _ => g' = g - totalPayout) g := by
  unfold appendPayout
  split
  · cases balance with
    | none => trivial
    | some balance => exact append_books.seq fun entry => rfl
  · have nothing : totalPayout = 0 := by omega
    rw [nothing]
    exact (Int.sub_zero g).symm

theorem liftBet_books {result : Except InvalidBetError α} : (liftBet result).Follows (bookProtocol platform)
    (Then fun g' a => g' = g ∧ result = .ok a) g := by
  cases result with
  | error reason => trivial
  | ok a => exact ⟨rfl, rfl⟩

theorem deposit_books {userId : Id} {key : String} {amountMinor : Int} :
    (deposit platform settings userId key amountMinor).Follows (bookProtocol platform)
      (Then fun g _ => g = (0 : Int)) (0 : Int) := by
  refine (uses_keepsBooks (requireWallet_uses (L := [.wallets]) (by decide))
    (by decide) (by decide)).seq fun wallet => ?_
  refine (uses_keepsBooks (credit_uses (L := [.wallets]) (by decide))
    (by decide) (by decide)).seq fun balanceAfter => ?_
  refine append_books.seq fun entry => ?_
  refine (uses_keepsBooks (L := []) newEnvelope_uses (by decide) (by decide)).seq fun envelope => ?_
  exact (uses_keepsBooks (enqueueEvent_uses (L := [.outbox]) (by decide)) (by decide) (by decide)).seq fun _ => rfl

end

theorem validateBets_stakes {bets : List PlacedBet} (valid : validateBets settings bets = .ok ()) :
    ∀ bet ∈ bets, 0 < bet.stake.minor := by
  induction bets with
  | nil => simp
  | cons bet bets ih =>
    change (validateBet bet { minor := settings.tableMinBetMinor } { minor := settings.tableMaxBetMinor } >>= fun _ =>
      validateBets settings bets) = .ok () at valid
    cases first : validateBet bet { minor := settings.tableMinBetMinor } { minor := settings.tableMaxBetMinor } with
    | error e =>
      rw [first] at valid
      cases valid
    | ok u =>
      rw [first] at valid
      intro other member
      rcases List.mem_cons.mp member with rfl | later
      · have low := (validateBet_ok first).1
        have least := settings.tableMinBet_ge
        change settings.tableMinBetMinor ≤ other.stake.minor at low
        omega
      · exact ih valid other later

theorem resolved_net (resolved : List ResolvedBet) :
    ((resolved.map resolvedBetInput).map fun bet => bet.payoutMinor - bet.stakeMinor).sum =
      (resolved.map fun r => r.payout.minor).sum - (resolved.map fun r => r.bet.stake.minor).sum := by
  induction resolved with
  | nil => rfl
  | cons r resolved ih =>
    simp only [List.map_cons, List.sum_cons, ih, resolvedBetInput]
    omega

/-- The entries of a round book what its bets have won. -/
theorem settleRound_books {userId : Id} {key : String} {wallet : Wallet} {pair : SeedPair} {nonce outcome : Nat}
    {totalStake balanceAfterStake : Int} {resolved : List ResolvedBet}
    (staked : totalStake = (resolved.map fun r => r.bet.stake.minor).sum)
    (payouts : ∀ r ∈ resolved, 0 ≤ r.payout.minor) :
    (settleRound platform settings userId key wallet pair nonce totalStake balanceAfterStake outcome resolved).Follows
      (bookProtocol platform) (Then fun g _ => g = (0 : Int)) (0 : Int) := by
  have nonneg : 0 ≤ (resolved.map fun r => r.payout.minor).sum := List.sum_nonneg (by simpa using payouts)
  refine (uses_keepsBooks (creditPayout_uses (L := [.wallets]) (by decide))
    (by decide) (by decide)).seq fun balance => ?_
  refine createSettledRound_books.seq fun round => ?_
  refine append_books.seq fun stakeEntry => ?_
  refine (appendPayout_books nonneg).seq fun payoutEntryId => ?_
  refine (uses_keepsBooks (enqueueRoundEvents_uses (L := [.outbox]) (by decide))
    (by decide) (by decide)).seq fun _ => ?_
  change _ = (0 : Int)
  rw [resolved_net, staked, if_neg (by decide)]
  dsimp only
  omega

theorem placeBet_books {userId : Id} {key : String} {betRequests : List BetRequest} :
    (placeBet platform settings userId key betRequests).Follows (bookProtocol platform)
      (Then fun g _ => g = (0 : Int)) (0 : Int) := by
  refine follows_then_bind.mpr (liftBet_books.then_mono fun g _ checked => ?_)
  obtain ⟨rfl, valid⟩ := checked
  refine (uses_keepsBooks (requireWallet_uses (L := [.wallets]) (by decide))
    (by decide) (by decide)).seq fun wallet => ?_
  refine (uses_keepsBooks (debit_uses (L := [.wallets]) (by decide))
    (by decide) (by decide)).seq fun balanceAfterStake => ?_
  refine (uses_keepsBooks (requireActiveSeedPair_uses (L := [.seedPairs]) (by decide))
    (by decide) (by decide)).seq fun pair => ?_
  refine (uses_keepsBooks (consumeNonce_uses (L := [.seedPairs]) (by decide))
    (by decide) (by decide)).seq fun nonce => ?_
  refine (perform_keepsBooks (c := .spin _) trivial).seq fun outcome => ?_
  refine follows_then_bind.mpr (liftBet_books.then_mono fun g resolved resolves => ?_)
  obtain ⟨rfl, resolves⟩ := resolves
  obtain ⟨same, payouts⟩ := resolveBets_payouts (validateBets_stakes valid) resolves
  refine settleRound_books ?_ payouts
  rw [← same, List.map_map]
  rfl

theorem background_offBook : Transactional.Background OffBook where
  accounts _ h := uses_offBook (by decide) (by decide) h.uses
  looks _ := looks_offBook
  outbox _ := trivial
  send _ := trivial
  idempotency _ := trivial

theorem useCase_books {q : Request} (useCase : q.isUseCase = true) :
    (q.code platform settings).Follows (bookProtocol platform) (fun g _ => g = (0 : Int)) (0 : Int) :=
  bookProtocol_transactional.useCase background_offBook
    (fun _ _ => uses_keepsBooks registerUser_uses (by decide) (by decide))
    (fun _ => uses_keepsBooks getCurrentSeed_uses (by decide) (by decide))
    (fun _ => uses_keepsBooks rotateSeed_uses (by decide) (by decide))
    (fun _ _ _ => placeBet_books) (fun _ _ _ => deposit_books) useCase

theorem useCases_book : Disciplined (Y := application platform settings) UseCases (bookProtocol platform)
    fun _ g _ => g = (0 : Int) where
  code _ _ _ start := useCase_books start
  answers _ _ _ _ _ _ ran := exec_answer ran

/-! ### The tables -/

/-- The committed bets and the committed entries agree, and the rows of an open transaction differ by what it has
not booked. -/
structure Booked (s : Database) (g : Nat → Int) : Prop where
  settled : (s.tables .bets).total Bet.net = (s.tables .ledgerEntries).total LedgerEntry.play
  held : ∀ i, (s.tables .bets).heldBack Bet.net i = (s.tables .ledgerEntries).heldBack LedgerEntry.play i + g i

namespace Booked
variable {s s' : Database} {g : Nat → Int} {i : Nat} {env : Env}

theorem empty : Booked .empty fun _ => 0 := ⟨rfl, fun _ => rfl⟩

theorem unchanged (inv : Booked s g) {n : Int} (same : n = g i) (bets : s'.tables .bets = s.tables .bets)
    (entries : s'.tables .ledgerEntries = s.tables .ledgerEntries) : Booked s' (Function.update g i n) := by
  rw [same, Function.update_eq_self]
  constructor
  · rw [bets, entries]
    exact inv.settled
  · intro j
    rw [bets, entries]
    exact inv.held j

theorem ended (inv : Booked s g) (fate : Fate) (booked : fate = .applied → g i = 0) (ends : fate ≠ .isOpen)
    (bets : s'.tables .bets = (s.tables .bets).settle i fate)
    (entries : s'.tables .ledgerEntries = (s.tables .ledgerEntries).settle i fate) :
    Booked s' (Function.update g i 0) := by
  constructor
  · rw [bets, entries, Table.total_settle, Table.total_settle, inv.settled]
    split
    · rename_i applied
      rw [inv.held i, booked applied, Int.add_zero]
    · rfl
  · intro j
    rw [bets, entries]
    by_cases mine : j = i
    · subst mine
      rw [Table.heldBack_settle_self ends, Table.heldBack_settle_self ends, Function.update_self]
      rfl
    · rw [Table.heldBack_settle_other mine, Table.heldBack_settle_other mine, Function.update_of_ne mine]
      exact inv.held j

theorem placed (inv : Booked s g) {k : Id} {bet : Bet} {fresh : k ∉ (s.tables .bets).keys}
    (bets : s'.tables .bets = (s.tables .bets).insert i k bet fresh)
    (entries : s'.tables .ledgerEntries = s.tables .ledgerEntries) :
    Booked s' (Function.update g i (g i + bet.net)) := by
  constructor
  · rw [bets, entries, Table.total_insert]
    exact inv.settled
  · intro j
    rw [bets, entries, Table.heldBack_insert, inv.held j]
    by_cases mine : j = i
    · subst mine
      rw [if_pos rfl, Function.update_self, Int.add_assoc]
    · rw [if_neg mine, Function.update_of_ne mine, Int.add_zero]

theorem entered (inv : Booked s g) {k : Id} {e : LedgerEntry} {fresh : k ∉ (s.tables .ledgerEntries).keys}
    (bets : s'.tables .bets = s.tables .bets)
    (entries : s'.tables .ledgerEntries = (s.tables .ledgerEntries).insert i k e fresh) :
    Booked s' (Function.update g i (g i - e.play)) := by
  constructor
  · rw [bets, entries, Table.total_insert]
    exact inv.settled
  · intro j
    rw [bets, entries, Table.heldBack_insert, inv.held j]
    by_cases mine : j = i
    · subst mine
      rw [if_pos rfl, Function.update_self]
      omega
    · rw [if_neg mine, Function.update_of_ne mine, Int.add_zero]

theorem bets_statement (inv : Booked s g) {q : BetQuery} {a : q.Ret} {ctx : Context}
    (done : BetQuery.exec ctx i (s.tables .bets) q = .ok a (s'.tables .bets))
    (entries : s'.tables .ledgerEntries = s.tables .ledgerEntries) :
    Booked s' (Function.update g i (Unbooked.after (g i) (.sql .bets q) (.ok a))) := by
  cases q with
  | insert roundId betType selection stakeMinor payoutMinor status =>
    obtain ⟨rfl, fresh, table, -⟩ := insertRow_ok (BetQuery.insert_ok done)
    exact inv.placed table entries
  | selectIn roundIds =>
    injection done with _ table
    exact inv.unchanged rfl table.symm entries

theorem entries_statement (inv : Booked s g) {q : LedgerQuery} {a : q.Ret} {ctx : Context}
    (bets : s'.tables .bets = s.tables .bets)
    (done : LedgerQuery.exec ctx i (s.tables .ledgerEntries) q = .ok a (s'.tables .ledgerEntries)) :
    Booked s' (Function.update g i (Unbooked.after (g i) (.sql .ledgerEntries q) (.ok a))) := by
  cases q with
  | append walletId amountMinor balanceAfterMinor kind refType refId =>
    simp only [LedgerQuery.exec] at done
    split at done
    · cases done
    · split at done
      · cases done
      · obtain ⟨rfl, fresh, table, -⟩ := insertRow_ok done
        exact inv.entered bets table
  | listByWallet walletId cursor limit =>
    injection done with _ table
    exact inv.unchanged rfl bets table.symm

theorem after_other {n : Int} {c : Cmd} {r : Except Error c.Ret} (bets : ∀ q, c ≠ .sql .bets q)
    (entries : ∀ q, c ≠ .sql .ledgerEntries q) : Unbooked.after n c r = n := by
  unfold Unbooked.after
  split
  · exact (bets _ rfl).elim
  · exact (entries _ rfl).elim
  · rfl

/-- Any command that follows the protocol keeps the books. -/
theorem step (inv : Booked s g) {c : Cmd} {r : Except Error c.Ret} (allowed : (bookProtocol platform).allowed (g i) c)
    (ran : exec platform env i c s = some (r, s')) :
    Booked s' (Function.update g i ((bookProtocol platform).next (g i) c r)) := by
  by_cases ends : fate c r = .isOpen
  · have next : (bookProtocol platform).next (g i) c r = Unbooked.after (g i) c r := if_pos ends
    rw [next]
    by_cases isBets : ∃ q, c = .sql .bets q
    · obtain ⟨q, rfl⟩ := isBets
      have entries := exec_frame ran .ledgerEntries (by simp)
      rcases exec_sql ran with ⟨e, rfl, -⟩ | ⟨a, rfl, done⟩
      · cases ends
      · exact inv.bets_statement done entries
    · have bets := exec_frame ran .bets fun q same => isBets ⟨q, same⟩
      rw [ends] at bets
      by_cases isEntries : ∃ q, c = .sql .ledgerEntries q
      · obtain ⟨q, rfl⟩ := isEntries
        rcases exec_sql ran with ⟨e, rfl, -⟩ | ⟨a, rfl, done⟩
        · cases ends
        · exact inv.entries_statement bets done
      · have entries := exec_frame ran .ledgerEntries fun q same => isEntries ⟨q, same⟩
        rw [ends] at entries
        exact inv.unchanged (after_other (fun q same => isBets ⟨q, same⟩) fun q same =>
          isEntries ⟨q, same⟩) bets entries
  · have next : (bookProtocol platform).next (g i) c r = (0 : Int) := if_neg ends
    rw [next]
    refine inv.ended _ (fun applied => ?_) ends (exec_ends ran ends .bets) (exec_ends ran ends .ledgerEntries)
    obtain ⟨tx, rfl⟩ := fate_applied applied
    exact allowed

end Booked

variable {w : World (application platform settings)}

theorem reachable_booked (reached : Reachable UseCases w) : Booked w.state (w.ghost (bookProtocol platform)) := by
  refine useCases_book.invariant Booked .empty ?_ ?_ reached
  · intro w i env c r s' _ inv _ _ allowed _ ran
    exact inv.step allowed ran
  · intro w i c _ inv _ _
    exact inv.ended .undone nofun nofun rfl rfl

/-! ### The balance of the house -/

namespace Balanced
variable {s : Database} {owed : Nat → Owed}

/-- A committed wallet holds what its entries say, and a missing wallet has none. -/
theorem worth_wallet (inv : Balanced s owed) (k : Id) :
    worth (fun wallet : WalletRow => wallet.balanceMinor) ((s.tables .wallets).slot k).committed =
      ((entriesOf s k).map LedgerEntry.amountMinor).sum := by
  have history := lines_entriesOf s k
  rw [inv.journal.balanced k] at history
  cases row : ((s.tables .wallets).slot k).committed with
  | none =>
    rw [row] at history
    rw [List.map_eq_nil_iff.mp history.symm]
    rfl
  | some wallet =>
    rw [row] at history
    change wallet.updates = _ at history
    have sound := inv.sound k wallet (Or.inl row)
    change wallet.balanceMinor = _
    rw [sound.balance, history, List.map_map]
    rfl

theorem entry_owned (inv : Balanced s owed) {e : LedgerEntry} (member : e ∈ (s.tables .ledgerEntries).committedRows) :
    e.walletId ∈ (s.tables .wallets).keys := by
  by_contra outside
  have history := lines_entriesOf s e.walletId
  rw [inv.journal.balanced e.walletId, Table.slot_outside _ _ outside] at history
  have empty : entriesOf s e.walletId = [] := List.map_eq_nil_iff.mp history.symm
  have mine : e ∈ entriesOf s e.walletId := List.mem_filter.mpr ⟨member, decide_eq_true rfl⟩
  rw [empty] at mine
  cases mine

/-- The committed wallets hold what the committed entries say. -/
theorem wallets_total (inv : Balanced s owed) :
    (s.tables .wallets).total (fun wallet : WalletRow => wallet.balanceMinor) =
      (s.tables .ledgerEntries).total LedgerEntry.amountMinor := by
  rw [Table.total_eq, Table.total, ← sum_by_owner (s.tables .wallets).keys_nodup fun e => inv.entry_owned]
  exact congrArg List.sum (List.map_congr_left fun k _ => inv.worth_wallet k)

end Balanced

/-- The committed deposits. -/
def depositsOf (s : Database) : List LedgerEntry :=
  (s.tables .ledgerEntries).committedRows.filter fun e => e.kind = .deposit

/-- In every committed state of every run of the use cases the money in all wallets is what was deposited, plus what
the committed bets have paid, less what was staked on them. -/
theorem books_balance (reached : Reachable UseCases w) :
    ((w.state.tables .wallets).committedRows.map fun wallet : WalletRow => wallet.balanceMinor).sum =
      ((depositsOf w.state).map LedgerEntry.amountMinor).sum +
        ((w.state.tables .bets).committedRows.map Bet.payoutMinor).sum -
        ((w.state.tables .bets).committedRows.map Bet.stakeMinor).sum := by
  have wallets := (reachable_balanced reached).wallets_total
  have bets := (reachable_booked reached).settled
  unfold Table.total at wallets bets
  rw [wallets, LedgerEntry.sum_amounts, ← bets, Bet.sum_net]
  unfold depositsOf
  omega

theorem books_balance_sampleRound :
    ((sampleRound.state.tables .wallets).committedRows.map fun wallet : WalletRow => wallet.balanceMinor).sum =
    ((depositsOf sampleRound.state).map LedgerEntry.amountMinor).sum +
      ((sampleRound.state.tables .bets).committedRows.map Bet.payoutMinor).sum -
      ((sampleRound.state.tables .bets).committedRows.map Bet.stakeMinor).sum ∧
    ((sampleRound.state.tables .wallets).committedRows.map fun wallet : WalletRow => wallet.balanceMinor).sum = 4500 :=
  ⟨books_balance (sampleRun_reachable _), by decide +kernel⟩

end TheClub
