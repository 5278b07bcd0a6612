import TheClub.Audit
import TheClub.HistoryOrder
import TheClub.Nonces

/-!
Spins counted in the round history. A round response shows no nonce, so a player who checks the
spins of a revealed pair numbers them in the order of the history.
-/

namespace TheClub
open ReadCommitted Program Roulette

variable {platform : Platform} {settings : Settings}

/-! ### Whose rounds -/

/-- The user for whom the request may spin. -/
def Request.player : Request → Option Id
  | placeBet userId _ _ => some userId
  | createRound userId _ _ _ => some userId
  | _ => none

/-- Rounds are inserted for the player only, and a player's request reads no other user's pair. -/
def PlaysFor (player : Option Id) : Cmd → Prop
  | .sql .rounds (.insert userId _ _ _ _) => player = some userId
  | .sql .seedPairs (.getActiveByUserId userId) => ∀ u ∈ player, u = userId
  | _ => True

theorem uses_playsFor {L : List TableName} (seeds : .seedPairs ∉ L) (rounds : .rounds ∉ L)
    {player : Option Id} {c : Cmd}
    (h : Uses L c) : PlaysFor player c := by
  cases c with
  | sql f q =>
    cases f with
    | seedPairs => exact (seeds h).elim
    | rounds => exact (rounds h).elim
    | _ => trivial
  | _ => trivial

section
variable {userId : Id} {key : String}

theorem apart_playsFor {α : Type} {L : List TableName} {p : Prog α} (used : p.Plain (Uses L)) (seeds : .seedPairs ∉ L)
    (rounds : .rounds ∉ L) : p.Plain (PlaysFor (some userId)) := used.mono fun _ => uses_playsFor seeds rounds

theorem createSettledRound_playsFor {seedPairId : Id} {nonce : Nat} {outcome : Int} {bets : List ResolvedBetInput} :
    (RoundRepository.createSettledRound userId seedPairId nonce outcome bets).Plain (PlaysFor (some userId)) := by
  refine Plain.bind (plain_perform (S := signature) trivial) fun now => ?_
  refine Plain.bind (plain_perform (S := signature) rfl) fun round => ?_
  exact Plain.bind (plain_mapM fun bet => plain_perform (S := signature) trivial) fun _ => trivial

theorem settleRound_playsFor {wallet : Wallet} {seedPair : SeedPair} {nonce : Nat} {totalStake balanceAfterStake : Int}
    {outcome : Nat} {resolved : List ResolvedBet} :
    (settleRound platform settings userId key wallet seedPair nonce totalStake balanceAfterStake outcome
      resolved).Plain (PlaysFor (some userId)) := by
  refine Plain.bind (apart_playsFor (creditPayout_uses (L := [.wallets]) (by decide)) (by decide)
    (by decide)) fun _ => ?_
  refine Plain.bind createSettledRound_playsFor fun round => ?_
  refine Plain.bind (apart_playsFor (append_uses (L := [.ledgerEntries]) (by decide)) (by decide)
    (by decide)) fun _ => ?_
  refine Plain.bind (apart_playsFor (appendPayout_uses (L := [.ledgerEntries]) (by decide)) (by decide)
    (by decide)) fun _ => ?_
  exact Plain.bind (apart_playsFor (enqueueRoundEvents_uses (L := [.outbox]) (by decide)) (by decide) (by decide))
    fun _ => trivial

theorem requireActiveSeedPair_playsFor : (requireActiveSeedPair platform userId).Plain (PlaysFor (some userId)) := by
  refine Plain.bind (Plain.bind (plain_perform (S := signature) ?_) fun rows => ?_) fun pair => ?_
  · rintro u ⟨⟩
    rfl
  · exact apart_playsFor (L := []) scalarOneOrNone_uses (by decide) (by decide)
  · cases pair <;> trivial

theorem placeBet_playsFor {betRequests : List BetRequest} :
    (placeBet platform settings userId key betRequests).Plain (PlaysFor (some userId)) := by
  refine Plain.bind (apart_playsFor (L := []) lift_uses (by decide) (by decide)) fun _ => ?_
  refine Plain.bind (apart_playsFor (requireWallet_uses (L := [.wallets]) (by decide)) (by decide) (by decide))
    fun wallet => ?_
  refine Plain.bind (apart_playsFor (debit_uses (L := [.wallets]) (by decide)) (by decide) (by decide))
    fun balance => ?_
  refine Plain.bind requireActiveSeedPair_playsFor fun seedPair => ?_
  refine Plain.bind (Plain.bind (plain_perform (S := signature) trivial) fun nonce => ?_) fun nonce => ?_
  · exact apart_playsFor (L := []) scalarOne_uses (by decide) (by decide)
  refine Plain.bind (plain_perform (S := signature) trivial) fun outcome => ?_
  refine Plain.bind (apart_playsFor (L := []) lift_uses (by decide) (by decide)) fun resolved => ?_
  exact settleRound_playsFor

end

/-- Every use case inserts rounds for its own player only. -/
theorem code_playsFor {q : Request} (useCase : q.isUseCase = true) :
    (q.code platform settings).Only (PlaysFor q.player) := by
  have others : .rounds ∉ q.tables → q.player = none → (q.code platform settings).Only (PlaysFor q.player) := by
    intro away none
    rw [none]
    refine code_only (fun c used _ => ?_) trivial trivial (fun _ => ?_) (fun _ _ _ _ => ?_) ?_ ?_
    · cases c with
      | sql f q' =>
        cases f with
        | rounds => exact (away used).elim
        | seedPairs => cases q' <;> first | trivial | exact fun _ => nofun
        | _ => trivial
      | _ => trivial
    · exact ⟨trivial, trivial, trivial, trivial, fun _ _ => trivial, fun _ => trivial⟩
    · exact .of_statement (fun _ => trivial) trivial trivial fun _ => trivial
    · rintro _ _ _ _ _ rfl
      cases useCase
    · rintro _ rfl
      cases useCase
  cases q with
  | placeBet userId key bets =>
    exact Only.bind (unitOfWork_only trivial trivial placeBet_playsFor.only) fun _ => trivial
  | createRound userId key bytes bets =>
    refine Only.bind (runIdempotent_only ?_ (Only.bind placeBet_playsFor.only fun _ => trivial)) fun _ => trivial
    exact .of_statement (fun _ => trivial) trivial trivial fun _ => trivial
  | listRounds userId cursor limit =>
    refine Only.bind (unitOfWork_only trivial trivial (listRounds_looks.only.mono fun c looks => ?_)) fun _ => trivial
    unfold Looks at looks
    split at looks <;> trivial
  | _ => exact others (by simp [Request.tables]) rfl

variable {w : World (application platform settings)}

/-- The rounds of a pair are those of the user to whom the pair belongs. -/
theorem round_player (reached : Reachable UseCases w) {round : Round} (drawn : Inserted .rounds w round)
    {pair : SeedPair}
    (created : Inserted .seedPairs w pair) (own : pair.id = round.seedPairId) : round.userId = pair.userId := by
  obtain ⟨i, userId, seedPairId, nonce, outcome, settledAt, ran⟩ := inserted_round drawn
  obtain ⟨before, after, env, start, about, allowed, moved, done, rest⟩ := Run.moment reached ran
  obtain ⟨read, _, _, seen, key, -⟩ := useCases_play.allowed start about
  obtain ⟨userId', looked⟩ := ghost_seen seen
  obtain ⟨row, new, fixed, owner⟩ := read_pair start looked
  have plays := only_of_request (A := fun q : Request => PlaysFor q.player)
    (fun w i q useCase => code_playsFor useCase) reached
  obtain ⟨q, asked, mine⟩ := plays.2 i _ _ ran
  obtain ⟨q', asked', theirs⟩ := plays.2 i _ _ (Run.ran (.trans (.step (.refl _) allowed moved) rest) looked)
  cases asked.symm.trans asked'
  have same : userId = userId' := theirs userId mine
  rcases exec_sql done with ⟨e, bad, -⟩ | ⟨a, ok, done⟩
  · cases bad
  · cases ok
    obtain ⟨rfl, -⟩ := insertRow_ok (RoundQuery.insert_ok done).2.2
    have one : row = pair := by
      refine (reachable_origins reached .seedPairs).unique row pair ?_ created ?_
      · exact new.mono (.trans (.step (.refl _) allowed moved) rest)
      · exact ((SeedPairQuery.of_fixed fixed).1.symm.trans key).trans own.symm
    rw [← one, owner]
    exact same

/-! ### The round history -/

/-- What `list_by_user` returns of the committed rounds when the limit is large enough. -/
def roundHistory (s : Database) (userId : Id) :
    List Round := newestFirst Round.createdAt Round.id (roundsOfUser s userId)

/-- The spins of a pair as a player counts them: the rounds of the pair in the history, oldest first. -/
def spinsOf (s : Database) (userId seedPairId : Id) : List Round :=
  (roundHistory s userId).reverse.filter fun r => r.seedPairId = seedPairId

/-- The seeds derive the listed outcome for this number of the spin. -/
def Recomputes (platform : Platform) (round : Round) (serverSeed : Bytes) (clientSeed : String) (nonce : Nat) : Prop :=
  ∃ outcome : Nat, round.outcome = some (outcome : Int) ∧
    DerivesOutcome platform.hmacSha256 { serverSeed, clientSeed, nonce } POCKET_COUNT outcome

/-- The spins of every pair are numbered from 1 in the order of the history, and the pair's seeds,
as stored and as published and revealed, derive the outcomes for these numbers. -/
def SpinsVerify (w : World (application platform settings)) : Prop :=
  ∀ userId k n round, (spinsOf w.state userId k)[n]? = some round → round.nonce = n + 1 ∧
    (∀ pair : SeedPair, ((w.state.tables .seedPairs).slot k).Version pair →
      Recomputes platform round pair.serverSeed pair.clientSeed (n + 1)) ∧
    ∀ serverSeedHash clientSeed, Published w k serverSeedHash clientSeed → ∀ serverSeed hash,
      Revealed w k (hex serverSeed) hash → Recomputes platform round serverSeed clientSeed (n + 1)

def RoundQuery.insertsInto : RoundQuery → Option Id
  | .insert _ seedPairId _ _ _ => some seedPairId
  | .listByUser _ _ _ => none

/-- Each round is inserted above all rounds of its pair. -/
abbrev RoundsAscend : World (application platform settings) → Label (application platform settings) → Prop :=
  Ascends .rounds Round.seedPairId Round.createdAt Round.id RoundQuery.insertsInto

theorem rounds_ordered (reached : Reachable RoundsAscend w) :
    (w.state.tables .rounds).Ordered Round.seedPairId fun a b =>
      historyKey Round.createdAt Round.id a < historyKey Round.createdAt Round.id b := by
  refine ascends_ordered (f := .rounds) rfl ?_ reached
  intro env i s q a s' row ran new
  cases q with
  | insert userId seedPairId nonce outcome settledAt =>
    cases new
    rcases exec_sql ran with ⟨_, bad, -⟩ | ⟨a, same, done⟩
    · cases bad
    · cases same
      obtain ⟨rfl, -⟩ := insertRow_ok (RoundQuery.insert_ok done).2.2
      exact ⟨rfl, rfl⟩
  | listByUser userId cursor limit => cases new

/-- The spins stand in the order in which their rounds were written. -/
theorem spinsOf_written (reached : Reachable RoundsAscend w) (userId seedPairId : Id) :
    spinsOf w.state userId seedPairId = (roundsOfUser w.state userId).filter fun r => r.seedPairId = seedPairId := by
  have ids := (reachable_keyed reached .rounds).committedRows_nodup
  have added := (rounds_ordered reached).committedRows seedPairId
  refine newestFirst_reverse (historyKey_nodup ids _) ?_
  unfold roundsOfUser
  rw [List.filter_comm]
  exact added.filter _

/-- A user's spins of a pair are all rounds of the pair. -/
theorem spinsOf_pair (reached : Reachable RoundsAscend w) {userId seedPairId : Id} {round : Round}
    (spun : round ∈ spinsOf w.state userId seedPairId) :
    spinsOf w.state userId seedPairId = roundsOf w.state seedPairId := by
  have reachable : Reachable UseCases w := reached.mono fun _ _ allowed => allowed.1
  have inserted : ∀ r ∈ (w.state.tables .rounds).committedRows, Inserted .rounds w r := by
    intro r member
    obtain ⟨m, committed⟩ := Table.mem_committedRows.mp member
    obtain ⟨drawn, new, -, same⟩ := (reachable_origins reachable .rounds).origin m r (Or.inl committed)
    exact (show r = drawn from same) ▸ new
  rw [spinsOf_written reached] at spun ⊢
  obtain ⟨mine, named⟩ := List.mem_filter.mp spun
  obtain ⟨committed, player⟩ := List.mem_filter.mp mine
  have drawn := inserted round committed
  obtain ⟨i, _, _, _, _, _, ran⟩ := inserted_round drawn
  obtain ⟨-, pair, _, created, own, -⟩ := round_derived reachable ran
  unfold roundsOfUser roundsOf
  rw [List.filter_filter]
  apply List.filter_congr
  intro r member
  by_cases same : r.seedPairId = seedPairId
  · have owner : r.userId = userId := by
      rw [round_player reachable (inserted r member) created (own.trans ((of_decide_eq_true named).trans same.symm)),
        ← round_player reachable drawn created own]
      exact of_decide_eq_true player
    simp [same, owner]
  · simp [same]

theorem roundsOf_nonce (reached : Reachable UseCases w) {seedPairId : Id} {n : Nat} {round : Round}
    (spun : (roundsOf w.state seedPairId)[n]? = some round) : round.nonce = n + 1 := by
  have balanced := (reachable_accounted reached).balanced seedPairId
  rw [lines_roundsOf] at balanced
  have nonce : ((roundsOf w.state seedPairId).map Round.nonce)[n]? = some round.nonce := by
    rw [List.getElem?_map, spun]
    rfl
  cases row : ((w.state.tables .seedPairs).slot seedPairId).committed with
  | none =>
    rw [row] at balanced
    rw [show (roundsOf w.state seedPairId).map Round.nonce = [] from balanced] at nonce
    cases nonce
  | some pair =>
    rw [row] at balanced
    rw [show (roundsOf w.state seedPairId).map Round.nonce = List.range' 1 pair.nonce from balanced] at nonce
    obtain ⟨_, at_n⟩ := List.getElem?_eq_some_iff.mp nonce
    rw [List.getElem_range'] at at_n
    omega

theorem Reproduced.recomputes {s : Database} {round : Round} {serverSeed : Bytes} {clientSeed : String}
    (reproduced : Reproduced platform s round serverSeed clientSeed) :
    Recomputes platform round serverSeed clientSeed round.nonce := by
  obtain ⟨outcome, derived, -, spun, -⟩ := reproduced
  exact ⟨outcome, spun, derived⟩

theorem spins_verify (reached : Reachable RoundsAscend w) : SpinsVerify w := by
  have reachable : Reachable UseCases w := reached.mono fun _ _ allowed => allowed.1
  intro userId k n round spun
  have member := List.mem_of_getElem? spun
  obtain ⟨listed, named⟩ := List.mem_filter.mp member
  have named : round.seedPairId = k := of_decide_eq_true named
  rw [spinsOf_pair reached member] at spun
  have nonce := roundsOf_nonce reachable spun
  obtain ⟨committed, -⟩ := List.mem_filter.mp (List.mem_of_getElem? spun)
  obtain ⟨m, committed⟩ := Table.mem_committedRows.mp committed
  refine ⟨nonce, ?_, ?_⟩
  · intro pair version
    obtain ⟨row, created, id, fixed⟩ := (reachable_origins reachable .seedPairs).origin k pair version
    obtain ⟨-, seed, -, client⟩ := SeedPairQuery.of_fixed fixed
    rw [seed, client, ← nonce]
    exact (round_reproduced reachable committed created (id.trans named.symm)).recomputes
  · intro serverSeedHash clientSeed published serverSeed hash revealed
    obtain ⟨row, created, id, -, client⟩ := published_inserted reachable published
    obtain ⟨row', created', id', -, text⟩ := revealed_inserted reachable revealed
    have same : row' = row := (reachable_origins reachable .seedPairs).unique row' row created' created
      (id'.trans id.symm)
    subst same
    rw [← client, ← hex_injective text, ← nonce]
    exact (round_reproduced reachable committed created (id.trans named.symm)).recomputes

/-! ### Bets one after the other, and bets that overlap -/

/-- User 12 bets twice, and the second bet starts when the first has committed. -/
def sampleCounted : SampleWorld := World.initial.replay
  (ascends .rounds Round.seedPairId Round.createdAt Round.id RoundQuery.insertsInto) (sampleRegistration ++
  .start 1 (.deposit 12 "deposit-1" 1000) :: turns 1 2 30 7 ++
  .start 2 (.placeBet 12 "bet-1" sampleBets) :: turns 2 3 50 40 ++
  .start 3 (.placeBet 12 "bet-2" sampleBets) :: turns 3 4 100 40)

theorem spins_verify_sampleCounted : (spinsOf sampleCounted.state 12 16).map Round.nonce = [1, 2] ∧
    SpinsVerify sampleCounted :=
  ⟨by decide +kernel, spins_verify (run_replay ascends_sound _ _)⟩

/-- The first bet of user 12 has looked up the wallet when the second one starts, and commits after it. -/
def sampleOverlap : SampleWorld := sampleRun (sampleRegistration ++
  .start 1 (.deposit 12 "deposit-1" 1000) :: turns 1 2 30 7 ++
  .start 2 (.placeBet 12 "bet-1" sampleBets) :: turns 2 3 50 1 ++
  .start 3 (.placeBet 12 "bet-2" sampleBets) :: turns 3 4 100 40 ++ turns 2 5 150 40)

theorem overlapping_spins_swapped : ¬∀ w : SampleWorld, Reachable UseCases w → SpinsVerify w := by
  intro claim
  have oldest : (spinsOf sampleOverlap.state 12 16)[0]?.map Round.nonce = some 2 := by decide +kernel
  obtain ⟨round, first, nonce⟩ := Option.map_eq_some_iff.mp oldest
  have counted := (claim sampleOverlap (sampleRun_reachable _) 12 16 0 round first).1
  cases nonce.symm.trans counted

end TheClub
