import TheClub.ReadCommitted.Journal
import TheClub.Game
import TheClub.Infra.Rows

/-!
Nonces and rounds. A consumed nonce owes a round with that nonce, so the committed rounds of a
seed pair have the nonces 1 to n, where n is the pair's nonce.
-/

namespace TheClub
open ReadCommitted Program

def nonceBook : Bookkeeping Id SeedPair Round Nat where
  hist pair := List.range' 1 pair.nonce
  owner r := r.seedPairId
  line r := r.nonce

/-- Pairs and rounds disagree by the nonces whose rounds are still to be written. -/
def Accounted (s : Database) (g : Nat → Play) : Prop :=
  nonceBook.Journalled (s.tables .seedPairs) (s.tables .rounds) fun i => (g i).owed

variable {platform : Platform} {settings : Settings}

namespace Accounted
variable {s s' : Database} {g : Nat → Play} {env : Env} {i : Nat}

theorem owed_update (g : Nat → Play) (i : Nat) (p : Play) :
    (fun j => (Function.update g i p j).owed) = Function.update (fun j => (g j).owed) i p.owed := by
  funext j
  by_cases same : j = i
  · subst same
    simp
  · simp [same]

/-- A step that leaves the debts alone. -/
theorem owes (inv : nonceBook.Journalled (s'.tables .seedPairs) (s'.tables .rounds) fun j => (g j).owed) {p : Play}
    (same : p.owed = (g i).owed) : Accounted s' (Function.update g i p) := by
  rw [Accounted, owed_update, same, Function.update_eq_self (f := fun j => (g j).owed)]
  exact inv

/-- What a statement on seed pairs does to the books. -/
theorem pairs (inv : Accounted s g) {q : SeedPairQuery} {a : q.Ret} {ctx : Context}
    (rounds : s'.tables .rounds = s.tables .rounds)
    (done : SeedPairQuery.exec ctx i (s.tables .seedPairs) q = .ok a (s'.tables .seedPairs)) :
    Accounted s' (Function.update g i ((g i).after (.sql .seedPairs q) (.ok a))) := by
  cases q with
  | getActiveByUserId userId =>
    injection done with _ table
    refine owes (by rw [← table, rounds]; exact inv) ?_
    unfold Play.after
    split <;> first | rfl | simp_all
  | createActive userId serverSeed serverSeedHash clientSeed =>
    obtain ⟨-, fresh, table, -⟩ := insertRow_ok done
    refine owes ?_ rfl
    rw [table, rounds]
    exact inv.create fresh rfl
  | consumeNonce seedPairId =>
    rcases SeedPairQuery.consumeNonce_ok done with ⟨rfl, table⟩ | ⟨pair, seen, free, rfl, table⟩
    · exact owes (by rw [table, rounds]; exact inv) rfl
    · rw [Accounted, owed_update, table, rounds]
      refine inv.write [pair.nonce + 1] seen free ?_
      change List.range' 1 (pair.nonce + 1) = List.range' 1 pair.nonce ++ [pair.nonce + 1]
      rw [List.range'_concat, Nat.one_mul, Nat.add_comm 1]
  | revealAndDeactivate seedPairId revealedAt =>
    refine owes ?_ rfl
    rw [rounds]
    rcases changeRow_ok done with ⟨table, -⟩ | ⟨pair, seen, -, free, table⟩
    · rw [table]
      exact inv
    · rw [table]
      exact inv.touch seen free rfl

/-- A round accounts for the oldest nonce. -/
theorem round (inv : Accounted s g) {userId seedPairId : Id} {nonce : Nat} {outcome : Int}
    {settledAt : Time} {r : Round}
    {ctx : Context} {rest : List (Id × Nat)} (pairs : s'.tables .seedPairs = s.tables .seedPairs)
    (oldest : (g i).owed = (seedPairId, nonce) :: rest)
    (done : RoundQuery.exec ctx i (s.tables .rounds) (.insert userId seedPairId nonce outcome settledAt) =
      .ok r (s'.tables .rounds)) :
    Accounted s' (Function.update g i
      ((g i).after (.sql .rounds (.insert userId seedPairId nonce outcome settledAt)) (.ok r))) := by
  obtain ⟨-, fresh, table, -⟩ := insertRow_ok (RoundQuery.insert_ok done).2.2
  rw [Accounted, owed_update, pairs, table]
  have rest : ((g i).after (.sql .rounds (.insert userId seedPairId nonce outcome settledAt)) (.ok r)).owed = rest :=
    congrArg List.tail oldest
  rw [rest]
  exact inv.pay fresh oldest

/-- The end of a transaction, which owes nothing if it commits. -/
theorem ended (inv : Accounted s g) (fate : Fate) (paid : fate = .applied → (g i).owed = []) (ends : fate ≠ .isOpen)
    (pairs : s'.tables .seedPairs = (s.tables .seedPairs).settle i fate)
    (rounds : s'.tables .rounds = (s.tables .rounds).settle i fate) : Accounted s' (Function.update g i {}) := by
  rw [Accounted, owed_update, pairs, rounds]
  exact inv.settle paid ends

theorem step (inv : Accounted s g) {c : Cmd} {r : Except Error c.Ret} (allowed : (g i).allowed platform c)
    (ran : exec platform env i c s = some (r, s')) :
    Accounted s' (Function.update g i ((gameProtocol platform).next (g i) c r)) := by
  by_cases ends : fate c r = .isOpen
  · have next : (gameProtocol platform).next (g i) c r = (g i).after c r := if_pos ends
    rw [next]
    by_cases isPairs : ∃ q, c = .sql .seedPairs q
    · obtain ⟨q, rfl⟩ := isPairs
      have rounds := exec_frame ran .rounds (by simp)
      rcases exec_sql ran with ⟨e, rfl, -⟩ | ⟨a, rfl, done⟩
      · cases ends
      · exact inv.pairs rounds done
    · have pairs := exec_frame ran .seedPairs fun q same => isPairs ⟨q, same⟩
      rw [ends] at pairs
      by_cases isRounds : ∃ q, c = .sql .rounds q
      · obtain ⟨q, rfl⟩ := isRounds
        rcases exec_sql ran with ⟨e, rfl, -⟩ | ⟨a, rfl, done⟩
        · cases ends
        · cases q with
          | insert userId seedPairId nonce outcome settledAt =>
            obtain ⟨_, rest, _, -, -, oldest, -⟩ := allowed
            exact inv.round pairs oldest done
          | listByUser userId cursor limit =>
            injection done with _ table
            exact owes (by rw [pairs, ← table]; exact inv) rfl
      · have rounds := exec_frame ran .rounds fun q same => isRounds ⟨q, same⟩
        rw [ends] at rounds
        refine owes (by rw [pairs, rounds]; exact inv) ?_
        unfold Play.after
        split <;> first | rfl | exact (isPairs ⟨_, rfl⟩).elim | exact (isRounds ⟨_, rfl⟩).elim
  · have next : (gameProtocol platform).next (g i) c r = {} := if_neg ends
    rw [next]
    refine inv.ended _ (fun applied => ?_) ends (exec_ends ran ends .seedPairs) (exec_ends ran ends .rounds)
    obtain ⟨tx, rfl⟩ := fate_applied applied
    exact allowed

end Accounted

theorem reachable_accounted {w : World (application platform settings)} (reached : Reachable UseCases w) :
    Accounted w.state (w.ghost (gameProtocol platform)) := by
  refine useCases_play.invariant Accounted .empty ?_ ?_ reached
  · intro w i env c r s' _ inv _ _ allowed _ ran
    exact Accounted.step inv allowed ran
  · intro w i c _ inv _ _
    exact Accounted.ended inv .undone (by simp) (by simp) (by simp) (by simp)

/-! ### Nonces are contiguous -/

/-- The committed rounds of a seed pair, in the order in which they were written. -/
def roundsOf (s : Database) (seedPairId : Id) : List Round :=
  (s.tables .rounds).committedRows.filter fun r => r.seedPairId = seedPairId

theorem lines_roundsOf (rows : List Round) (seedPairId : Id) :
    nonceBook.lines seedPairId rows = (rows.filter fun r => r.seedPairId = seedPairId).map Round.nonce := by
  unfold Bookkeeping.lines
  induction rows with
  | nil => rfl
  | cons r rest ih =>
    by_cases mine : r.seedPairId = seedPairId <;> simp [Bookkeeping.lineFor, nonceBook, mine] <;> exact ih

/-- A nonce that is still owed is in no round that the transaction can see. -/
theorem Accounted.unused {s : Database} {g : Nat → Play} (inv : Accounted s g) {i : Nat} {seedPairId : Id} {nonce : Nat}
    {rest : List (Id × Nat)} (oldest : (g i).owed = (seedPairId, nonce) :: rest) :
    ∀ r ∈ (s.tables .rounds).rows i, r.seedPairId = seedPairId → r.nonce ≠ nonce := by
  intro r row mine same
  have current := Bookkeeping.Journalled.current inv i seedPairId
  rw [oldest, Bookkeeping.debts_cons, if_pos rfl] at current
  have distinct : (nonceBook.histOf (((s.tables .seedPairs).slot seedPairId).view i)).Nodup := by
    cases ((s.tables .seedPairs).slot seedPairId).view i with
    | none => exact List.nodup_nil
    | some pair => exact List.nodup_range'
  rw [← current, List.nodup_append] at distinct
  have written : nonce ∈ nonceBook.lines seedPairId ((s.tables .rounds).rows i) := by
    rw [lines_roundsOf, ← same]
    exact List.mem_map_of_mem (List.mem_filter.mpr ⟨row, by simpa using mine⟩)
  exact distinct.2.2 nonce written nonce (by simp) rfl

/-- In every committed state of every run of the use cases the rounds of a seed pair have the
nonces 1 to the pair's nonce, each once, and writing a round never meets the unique constraint
on the pair and its nonce. -/
theorem nonces_contiguous {w : World (application platform settings)} (reached : Reachable UseCases w) :
    (∀ k pair, ((w.state.tables .seedPairs).slot k).committed = some pair →
      (roundsOf w.state pair.id).map Round.nonce = List.range' 1 pair.nonce) ∧
    ∀ i env userId seedPairId nonce outcome settledAt r s',
      w.AboutTo i (.sql .rounds (.insert userId seedPairId nonce outcome settledAt)) →
      exec platform env i (.sql .rounds (.insert userId seedPairId nonce outcome settledAt)) w.state = some (r, s') →
      r ≠ .error (.integrityError "uq_seed_pair_nonce") := by
  have inv := reachable_accounted reached
  constructor
  · intro k pair row
    have key : pair.id = k := reachable_keyed reached .seedPairs k pair (Or.inl row)
    have balanced := inv.balanced k
    rw [lines_roundsOf, row] at balanced
    rw [key]
    exact balanced
  · rintro i env userId seedPairId nonce outcome settledAt r s' about ran rfl
    obtain ⟨_, rest, _, -, -, oldest, -⟩ := useCases_play.allowed reached about
    rcases exec_error ran with e | e | failed
    · cases e
    · cases e
    · simp only [Query.exec, RoundQuery.exec] at failed
      split at failed
      · cases failed
      · split at failed
        · injection failed with other
          simp at other
        · obtain ⟨-, duplicate⟩ := insertRow_fails failed
          obtain ⟨r, row, conflict⟩ := List.any_eq_true.mp duplicate
          simp only [decide_eq_true_eq] at conflict
          exact inv.unused oldest r row conflict.1 conflict.2

/-- After the first bet another one is under way, and has drawn its nonce. -/
def sampleUndone : SampleWorld :=
  sampleRound.replay isUseCase (.start 3 (.placeBet 12 "bet-2" sampleBets) :: turns 3 4 100 5)

/-- Its process is killed, and a third bet is made. -/
def sampleRounds : SampleWorld :=
  sampleUndone.replay isUseCase (.kill 3 :: .start 4 (.placeBet 12 "bet-3" sampleBets) :: turns 4 5 150 40)

/-- The seed pair of user 12. -/
def samplePair (nonce : Nat) : SeedPair where
  id := 16
  userId := 12
  serverSeed := List.replicate SEED_BYTES 0
  serverSeedHash := hex (List.replicate SEED_BYTES 0)
  clientSeed := ""
  nonce := nonce
  status := .active
  revealedAt := none
  createdAt := 1

theorem nonces_contiguous_sampleRounds :
    (((sampleUndone.state.tables .seedPairs).slot 16).view 3).map SeedPair.nonce = some 2 ∧
    (roundsOf sampleUndone.state 16).map Round.nonce = [1] ∧
    (roundsOf sampleRounds.state 16).map Round.nonce = [1, 2] := by
  have undone : Reachable UseCases sampleUndone := .trans (sampleRun_reachable _) (run_replay (fun _ _ => id) _ _)
  have done : Reachable UseCases sampleRounds := .trans undone (run_replay (fun _ _ => id) _ _)
  exact ⟨by decide +kernel, (nonces_contiguous undone).1 16 (samplePair 1) (by decide +kernel),
    (nonces_contiguous done).1 16 (samplePair 2) (by decide +kernel)⟩

end TheClub
