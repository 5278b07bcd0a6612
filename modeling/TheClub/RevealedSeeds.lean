import TheClub.SeedLifecycle

/-!
Revealed seeds. A bet takes the nonce of the pair that it has read without looking at the pair's
status again, so a rotation that commits in between leaves the bet with a revealed seed. In the
runs in which no rotation commits at such a moment a revealed pair keeps its nonce and its rounds.
-/

namespace TheClub
open ReadCommitted Program

variable {platform : Platform} {settings : Settings}

/-- Process `j` has read the active pair `k` and is about to take its nonce. -/
def betting (w : World (application platform settings)) (j : Nat) (k : Id) : Bool :=
  match w.proc j with
  | some (.call (.sql .seedPairs (.consumeNonce seedPairId)) _) => seedPairId == k
  | _ => false

/-- The open transaction of process `i` has revealed pair `k`. -/
def revealing (s : Database) (i : Nat) (k : Id) : Bool :=
  match ((s.tables .seedPairs).slot k).pending with
  | some (j, some pair) => j == i && pair.status == .revealed
  | _ => false

def isUndisturbed (w : World (application platform settings)) : Label (application platform settings) → Bool
  | .run i env => !(committing w i && env.fault != some .before) ||
      (w.state.tables .seedPairs).keys.all fun k =>
        !revealing w.state i k || w.started.all fun j => !betting w j k
  | l => isUseCase w l

/-- The runs of the use cases in which no rotation commits while a bet stands between reading the
revealed pair and taking its nonce. -/
abbrev UndisturbedBets (w : World (application platform settings)) (l : Label (application platform settings)) : Prop :=
  isUndisturbed w l = true

theorem undisturbed_useCases (w : World (application platform settings)) (l : Label (application platform settings))
    (h : UndisturbedBets w l) : UseCases w l := by
  cases l with
  | start i q => exact h
  | run i env => rfl
  | kill i => rfl

theorem betting_iff {w : World (application platform settings)} {j : Nat} {k : Id} :
    betting w j k = true ↔ w.AboutTo j (.sql .seedPairs (.consumeNonce k)) := by
  unfold betting World.AboutTo
  constructor
  · intro h
    split at h
    · rename_i seedPairId next running
      exact ⟨next, by rw [running, eq_of_beq h]⟩
    · cases h
  · rintro ⟨next, running⟩
    rw [running]
    exact beq_self_eq_true k

theorem revealing_of_pending {s : Database} {i : Nat} {k : Id} {pair : SeedPair}
    (pending : ((s.tables .seedPairs).slot k).pending = some (i, some pair)) (revealed : pair.status = .revealed) :
    revealing s i k = true := by
  simp [revealing, pending, revealed]

/-- No bet on pair `k` is under way when the revelation of `k` commits. -/
theorem UndisturbedBets.none_betting {w : World (application platform settings)} {i : Nat} {env : Env} {tx : Tx}
    {k : Id} {pair : SeedPair} (reached : Reachable UndisturbedBets w) (h : UndisturbedBets w (.run i env))
    (about : w.AboutTo i (.commit tx)) (delivered : env.fault ≠ some .before)
    (pending : ((w.state.tables .seedPairs).slot k).pending = some (i, some pair)) (revealed : pair.status = .revealed)
    (j : Nat) : ¬w.AboutTo j (.sql .seedPairs (.consumeNonce k)) := by
  intro bets
  have member := Table.mem_keys_of_version (Or.inr ⟨i, pending⟩)
  have running : j ∈ w.started := bets.elim fun next running => started_of_proc reached j _ running
  simp only [UndisturbedBets, isUndisturbed, committing_of_aboutTo about, Bool.true_and, Bool.or_eq_true,
    Bool.not_eq_true', bne_eq_false_iff_eq, List.all_eq_true] at h
  rcases h.resolve_left delivered k member with quiet | quiet
  · rw [revealing_of_pending pending revealed] at quiet
    cases quiet
  · have idle := quiet j running
    rw [betting_iff.mpr bets] at idle
    cases idle

/-! ### What a revealed pair still goes through -/

/-- No transaction has deleted a pair, or changed the nonce or the status of a revealed one. -/
def Retired (t : Table Id SeedPair) : Prop :=
  ∀ k i v, (t.slot k).pending = some (i, v) → ∃ pair, v = some pair ∧
    ∀ old, (t.slot k).committed = some old → old.status = .revealed → pair.status = .revealed ∧ pair.nonce = old.nonce

namespace Retired
variable {t t' : Table Id SeedPair} {i : Nat}

theorem settle (inv : Retired t) (fate : Fate) : Retired (t.settle i fate) := by
  intro k j v pending
  have same := Table.slot_settle_held pending
  rw [same] at pending ⊢
  exact inv k j v pending

theorem write (inv : Retired t) {k : Id} {pair new : SeedPair} (seen : (t.slot k).view i = some pair)
    (kept : ∀ old, (t.slot k).committed = some old → old.status = .revealed →
      new.status = .revealed ∧ new.nonce = old.nonce) : Retired (t.write i k (some new)) := by
  intro k' j v pending
  by_cases same : k' = k
  · subst same
    rw [Table.slot_write_self (Table.mem_keys_of_view seen)] at pending ⊢
    obtain ⟨rfl, rfl⟩ := Prod.mk.inj (Option.some.inj pending)
    exact ⟨new, rfl, kept⟩
  · rw [Table.slot_write_other same] at pending ⊢
    exact inv k' j v pending

/-- What a transaction sees of a revealed pair it may write is the committed nonce. -/
theorem seen_nonce (inv : Retired t) {k : Id} (pair : SeedPair) {old : SeedPair} (seen : (t.slot k).view i = some pair)
    (committed : (t.slot k).committed = some old) (revealed : old.status = .revealed) : pair.nonce = old.nonce := by
  by_cases held : (t.slot k).holder = some i
  · obtain ⟨new, same, kept⟩ := inv k i _ (Slot.pending_of_holder held)
    rw [seen] at same
    cases same
    exact (kept old committed revealed).2
  · rw [Slot.view_of_not_holder held, committed] at seen
    cases seen
    rfl

theorem statement (inv : Retired t) {ctx : Context} {q : SeedPairQuery} {a : q.Ret}
    (active : ∀ k, q = .consumeNonce k → ∀ old, (t.slot k).committed = some old → old.status ≠ .revealed)
    (done : SeedPairQuery.exec ctx i t q = .ok a t') : Retired t' := by
  cases q with
  | getActiveByUserId userId =>
    cases done
    exact inv
  | createActive userId serverSeed serverSeedHash clientSeed =>
    obtain ⟨rfl, fresh, rfl, -⟩ := insertRow_ok done
    intro k j v pending
    by_cases new : k = ctx.id
    · subst new
      rw [Table.slot_insert_self] at pending ⊢
      obtain ⟨rfl, rfl⟩ := Prod.mk.inj (Option.some.inj pending)
      exact ⟨_, rfl, fun old committed => by cases committed⟩
    · rw [Table.slot_insert_other new] at pending ⊢
      exact inv k j v pending
  | consumeNonce seedPairId =>
    rcases SeedPairQuery.consumeNonce_ok done with ⟨-, rfl⟩ | ⟨pair, seen, -, -, rfl⟩
    · exact inv
    · exact inv.write seen fun old committed revealed => (active _ rfl old committed revealed).elim
  | revealAndDeactivate seedPairId revealedAt =>
    rcases changeRow_ok done with ⟨rfl, -⟩ | ⟨pair, seen, -, -, rfl⟩
    · exact inv
    · refine inv.write seen fun old committed revealed => ⟨rfl, ?_⟩
      exact inv.seen_nonce pair seen committed revealed

/-- Whatever commits, a revealed pair stays revealed and keeps its nonce. -/
theorem stays {s s' : Database} {env : Env} {c : Cmd} {r : Except Error c.Ret} (inv : Retired (s.tables .seedPairs))
    (ran : exec platform env i c s = some (r, s')) {k : Id} {pair : SeedPair}
    (committed : ((s.tables .seedPairs).slot k).committed = some pair) (revealed : pair.status = .revealed) :
    ∃ pair', ((s'.tables .seedPairs).slot k).committed = some pair' ∧ pair'.status = .revealed ∧
      pair'.nonce = pair.nonce := by
  rcases exec_committed ran .seedPairs k with same | ⟨-, pending⟩
  · exact ⟨pair, by rw [same, committed], revealed, rfl⟩
  · obtain ⟨new, written, kept⟩ := inv k i _ pending
    exact ⟨new, written, kept pair committed revealed⟩

end Retired

/-- The pair a bet has read is still active, and revealed pairs are retired. -/
structure Lifecycle (w : World (application platform settings)) : Prop where
  retired : Retired (w.state.tables .seedPairs)
  active : ∀ j k, w.AboutTo j (.sql .seedPairs (.consumeNonce k)) →
    ∃ pair, ((w.state.tables .seedPairs).slot k).committed = some pair ∧ pair.status = .active

theorem read_of_betting {w : World (application platform settings)} (reached : Reachable UseCases w) {j : Nat} {k : Id}
    (about : w.AboutTo j (.sql .seedPairs (.consumeNonce k))) : w.ghost (lookupProtocol platform) j = some k :=
  useCases_lookUp.allowed reached about

/-- A pair that the process has just read, before it wrote any, is committed and active. -/
theorem active_of_read {w w' : World (application platform settings)} {i : Nat} {env : Env} {c : Cmd}
    {next : Except Error c.Ret → Prog Reply} {r : Except Error c.Ret} {s : Database}
    (reached : Reachable UseCases w) (reached' : Reachable UseCases w')
    (ran : exec platform env i c w.state = some (r, s))
    (moved : w' = { w with
      state := s
      proc := Function.update w.proc i (some (next r))
      history := Function.update w.history i (w.history i ++ [.ran c r]) }) {k : Id}
    (about : w'.AboutTo i (.sql .seedPairs (.consumeNonce k))) :
    ∃ pair, ((s.tables .seedPairs).slot k).committed = some pair ∧ pair.status = .active := by
  have read := read_of_betting reached' about
  have unwritten : (w'.ghost (gameProtocol platform) i).wrote = false := useCases_play.allowed reached' about
  have unlocked := reachable_unlocked reached' i unwritten
  subst moved
  rw [World.ghost_update, Function.update_self] at read
  change (lookupProtocol platform).next _ c r = some k at read
  simp only [lookupProtocol] at read
  split at read
  · rename_i userId pair
    rcases exec_sql ran with ⟨e, bad, -⟩ | ⟨a, same, done⟩
    · cases bad
    · cases same
      simp only [Query.exec, SeedPairQuery.exec] at done
      injection done with found table
      have member : pair ∈ ((w.state.tables .seedPairs).rows i).filter (SeedPairQuery.activeOf userId) := by
        rw [found]
        exact List.mem_singleton.mpr rfl
      obtain ⟨row, matching⟩ := List.mem_filter.mp member
      obtain ⟨k', seen⟩ := Table.mem_rows.mp row
      have key : pair.id = k' := reachable_keyed reached .seedPairs k' pair (Slot.version_view seen)
      obtain rfl : k' = k := key.symm.trans (Option.some.inj read)
      rw [table] at seen
      rw [Slot.view_of_not_holder (unlocked k')] at seen
      simp only [SeedPairQuery.activeOf, decide_eq_true_eq] at matching
      exact ⟨pair, seen, matching.2⟩
  · cases read

theorem reachable_lifecycle {w : World (application platform settings)} (reached : Reachable UndisturbedBets w) :
    Lifecycle w := by
  induction reached with
  | refl =>
    refine ⟨fun k i v pending => ?_, fun j k about => ?_⟩
    · cases pending
    · obtain ⟨next, running⟩ := about
      cases running
  | @step w w' l before allowed moved ih =>
    have reached' : Reachable UseCases w' := (before.step allowed moved).mono undisturbed_useCases
    have reached : Reachable UseCases w := before.mono undisturbed_useCases
    rcases World.step_cases moved with ⟨i, q, rfl, fresh, rfl⟩ | ⟨i, env, c, next, r, s, rfl, called, ran, rfl⟩ |
      ⟨i, c, rfl, -, rfl⟩
    · refine ⟨ih.retired, fun j k about => ?_⟩
      by_cases mine : j = i
      · subst mine
        have read := read_of_betting reached' about
        have idle := (history_of_unstarted before j fresh).1
        simp [World.ghost, idle, lookupProtocol] at read
      · refine ih.active j k ?_
        simpa [World.AboutTo, mine] using about
    · have about : w.AboutTo i c := ⟨next, called⟩
      refine ⟨?_, fun j k bets => ?_⟩
      · by_cases isPairs : ∃ q, c = .sql .seedPairs q
        · obtain ⟨q, rfl⟩ := isPairs
          rcases exec_sql ran with ⟨e, -, table⟩ | ⟨a, -, done⟩
          · rw [show s.tables .seedPairs = _ from table]
            exact ih.retired.settle .undone
          · refine ih.retired.statement ?_ done
            rintro k rfl old committed revealed
            obtain ⟨pair, same, active⟩ := ih.active i k about
            rw [committed] at same
            cases same
            rw [revealed] at active
            cases active
        · rw [show s.tables .seedPairs = _ from exec_frame ran .seedPairs fun q same => isPairs ⟨q, same⟩]
          exact ih.retired.settle _
      · by_cases mine : j = i
        · subst mine
          exact active_of_read reached reached' ran rfl bets
        · replace bets : w.AboutTo j (.sql .seedPairs (.consumeNonce k)) := by simpa [World.AboutTo, mine] using bets
          obtain ⟨pair, committed, active⟩ := ih.active j k bets
          rcases exec_committed ran .seedPairs k with same | ⟨applied, pending⟩
          · exact ⟨pair, by rw [same, committed], active⟩
          · obtain ⟨new, written, -⟩ := ih.retired k i _ pending
            refine ⟨new, written, ?_⟩
            cases status : new.status with
            | active => rfl
            | revealed =>
              obtain ⟨tx, rfl⟩ := fate_applied applied
              rw [written] at pending
              exact (allowed.none_betting before about (commit_delivered ran applied) pending status j bets).elim
    · refine ⟨by simpa using ih.retired.settle .undone, fun j k about => ?_⟩
      by_cases mine : j = i
      · subst mine
        obtain ⟨next, running⟩ := about
        simp at running
      · obtain ⟨pair, committed, active⟩ := ih.active j k (by simpa [World.AboutTo, mine] using about)
        exact ⟨pair, by simpa [Table.settle] using committed, active⟩

/-! ### A revealed seed is not used again -/

/-- A committed round stays as it is. -/
theorem round_stays {w w' : World (application platform settings)} (reached : Reachable UseCases w)
    (run : Run UseCases w w') {m : Id} {r : Round} (committed : ((w.state.tables .rounds).slot m).committed = some r) :
    ((w'.state.tables .rounds).slot m).committed = some r := by
  refine run.keeps (J := fun w => ((w.state.tables .rounds).slot m).committed = some r) reached committed
    fun w l w' reached committed _ moved => ?_
  rcases World.step_cases moved with ⟨i, q, -, -, rfl⟩ | ⟨i, env, c, next, r', s, -, -, ran, rfl⟩ | ⟨i, c, -, -, rfl⟩
  · exact committed
  · rcases exec_committed ran .rounds m with same | ⟨-, pending⟩
    · exact same.trans committed
    · have absent := ((reachable_accounted reached).appended i m _ pending).1
      rw [committed] at absent
      cases absent
  · simpa [Table.settle] using committed

theorem eq_of_map_eq {α β : Type} {f : α → β} {l l' : List α} (sub : ∀ a ∈ l, a ∈ l') (same : l.map f = l'.map f)
    (distinct : (l'.map f).Nodup) : l = l' := by
  have length : l.length = l'.length := by simpa using congrArg List.length same
  refine List.ext_getElem length fun n left right => ?_
  refine List.inj_on_of_nodup_map distinct (sub _ (List.getElem_mem left)) (List.getElem_mem right) ?_
  have at_n : (l.map f)[n]? = (l'.map f)[n]? := by rw [same]
  simpa [List.getElem?_map, left, right] using at_n

/-- While the pair's nonce stays the same, so do its rounds. -/
theorem roundsOf_stays {w w' : World (application platform settings)} (reached : Reachable UseCases w)
    (run : Run UseCases w w') {k : Id} {pair pair' : SeedPair}
    (row : ((w.state.tables .seedPairs).slot k).committed = some pair)
    (row' : ((w'.state.tables .seedPairs).slot k).committed = some pair') (same : pair'.nonce = pair.nonce) :
    roundsOf w'.state k = roundsOf w.state k := by
  have nonces : (roundsOf w.state k).map Round.nonce = List.range' 1 pair.nonce := by
    have balanced := (reachable_accounted reached).balanced k
    rwa [lines_roundsOf, row] at balanced
  have nonces' : (roundsOf w'.state k).map Round.nonce = List.range' 1 pair'.nonce := by
    have balanced := (reachable_accounted (reached.trans run)).balanced k
    rwa [lines_roundsOf, row'] at balanced
  refine (eq_of_map_eq (fun r member => ?_) (by rw [nonces, nonces', same])
    (by rw [nonces']; exact List.nodup_range')).symm
  obtain ⟨committed, mine⟩ := List.mem_filter.mp member
  obtain ⟨m, committed⟩ := Table.mem_committedRows.mp committed
  exact List.mem_filter.mpr ⟨Table.mem_committedRows.mpr ⟨m, round_stays reached run committed⟩, mine⟩

/-- A nonce is taken from committed active pairs only; a pair whose revelation has committed keeps
its nonce for the rest of the run, and no round is committed for it any more. -/
def RevealedUnused (ok : World (application platform settings) → Label (application platform settings) → Prop)
    (w : World (application platform settings)) : Prop :=
  (∀ i env k nonce s', w.AboutTo i (.sql .seedPairs (.consumeNonce k)) →
    exec platform env i (.sql .seedPairs (.consumeNonce k)) w.state = some (.ok (some nonce), s') →
    ∃ pair, ((w.state.tables .seedPairs).slot k).committed = some pair ∧ pair.status = .active) ∧
  ∀ k pair, ((w.state.tables .seedPairs).slot k).committed = some pair → pair.status = .revealed →
    ∀ w', Run ok w w' → ∃ pair', ((w'.state.tables .seedPairs).slot k).committed = some pair' ∧
      pair'.status = .revealed ∧ pair'.nonce = pair.nonce ∧ roundsOf w'.state k = roundsOf w.state k

theorem revealed_unused {w : World (application platform settings)} (reached : Reachable UndisturbedBets w) :
    RevealedUnused UndisturbedBets w := by
  refine ⟨fun i env k nonce s' about _ => (reachable_lifecycle reached).active i k about, ?_⟩
  intro k pair row revealed w' run
  have kept : ∃ pair', ((w'.state.tables .seedPairs).slot k).committed = some pair' ∧ pair'.status = .revealed ∧
      pair'.nonce = pair.nonce := by
    refine run.keeps (J := fun w => ∃ pair', ((w.state.tables .seedPairs).slot k).committed = some pair' ∧
      pair'.status = .revealed ∧ pair'.nonce = pair.nonce) reached ⟨pair, row, revealed, rfl⟩ ?_
    rintro w l w' reached ⟨old, row, revealed, nonce⟩ _ moved
    rcases World.step_cases moved with ⟨i, q, -, -, rfl⟩ | ⟨i, env, c, next, r', s, -, -, ran, rfl⟩ | ⟨i, c, -, -, rfl⟩
    · exact ⟨old, row, revealed, nonce⟩
    · obtain ⟨new, row, revealed, same⟩ := (reachable_lifecycle reached).retired.stays ran row revealed
      exact ⟨new, row, revealed, same.trans nonce⟩
    · exact ⟨old, by simpa [Table.settle] using row, revealed, nonce⟩
  obtain ⟨pair', row', revealed', same⟩ := kept
  exact ⟨pair', row', revealed', same,
    roundsOf_stays (reached.mono undisturbed_useCases) (run.mono undisturbed_useCases) row row' same⟩

/-- User 12 bets once, then rotates pair 16 away, with no bet under way. -/
def sampleRotation : SampleWorld := World.initial.replay isUndisturbed (sampleRegistration ++
  .start 1 (.deposit 12 "deposit-1" 1000) :: turns 1 2 30 7 ++
  .start 2 (.placeBet 12 "bet-1" sampleBets) :: turns 2 3 50 40 ++
  .start 3 (.rotateSeed 12) :: turns 3 4 90 7)

/-- The same user bets once more. -/
def sampleNextBet : SampleWorld := sampleRotation.replay isUndisturbed
  (.start 4 (.placeBet 12 "bet-2" sampleBets) :: turns 4 5 100 40)

theorem sampleRotation_reachable : Reachable UndisturbedBets sampleRotation := run_replay (fun _ _ => id) _ _

theorem sampleNextBet_run : Run UndisturbedBets sampleRotation sampleNextBet := run_replay (fun _ _ => id) _ _

theorem sampleRotation_revealed : ((sampleRotation.state.tables .seedPairs).slot 16).committed =
    some
      { id := 16, userId := 12, serverSeed := List.replicate SEED_BYTES 0,
        serverSeedHash := hex (List.replicate SEED_BYTES 0), clientSeed := "", nonce := 1, status := .revealed,
        revealedAt := some 4, createdAt := 1 } := by decide +kernel

theorem revealed_unused_sampleRotation : ∃ pair',
    ((sampleNextBet.state.tables .seedPairs).slot 16).committed = some pair' ∧
    pair'.status = .revealed ∧ pair'.nonce = 1 ∧ roundsOf sampleNextBet.state 16 = roundsOf sampleRotation.state 16 :=
  (revealed_unused sampleRotation_reachable).2 16 _ sampleRotation_revealed rfl sampleNextBet sampleNextBet_run

/-- A bet of user 12 has read pair 16 when a rotation reveals it. -/
def sampleOvertaken : SampleWorld := sampleRun (sampleRegistration ++
  .start 1 (.deposit 12 "deposit-1" 1000) :: turns 1 2 30 7 ++
  .start 2 (.placeBet 12 "bet-1" sampleBets) :: turns 2 3 50 3 ++
  .start 3 (.rotateSeed 12) :: turns 3 4 90 7)

theorem overtaken_bet_uses_revealed : ¬∀ w : SampleWorld, Reachable UseCases w → RevealedUnused UseCases w := by
  intro claim
  have about : sampleOvertaken.AboutTo 2 (.sql .seedPairs (.consumeNonce 16)) := betting_iff.mp (by decide +kernel)
  have consumed : (exec samplePlatform { now := 5 } 2 (.sql .seedPairs (.consumeNonce 16)) sampleOvertaken.state).map
      Prod.fst = some (.ok (some 1)) := by decide +kernel
  have status : ((sampleOvertaken.state.tables .seedPairs).slot 16).committed.map SeedPair.status = some .revealed := by
    decide +kernel
  obtain ⟨⟨r, s'⟩, ran, rfl⟩ := Option.map_eq_some_iff.mp consumed
  obtain ⟨pair, committed, active⟩ := (claim sampleOvertaken (sampleRun_reachable _)).1 2 _ 16 1 s' about ran
  rw [committed] at status
  cases active.symm.trans (Option.some.inj status)

end TheClub
