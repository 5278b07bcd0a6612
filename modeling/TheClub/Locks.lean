import TheClub.Infra.Rows

/-!
Who holds row locks. Every program ends its last transaction before it ends itself, whatever its
work does, so a row is locked by a process that is still running or by none.
-/

namespace TheClub
open ReadCommitted Program

/-- Whether a process has run a statement in its open transaction. -/
def lockProtocol : Protocol signature where
  Ghost := Bool
  start := false
  allowed := fun _ _ => True
  possible := fun _ _ => True
  next := fun g c r => if fate c r = .isOpen then g || c.isStatement else false
  died := fun _ => false

variable {platform : Platform} {settings : Settings}

/-- From wherever it starts, the program ends its open transaction. -/
def Ends {α : Type} (p : Prog α) : Prop := ∀ g, p.Follows lockProtocol (fun g _ => g = false) g

theorem Ends.bind {α β : Type} {p : Prog α} {f : α → Prog β} (first : Ends p) (rest : ∀ a, Ends (f a)) :
    Ends (p.bind f) :=
  fun g => follows_bind.mpr ((first g).mono fun g r ended => match r with
    | .ok a => rest a g
    | .error _ => ended)

theorem Ends.handle {α : Type} {p : Prog α} {handler : Error → Prog α} (first : Ends p)
    (handles : ∀ e, (handler e).Follows lockProtocol (fun g _ => g = false) false) : Ends (p.handle handler) :=
  fun g => follows_handle.mpr ((first g).mono fun g r ended => match r with
    | .ok _ => ended
    | .error e => by
      obtain rfl : g = false := ended
      exact handles e)

/-- A program that ends its transaction and then computes its result. -/
theorem Ends.map {α β : Type} {p : Prog α} (f : α → β) (ends : Ends p) : Ends (f <$> p) :=
  fun g => follows_bind.mpr ((ends g).mono fun _ r ended => match r with
    | .ok _ => ended
    | .error _ => ended)

theorem unitOfWork_ends {α : Type} {tx : Tx} {body : Prog α} : Ends (unitOfWork tx body) := by
  intro g
  refine follows_bind.mpr (follows_attempt.mpr ((follows_anything body (fun _ _ => trivial) g).mono fun g r _ => ?_))
  cases r with
  | ok a =>
    refine ⟨trivial, fun r _ => ?_⟩
    have ended : (if fate (.commit tx) r = .isOpen then g || false else false) = false := if_neg (fate_commit_ends tx r)
    cases r <;> exact ended
  | error e => exact ⟨trivial, fun r _ => by cases r <;> rfl⟩

theorem session_ends {α : Type} {body : Prog α} : Ends (session body) := by
  intro g
  refine follows_bind.mpr (follows_attempt.mpr ((follows_anything body (fun _ _ => trivial) g).mono fun g r _ => ?_))
  exact ⟨trivial, fun answer _ => by cases answer <;> rfl⟩

theorem tryReserve_ends {userId : Id} {key requestHash : String} {ttlHours : Int} :
    Ends (tryReserve userId key requestHash ttlHours) :=
  Ends.handle (unitOfWork_ends.map some) fun e => by split <;> rfl

theorem runReserved_ends {rowId : Id} {work : Prog Dict} : Ends (runReserved rowId work) :=
  unitOfWork_ends.handle fun e =>
    follows_bind.mpr ((unitOfWork_ends false).mono fun g r ended => by cases r <;> exact ended)

theorem runIdempotent_ends {userId : Id} {key requestHash : String} {ttlHours : Int} {work : Prog Dict} :
    (runIdempotent userId key requestHash ttlHours work).Follows lockProtocol (fun g _ => g = false) false := by
  refine follows_bind.mpr ((tryReserve_ends false).mono fun g r ended => ?_)
  subst ended
  rcases r with e | (_ | rowId)
  · rfl
  · refine follows_bind.mpr ((session_ends false).mono fun g r ended => ?_)
    subst ended
    rcases r with e | (_ | cached)
    · rfl
    · refine follows_bind.mpr ((tryReserve_ends false).mono fun g r ended => ?_)
      subst ended
      rcases r with e | (_ | rowId)
      · rfl
      · rfl
      · exact runReserved_ends false
    · rfl
  · exact runReserved_ends false

/-- Every request ends its transactions. -/
theorem code_ends (q : Request) : (q.code platform settings).Follows lockProtocol (fun g _ => g = false) false := by
  have body : ∀ {userId : Id} {key requestHash : String} {ttlHours : Int} {work : Prog Dict},
      (Reply.body <$> runIdempotent userId key requestHash ttlHours work).Follows lockProtocol
          (fun g _ => g = false) false :=
    follows_bind.mpr (runIdempotent_ends.mono fun g r ended => by cases r <;> exact ended)
  cases q with
  | createRound userId key bytes bets => exact body
  | createDeposit userId key bytes amountMinor => exact body
  | runIdempotent userId key requestHash ttlHours work => exact body
  | purgeOnce retentionHours =>
    refine follows_bind.mpr (follows_bind.mpr ⟨trivial, fun r _ => ?_⟩)
    cases r with
    | ok now => exact (unitOfWork_ends false).mono fun g r ended => by cases r <;> exact ended
    | error e => rfl
  | _ => exact unitOfWork_ends.map _ false

variable {ok : World (application platform settings) → Label (application platform settings) → Prop}
  {w : World (application platform settings)}

theorem disciplined_ends : Disciplined (Y := application platform settings) ok lockProtocol fun _ g _ => g = false where
  code _ _ q _ := code_ends q
  answers _ _ _ _ _ _ _ := trivial

/-- A command gives no other process a lock, and takes none from it. -/
theorem exec_pending {env : Env} {i j : Nat} {s s' : Database} {c : Cmd} {r : Except Error c.Ret}
    (ran : exec platform env i c s = some (r, s')) (ne : j ≠ i) (f : TableName) (k : Id) (v : Option (Row f)) :
    ((s'.tables f).slot k).pending = some (j, v) ↔ ((s.tables f).slot k).pending = some (j, v) := by
  rcases exec_table ran f with ⟨-, table⟩ | ⟨q, a, -, moved⟩
  · rw [table]
    cases fate c r with
    | isOpen => exact Iff.rfl
    | applied => exact Slot.pending_commit.trans (and_iff_right ne)
    | undone => exact Slot.pending_rollback.trans (and_iff_right ne)
  · exact moved.pending ne

theorem holder_proc (reached : Reachable ok w) : ∀ f k i, ((w.state.tables f).slot k).holder = some i →
    ∃ p, w.proc i = some p := by
  induction reached with
  | refl => intro f k i held; cases held
  | @step w w' l before allowed moved ih =>
    intro f k j held
    rcases World.step_cases moved with ⟨i, q, rfl, fresh, rfl⟩ | ⟨i, env, c, next, r, s, rfl, called, ran, rfl⟩ |
      ⟨i, c, rfl, about, rfl⟩
    · by_cases same : j = i
      · subst same
        exact ⟨_, Function.update_self ..⟩
      · simpa [same] using ih f k j held
    · by_cases same : j = i
      · subst same
        exact ⟨_, Function.update_self ..⟩
      · have before := (exec_pending ran same f k _).mp (Slot.pending_of_holder held)
        simpa [same] using ih f k j (Slot.holder_of_pending before)
    · obtain ⟨same, before⟩ := Slot.pending_rollback.mp (Slot.pending_of_holder held)
      simpa [same] using ih f k j (Slot.holder_of_pending before)

theorem holder_open (reached : Reachable ok w) : ∀ f k i, ((w.state.tables f).slot k).holder = some i →
    w.ghost lockProtocol i = true := by
  refine disciplined_ends.invariant (fun s g => ∀ f k i, ((s.tables f).slot k).holder = some i → g i = true)
    ?_ ?_ ?_ reached
  · intro f k i held
    cases held
  · intro w i env c r s' _ inv _ _ _ _ ran f k j held
    by_cases same : j = i
    · subst same
      have isOpen : fate c r = .isOpen := by
        by_contra ends
        rw [exec_ends ran ends f] at held
        exact (Table.holder_settle ends held).1 rfl
      rw [Function.update_self]
      change (if fate c r = .isOpen then w.ghost lockProtocol j || c.isStatement else false) = true
      rw [if_pos isOpen]
      by_cases statement : ∃ q, c = .sql f q
      · obtain ⟨q, rfl⟩ := statement
        exact Bool.or_true _
      · rw [exec_frame ran f fun q same => statement ⟨q, same⟩, isOpen] at held
        rw [inv f k j held]
        rfl
    · rw [Function.update_of_ne same]
      exact inv f k j (Slot.holder_of_pending ((exec_pending ran same f k _).mp (Slot.pending_of_holder held)))
  · intro w i c _ inv _ _ f k j held
    obtain ⟨same, before⟩ := Slot.pending_rollback.mp (Slot.pending_of_holder held)
    rw [Function.update_of_ne same]
    exact inv f k j (Slot.holder_of_pending before)

/-- A locked row is locked by a process that still has a command to run. -/
theorem holder_running (reached : Reachable ok w) {f : TableName} {k : Id} {i : Nat}
    (held : ((w.state.tables f).slot k).holder = some i) : ∃ c, w.AboutTo i c := by
  obtain ⟨p, running⟩ := holder_proc reached f k i held
  cases p with
  | done r =>
    obtain ⟨-, -, ended⟩ := disciplined_ends.finished reached running
    cases (holder_open reached f k i held).symm.trans ended
  | call c next => exact ⟨c, next, running⟩

/-- A process that has not been started has no transaction open. -/
theorem unstarted_idle (reached : Reachable ok w) {i : Nat} (unstarted : w.request i = none) (f : TableName) (k : Id) :
    ((w.state.tables f).slot k).holder ≠ some i := by
  intro held
  obtain ⟨c, next, running⟩ := holder_running reached held
  cases (history_of_unstarted reached i unstarted).2.symm.trans running

/-- Only a process that has been started has an aborted transaction. -/
theorem aborted_started (reached : Reachable ok w) : ∀ i, w.state.aborted i = true → w.request i ≠ none := by
  induction reached with
  | refl => intro i aborted; cases aborted
  | @step w w' l before allowed moved ih =>
    intro j aborted
    rcases World.step_cases moved with ⟨i, q, rfl, -, rfl⟩ | ⟨i, env, c, next, r, s, rfl, called, ran, rfl⟩ |
      ⟨i, c, rfl, ⟨next, called⟩, rfl⟩
    · by_cases same : j = i
      · subst same
        simp
      · simpa [same] using ih j aborted
    · by_cases same : j = i
      · subst same
        intro fresh
        cases (history_of_unstarted before j fresh).2.symm.trans called
      · refine ih j ?_
        change s.aborted j = true at aborted
        rw [exec_aborted ran] at aborted
        split at aborted
        · exact aborted
        · rwa [Function.update_of_ne same] at aborted
    · by_cases same : j = i
      · subst same
        intro fresh
        cases (history_of_unstarted before j fresh).2.symm.trans called
      · refine ih j ?_
        simpa [Database.settle, same] using aborted

end TheClub
