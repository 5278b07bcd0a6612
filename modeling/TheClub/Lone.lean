import TheClub.Locks
import TheClub.ReadCommitted.Alone

/-!
One process that runs while no other one moves: what each of its commands can answer, and that
none of them has to wait.
-/

namespace TheClub
open ReadCommitted

variable {platform : Platform} {settings : Settings} {i : Nat} {s s' : Database} {now : Time} {lossy : Prop}

/-- Process `i` has no transaction open. -/
def Database.Idle (s : Database) (i : Nat) : Prop := ∀ f k, ((s.tables f).slot k).holder ≠ some i

theorem rows_of_idle {κ α : Type} {t : Table κ α} (idle : ∀ k, (t.slot k).holder ≠ some i) :
    t.rows i = t.committedRows :=
  List.filterMap_congr fun k _ => Slot.view_of_not_holder (idle k)

theorem rollback_of_idle {κ α : Type} {t : Table κ α} (idle : ∀ k, (t.slot k).holder ≠ some i) : t.rollback i = t := by
  have slots : (fun k => (t.slot k).rollback i) = t.slot := funext fun k => Slot.rollback_of_other (idle k)
  obtain ⟨keys, slot, nodup, outside⟩ := t
  simp only [Table.rollback, Table.mk.injEq, true_and]
  exact slots

theorem commit_of_idle {κ α : Type} {t : Table κ α} (idle : ∀ k, (t.slot k).holder ≠ some i) : t.commit i = t := by
  have slots : (fun k => (t.slot k).commit i) = t.slot := funext fun k => Slot.commit_of_other (idle k)
  obtain ⟨keys, slot, nodup, outside⟩ := t
  simp only [Table.commit, Table.mk.injEq, true_and]
  exact slots

theorem changeRow_free {α : Type} {t : Table Id α} {k : Id} {p : α → Bool} {f : α → Option α}
    (free : (t.slot k).Free i) :
    changeRow i t k p f ≠ .waits := by
  unfold changeRow Table.updateRow
  split
  · simp
  · rename_i waits
    split at waits
    · cases waits
    · rw [if_pos free] at waits
      split at waits <;> cases waits
  · simp

/-- An environment at `now` or later; connections fail there only if they may. -/
def Later (lossy : Prop) (now : Time) (env : Env) : Prop := (env.fault ≠ none → lossy) ∧ now ≤ env.now

/-- The connection was lost, where connections may fail. -/
def Lost {α : Type} (lossy : Prop) (r : Except Error α) : Prop :=
  lossy ∧ ∃ applied, r = .error (.connectionLost applied)

/-! ### What a command can answer -/

theorem alone_sql_cases {env : Env} {f : TableName} {q : Query f} {r : Except Error (Query.Ret f q)}
    (later : Later lossy now env)
    (usable : s.aborted i = false) (ran : exec platform env i (.sql f q) s = some (r, s')) :
    (∃ a, r = .ok a ∧ s'.aborted i = false ∧
      Query.exec platform (env.context i s) i f q (s.tables f) = .ok a (s'.tables f)) ∨
    (∃ e, r = .error e ∧ s'.tables f = (s.tables f).rollback i ∧
      Query.exec platform (env.context i s) i f q (s.tables f) = .fails e) ∨
    lossy ∧ r = .error (.connectionLost false) := by
  obtain ⟨-, ran⟩ := exec_run ran
  simp only [Cmd.run, usable] at ran
  split at ran
  · cases ‹false = true›
  · split at ran
    · rename_i fault failed
      cases ran
      exact Or.inr (Or.inr ⟨later.1 (by rw [failed]; simp), rfl⟩)
    · split at ran
      · rename_i a t done
        cases ran
        refine Or.inl ⟨a, rfl, usable, ?_⟩
        change _ = Outcome.ok a (Function.update s.tables f t f)
        rw [Function.update_self]
        exact done
      · rename_i failed
        cases ran
        exact Or.inr (Or.inl ⟨_, rfl, rfl, failed⟩)
      · cases ran

theorem alone_commit_cases {env : Env} {tx : Tx} {r : Except Error Unit} (later : Later lossy now env)
    (usable : s.aborted i = false)
    (ran : exec platform env i (.commit tx) s = some (r, s')) :
    (r = .ok () ∧ s'.aborted i = false ∧ ∀ f, s'.tables f = (s.tables f).commit i) ∨
      lossy ∧ ∃ applied, r = .error (.connectionLost applied) := by
  obtain ⟨-, ran⟩ := exec_run ran
  simp only [Cmd.run, usable] at ran
  split at ran
  · cases ‹false = true›
  · split at ran
    · cases ran
      exact Or.inl ⟨rfl, by simp [Database.settle], fun f => rfl⟩
    · rename_i failed
      cases ran
      exact Or.inr ⟨later.1 (by rw [failed]; simp), _, rfl⟩
    · rename_i failed
      cases ran
      exact Or.inr ⟨later.1 (by rw [failed]; simp), _, rfl⟩

theorem alone_rollback {env : Env} {r : Except Error Unit} (ran : exec platform env i .rollback s = some (r, s')) :
    r = .ok () ∧ s'.aborted i = false ∧ ∀ f, s'.tables f = (s.tables f).rollback i := by
  obtain ⟨-, ran⟩ := exec_run ran
  cases ran
  exact ⟨rfl, by simp [Database.settle], fun f => rfl⟩

theorem alone_datetimeNow {env : Env} {r : Except Error Time} (later : Later lossy now env)
    (ran : exec platform env i .datetimeNow s = some (r, s')) :
    ∃ time, r = .ok time ∧ now ≤ time ∧ s'.tables = s.tables ∧ s'.aborted = s.aborted := by
  obtain ⟨-, ran⟩ := exec_run ran
  cases ran
  exact ⟨env.now, rfl, later.2, rfl, rfl⟩

/-! ### How a unit of work ends -/

/-- The exceptions of the protocol of keys itself. -/
def Error.IsVerdict (e : Error) : Prop := e = .idempotencyInProgressError ∨ e = .idempotencyKeyConflictError

theorem exec_not_verdict {env : Env} {c : Cmd} {e : Error} (ran : exec platform env i c s = some (.error e, s')) :
    ¬e.IsVerdict := by
  rcases exec_raises ran with rfl | rfl | ⟨applied, rfl⟩ | ⟨message, rfl⟩ | rfl | ⟨constraint, rfl⟩ <;>
    simp [Error.IsVerdict]

/-- `r` is what `done` has ended with, or an exception that is no verdict on the key. -/
def EndsAs {α : Type} (done r : Except Error α) : Prop := r = done ∨ ∃ e, r = .error e ∧ ¬e.IsVerdict

theorem EndsAs.trans {α : Type} {r₁ r₂ r₃ : Except Error α} (first : EndsAs r₁ r₂) (second : EndsAs r₂ r₃) :
    EndsAs r₁ r₃ := by
  rcases second with rfl | other
  · exact first
  · exact Or.inr other

theorem alone_unitOfWork {α : Type} {tx : Tx} {body : Prog α} {r : Except Error α}
    (alone : Alone (application platform settings) i (unitOfWork tx body) s r s') :
    ∃ done m, Alone (application platform settings) i body s done m ∧ EndsAs done r := by
  rcases alone_bind.mp alone with ⟨done, m, attempted, rest⟩ | ⟨e, -, attempted⟩
  · obtain ⟨_, same, went⟩ := alone_attempt.mp attempted
    cases same
    refine ⟨done, m, went, ?_⟩
    cases done with
    | ok a =>
      rcases alone_bind.mp rest with ⟨u, m', -, returned⟩ | ⟨e, rfl, committed⟩
      · exact Or.inl (alone_done.mp returned).1
      · obtain ⟨env, ran⟩ := alone_perform.mp committed
        exact Or.inr ⟨e, rfl, exec_not_verdict ran⟩
    | error e =>
      rcases alone_bind.mp rest with ⟨u, m', -, raised⟩ | ⟨e', rfl, undone⟩
      · exact Or.inl (alone_done.mp raised).1
      · obtain ⟨env, ran⟩ := alone_perform.mp undone
        exact Or.inr ⟨e', rfl, exec_not_verdict ran⟩
  · obtain ⟨_, same, -⟩ := alone_attempt.mp attempted
    cases same

/-- A unit of work returns what its body has returned. -/
theorem alone_unitOfWork_ok {α : Type} {tx : Tx} {body : Prog α} {a : α}
    (alone : Alone (application platform settings) i (unitOfWork tx body) s (.ok a) s') :
    ∃ m, Alone (application platform settings) i body s (.ok a) m := by
  obtain ⟨done, m, body, rfl | ⟨e, same, -⟩⟩ := alone_unitOfWork alone
  · exact ⟨m, body⟩
  · cases same

/-! ### No command waits -/

section
variable {ok : Env → Prop} {text : String} (can : ∀ time id, now ≤ time → ok { now := time, id, text })

include can

theorem moves_of_some {c : Cmd} (id : Id)
    (answered : exec platform { now := max now s.clock, id, text } i c s ≠ none) :
    ∃ env a m, ok env ∧ exec platform env i c s = some (a, m) := by
  obtain ⟨⟨a, m⟩, ran⟩ := Option.ne_none_iff_exists'.mp answered
  exact ⟨_, a, m, can _ id (le_max_left _ _), ran⟩

theorem moves_sql {f : TableName} {q : Query f} (usable : s.aborted i = false)
    (answers : ∃ id, ∀ ctx : Context, ctx.id = id → Query.exec platform ctx i f q (s.tables f) ≠ .waits) :
    ∃ env a m, ok env ∧ exec platform env i (.sql f q) s = some (a, m) := by
  obtain ⟨id, answers⟩ := answers
  refine moves_of_some can id ?_
  unfold exec
  rw [if_neg (not_lt.mpr (le_max_right _ _))]
  simp only [Cmd.run, usable]
  split
  · simp
  · split
    · simp
    · simp
    · rename_i waits
      exact (answers _ rfl waits).elim

theorem moves_datetimeNow : ∃ env a m, ok env ∧ exec platform env i .datetimeNow s = some (a, m) := by
  refine moves_of_some can 0 ?_
  unfold exec
  rw [if_neg (not_lt.mpr (le_max_right _ _))]
  simp [Cmd.run]

theorem moves_tokenUrlsafe (n : Nat) : ∃ env a m, ok env ∧ exec platform env i (.tokenUrlsafe n) s = some (a, m) := by
  refine moves_of_some can 0 ?_
  unfold exec
  rw [if_neg (not_lt.mpr (le_max_right _ _))]
  simp [Cmd.run]

theorem moves_rollback : ∃ env a m, ok env ∧ exec platform env i .rollback s = some (a, m) := by
  refine moves_of_some can 0 ?_
  unfold exec
  rw [if_neg (not_lt.mpr (le_max_right _ _))]
  simp [Cmd.run]

theorem moves_commit {tx : Tx} : ∃ env a m, ok env ∧ exec platform env i (.commit tx) s = some (a, m) := by
  refine moves_of_some can 0 ?_
  unfold exec
  rw [if_neg (not_lt.mpr (le_max_right _ _))]
  simp only [Cmd.run]
  split <;> simp

/-- Closing a session rolls back what is open. -/
theorem closing_leads {α : Type} {r : Except Error α} {T : Except Error α → Database → Prop}
    (closed : ∀ m, m.aborted i = false → (∀ f, m.tables f = (s.tables f).rollback i) → T r m) :
    Leads (application platform settings) i ok (Finishes T)
      ((perform .rollback).bind fun _ => Program.done r : Prog α) s := by
  refine .next (moves_rollback can) fun env r' m later ran => ?_
  obtain ⟨rfl, usable, tables⟩ := alone_rollback ran
  exact .here ⟨_, rfl, closed m usable tables⟩

end

theorem later_can (time : Time) (id : Id) (le : now ≤ time) : Later lossy now { now := time, id, text := "" } :=
  ⟨fun fails => (fails rfl).elim, le⟩

end TheClub
