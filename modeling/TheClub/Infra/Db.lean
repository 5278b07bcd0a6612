import TheClub.Infra.Database
import TheClub.ReadCommitted.Resumed

/-! Sessions and the unit of work. -/

namespace TheClub
open ReadCommitted

abbrev Prog (α : Type) : Type := Program signature α

def perform (c : Cmd) : Prog c.Ret := Program.perform (S := signature) c

def raise {α : Type} (e : Error) : Prog α := Program.raise (S := signature) e

def sql (f : TableName) (q : Query f) : Prog (Query.Ret f q) := perform (.sql f q)

/-- `datetime.now(UTC)`. -/
def datetimeNow : Prog Time := perform .datetimeNow

/-- `result.scalar_one_or_none()`. -/
def scalarOneOrNone {α : Type} : List α → Prog (Option α)
  | [] => return none
  | [a] => return some a
  | _ => raise .multipleResultsFound

/-- `result.scalar_one()` of a statement that returns at most one row. -/
def scalarOne {α : Type} : Option α → Prog α
  | some a => return a
  | none => raise .noResultFound

/-- `async with session_factory() as session`: closing the session rolls back what is open. -/
def session {α : Type} (body : Prog α) : Prog α := do
  let result ← body.attempt
  perform .rollback
  Program.done result

/-- One transaction: commit if everything goes well, rollback if anything raises. -/
def unitOfWork {α : Type} (tx : Tx) (body : Prog α) : Prog α := do
  match ← body.attempt with
  | .ok result =>
    perform (.commit tx)
    return result
  | .error e =>
    perform .rollback
    raise e

variable {α : Type} {tx : Tx} {body : Prog α} {h : List (Event signature)}

/-- A command of a unit of work is its COMMIT, its ROLLBACK or one of its body. -/
theorem unitOfWork_ran {p : Prog α} {c : Cmd} {r : Except Error c.Ret} (resumed : (unitOfWork tx body).Resumed h p)
    (ran : .ran c r ∈ h) (inside : c ≠ .commit tx ∧ c ≠ .rollback) :
    ∃ first rest q, h = first ++ rest ∧ body.Resumed first q ∧ .ran c r ∈ first := by
  have ends : ∀ r : Except Error α, (match r with
      | .ok result => (do perform (.commit tx); return result : Prog α)
      | .error e => (do perform .rollback; raise e : Prog α)).Only fun c => c = Cmd.commit tx ∨ c = Cmd.rollback := by
    intro r
    cases r with
    | ok a => exact ⟨Or.inl rfl, fun r => by cases r <;> trivial⟩
    | error e => exact ⟨Or.inr rfl, fun r => by cases r <;> trivial⟩
  obtain ⟨first, rest, q, rfl, attempted, ran⟩ :=
    Program.Resumed.earlier resumed ends ran fun ending => ending.elim inside.1 inside.2
  obtain ⟨q, went, -⟩ := Program.resumed_attempt attempted
  exact ⟨first, rest, q, rfl, went, ran⟩

/-- A unit of work that has returned has gone through its body. -/
theorem unitOfWork_within {a : α} (within : (unitOfWork tx body).Within h a) : body.Within h a := by
  obtain ⟨r, attempted, ended⟩ := Program.within_bind within
  cases r with
  | ok result =>
    obtain ⟨_, -, ended⟩ := Program.within_bind ended
    cases Program.within_done ended
    exact Program.within_attempt attempted
  | error e =>
    obtain ⟨_, -, ended⟩ := Program.within_bind ended
    cases Program.within_done ended

end TheClub
