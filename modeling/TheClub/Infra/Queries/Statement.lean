import TheClub.ReadCommitted.Moves
import TheClub.Models

/-! The statements the tables' queries are built from, and what a successful one has done. -/

namespace TheClub
open ReadCommitted

/-- What a statement may depend on besides its arguments: the id drawn for an inserted row, the
start of the transaction (`now()`), and the order the planner returns rows in. -/
structure Context where
  id : Id
  now : Time
  order : List Id

def INT_MAX : Int := 2 ^ 31 - 1
def BIGINT_MAX : Int := 2 ^ 63 - 1

def fitsBigint (n : Int) : Bool := -BIGINT_MAX - 1 ≤ n ∧ n ≤ BIGINT_MAX

variable {α : Type} (ctx : Context) (i : Nat) (t : Table Id α)

/-- `INSERT` under a unique constraint whose conflicting rows are those `p` describes. An id that
was drawn before does not come up again. -/
def insertRow (constraint : String) (p : α → Bool) (a : α) : Outcome Error α (Table Id α) :=
  if fresh : ctx.id ∉ t.keys then
    match t.insertUnique i ctx.id p a fresh with
    | .duplicate => .fails (.integrityError constraint)
    | .waits => .waits
    | .inserted t' => .ok a t'
  else .waits

/-- `UPDATE … WHERE id = k AND p` or `DELETE`, whose row count nobody reads. -/
def changeRow (k : Id) (p : α → Bool) (f : α → Option α) : Outcome Error Unit (Table Id α) :=
  match t.updateRow i k p f with
  | .missed => .ok () t
  | .waits => .waits
  | .wrote _ t' => .ok () t'

variable {ctx i t}

theorem insertRow_ok {constraint : String} {p : α → Bool} {a a' : α} {t' : Table Id α}
    (h : insertRow ctx i t constraint p a = .ok a' t') :
    a' = a ∧ ∃ fresh : ctx.id ∉ t.keys, t' = t.insert i ctx.id a fresh ∧
      ∀ k b, (t.slot k).Version b → (t.slot k).view i = some b ∨ (t.slot k).holder ≠ some i → p b = false := by
  unfold insertRow at h
  split at h
  · rename_i fresh
    split at h
    · cases h
    · cases h
    · rename_i inserted
      cases h
      obtain ⟨same, alone⟩ := Table.insertUnique_inserted inserted
      exact ⟨rfl, fresh, same, alone⟩
  · cases h

theorem insertRow_fails {constraint : String} {p : α → Bool} {a : α} {e : Error}
    (h : insertRow ctx i t constraint p a = .fails e) :
    e = .integrityError constraint ∧ (t.rows i).any p = true := by
  unfold insertRow at h
  split at h
  · split at h
    · rename_i duplicate
      cases h
      refine ⟨rfl, ?_⟩
      simp only [Table.insertUnique] at duplicate
      split at duplicate
      · cases duplicate
      · split at duplicate
        · assumption
        · cases duplicate
    · cases h
    · cases h
  · cases h

theorem changeRow_ok {k : Id} {p : α → Bool} {f : α → Option α} {r : Unit} {t' : Table Id α}
    (h : changeRow i t k p f = .ok r t') :
    (t' = t ∧ ∀ a, (t.slot k).view i = some a → p a = false) ∨
    ∃ a, (t.slot k).view i = some a ∧ p a = true ∧ (t.slot k).Free i ∧ t' = t.write i k (f a) := by
  unfold changeRow at h
  split at h
  · rename_i missed
    cases h
    exact Or.inl ⟨rfl, Table.updateRow_missed missed⟩
  · cases h
  · rename_i a t'' wrote
    cases h
    exact Or.inr ⟨a, Table.updateRow_wrote wrote⟩

theorem changeRow_not_fails {k : Id} {p : α → Bool} {f : α → Option α} {e : Error} :
    changeRow i t k p f ≠ .fails e := by
  unfold changeRow
  split <;> simp

theorem insertRow_moved {σ : Type} {key : α → Id} {fixed : α → σ} {constraint : String} {p : α → Bool} {a a' : α}
    {t' : Table Id α} (own : key a = ctx.id) (h : insertRow ctx i t constraint p a = .ok a' t') :
    t.Moved key fixed i (some a') t' := by
  obtain ⟨rfl, fresh, rfl, -⟩ := insertRow_ok h
  have inserted : t.Moved key fixed i (some a') (t.insert i (key a') a' (by rwa [own])) := .inserted rfl _
  simpa only [own] using inserted

theorem updateRow_moved {σ : Type} {key : α → Id} {fixed : α → σ} {k : Id} {p : α → Bool} {f : α → Option α} {a : α}
    {t' : Table Id α} (same : ∀ a b, f a = some b → key b = key a ∧ fixed b = fixed a)
    (h : t.updateRow i k p f = .wrote a t') : t.Moved key fixed i none t' := by
  obtain ⟨seen, -, free, rfl⟩ := Table.updateRow_wrote h
  exact .wrote rfl seen free (same a)

theorem changeRow_moved {σ : Type} {key : α → Id} {fixed : α → σ} {k : Id} {p : α → Bool} {f : α → Option α} {r : Unit}
    {t' : Table Id α} (same : ∀ a b, f a = some b → key b = key a ∧ fixed b = fixed a)
    (h : changeRow i t k p f = .ok r t') : t.Moved key fixed i none t' := by
  rcases changeRow_ok h with ⟨rfl, -⟩ | ⟨a, seen, -, free, rfl⟩
  · exact .still rfl
  · exact .wrote rfl seen free (same a)

end TheClub
