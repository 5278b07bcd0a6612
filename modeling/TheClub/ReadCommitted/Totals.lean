import TheClub.ReadCommitted.Table
import Mathlib.Algebra.BigOperators.Group.List.Basic

/-!
Totals of the rows of a table. What the rows of an open transaction make of a total is held back
until it ends, and the ends of other transactions leave that alone.
-/

namespace ReadCommitted

/-- The value of a row that may be missing. -/
def worth {α : Type} (value : α → Int) (a : Option α) : Int := a.elim 0 value

namespace Slot
variable {α : Type} (value : α → Int)

/-- What the commit of transaction `i` makes of the row. -/
def heldBack (i : Nat) (s : Slot α) : Int := worth value (s.view i) - worth value s.committed

variable {value} {i j : Nat} {s : Slot α}

theorem heldBack_of_not_holder (other : s.holder ≠ some i) : s.heldBack value i = 0 := by
  rw [heldBack, view_of_not_holder other, Int.sub_self]

theorem heldBack_commit_self : (s.commit i).heldBack value i = 0 :=
  heldBack_of_not_holder (holder_commit_ne i s)

theorem heldBack_commit_other (ne : j ≠ i) : (s.commit i).heldBack value j = s.heldBack value j := by
  by_cases held : s.holder = some i
  · have other : s.holder ≠ some j := by
      rw [held]
      exact fun same => ne (Option.some.inj same).symm
    rw [heldBack_of_not_holder other, commit_of_holder held]
    exact heldBack_of_not_holder (by simp [holder])
  · rw [commit_of_other held]

theorem heldBack_rollback_self : (s.rollback i).heldBack value i = 0 := by
  rw [heldBack, view_rollback_self, committed_rollback, Int.sub_self]

theorem heldBack_rollback_other (ne : j ≠ i) : (s.rollback i).heldBack value j = s.heldBack value j := by
  rw [heldBack, view_rollback_other ne, committed_rollback, heldBack]

end Slot

namespace Table
variable {κ α : Type} (value : α → Int)

/-- The total of the committed rows. -/
def total (t : Table κ α) : Int := (t.committedRows.map value).sum

/-- What the commit of transaction `i` adds to the total. -/
def heldBack (i : Nat) (t : Table κ α) : Int := (t.keys.map fun k => (t.slot k).heldBack value i).sum

variable {value} {i j : Nat} {t : Table κ α}

theorem total_eq : t.total value = (t.keys.map fun k => worth value (t.slot k).committed).sum := by
  unfold total committedRows
  induction t.keys with
  | nil => rfl
  | cons k keys ih =>
    rw [List.filterMap_cons, List.map_cons, List.sum_cons, ← ih]
    cases (t.slot k).committed with
    | none => exact (Int.zero_add _).symm
    | some a => rfl

/-- The end of transaction `i`. -/
theorem total_settle (fate : Fate) : (t.settle i fate).total value =
    t.total value + if fate = .applied then t.heldBack value i else 0 := by
  cases fate with
  | applied =>
    rw [if_pos rfl, total_eq, total_eq, heldBack, ← List.sum_map_add]
    refine congrArg List.sum (List.map_congr_left fun k _ => ?_)
    change worth value ((t.slot k).commit i).committed = _
    rw [Slot.committed_commit, Slot.heldBack]
    omega
  | isOpen => exact (Int.add_zero _).symm
  | undone =>
    rw [if_neg (by decide), Int.add_zero, total_eq, total_eq]
    refine congrArg List.sum (List.map_congr_left fun k _ => ?_)
    change worth value ((t.slot k).rollback i).committed = _
    rw [Slot.committed_rollback]

theorem heldBack_settle_self {fate : Fate} (ends : fate ≠ .isOpen) : (t.settle i fate).heldBack value i = 0 := by
  cases fate with
  | isOpen => exact (ends rfl).elim
  | applied => exact List.sum_eq_zero (by simp [settle, Slot.heldBack_commit_self])
  | undone => exact List.sum_eq_zero (by simp [settle, Slot.heldBack_rollback_self])

theorem heldBack_settle_other (ne : j ≠ i) (fate : Fate) : (t.settle i fate).heldBack value j = t.heldBack value j := by
  cases fate with
  | isOpen => rfl
  | applied => exact congrArg List.sum (List.map_congr_left fun k _ => Slot.heldBack_commit_other ne)
  | undone => exact congrArg List.sum (List.map_congr_left fun k _ => Slot.heldBack_rollback_other ne)

variable [DecidableEq κ] {k : κ} {a : α} {fresh : k ∉ t.keys}

theorem total_insert : (t.insert i k a fresh).total value = t.total value := by
  rw [total, committedRows_insert, total]

theorem heldBack_insert : (t.insert i k a fresh).heldBack value j =
    t.heldBack value j + if j = i then value a else 0 := by
  have old : t.keys.map (fun k' => ((t.insert i k a fresh).slot k').heldBack value j) =
      t.keys.map fun k' => (t.slot k').heldBack value j :=
    List.map_congr_left fun k' member => by rw [slot_insert_other (ne_of_mem_of_not_mem member fresh)]
  rw [heldBack, keys_insert, List.map_append, old, List.sum_append, heldBack, List.map_singleton, List.sum_singleton,
    slot_insert_self]
  by_cases mine : j = i
  · subst mine
    simp [Slot.heldBack, Slot.view, worth]
  · simp [Slot.heldBack, Slot.view, worth, mine, Ne.symm mine]

end Table

/-- The rows of all owners together are all rows. -/
theorem sum_by_owner {κ β : Type} [DecidableEq κ] {owner : β → κ} {value : β → Int} {keys : List κ} {rows : List β}
    (nodup : keys.Nodup) (owned : ∀ b ∈ rows, owner b ∈ keys) :
    (keys.map fun k => ((rows.filter fun b => owner b = k).map value).sum).sum = (rows.map value).sum := by
  have once : ∀ (k : κ) (n : Int), k ∈ keys → (keys.map fun k' => if k = k' then n else 0).sum = n := by
    intro k n member
    clear owned
    induction keys with
    | nil => cases member
    | cons k' keys ih =>
      obtain ⟨apart, nodup⟩ := List.nodup_cons.mp nodup
      rw [List.map_cons, List.sum_cons]
      by_cases same : k = k'
      · subst same
        have rest : (keys.map fun k' => if k = k' then n else 0).sum = 0 := by
          refine List.sum_eq_zero fun m found => ?_
          obtain ⟨k', known, rfl⟩ := List.mem_map.mp found
          refine if_neg fun same => apart ?_
          rw [same]
          exact known
        rw [if_pos rfl, rest, Int.add_zero]
      · rw [if_neg same, Int.zero_add]
        exact ih nodup ((List.mem_cons.mp member).resolve_left same)
  induction rows with
  | nil => exact List.sum_eq_zero (by simp)
  | cons b rows ih =>
    rw [List.map_cons, List.sum_cons, ← ih fun b' member => owned b' (List.mem_cons_of_mem _ member),
      ← once (owner b) (value b) (owned b List.mem_cons_self), ← List.sum_map_add]
    refine congrArg List.sum (List.map_congr_left fun k _ => ?_)
    by_cases mine : owner b = k <;> simp [mine]

end ReadCommitted
