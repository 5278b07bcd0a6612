import TheClub.ReadCommitted.Table
import Mathlib.Logic.Relation

/-!
Which transaction a statement waits for, and why a relation whose chains climb has no cycles.
-/

namespace ReadCommitted

/-- What a statement needs before it can write: the lock of one row that `p` describes, or that no
transaction in flight has touched a row that `p` describes. -/
inductive Wants (κ α : Type) where
  | nothing
  | row (k : κ) (p : α → Bool)
  | value (p : α → Bool)

namespace Table
variable {κ α : Type} {i : Nat} {t : Table κ α}

/-- Transaction `j` has what a statement of transaction `i` wants. -/
def Blocks (t : Table κ α) (j i : Nat) : Wants κ α → Prop
  | .nothing => False
  | .row k p => j ≠ i ∧ (t.slot k).holder = some j ∧ ∃ a, (t.slot k).view i = some a ∧ p a = true
  | .value p => j ≠ i ∧ ∃ k v, (t.slot k).pending = some (j, v) ∧ (v.any p = true ∨ (t.slot k).committed.any p = true)

/-- Whatever a transaction blocks, it blocks with a row it has locked. -/
theorem Blocks.holds {j : Nat} {wants : Wants κ α} (blocks : t.Blocks j i wants) :
    j ≠ i ∧ ∃ k, (t.slot k).holder = some j := by
  cases wants with
  | nothing => exact blocks.elim
  | row k p => exact ⟨blocks.1, k, blocks.2.1⟩
  | value p =>
    obtain ⟨ne, k, v, pending, -⟩ := blocks
    exact ⟨ne, k, Slot.holder_of_pending pending⟩

/-- Transaction `j` has inserted, changed or deleted a row that `p` describes. -/
def touched (j : Nat) (p : α → Bool) (t : Table κ α) : Bool :=
  t.keys.any fun k => match (t.slot k).pending with
    | some (j', v) => j' == j && (v.any p || (t.slot k).committed.any p)
    | none => false

theorem touched_iff {j : Nat} {p : α → Bool} : t.touched j p = true ↔
    ∃ k v, (t.slot k).pending = some (j, v) ∧ (v.any p = true ∨ (t.slot k).committed.any p = true) := by
  simp only [touched, List.any_eq_true]
  constructor
  · rintro ⟨k, -, conflict⟩
    split at conflict
    · rename_i j' v pending
      simp only [Bool.and_eq_true, beq_iff_eq, Bool.or_eq_true] at conflict
      exact ⟨k, v, conflict.1 ▸ pending, conflict.2⟩
    · cases conflict
  · rintro ⟨k, v, pending, conflict⟩
    refine ⟨k, ?_, by simp [pending, conflict]⟩
    by_contra outside
    simp [t.slot_outside k outside] at pending

instance (t : Table κ α) (j i : Nat) (wants : Wants κ α) : Decidable (t.Blocks j i wants) :=
  match wants with
  | .nothing => inferInstanceAs (Decidable False)
  | .row k p => decidable_of_iff (j ≠ i ∧ (t.slot k).holder = some j ∧ ((t.slot k).view i).any p = true)
      (and_congr_right fun _ => and_congr_right fun _ => Option.any_eq_true _ _)
  | .value p => decidable_of_iff (j ≠ i ∧ t.touched j p = true) (and_congr_right fun _ => touched_iff)

theorem inDoubt_iff {p : α → Bool} : t.inDoubt i p = true ↔ ∃ j, t.Blocks j i (.value p) := by
  simp only [inDoubt, List.any_eq_true]
  constructor
  · rintro ⟨k, -, doubt⟩
    split at doubt
    · rename_i j v pending
      simp only [Bool.and_eq_true, bne_iff_ne, Bool.or_eq_true] at doubt
      exact ⟨j, doubt.1, k, v, pending, doubt.2⟩
    · cases doubt
  · rintro ⟨j, ne, k, v, pending, conflict⟩
    refine ⟨k, ?_, by simp [pending, ne, conflict]⟩
    by_contra outside
    simp [t.slot_outside k outside] at pending

variable [DecidableEq κ]

theorem updateRow_waits {k : κ} {p : α → Bool} {f : α → Option α} :
    t.updateRow i k p f = .waits ↔ ∃ j, t.Blocks j i (.row k p) := by
  unfold updateRow
  constructor
  · intro waits
    split at waits
    · cases waits
    · rename_i a seen
      split at waits
      · rename_i matched
        split at waits
        · cases waits
        · rename_i taken
          unfold Slot.Free at taken
          obtain ⟨j, held⟩ := Option.ne_none_iff_exists'.mp fun none => taken (Or.inl none)
          exact ⟨j, fun same => taken (Or.inr (same ▸ held)), held, a, seen, matched⟩
      · cases waits
  · rintro ⟨j, ne, held, a, seen, matched⟩
    have taken : ¬(t.slot k).Free i := by
      unfold Slot.Free
      simp [held, ne]
    simp [seen, matched, taken]

theorem insertUnique_waits {k : κ} {p : α → Bool} {a : α} {fresh : k ∉ t.keys} :
    t.insertUnique i k p a fresh = .waits ↔ ∃ j, t.Blocks j i (.value p) := by
  rw [← inDoubt_iff]
  unfold insertUnique
  split
  · simp [*]
  · split <;> simp [*]

end Table

/-! ### Chains that climb -/

section
variable {ι : Type} {r : ι → ι → Prop} {level : ι → Nat}

/-- A chain of waiting transactions climbs, except perhaps to its last member. -/
theorem level_lt_of_transGen (rises : ∀ a b c, r a b → r b c → level a < level b) {a b c : ι}
    (chain : Relation.TransGen r a b) (onwards : r b c) : level a < level b := by
  induction chain using Relation.TransGen.head_induction_on with
  | single edge => exact rises _ _ _ edge onwards
  | head edge rest ih =>
    obtain ⟨d, next, -⟩ := Relation.TransGen.head'_iff.mp rest
    exact (rises _ _ _ edge next).trans ih

theorem acyclic_of_rises (rises : ∀ a b c, r a b → r b c → level a < level b) (a : ι) : ¬Relation.TransGen r a a := by
  intro cycle
  obtain ⟨b, first, -⟩ := Relation.TransGen.head'_iff.mp cycle
  exact (level_lt_of_transGen rises cycle first).false

/-- If levels are bounded, every chain ends. -/
theorem ends_of_rises (rises : ∀ a b c, r a b → r b c → level a < level b) {bound : Nat}
    (bounded : ∀ a, level a ≤ bound)
    (a : ι) : ∃ b, Relation.ReflTransGen r a b ∧ ∀ c, ¬r b c := by
  by_cases waits : ∃ b, r a b
  · obtain ⟨b, edge⟩ := waits
    by_cases onwards : ∃ c, r b c
    · obtain ⟨c, next⟩ := onwards
      have climbs := rises a b c edge next
      have room := bounded b
      obtain ⟨last, chain, ends⟩ := ends_of_rises rises bounded b
      exact ⟨last, chain.head edge, ends⟩
    · exact ⟨b, .single edge, fun c next => onwards ⟨c, next⟩⟩
  · exact ⟨a, .refl, fun b edge => waits ⟨b, edge⟩⟩
termination_by bound - level a

end

end ReadCommitted
