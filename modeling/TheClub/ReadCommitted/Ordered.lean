import TheClub.ReadCommitted.Moves

/-! Tables whose rows are inserted in the order of a relation, as far as they have the same owner. -/

namespace ReadCommitted.Table
variable {κ α υ : Type} {owner : α → υ} {lt : α → α → Prop} {t : Table κ α} {i : Nat}

/-- All rows of the table, the committed ones and what transactions have pending. -/
def versions (t : Table κ α) : List α :=
  t.keys.flatMap fun k => (t.slot k).committed.toList ++ ((t.slot k).pending.bind Prod.snd).toList

theorem mem_versions {a : α} : a ∈ t.versions ↔ ∃ k, (t.slot k).Version a := by
  have version : ∀ k, a ∈ (t.slot k).committed.toList ++ ((t.slot k).pending.bind Prod.snd).toList ↔
      (t.slot k).Version a := by
    intro k
    simp [Slot.Version, Option.bind_eq_some_iff]
  simp only [versions, List.mem_flatMap, version]
  constructor
  · rintro ⟨k, -, here⟩
    exact ⟨k, here⟩
  · rintro ⟨k, here⟩
    exact ⟨k, mem_keys_of_version here, here⟩

/-- Whatever versions two rows of one owner have, those of the earlier row are less. -/
def Ordered (owner : α → υ) (lt : α → α → Prop) (t : Table κ α) : Prop :=
  t.keys.Pairwise fun k k' => ∀ a b, (t.slot k).Version a → (t.slot k').Version b → owner a = owner b → lt a b

namespace Ordered

theorem empty : (Table.empty : Table κ α).Ordered owner lt := List.Pairwise.nil

theorem settle (ordered : t.Ordered owner lt) (fate : Fate) : (t.settle i fate).Ordered owner lt := by
  unfold Ordered
  rw [keys_settle]
  apply ordered.imp
  intro k k' less a b left right same
  exact less a b (version_settle left) (version_settle right) same

section
variable [DecidableEq κ]

theorem insert (ordered : t.Ordered owner lt) {k : κ} {a : α} {fresh : k ∉ t.keys}
    (greatest : ∀ k' b, (t.slot k').Version b → owner b = owner a → lt b a) :
    (t.insert i k a fresh).Ordered owner lt := by
  have old : ∀ {k' b}, k' ∈ t.keys → ((t.insert i k a fresh).slot k').Version b → (t.slot k').Version b := by
    intro k' b member version
    rwa [slot_insert_other (ne_of_mem_of_not_mem member fresh)] at version
  unfold Ordered
  rw [keys_insert, List.pairwise_append]
  refine ⟨?_, List.pairwise_singleton .., ?_⟩
  · apply ordered.imp_of_mem
    intro k₁ k₂ left right less b c version version' same
    exact less b c (old left version) (old right version') same
  · intro k₁ left k₂ new b c version version' same
    obtain rfl := List.mem_singleton.mp new
    rcases version_insert version' with outside | ⟨-, rfl⟩
    · exact (fresh (mem_keys_of_version outside)).elim
    · exact greatest k₁ b (old left version) same

/-- Statements on rows that never change: an inserted row has to be greater than those of its owner. -/
theorem moved {key : α → κ} {new : Option α} {t' : Table κ α} (ordered : t.Ordered owner lt)
    (moved : t.Moved key (fun a => a) i new t')
    (greatest : ∀ a, new = some a → ∀ k b, (t.slot k).Version b → owner b = owner a → lt b a) :
    t'.Ordered owner lt := by
  cases moved with
  | still => exact ordered
  | @wrote k a v none seen free same =>
    have old : ∀ {k' b}, ((t.write i k v).slot k').Version b → (t.slot k').Version b := by
      intro k' b version
      rcases version_write version with old | ⟨rfl, rfl⟩
      · exact old
      · rw [(same b rfl).2]
        exact Slot.version_view seen
    apply List.Pairwise.imp ?_ ordered
    intro k₁ k₂ less b c left right owned
    exact less b c (old left) (old right) owned
  | inserted reports fresh => exact ordered.insert (greatest _ reports)

end

theorem committedRows [DecidableEq υ] (ordered : t.Ordered owner lt) (u : υ) :
    (t.committedRows.filter fun a => owner a = u).Pairwise lt := by
  refine List.pairwise_filter.mpr (List.pairwise_filterMap.mpr (List.Pairwise.imp ?_ ordered))
  intro k k' less a left b right mine mine'
  exact less a b (Or.inl left) (Or.inl right) ((of_decide_eq_true mine).trans (of_decide_eq_true mine').symm)

end Ordered

end ReadCommitted.Table
