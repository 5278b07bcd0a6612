import TheClub.ReadCommitted.Table

/-!
What a table would hold if exactly the transactions of a set `C` committed. A statement of
transaction `i` changes the possible tables of the sets with `i` the way it would change a
table nobody shares and leaves the others alone, and the end of a transaction only permutes
the possible tables. A constraint on all possible tables is therefore kept by sequential
reasoning; `Unique` is one.
-/

namespace ReadCommitted
open scoped Classical

/-- The row if exactly the transactions in `C` committed. -/
noncomputable def Slot.under {α : Type} (C : Set Nat) (s : Slot α) : Option α :=
  match s.pending with
  | some (i, v) => if i ∈ C then v else s.committed
  | none => s.committed

namespace Slot
variable {α : Type} {i : Nat} {C : Set Nat} {s : Slot α}

theorem under_of_free (free : s.Free i) (member : i ∈ C) : s.under C = s.view i := by
  unfold under view
  rcases h : s.pending with _ | ⟨j, v⟩
  · rfl
  · have same : j = i := by
      rcases free with none | mine
      · simp [holder, h] at none
      · simpa [holder, h] using mine
    subst same
    simp [member]

theorem under_empty : s.under ∅ = s.committed := by
  unfold under
  rcases s.pending with _ | ⟨j, v⟩ <;> simp

theorem under_singleton : s.under {i} = s.view i := by
  unfold under view
  rcases s.pending with _ | ⟨j, v⟩ <;> simp

theorem under_of_holder (held : s.holder = some i) (away : i ∉ C) : s.under C = s.committed := by
  rw [under, pending_of_holder held]
  simp [away]

theorem under_write (free : s.Free i) {v : Option α} :
    (s.write i v).under C = if i ∈ C then v else s.under C := by
  by_cases member : i ∈ C
  · simp [under, member]
  · have before : s.under C = s.committed := by
      rcases free with none | mine
      · cases h : s.pending <;> simp_all [under, holder]
      · exact under_of_holder mine member
    simp only [before, if_neg member]
    simp [under, member]

theorem under_commit : (s.commit i).under C = s.under (insert i C) := by
  by_cases held : s.holder = some i
  · rw [commit_of_holder held]
    simp [under, pending_of_holder held]
  · rw [commit_of_other held]
    unfold under
    rcases h : s.pending with _ | ⟨j, v⟩
    · rfl
    · have ne : j ≠ i := by simpa [holder, h] using held
      simp [Set.mem_insert_iff, ne]

theorem under_rollback : (s.rollback i).under C = s.under (C \ {i}) := by
  by_cases held : s.holder = some i
  · rw [rollback_of_holder held]
    simp [under, pending_of_holder held]
  · rw [rollback_of_other held]
    unfold under
    rcases h : s.pending with _ | ⟨j, v⟩
    · rfl
    · have ne : j ≠ i := by simpa [holder, h] using held
      simp [ne]

theorem version_under {a : α} (h : s.under C = some a) : s.Version a := by
  unfold under at h
  rcases p : s.pending with _ | ⟨j, v⟩
  · rw [p] at h
    exact Or.inl h
  · rw [p] at h
    by_cases member : j ∈ C
    · simp only [member, if_true] at h
      exact Or.inr ⟨j, by rw [p, h]⟩
    · simp only [member, if_false] at h
      exact Or.inl h

end Slot

namespace Table
variable {κ α υ : Type} {i : Nat} {C : Set Nat} {t : Table κ α}

noncomputable def under (C : Set Nat) (t : Table κ α) (k : κ) : Option α := (t.slot k).under C

theorem under_commit : (t.commit i).under C = t.under (Insert.insert i C) := by
  funext k
  exact Slot.under_commit

theorem under_rollback : (t.rollback i).under C = t.under (C \ {i}) := by
  funext k
  exact Slot.under_rollback

theorem under_outside {k : κ} (outside : k ∉ t.keys) : t.under C k = none := by
  simp [under, t.slot_outside k outside, Slot.under]

variable [DecidableEq κ]

theorem under_write {k : κ} (free : (t.slot k).Free i) (member : k ∈ t.keys) {v : Option α} (k' : κ) :
    (t.write i k v).under C k' = if i ∈ C ∧ k' = k then v else t.under C k' := by
  by_cases same : k' = k
  · subst same
    simp [under, slot_write_self member, Slot.under_write free]
  · simp [under, slot_write_other same, same]

theorem under_insert {k : κ} {a : α} {fresh : k ∉ t.keys} (k' : κ) :
    (t.insert i k a fresh).under C k' = if i ∈ C ∧ k' = k then some a else t.under C k' := by
  by_cases same : k' = k
  · subst same
    by_cases member : i ∈ C
    · simp [under, Slot.under, member]
    · simp [under, Slot.under, member, t.slot_outside _ fresh]
  · simp [under, slot_insert_other same, same]

omit [DecidableEq κ] in
/-- No possible table has two rows with the same key. -/
def Unique (key : α → Option υ) (t : Table κ α) : Prop :=
  ∀ C k k' a a' u, t.under C k = some a → t.under C k' = some a' → key a = some u → key a' = some u → k = k'

namespace Unique
variable {key : α → Option υ}

omit [DecidableEq κ] in
theorem empty : (Table.empty : Table κ α).Unique key := by
  intro C k k' a a' u h
  simp [under, Slot.under, Table.empty] at h

omit [DecidableEq κ] in
theorem commit (unique : t.Unique key) : (t.commit i).Unique key := by
  intro C k k' a a' u
  simp only [under_commit]
  exact unique _ k k' a a' u

omit [DecidableEq κ] in
theorem rollback (unique : t.Unique key) : (t.rollback i).Unique key := by
  intro C k k' a a' u
  simp only [under_rollback]
  exact unique _ k k' a a' u

omit [DecidableEq κ] in
theorem settle (unique : t.Unique key) (fate : Fate) : (t.settle i fate).Unique key := by
  cases fate
  · exact unique
  · exact unique.commit
  · exact unique.rollback

omit [DecidableEq κ] in
theorem committed (unique : t.Unique key) {k k' : κ} {a a' : α} {u : υ} (row : (t.slot k).committed = some a)
    (row' : (t.slot k').committed = some a') (h : key a = some u) (h' : key a' = some u) : k = k' :=
  unique ∅ k k' a a' u (by rw [under, Slot.under_empty, row]) (by rw [under, Slot.under_empty, row']) h h'

/-- A write that deletes the row, keeps its key or takes it away. -/
theorem write (unique : t.Unique key) {k : κ} {a : α} {v : Option α} (seen : (t.slot k).view i = some a)
    (free : (t.slot k).Free i) (keeps : ∀ b u, v = some b → key b = some u → key a = some u) :
    (t.write i k v).Unique key := by
  have member := mem_keys_of_view seen
  -- a row with a key after the write had that key before it
  have earlier : ∀ C k' b u, (t.write i k v).under C k' = some b → key b = some u →
      ∃ b', t.under C k' = some b' ∧ key b' = some u := by
    intro C k' b u row keyed
    rw [under_write free member] at row
    split at row
    · rename_i written
      obtain ⟨mine, rfl⟩ := written
      exact ⟨a, by rw [under, Slot.under_of_free free mine, seen], keeps b u row keyed⟩
    · exact ⟨b, row, keyed⟩
  intro C k₁ k₂ a₁ a₂ u row₁ row₂ keyed₁ keyed₂
  obtain ⟨b₁, old₁, key₁⟩ := earlier C k₁ a₁ u row₁ keyed₁
  obtain ⟨b₂, old₂, key₂⟩ := earlier C k₂ a₂ u row₂ keyed₂
  exact unique C k₁ k₂ b₁ b₂ u old₁ old₂ key₁ key₂

/-- An insert that no row it could meet conflicts with. -/
theorem insert (unique : t.Unique key) {k : κ} {a : α} {fresh : k ∉ t.keys}
    (alone : ∀ k' b, (t.slot k').Version b → (t.slot k').view i = some b ∨ (t.slot k').holder ≠ some i →
      ∀ u, key a = some u → key b ≠ some u) : (t.insert i k a fresh).Unique key := by
  have apart : ∀ C k' b u, i ∈ C → t.under C k' = some b → key a = some u → key b ≠ some u := by
    intro C k' b u member row keyed
    refine alone k' b (Slot.version_under row) ?_ u keyed
    by_cases held : (t.slot k').holder = some i
    · exact Or.inl (by rw [← Slot.under_of_free (Or.inr held) member]; exact row)
    · exact Or.inr held
  intro C k₁ k₂ a₁ a₂ u row₁ row₂ keyed₁ keyed₂
  rw [under_insert] at row₁ row₂
  split at row₁ <;> split at row₂
  · rename_i left right
    exact left.2.trans right.2.symm
  · rename_i left right
    cases row₁
    exact (apart C k₂ a₂ u left.1 row₂ keyed₁ keyed₂).elim
  · rename_i left right
    cases row₂
    exact (apart C k₁ a₁ u right.1 row₁ keyed₂ keyed₁).elim
  · exact unique C k₁ k₂ a₁ a₂ u row₁ row₂ keyed₁ keyed₂

end Unique

/-- Some row that satisfies `p` is there if exactly the transactions in `C` commit. -/
def Holds (p : α → Prop) (C : Set Nat) (t : Table κ α) : Prop := ∃ k a, t.under C k = some a ∧ p a

namespace Holds
variable {p : α → Prop}

omit [DecidableEq κ] in
theorem commit (holds : t.Holds p (Insert.insert i C)) : (t.commit i).Holds p C := by
  obtain ⟨k, a, row, marked⟩ := holds
  exact ⟨k, a, by rw [under_commit, row], marked⟩

omit [DecidableEq κ] in
theorem rollback (holds : t.Holds p (C \ {i})) : (t.rollback i).Holds p C := by
  obtain ⟨k, a, row, marked⟩ := holds
  exact ⟨k, a, by rw [under_rollback, row], marked⟩

theorem write (holds : t.Holds p C) {k : κ} {a : α} {v : Option α} (seen : (t.slot k).view i = some a)
    (free : (t.slot k).Free i) (keeps : p a → ∃ b, v = some b ∧ p b) : (t.write i k v).Holds p C := by
  obtain ⟨k', b, row, marked⟩ := holds
  have member := mem_keys_of_view seen
  by_cases written : i ∈ C ∧ k' = k
  · obtain ⟨mine, rfl⟩ := written
    have same : a = b := by
      rw [under, Slot.under_of_free free mine, seen] at row
      exact Option.some.inj row
    obtain ⟨c, rfl, marked⟩ := keeps (same ▸ marked)
    exact ⟨k', c, by rw [under_write free member, if_pos ⟨mine, rfl⟩], marked⟩
  · exact ⟨k', b, by rw [under_write free member, if_neg written, row], marked⟩

theorem insert (holds : t.Holds p C) {k : κ} {a : α} {fresh : k ∉ t.keys} : (t.insert i k a fresh).Holds p C := by
  obtain ⟨k', b, row, marked⟩ := holds
  have apart : ¬(i ∈ C ∧ k' = k) := by
    rintro ⟨-, rfl⟩
    rw [under_outside fresh] at row
    cases row
  exact ⟨k', b, by rw [under_insert, if_neg apart, row], marked⟩

theorem inserted {k : κ} {a : α} {fresh : k ∉ t.keys} (mine : i ∈ C) (marked : p a) :
    (t.insert i k a fresh).Holds p C := ⟨k, a, by rw [under_insert, if_pos ⟨mine, rfl⟩], marked⟩

end Holds

omit [DecidableEq κ] in
theorem filter_filterMap_singleton {p : α → Bool} {f : κ → Option α} {ks : List κ} (distinct : ks.Nodup) {k : κ} {a : α}
    (member : k ∈ ks) (found : f k = some a) (marked : p a = true)
    (alone : ∀ k' b, f k' = some b → p b = true → k' = k) : (ks.filterMap f).filter p = [a] := by
  obtain ⟨before, after, rfl⟩ := List.append_of_mem member
  rw [List.nodup_append, List.nodup_cons] at distinct
  obtain ⟨-, ⟨notAfter, -⟩, apart⟩ := distinct
  have others : ∀ ks : List κ, k ∉ ks → (ks.filterMap f).filter p = [] := by
    intro ks outside
    rw [List.filter_eq_nil_iff]
    intro b member marked'
    obtain ⟨k', listed, found'⟩ := List.mem_filterMap.mp member
    exact outside (alone k' b found' marked' ▸ listed)
  have notBefore : k ∉ before := fun member => apart k member k List.mem_cons_self rfl
  rw [List.filterMap_append, List.filterMap_cons_some found, List.filter_append, List.filter_cons_of_pos marked,
    others before notBefore, others after notAfter, List.nil_append]

omit [DecidableEq κ] in
/-- The only row of a kind is what a lookup of this kind finds. -/
theorem filter_rows {p : α → Bool} {k : κ} {a : α} (seen : (t.slot k).view i = some a) (marked : p a = true)
    (alone : ∀ k' b, (t.slot k').view i = some b → p b = true → k' = k) : (t.rows i).filter p = [a] :=
  filter_filterMap_singleton t.keys_nodup (mem_keys_of_view seen) seen marked alone

omit [DecidableEq κ] in
theorem filter_committedRows {p : α → Bool} {k : κ} {a : α} (row : (t.slot k).committed = some a) (marked : p a = true)
    (alone : ∀ k' b, (t.slot k').committed = some b → p b = true → k' = k) : t.committedRows.filter p = [a] :=
  filter_filterMap_singleton t.keys_nodup (mem_keys_of_version (Or.inl row)) row marked alone

end Table

end ReadCommitted
