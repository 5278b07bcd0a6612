import TheClub.ReadCommitted.Table

/-!
What one statement does to a table, whatever the statement: nothing, a new version of one row
that its transaction sees, or a new row, which it reports. `key` is what the row is stored under,
and `fixed` the part of it that no statement changes.
-/

namespace ReadCommitted.Table
variable {κ α σ : Type} [DecidableEq κ]

/-- Transaction `i` runs a statement that reports `new` as inserted. -/
inductive Moved (key : α → κ) (fixed : α → σ) (i : Nat) (new : Option α) (t : Table κ α) : Table κ α → Prop where
  | still (none : new = none) : Moved key fixed i new t t
  | wrote {k : κ} {a : α} {v : Option α} (none : new = none) (seen : (t.slot k).view i = some a)
      (free : (t.slot k).Free i) (same : ∀ b, v = some b → key b = key a ∧ fixed b = fixed a) :
      Moved key fixed i new t (t.write i k v)
  | inserted {a : α} (reports : new = some a) (fresh : key a ∉ t.keys) :
      Moved key fixed i new t (t.insert i (key a) a fresh)

/-- Every version of every row carries the key it is stored under. -/
def Keyed (key : α → κ) (t : Table κ α) : Prop := ∀ k a, (t.slot k).Version a → key a = k

variable {key : α → κ} {fixed : α → σ} {i : Nat} {new : Option α} {t t' : Table κ α}

omit [DecidableEq κ] in
theorem not_version_empty {k : κ} {a : α} : ¬((Table.empty : Table κ α).slot k).Version a := by
  rintro (old | ⟨_, new⟩)
  · cases old
  · cases new

namespace Moved

/-- A version after the statement is a version from before with the same fixed part, or the new row. -/
theorem version (moved : Moved key fixed i new t t') {k : κ} {b : α} (version : (t'.slot k).Version b) :
    (∃ a, (t.slot k).Version a ∧ key b = key a ∧ fixed b = fixed a) ∨ new = some b ∧ key b = k := by
  cases moved with
  | still => exact Or.inl ⟨b, version, rfl, rfl⟩
  | @wrote k' a v none seen free same =>
    rcases version_write version with old | ⟨rfl, written⟩
    · exact Or.inl ⟨b, old, rfl, rfl⟩
    · exact Or.inl ⟨a, Slot.version_view seen, same b written⟩
  | @inserted a reports fresh =>
    rcases version_insert version with old | ⟨rfl, rfl⟩
    · exact Or.inl ⟨b, old, rfl, rfl⟩
    · exact Or.inr ⟨reports, rfl⟩

/-- A reported row is stored under a key that was not in use. -/
theorem reported (moved : Moved key fixed i new t t') {a : α} (reports : new = some a) :
    key a ∉ t.keys ∧ key a ∈ t'.keys := by
  cases moved with
  | still none => cases none.symm.trans reports
  | wrote none => cases none.symm.trans reports
  | inserted same fresh =>
    cases same.symm.trans reports
    exact ⟨fresh, List.mem_append_right _ (List.mem_singleton.mpr rfl)⟩

/-- No other transaction gains a lock. -/
theorem holder (moved : Moved key fixed i new t t') {k : κ} {j : Nat} (ne : j ≠ i)
    (held : (t'.slot k).holder = some j) : (t.slot k).holder = some j := by
  cases moved with
  | still => exact held
  | @wrote k' a v none seen free same =>
    by_cases here : k = k'
    · subst here
      rw [slot_write_self (mem_keys_of_view seen)] at held
      exact (ne (Option.some.inj held).symm).elim
    · rwa [slot_write_other here] at held
  | @inserted a reports fresh =>
    by_cases here : k = key a
    · subst here
      rw [slot_insert_self] at held
      exact (ne (Option.some.inj held).symm).elim
    · rwa [slot_insert_other here] at held

/-- A row that another transaction has locked stays as it is. -/
theorem slot_of_held (moved : Moved key fixed i new t t') {k : κ} {j : Nat} (ne : j ≠ i)
    (held : (t.slot k).holder = some j) : t'.slot k = t.slot k := by
  cases moved with
  | still => rfl
  | @wrote k' a v none seen free same =>
    have apart : k ≠ k' := by
      rintro rfl
      rcases free with none | mine
      · cases none.symm.trans held
      · exact ne (Option.some.inj (held.symm.trans mine))
    exact slot_write_other apart
  | @inserted a reports fresh =>
    have apart : k ≠ key a := by
      rintro rfl
      rw [t.slot_outside _ fresh] at held
      cases held
    exact slot_insert_other apart

theorem pending (moved : Moved key fixed i new t t') {k : κ} {j : Nat} {v : Option α} (ne : j ≠ i) :
    (t'.slot k).pending = some (j, v) ↔ (t.slot k).pending = some (j, v) := by
  constructor
  · intro held
    rwa [moved.slot_of_held ne (moved.holder ne (Slot.holder_of_pending held))] at held
  · intro held
    rwa [moved.slot_of_held ne (Slot.holder_of_pending held)]

theorem keys (moved : Moved key fixed i new t t') {k : κ} (member : k ∈ t.keys) : k ∈ t'.keys := by
  cases moved with
  | still => exact member
  | wrote => exact member
  | inserted => exact List.mem_append_left _ member

/-- No statement changes what is committed. -/
theorem committed (moved : Moved key fixed i new t t') (k : κ) : (t'.slot k).committed = (t.slot k).committed := by
  cases moved with
  | still => rfl
  | wrote => exact committed_write ..
  | inserted => exact committed_insert ..

/-- No other transaction sees a difference. -/
theorem view (moved : Moved key fixed i new t t') {k : κ} {j : Nat} (ne : j ≠ i) :
    (t'.slot k).view j = (t.slot k).view j := by
  by_cases held : (t.slot k).holder = some j
  · rw [moved.slot_of_held ne held]
  · have away : (t'.slot k).holder ≠ some j := fun other => held (moved.holder ne other)
    rw [Slot.view_of_not_holder held, Slot.view_of_not_holder away, moved.committed]

end Moved

namespace Keyed

omit [DecidableEq κ] in
theorem empty : (Table.empty : Table κ α).Keyed key := fun _ _ version => (not_version_empty version).elim

omit [DecidableEq κ] in
theorem settle (keyed : t.Keyed key) (fate : Fate) : (t.settle i fate).Keyed key :=
  fun k a version => keyed k a (version_settle version)

theorem moved (keyed : t.Keyed key) (moved : Moved key fixed i new t t') : t'.Keyed key := by
  intro k b version
  rcases moved.version version with ⟨a, old, same, -⟩ | ⟨-, own⟩
  · rw [same, keyed k a old]
  · exact own

omit [DecidableEq κ] in
theorem committedRows_nodup (keyed : t.Keyed key) : (t.committedRows.map key).Nodup := by
  rw [committedRows, List.map_filterMap]
  refine t.keys_nodup.filterMap fun k k' u left right => ?_
  obtain ⟨a, row, rfl⟩ := Option.map_eq_some_iff.mp left
  obtain ⟨b, row', same⟩ := Option.map_eq_some_iff.mp right
  rw [← keyed k a (Or.inl row), ← keyed k' b (Or.inl row'), same]

end Keyed

/-- A version that is pending for a committed row keeps what no statement changes. -/
def Kept (fixed : α → σ) (t : Table κ α) : Prop :=
  ∀ k i a old, (t.slot k).pending = some (i, some a) → (t.slot k).committed = some old → fixed a = fixed old

namespace Kept

omit [DecidableEq κ] in
theorem empty : (Table.empty : Table κ α).Kept fixed := fun _ _ _ _ pending => by cases pending

omit [DecidableEq κ] in
theorem view (kept : t.Kept fixed) {k : κ} {a old : α} (seen : (t.slot k).view i = some a)
    (committed : (t.slot k).committed = some old) : fixed a = fixed old := by
  by_cases held : (t.slot k).holder = some i
  · have pending := Slot.pending_of_holder held
    rw [seen] at pending
    exact kept k i a old pending committed
  · rw [Slot.view_of_not_holder held, committed] at seen
    cases seen
    rfl

omit [DecidableEq κ] in
/-- All versions of a row agree with the one a transaction sees. -/
theorem version (kept : t.Kept fixed) {k : κ} {a b : α} (seen : (t.slot k).view i = some a)
    (version : (t.slot k).Version b) : fixed b = fixed a := by
  rcases version with committed | ⟨j, pending⟩
  · exact (kept.view seen committed).symm
  · by_cases mine : j = i
    · subst mine
      rw [Slot.view_of_pending pending] at seen
      cases seen
      rfl
    · have away : (t.slot k).holder ≠ some i := by
        rw [Slot.holder_of_pending pending]
        simpa using mine
      rw [Slot.view_of_not_holder away] at seen
      exact kept k j b a pending seen

omit [DecidableEq κ] in
theorem settle (kept : t.Kept fixed) (fate : Fate) : (t.settle i fate).Kept fixed := by
  intro k j a old pending committed
  have same := slot_settle_held pending
  rw [same] at pending committed
  exact kept k j a old pending committed

theorem moved (kept : t.Kept fixed) (moved : Moved key fixed i new t t') : t'.Kept fixed := by
  intro k j b old pending committed
  rw [moved.committed] at committed
  cases moved with
  | still => exact kept k j b old pending committed
  | @wrote k' a v none seen free same =>
    by_cases here : k = k'
    · subst here
      rw [slot_write_self (mem_keys_of_view seen), Slot.pending_write] at pending
      obtain ⟨-, written⟩ := Prod.mk.inj (Option.some.inj pending)
      exact (same b written).2.trans (kept.view seen committed)
    · rw [slot_write_other here] at pending
      exact kept k j b old pending committed
  | @inserted a reports fresh =>
    by_cases here : k = key a
    · subst here
      rw [t.slot_outside _ fresh] at committed
      cases committed
    · rw [slot_insert_other here] at pending
      exact kept k j b old pending committed

end Kept

end ReadCommitted.Table
