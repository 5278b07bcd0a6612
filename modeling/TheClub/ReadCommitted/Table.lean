import Mathlib

/-!
Tables under READ COMMITTED. A slot holds the committed version of a row and, while a
transaction has its lock, the version that transaction has written. A statement sees the
committed versions and its own. This file defines the row operations and says what each of
them does to what every transaction sees.
-/

namespace ReadCommitted

/-- One row. `pending` is the lock holder with the version it has written; `none` is no row. -/
structure Slot (α : Type) where
  committed : Option α := none
  pending : Option (Nat × Option α) := none

namespace Slot
variable {α : Type}

/-- The version transaction `i` sees. -/
def view (i : Nat) (s : Slot α) : Option α :=
  match s.pending with
  | some (j, v) => if j = i then v else s.committed
  | none => s.committed

/-- The transaction that holds the row lock. -/
def holder (s : Slot α) : Option Nat := s.pending.map Prod.fst

/-- No other transaction holds the row lock. -/
def Free (i : Nat) (s : Slot α) : Prop := s.holder = none ∨ s.holder = some i

instance (i : Nat) (s : Slot α) : Decidable (s.Free i) := by unfold Free; infer_instance

def write (i : Nat) (v : Option α) (s : Slot α) : Slot α := { s with pending := some (i, v) }

def commit (i : Nat) (s : Slot α) : Slot α :=
  if s.holder = some i then { committed := s.view i } else s

def rollback (i : Nat) (s : Slot α) : Slot α :=
  if s.holder = some i then { committed := s.committed } else s

/-- The versions of a row that exist anywhere. -/
def Version (a : α) (s : Slot α) : Prop :=
  s.committed = some a ∨ ∃ i, s.pending = some (i, some a)

@[simp] theorem committed_write (i : Nat) (v : Option α) (s : Slot α) : (s.write i v).committed = s.committed := rfl
@[simp] theorem pending_write (i : Nat) (v : Option α) (s : Slot α) : (s.write i v).pending = some (i, v) := rfl
@[simp] theorem holder_write (i : Nat) (v : Option α) (s : Slot α) : (s.write i v).holder = some i := rfl

@[simp] theorem view_write_self (i : Nat) (v : Option α) (s : Slot α) : (s.write i v).view i = v := by
  simp [view, write]

theorem view_of_not_holder {i : Nat} {s : Slot α} (other : s.holder ≠ some i) : s.view i = s.committed := by
  unfold view
  cases h : s.pending with
  | none => rfl
  | some p =>
    have : p.1 ≠ i := by simpa [holder, h] using other
    simp [this]

theorem holder_of_pending {i : Nat} {v : Option α} {s : Slot α} (h : s.pending = some (i, v)) :
    s.holder = some i := by simp [holder, h]

theorem view_of_pending {i : Nat} {v : Option α} {s : Slot α} (h : s.pending = some (i, v)) :
    s.view i = v := by simp [view, h]

theorem pending_of_holder {i : Nat} {s : Slot α} (h : s.holder = some i) : s.pending = some (i, s.view i) := by
  cases p : s.pending with
  | none => simp [holder, p] at h
  | some q =>
    obtain ⟨j, v⟩ := q
    have same : j = i := by simpa [holder, p] using h
    subst same
    rw [view_of_pending p]

@[simp] theorem committed_commit (i : Nat) (s : Slot α) : (s.commit i).committed = s.view i := by
  unfold commit
  split
  · rfl
  · rename_i h; exact (view_of_not_holder h).symm

@[simp] theorem committed_rollback (i : Nat) (s : Slot α) : (s.rollback i).committed = s.committed := by
  unfold rollback; split <;> rfl

theorem commit_of_other {i : Nat} {s : Slot α} (h : s.holder ≠ some i) : s.commit i = s := if_neg h

theorem rollback_of_other {i : Nat} {s : Slot α} (h : s.holder ≠ some i) : s.rollback i = s := if_neg h

theorem commit_of_holder {i : Nat} {s : Slot α} (h : s.holder = some i) :
    s.commit i = { committed := s.view i } := if_pos h

theorem rollback_of_holder {i : Nat} {s : Slot α} (h : s.holder = some i) :
    s.rollback i = { committed := s.committed } := if_pos h

@[simp] theorem holder_commit_ne (i : Nat) (s : Slot α) : (s.commit i).holder ≠ some i := by
  unfold commit
  split
  · simp [holder]
  · assumption

@[simp] theorem holder_rollback_ne (i : Nat) (s : Slot α) : (s.rollback i).holder ≠ some i := by
  unfold rollback
  split
  · simp [holder]
  · assumption

/-- What is pending after `i` ends its transaction was pending before, in another one. -/
theorem pending_commit {i j : Nat} {v : Option α} {s : Slot α} :
    (s.commit i).pending = some (j, v) ↔ j ≠ i ∧ s.pending = some (j, v) := by
  by_cases h : s.holder = some i
  · have p := pending_of_holder h
    simp only [commit_of_holder h, reduceCtorEq, p, Option.some.injEq, Prod.mk.injEq, false_iff]
    exact fun ⟨ne, eq, _⟩ => ne eq.symm
  · rw [commit_of_other h]
    exact ⟨fun p => ⟨fun eq => h (eq ▸ holder_of_pending p), p⟩, And.right⟩

theorem pending_rollback {i j : Nat} {v : Option α} {s : Slot α} :
    (s.rollback i).pending = some (j, v) ↔ j ≠ i ∧ s.pending = some (j, v) := by
  by_cases h : s.holder = some i
  · have p := pending_of_holder h
    simp only [rollback_of_holder h, reduceCtorEq, p, Option.some.injEq, Prod.mk.injEq, false_iff]
    exact fun ⟨ne, eq, _⟩ => ne eq.symm
  · rw [rollback_of_other h]
    exact ⟨fun p => ⟨fun eq => h (eq ▸ holder_of_pending p), p⟩, And.right⟩

theorem view_rollback_self (i : Nat) (s : Slot α) : (s.rollback i).view i = s.committed := by
  rw [view_of_not_holder (holder_rollback_ne i s), committed_rollback]

theorem view_rollback_other {i j : Nat} {s : Slot α} (ne : j ≠ i) : (s.rollback i).view j = s.view j := by
  by_cases h : s.holder = some i
  · have away : s.holder ≠ some j := by simpa [h] using Ne.symm ne
    rw [view_of_not_holder away, rollback_of_holder h]
    rfl
  · rw [rollback_of_other h]

theorem version_view {i : Nat} {a : α} {s : Slot α} (h : s.view i = some a) : s.Version a := by
  by_cases held : s.holder = some i
  · exact Or.inr ⟨i, by rw [pending_of_holder held, h]⟩
  · exact Or.inl (by rw [← view_of_not_holder held, h])

theorem version_write {i : Nat} {v : Option α} {a : α} {s : Slot α} (h : (s.write i v).Version a) :
    s.Version a ∨ v = some a := by
  rcases h with h | ⟨j, h⟩
  · exact Or.inl (Or.inl h)
  · simp only [pending_write, Option.some.injEq, Prod.mk.injEq] at h
    exact Or.inr h.2

theorem version_commit {i : Nat} {a : α} {s : Slot α} (h : (s.commit i).Version a) : s.Version a := by
  rcases h with h | ⟨j, h⟩
  · exact version_view (by simpa using h)
  · exact Or.inr ⟨j, (pending_commit.mp h).2⟩

theorem version_rollback {i : Nat} {a : α} {s : Slot α} (h : (s.rollback i).Version a) : s.Version a := by
  rcases h with h | ⟨j, h⟩
  · exact Or.inl (by simpa using h)
  · exact Or.inr ⟨j, (pending_rollback.mp h).2⟩

end Slot

/-- A table: the keys ever inserted, oldest first, and the slot of each. -/
structure Table (κ α : Type) where
  keys : List κ
  slot : κ → Slot α
  keys_nodup : keys.Nodup
  slot_outside : ∀ k, k ∉ keys → slot k = {}

/-- How a transaction's statement or end leaves the transaction: open, committed or undone. -/
inductive Fate where
  | isOpen | applied | undone
  deriving DecidableEq, Repr

/-- The outcome of a statement: its result and the new table, an error, or a wait for a lock. -/
inductive Outcome (ε ρ τ : Type) where
  | ok (result : ρ) (table : τ)
  | fails (error : ε)
  | waits

namespace Table
variable {κ α : Type}

def empty : Table κ α where
  keys := []
  slot := fun _ => {}
  keys_nodup := List.nodup_nil
  slot_outside := fun _ _ => rfl

instance : Inhabited (Table κ α) := ⟨empty⟩

/-- The rows transaction `i` sees, in insertion order. -/
def rows (i : Nat) (t : Table κ α) : List α := t.keys.filterMap fun k => (t.slot k).view i

def committedRows (t : Table κ α) : List α := t.keys.filterMap fun k => (t.slot k).committed

def commit (i : Nat) (t : Table κ α) : Table κ α where
  keys := t.keys
  slot := fun k => (t.slot k).commit i
  keys_nodup := t.keys_nodup
  slot_outside := fun k h => by simp [t.slot_outside k h, Slot.commit, Slot.holder]

def rollback (i : Nat) (t : Table κ α) : Table κ α where
  keys := t.keys
  slot := fun k => (t.slot k).rollback i
  keys_nodup := t.keys_nodup
  slot_outside := fun k h => by simp [t.slot_outside k h, Slot.rollback, Slot.holder]

/-- The table after transaction `i` has gone the way `fate` says. -/
def settle (i : Nat) : Fate → Table κ α → Table κ α
  | .isOpen, t => t
  | .applied, t => t.commit i
  | .undone, t => t.rollback i

variable [DecidableEq κ]

/-- Transaction `i` writes the version `v` of row `k`, `none` to delete it. -/
def write (i : Nat) (k : κ) (v : Option α) (t : Table κ α) : Table κ α where
  keys := t.keys
  slot := fun k' => if k' = k ∧ k ∈ t.keys then (t.slot k).write i v else t.slot k'
  keys_nodup := t.keys_nodup
  slot_outside := fun k' h => by
    have away : ¬(k' = k ∧ k ∈ t.keys) := fun ⟨eq, member⟩ => h (eq ▸ member)
    simp [away, t.slot_outside k' h]

def insert (i : Nat) (k : κ) (a : α) (t : Table κ α) (fresh : k ∉ t.keys) : Table κ α where
  keys := t.keys ++ [k]
  slot := fun k' => if k' = k then { pending := some (i, some a) } else t.slot k'
  keys_nodup := by
    rw [List.nodup_append]
    refine ⟨t.keys_nodup, List.nodup_singleton k, ?_⟩
    rintro a member b single rfl
    exact fresh (List.mem_singleton.mp single ▸ member)
  slot_outside := fun k' h => by
    simp only [List.mem_append, List.mem_singleton, not_or] at h
    simp [h.2, t.slot_outside k' h.1]

/-! ### What the operations do to a slot -/

@[simp] theorem keys_write (i : Nat) (k : κ) (v : Option α) (t : Table κ α) : (t.write i k v).keys = t.keys := rfl
omit [DecidableEq κ] in
@[simp] theorem keys_commit (i : Nat) (t : Table κ α) : (t.commit i).keys = t.keys := rfl
omit [DecidableEq κ] in
@[simp] theorem keys_rollback (i : Nat) (t : Table κ α) : (t.rollback i).keys = t.keys := rfl
@[simp] theorem keys_insert (i : Nat) (k : κ) (a : α) (t : Table κ α) (fresh : k ∉ t.keys) :
    (t.insert i k a fresh).keys = t.keys ++ [k] := rfl
omit [DecidableEq κ] in
@[simp] theorem slot_commit (i : Nat) (k : κ) (t : Table κ α) : (t.commit i).slot k = (t.slot k).commit i := rfl
omit [DecidableEq κ] in
@[simp] theorem slot_rollback (i : Nat) (k : κ) (t : Table κ α) : (t.rollback i).slot k = (t.slot k).rollback i := rfl

omit [DecidableEq κ] in
@[simp] theorem keys_settle (i : Nat) (fate : Fate) (t : Table κ α) : (t.settle i fate).keys = t.keys := by
  cases fate <;> rfl

omit [DecidableEq κ] in
theorem mem_keys_of_view {i : Nat} {k : κ} {a : α} {t : Table κ α} (h : (t.slot k).view i = some a) : k ∈ t.keys := by
  by_contra outside
  simp [t.slot_outside k outside, Slot.view] at h

omit [DecidableEq κ] in
theorem mem_keys_of_version {k : κ} {a : α} {t : Table κ α} (h : (t.slot k).Version a) : k ∈ t.keys := by
  by_contra outside
  simp [t.slot_outside k outside, Slot.Version] at h

omit [DecidableEq κ] in
theorem version_settle {i : Nat} {fate : Fate} {k : κ} {a : α} {t : Table κ α}
    (h : ((t.settle i fate).slot k).Version a) : (t.slot k).Version a := by
  cases fate with
  | isOpen => exact h
  | applied => exact Slot.version_commit h
  | undone => exact Slot.version_rollback h

omit [DecidableEq κ] in
theorem holder_settle {i j : Nat} {fate : Fate} {k : κ} {t : Table κ α} (ends : fate ≠ .isOpen)
    (held : ((t.settle i fate).slot k).holder = some j) : j ≠ i ∧ (t.slot k).holder = some j := by
  have pending := Slot.pending_of_holder held
  cases fate with
  | isOpen => exact (ends rfl).elim
  | applied => exact ⟨(Slot.pending_commit.mp pending).1, Slot.holder_of_pending (Slot.pending_commit.mp pending).2⟩
  | undone => exact ⟨(Slot.pending_rollback.mp pending).1, Slot.holder_of_pending (Slot.pending_rollback.mp pending).2⟩

omit [DecidableEq κ] in
theorem slot_settle_other {i : Nat} (fate : Fate) {k : κ} {t : Table κ α} (other : (t.slot k).holder ≠ some i) :
    (t.settle i fate).slot k = t.slot k := by
  cases fate with
  | isOpen => rfl
  | applied => exact Slot.commit_of_other other
  | undone => exact Slot.rollback_of_other other

omit [DecidableEq κ] in
/-- A row that is locked after the end of a transaction was left alone by it. -/
theorem slot_settle_held {i j : Nat} {fate : Fate} {k : κ} {v : Option α} {t : Table κ α}
    (pending : ((t.settle i fate).slot k).pending = some (j, v)) : (t.settle i fate).slot k = t.slot k := by
  by_cases ends : fate = .isOpen
  · rw [ends]
    rfl
  · obtain ⟨ne, held⟩ := holder_settle ends (Slot.holder_of_pending pending)
    exact slot_settle_other fate (by rw [held]; simpa using ne)

omit [DecidableEq κ] in
/-- Only a commit changes what is committed, and only in the rows that its transaction has locked. -/
theorem committed_settle (i : Nat) (fate : Fate) (k : κ) (t : Table κ α) :
    ((t.settle i fate).slot k).committed = (t.slot k).committed ∨
      fate = .applied ∧ (t.slot k).pending = some (i, ((t.settle i fate).slot k).committed) := by
  cases fate with
  | isOpen => exact Or.inl rfl
  | undone => exact Or.inl (Slot.committed_rollback i _)
  | applied =>
    by_cases held : (t.slot k).holder = some i
    · refine Or.inr ⟨rfl, ?_⟩
      change _ = some (i, ((t.slot k).commit i).committed)
      rw [Slot.committed_commit]
      exact Slot.pending_of_holder held
    · exact Or.inl (congrArg Slot.committed (slot_settle_other .applied held))

theorem slot_write_self {i : Nat} {k : κ} {v : Option α} {t : Table κ α} (member : k ∈ t.keys) :
    (t.write i k v).slot k = (t.slot k).write i v := by simp [write, member]

theorem slot_write_other {i : Nat} {k k' : κ} {v : Option α} {t : Table κ α} (ne : k' ≠ k) :
    (t.write i k v).slot k' = t.slot k' := by simp [write, ne]

@[simp] theorem slot_insert_self (i : Nat) (k : κ) (a : α) (t : Table κ α) (fresh : k ∉ t.keys) :
    (t.insert i k a fresh).slot k = { pending := some (i, some a) } := by simp [insert]

theorem slot_insert_other {i : Nat} {k k' : κ} {a : α} {t : Table κ α} {fresh : k ∉ t.keys} (ne : k' ≠ k) :
    (t.insert i k a fresh).slot k' = t.slot k' := by simp [insert, ne]

@[simp] theorem committed_write (i : Nat) (k k' : κ) (v : Option α) (t : Table κ α) :
    ((t.write i k v).slot k').committed = (t.slot k').committed := by
  unfold write
  dsimp only
  split
  · rename_i h; simp [h.1]
  · rfl

theorem committed_insert (i : Nat) (k k' : κ) (a : α) (t : Table κ α) (fresh : k ∉ t.keys) :
    ((t.insert i k a fresh).slot k').committed = (t.slot k').committed := by
  by_cases h : k' = k
  · subst h; simp [t.slot_outside _ fresh]
  · rw [slot_insert_other h]

theorem version_write {i : Nat} {k k' : κ} {v : Option α} {b : α} {t : Table κ α}
    (h : ((t.write i k v).slot k').Version b) : (t.slot k').Version b ∨ k' = k ∧ v = some b := by
  unfold write at h
  dsimp only at h
  split at h
  · rename_i here
    obtain ⟨rfl, -⟩ := here
    exact (Slot.version_write h).imp_right fun new => ⟨rfl, new⟩
  · exact Or.inl h

theorem version_insert {i : Nat} {k k' : κ} {a b : α} {t : Table κ α} {fresh : k ∉ t.keys}
    (h : ((t.insert i k a fresh).slot k').Version b) : (t.slot k').Version b ∨ k' = k ∧ b = a := by
  by_cases here : k' = k
  · subst here
    rw [slot_insert_self] at h
    rcases h with old | ⟨_, new⟩
    · cases old
    · cases new
      exact Or.inr ⟨rfl, rfl⟩
  · rw [slot_insert_other here] at h
    exact Or.inl h

/-! ### What a transaction sees -/

omit [DecidableEq κ] in
theorem mem_rows {i : Nat} {a : α} {t : Table κ α} : a ∈ t.rows i ↔ ∃ k, (t.slot k).view i = some a := by
  simp only [rows, List.mem_filterMap]
  exact ⟨fun ⟨k, _, h⟩ => ⟨k, h⟩, fun ⟨k, h⟩ => ⟨k, mem_keys_of_view h, h⟩⟩

omit [DecidableEq κ] in
theorem mem_committedRows {a : α} {t : Table κ α} : a ∈ t.committedRows ↔ ∃ k, (t.slot k).committed = some a := by
  simp only [committedRows, List.mem_filterMap]
  exact ⟨fun ⟨k, _, h⟩ => ⟨k, h⟩, fun ⟨k, h⟩ => ⟨k, mem_keys_of_version (Or.inl h), h⟩⟩

omit [DecidableEq κ] in
@[simp] theorem committedRows_commit (i : Nat) (t : Table κ α) : (t.commit i).committedRows = t.rows i := by
  simp [committedRows, rows]

omit [DecidableEq κ] in
@[simp] theorem committedRows_rollback (i : Nat) (t : Table κ α) : (t.rollback i).committedRows = t.committedRows := by
  simp [committedRows]

@[simp] theorem committedRows_write (i : Nat) (k : κ) (v : Option α) (t : Table κ α) :
    (t.write i k v).committedRows = t.committedRows := by
  simp [committedRows]

@[simp] theorem committedRows_insert (i : Nat) (k : κ) (a : α) (t : Table κ α) (fresh : k ∉ t.keys) :
    (t.insert i k a fresh).committedRows = t.committedRows := by
  simp [committedRows, committed_insert, t.slot_outside _ fresh]

omit [DecidableEq κ] in
theorem rows_rollback_other {i j : Nat} (ne : j ≠ i) (t : Table κ α) : (t.rollback i).rows j = t.rows j := by
  simp [rows, Slot.view_rollback_other ne]

theorem rows_insert_self (i : Nat) (k : κ) (a : α) (t : Table κ α) (fresh : k ∉ t.keys) :
    (t.insert i k a fresh).rows i = t.rows i ++ [a] := by
  have old : t.keys.filterMap (fun k' => ((t.insert i k a fresh).slot k').view i) =
      t.keys.filterMap (fun k' => (t.slot k').view i) :=
    List.filterMap_congr fun k' member => by rw [slot_insert_other (ne_of_mem_of_not_mem member fresh)]
  rw [rows, keys_insert, List.filterMap_append, old]
  simp [rows, Slot.view]

theorem rows_insert_other {i j : Nat} (ne : j ≠ i) (k : κ) (a : α) (t : Table κ α) (fresh : k ∉ t.keys) :
    (t.insert i k a fresh).rows j = t.rows j := by
  have old : t.keys.filterMap (fun k' => ((t.insert i k a fresh).slot k').view j) =
      t.keys.filterMap (fun k' => (t.slot k').view j) :=
    List.filterMap_congr fun k' member => by rw [slot_insert_other (ne_of_mem_of_not_mem member fresh)]
  rw [rows, keys_insert, List.filterMap_append, old]
  simp [rows, Slot.view, Ne.symm ne]

/-! ### Row statements -/

/-- What a single-row `UPDATE` or `DELETE` does: no row matches, it waits for the lock, or it writes. -/
inductive RowWrite (κ α : Type) where
  | missed
  | waits
  | wrote (old : α) (table : Table κ α)

/-- `UPDATE … WHERE id = k AND p`: the newest version that `i` may see decides, and the lock is
taken before the new version is written. -/
def updateRow (i : Nat) (k : κ) (p : α → Bool) (f : α → Option α) (t : Table κ α) : RowWrite κ α :=
  match (t.slot k).view i with
  | none => .missed
  | some a => if p a then (if (t.slot k).Free i then .wrote a (t.write i k (f a)) else .waits) else .missed

theorem updateRow_wrote {i : Nat} {k : κ} {p : α → Bool} {f : α → Option α} {t t' : Table κ α} {a : α}
    (h : t.updateRow i k p f = .wrote a t') :
    (t.slot k).view i = some a ∧ p a = true ∧ (t.slot k).Free i ∧ t' = t.write i k (f a) := by
  unfold updateRow at h
  split at h
  · cases h
  · rename_i b seen
    split at h
    · split at h
      · cases h
        exact ⟨seen, by assumption, by assumption, rfl⟩
      · cases h
    · cases h

theorem updateRow_missed {i : Nat} {k : κ} {p : α → Bool} {f : α → Option α} {t : Table κ α}
    (h : t.updateRow i k p f = .missed) : ∀ a, (t.slot k).view i = some a → p a = false := by
  intro a seen
  simp only [updateRow, seen] at h
  cases matched : p a with
  | false => rfl
  | true => rw [matched, if_pos rfl] at h; split at h <;> cases h

/-- Another transaction has inserted, changed or deleted a row that `p` describes and has not ended. -/
def inDoubt (i : Nat) (p : α → Bool) (t : Table κ α) : Bool :=
  t.keys.any fun k => match (t.slot k).pending with
    | some (j, v) => j != i && (v.any p || (t.slot k).committed.any p)
    | none => false

/-- `INSERT` under a unique constraint whose conflicting rows are those `p` describes. -/
inductive RowInsert (κ α : Type) where
  | duplicate
  | waits
  | inserted (table : Table κ α)

def insertUnique (i : Nat) (k : κ) (p : α → Bool) (a : α) (t : Table κ α) (fresh : k ∉ t.keys) : RowInsert κ α :=
  if t.inDoubt i p then .waits
  else if (t.rows i).any p then .duplicate
  else .inserted (t.insert i k a fresh)

/-- An insert went through only if no version of any row conflicts with it. -/
theorem insertUnique_inserted {i : Nat} {k : κ} {p : α → Bool} {a : α} {t t' : Table κ α} {fresh : k ∉ t.keys}
    (h : t.insertUnique i k p a fresh = .inserted t') :
    t' = t.insert i k a fresh ∧ ∀ k' b, (t.slot k').Version b → (t.slot k').view i = some b ∨
      (t.slot k').holder ≠ some i → p b = false := by
  unfold insertUnique at h
  split at h
  · cases h
  · rename_i settled
    split at h
    · cases h
    · rename_i unique
      cases h
      refine ⟨rfl, ?_⟩
      intro k' b version seen
      simp only [List.any_eq_true, not_exists, not_and, Bool.not_eq_true] at unique
      by_contra conflict
      have conflict : p b = true := by simpa using conflict
      by_cases mine : (t.slot k').view i = some b
      · have := unique b (mem_rows.mpr ⟨k', mine⟩)
        simp [conflict] at this
      · have away : (t.slot k').holder ≠ some i := seen.resolve_left mine
        rcases version with old | ⟨j, new⟩
        · exact mine (by rw [Slot.view_of_not_holder away, old])
        · apply settled
          have ne : j ≠ i := fun eq => away (eq ▸ Slot.holder_of_pending new)
          simp only [inDoubt, List.any_eq_true]
          exact ⟨k', mem_keys_of_version (Or.inr ⟨j, new⟩), by simp [new, ne, conflict]⟩

end Table

end ReadCommitted
