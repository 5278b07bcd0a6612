import TheClub.ReadCommitted.Table

/-!
Journalled rows. Every write of a main row that changes its history owes the journal table
one line, and a transaction pays its debts in order before it commits. Between the two
statements the tables disagree; `Journalled` says by exactly what. It implies that committed
rows and committed journal lines always agree, whatever other transactions are doing.
-/

namespace ReadCommitted

/-- `hist` lists the lines a main row stands for, `owner` and `line` read a journal row. -/
structure Bookkeeping (κ α β ℓ : Type) where
  hist : α → List ℓ
  owner : β → κ
  line : β → ℓ

namespace Bookkeeping
variable {κ μ α β ℓ : Type} [DecidableEq κ] (K : Bookkeeping κ α β ℓ)

/-- The line that a journal row, if there is one, keeps for main row `k`. -/
def lineFor (k : κ) (b : Option β) : Option ℓ := b.bind fun b => if K.owner b = k then some (K.line b) else none

/-- The lines that `rows` keep for main row `k`, in order. -/
def lines (k : κ) (rows : List β) : List ℓ := rows.filterMap fun b => K.lineFor k (some b)

def histOf (a : Option α) : List ℓ := a.elim [] K.hist

/-- What `owed` still has to be written for main row `k`. -/
def debts (k : κ) (owed : List (κ × ℓ)) : List ℓ := owed.filterMap fun d => if d.1 = k then some d.2 else none

/-- Main table `M`, journal `J` and the debts of each open transaction. -/
structure Journalled (M : Table κ α) (J : Table μ β) (owed : Nat → List (κ × ℓ)) : Prop where
  balanced : ∀ k, K.lines k J.committedRows = K.histOf (M.slot k).committed
  held : ∀ i k v, (M.slot k).pending = some (i, v) → K.lines k (J.rows i) ++ debts k (owed i) = K.histOf v
  appended : ∀ i m v, (J.slot m).pending = some (i, v) →
    (J.slot m).committed = none ∧ ∃ b, v = some b ∧ (M.slot (K.owner b)).holder = some i
  solvent : ∀ i k l, (k, l) ∈ owed i → (M.slot k).holder = some i

variable {K}

theorem lines_rows (k : κ) (i : Nat) (J : Table μ β) :
    K.lines k (J.rows i) = J.keys.filterMap fun m => K.lineFor k ((J.slot m).view i) := by
  rw [lines, Table.rows, List.filterMap_filterMap]
  refine List.filterMap_congr fun m _ => ?_
  cases (J.slot m).view i <;> rfl

theorem lines_committedRows (k : κ) (J : Table μ β) :
    K.lines k J.committedRows = J.keys.filterMap fun m => K.lineFor k (J.slot m).committed := by
  rw [lines, Table.committedRows, List.filterMap_filterMap]
  refine List.filterMap_congr fun m _ => ?_
  cases (J.slot m).committed <;> rfl

theorem lines_append (k : κ) (xs ys : List β) : K.lines k (xs ++ ys) = K.lines k xs ++ K.lines k ys := by
  simp [lines]

theorem lines_singleton (k : κ) (b : β) : K.lines k [b] = if K.owner b = k then [K.line b] else [] := by
  by_cases h : K.owner b = k <;> simp [lines, lineFor, h]

theorem debts_append (k : κ) (xs ys : List (κ × ℓ)) : debts k (xs ++ ys) = debts k xs ++ debts k ys := by
  simp [debts]

theorem debts_cons (k : κ) (d : κ × ℓ) (ds : List (κ × ℓ)) :
    debts k (d :: ds) = (if d.1 = k then [d.2] else []) ++ debts k ds := by
  by_cases h : d.1 = k <;> simp [debts, h]

@[simp] theorem debts_nil (k : κ) : debts (ℓ := ℓ) k [] = [] := rfl

namespace Journalled
variable {M : Table κ α} {J : Table μ β} {owed : Nat → List (κ × ℓ)}

theorem empty : K.Journalled (Table.empty : Table κ α) (Table.empty : Table μ β) fun _ => [] where
  balanced _ := rfl
  held _ _ _ h := by simp [Table.empty] at h
  appended _ _ _ h := by simp [Table.empty] at h
  solvent _ _ _ h := by simp at h

theorem lines_of_not_holder (inv : K.Journalled M J owed) {i : Nat} {k : κ} (away : (M.slot k).holder ≠ some i) :
    K.lines k (J.rows i) = K.lines k J.committedRows := by
  rw [lines_rows, lines_committedRows]
  refine List.filterMap_congr fun m _ => ?_
  by_cases held : (J.slot m).holder = some i
  · obtain ⟨absent, b, new, owner⟩ := inv.appended i m _ (Slot.pending_of_holder held)
    have other : K.owner b ≠ k := fun same => away (same ▸ owner)
    simp [new, absent, lineFor, other]
  · rw [Slot.view_of_not_holder held]

theorem debts_of_not_holder (inv : K.Journalled M J owed) {i : Nat} {k : κ} (away : (M.slot k).holder ≠ some i) :
    debts k (owed i) = [] := by
  refine List.filterMap_eq_nil_iff.mpr ?_
  rintro ⟨k', l⟩ member
  have held := inv.solvent i k' l member
  have ne : k' ≠ k := fun same => away (same ▸ held)
  simp [ne]

/-- What a transaction sees of the journal, with its debts paid, is the history it sees. -/
theorem current (inv : K.Journalled M J owed) (i : Nat) (k : κ) :
    K.lines k (J.rows i) ++ debts k (owed i) = K.histOf ((M.slot k).view i) := by
  by_cases held : (M.slot k).holder = some i
  · exact inv.held i k _ (Slot.pending_of_holder held)
  · rw [inv.lines_of_not_holder held, inv.debts_of_not_holder held, List.append_nil, inv.balanced,
      Slot.view_of_not_holder held]

theorem write (inv : K.Journalled M J owed) {i : Nat} {k : κ} {a a' : α} (new : List ℓ)
    (seen : (M.slot k).view i = some a) (free : (M.slot k).Free i) (hist : K.hist a' = K.hist a ++ new) :
    K.Journalled (M.write i k (some a')) J (Function.update owed i (owed i ++ new.map (k, ·))) := by
  have member := Table.mem_keys_of_view seen
  have holder : ∀ {j k'}, (M.slot k').holder = some j → ((M.write i k (some a')).slot k').holder = some j := by
    intro j k' held
    by_cases same : k' = k
    · subst same
      rw [Table.slot_write_self member, Slot.holder_write]
      rcases free with h | h <;> simp_all
    · rwa [Table.slot_write_other same]
  refine ⟨fun k' => by rw [Table.committed_write]; exact inv.balanced k', ?_, ?_, ?_⟩
  · intro j k' v pending
    by_cases same : k' = k
    · subst same
      rw [Table.slot_write_self member, Slot.pending_write] at pending
      obtain ⟨rfl, rfl⟩ := Prod.mk.inj (Option.some.inj pending)
      have before := inv.current i k'
      rw [seen] at before
      have paid : debts k' (new.map (k', ·)) = new := by simp [debts, List.filterMap_map]
      simp only [Function.update_self, debts_append, paid, histOf, Option.elim] at before ⊢
      rw [hist, ← List.append_assoc, before]
    · rw [Table.slot_write_other same] at pending
      by_cases mine : j = i
      · subst mine
        have none : debts k' (new.map (k, ·)) = [] := by
          simp [debts, List.filterMap_map, Ne.symm same]
        simpa [debts_append, none] using inv.held j k' v pending
      · simpa [mine] using inv.held j k' v pending
  · intro j m v pending
    obtain ⟨absent, b, row, held⟩ := inv.appended j m v pending
    exact ⟨absent, b, row, holder held⟩
  · intro j k' l owes
    by_cases mine : j = i
    · subst mine
      simp only [Function.update_self, List.mem_append, List.mem_map, Prod.mk.injEq] at owes
      rcases owes with old | ⟨_, _, rfl, rfl⟩
      · exact holder (inv.solvent _ _ _ old)
      · rw [Table.slot_write_self member, Slot.holder_write]
    · exact holder (inv.solvent _ _ _ (by simpa [mine] using owes))

theorem touch (inv : K.Journalled M J owed) {i : Nat} {k : κ} {a a' : α}
    (seen : (M.slot k).view i = some a) (free : (M.slot k).Free i) (hist : K.hist a' = K.hist a) :
    K.Journalled (M.write i k (some a')) J owed := by
  have kept := inv.write [] seen free (by simpa using hist)
  simpa using kept

theorem create (inv : K.Journalled M J owed) {i : Nat} {k : κ} {a : α} (fresh : k ∉ M.keys) (hist : K.hist a = []) :
    K.Journalled (M.insert i k a fresh) J owed := by
  have holder : ∀ {j k'}, (M.slot k').holder = some j → ((M.insert i k a fresh).slot k').holder = some j := by
    intro j k' held
    have ne : k' ≠ k := by
      rintro rfl
      simp [M.slot_outside _ fresh, Slot.holder] at held
    rwa [Table.slot_insert_other ne]
  refine ⟨fun k' => by rw [Table.committed_insert]; exact inv.balanced k', ?_, ?_, ?_⟩
  · intro j k' v pending
    by_cases same : k' = k
    · subst same
      rw [Table.slot_insert_self] at pending
      obtain ⟨rfl, rfl⟩ := Prod.mk.inj (Option.some.inj pending)
      rw [inv.current i k', M.slot_outside _ fresh]
      simp [histOf, Slot.view, hist]
    · rw [Table.slot_insert_other same] at pending
      exact inv.held j k' v pending
  · intro j m v pending
    obtain ⟨absent, b, row, held⟩ := inv.appended j m v pending
    exact ⟨absent, b, row, holder held⟩
  · exact fun j k' l owes => holder (inv.solvent _ _ _ owes)

/-- A journal row pays the oldest debt. -/
theorem pay [DecidableEq μ] (inv : K.Journalled M J owed) {i : Nat} {m : μ} {b : β} {rest : List (κ × ℓ)}
    (fresh : m ∉ J.keys)
    (oldest : owed i = (K.owner b, K.line b) :: rest) :
    K.Journalled M (J.insert i m b fresh) (Function.update owed i rest) := by
  refine ⟨fun k => by rw [Table.committedRows_insert]; exact inv.balanced k, ?_, ?_, ?_⟩
  · intro j k v pending
    have before := inv.held j k v pending
    by_cases mine : j = i
    · subst mine
      rw [Table.rows_insert_self, lines_append, lines_singleton, Function.update_self, List.append_assoc]
      rwa [oldest, debts_cons] at before
    · rw [Table.rows_insert_other mine]
      simpa [mine] using before
  · intro j m' v pending
    by_cases same : m' = m
    · subst same
      rw [Table.slot_insert_self] at pending ⊢
      obtain ⟨rfl, rfl⟩ := Prod.mk.inj (Option.some.inj pending)
      exact ⟨rfl, b, rfl, inv.solvent i _ _ (by rw [oldest]; exact List.mem_cons_self)⟩
    · rw [Table.slot_insert_other same] at pending ⊢
      exact inv.appended j m' v pending
  · intro j k l owes
    by_cases mine : j = i
    · subst mine
      exact inv.solvent _ _ _ (by rw [oldest]; exact List.mem_cons_of_mem _ (by simpa using owes))
    · exact inv.solvent _ _ _ (by simpa [mine] using owes)

omit [DecidableEq κ] in
theorem holder_commit {i j : Nat} {k : κ} {M : Table κ α} (ne : j ≠ i) (held : (M.slot k).holder = some j) :
    ((M.commit i).slot k).holder = some j := by
  rw [Table.slot_commit, Slot.commit_of_other (by rw [held]; simpa using ne), held]

theorem commit (inv : K.Journalled M J owed) {i : Nat} (paid : owed i = []) :
    K.Journalled (M.commit i) (J.commit i) owed := by
  refine ⟨?_, ?_, ?_, ?_⟩
  · intro k
    rw [Table.committedRows_commit, Table.slot_commit, Slot.committed_commit, ← inv.current i k, paid]
    simp
  · intro j k v pending
    obtain ⟨ne, before⟩ := Slot.pending_commit.mp pending
    rw [← inv.held j k v before, lines_rows, lines_rows]
    congr 1
    refine List.filterMap_congr fun m _ => ?_
    by_cases held : (J.slot m).holder = some i
    · -- the row committed here belongs to another main row, since `j` holds the lock of `k`
      obtain ⟨absent, b, new, owner⟩ := inv.appended i m _ (Slot.pending_of_holder held)
      have other : K.owner b ≠ k := by
        rintro rfl
        rw [Slot.holder_of_pending before] at owner
        exact ne (Option.some.inj owner)
      have away : (J.slot m).holder ≠ some j := by simpa [held] using Ne.symm ne
      rw [Table.slot_commit, Slot.commit_of_holder held, Slot.view_of_not_holder away, absent, new]
      simp [Slot.view, lineFor, other]
    · rw [Table.slot_commit, Slot.commit_of_other held]
  · intro j m v pending
    obtain ⟨ne, before⟩ := Slot.pending_commit.mp pending
    obtain ⟨absent, b, row, held⟩ := inv.appended j m v before
    refine ⟨?_, b, row, holder_commit ne held⟩
    have away : (J.slot m).holder ≠ some i := by simpa [Slot.holder_of_pending before] using ne
    rw [Table.slot_commit, Slot.committed_commit, Slot.view_of_not_holder away, absent]
  · intro j k l owes
    have ne : j ≠ i := by
      rintro rfl
      simp [paid] at owes
    exact holder_commit ne (inv.solvent j k l owes)

omit [DecidableEq κ] in
theorem holder_rollback {i j : Nat} {k : κ} {M : Table κ α} (ne : j ≠ i) (held : (M.slot k).holder = some j) :
    ((M.rollback i).slot k).holder = some j := by
  rw [Table.slot_rollback, Slot.rollback_of_other (by rw [held]; simpa using ne), held]

theorem rollback (inv : K.Journalled M J owed) (i : Nat) :
    K.Journalled (M.rollback i) (J.rollback i) (Function.update owed i []) := by
  refine ⟨?_, ?_, ?_, ?_⟩
  · intro k
    rw [Table.committedRows_rollback, Table.slot_rollback, Slot.committed_rollback]
    exact inv.balanced k
  · intro j k v pending
    obtain ⟨ne, before⟩ := Slot.pending_rollback.mp pending
    rw [Table.rows_rollback_other ne, Function.update_of_ne ne]
    exact inv.held j k v before
  · intro j m v pending
    obtain ⟨ne, before⟩ := Slot.pending_rollback.mp pending
    obtain ⟨absent, b, row, held⟩ := inv.appended j m v before
    exact ⟨by rw [Table.slot_rollback, Slot.committed_rollback, absent], b, row, holder_rollback ne held⟩
  · intro j k l owes
    by_cases mine : j = i
    · subst mine; simp at owes
    · exact holder_rollback mine (inv.solvent j k l (by simpa [mine] using owes))

theorem settle (inv : K.Journalled M J owed) {i : Nat} {fate : Fate} (paid : fate = .applied → owed i = [])
    (ends : fate ≠ .isOpen) :
    K.Journalled (M.settle i fate) (J.settle i fate) (Function.update owed i []) := by
  cases fate with
  | isOpen => exact (ends rfl).elim
  | applied =>
    have none := paid rfl
    rw [← none, Function.update_eq_self]
    exact inv.commit none
  | undone => exact inv.rollback i

end Journalled

end Bookkeeping

end ReadCommitted
