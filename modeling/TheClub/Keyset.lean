import Mathlib.Data.List.Sort
import Mathlib.Data.List.Nodup

/-!
Keyset pagination over rows with distinct keys, largest key first. A page starts after the last
key that was returned, so rows that are added between two pages move nothing.
-/

namespace Keyset
variable {α κ : Type} [LinearOrder κ] (key : α → κ)

/-- At most `limit` rows after the cursor, largest key first. -/
def page (rows : List α) (cursor : Option κ) (limit : Nat) : List α :=
  ((rows.filter fun a => cursor.all (key a < ·)).insertionSort fun a b => key b ≤ key a).take limit

/-- A full page leads to another one. -/
def next (page : List α) (limit : Nat) : Option κ := if page.length = limit then page.getLast?.map key else none

/-- The rows returned so far and the cursor of the last page, on `rows` as they are by then. The
walk started on `first`. -/
inductive Walk : (first rows returned : List α) → (cursor : Option κ) → Prop where
  | start {rows : List α} {limit : Nat} (distinct : (rows.map key).Nodup) (positive : 1 ≤ limit) :
    Walk rows rows (page key rows none limit) (next key (page key rows none limit) limit)
  | more {first rows rows' returned : List α} {k : κ} {limit : Nat} (walk : Walk first rows returned (some k))
      (grown : rows ⊆ rows') (distinct : (rows'.map key).Nodup) (positive : 1 ≤ limit) :
    Walk first rows' (returned ++ page key rows' (some k) limit) (next key (page key rows' (some k) limit) limit)

variable {key} {rows : List α} {cursor : Option κ} {limit : Nat}

/-! ### One page -/

theorem page_append (key : α → κ) (rows : List α) (cursor : Option κ) (limit : Nat) : ∃ rest,
    (page key rows cursor limit ++ rest).Perm (rows.filter fun a => cursor.all (key a < ·)) ∧
    (page key rows cursor limit ++ rest).Pairwise (fun a b => key b ≤ key a) ∧
    ((page key rows cursor limit).length < limit → rest = []) ∧ (page key rows cursor limit).length ≤ limit := by
  refine ⟨((rows.filter fun a => cursor.all (key a < ·)).insertionSort fun a b => key b ≤ key a).drop limit, ?_⟩
  unfold page
  rw [List.take_append_drop]
  refine ⟨List.perm_insertionSort .., ?_, fun short => ?_, List.length_take_le ..⟩
  · have total : Std.Total fun a b : α => key b ≤ key a := ⟨fun a b => le_total (key b) (key a)⟩
    have trans : IsTrans α fun a b => key b ≤ key a := ⟨fun a b c left right => right.trans left⟩
    exact List.pairwise_insertionSort ..
  · rw [List.length_take] at short
    exact List.drop_eq_nil_of_le (by omega)

theorem mem_page {a : α} (member : a ∈ page key rows cursor limit) : a ∈ rows ∧ ∀ k ∈ cursor, key a < k := by
  obtain ⟨rest, perm, -⟩ := page_append key rows cursor limit
  obtain ⟨known, after⟩ := List.mem_filter.mp (perm.subset (List.mem_append_left _ member))
  refine ⟨known, ?_⟩
  rintro k rfl
  simpa using after

theorem page_decreasing (distinct : (rows.map key).Nodup) :
    (page key rows cursor limit).Pairwise fun a b => key b < key a := by
  obtain ⟨rest, perm, sorted, -⟩ := page_append key rows cursor limit
  have keys : ((page key rows cursor limit ++ rest).map key).Nodup :=
    (perm.map key).nodup_iff.mpr (distinct.sublist (List.filter_sublist.map key))
  rw [List.nodup_iff_pairwise_ne, List.pairwise_map] at keys
  refine ((sorted.and keys).imp fun ⟨le, ne⟩ => ?_).sublist (List.sublist_append_left _ rest)
  exact lt_of_le_of_ne le ne.symm

/-- A row after the cursor is on the page, or the page is full and ends before it. -/
theorem mem_page_or (distinct : (rows.map key).Nodup) {a : α} (member : a ∈ rows) (after : ∀ k ∈ cursor, key a < k) :
    a ∈ page key rows cursor limit ∨
      (page key rows cursor limit).length = limit ∧ ∀ b ∈ page key rows cursor limit, key a < key b := by
  obtain ⟨rest, perm, sorted, short, le⟩ := page_append key rows cursor limit
  have keys : ((page key rows cursor limit ++ rest).map key).Nodup :=
    (perm.map key).nodup_iff.mpr (distinct.sublist (List.filter_sublist.map key))
  have listed : a ∈ page key rows cursor limit ++ rest := by
    refine perm.symm.subset (List.mem_filter.mpr ⟨member, ?_⟩)
    cases cursor with
    | none => rfl
    | some k => simpa using after k rfl
  rcases List.mem_append.mp listed with here | later
  · exact Or.inl here
  · have full : (page key rows cursor limit).length = limit := by
      by_contra ne
      rw [short (by omega)] at later
      cases later
    refine Or.inr ⟨full, fun b here => ?_⟩
    have le := (List.pairwise_append.mp sorted).2.2 b here a later
    rw [List.map_append, List.nodup_append] at keys
    have ne := keys.2.2 (key b) (List.mem_map_of_mem here) (key a) (List.mem_map_of_mem later)
    exact lt_of_le_of_ne le ne.symm

theorem last_le {returned : List α} (ordered : returned.Pairwise fun a b => key b < key a) {a : α}
    (member : a ∈ returned) :
    ∃ last, returned.getLast? = some last ∧ key last ≤ key a := by
  induction returned generalizing a with
  | nil => cases member
  | cons b rest ih =>
    obtain ⟨before, decreasing⟩ := List.pairwise_cons.mp ordered
    cases rest with
    | nil =>
      obtain rfl := List.mem_singleton.mp member
      exact ⟨a, rfl, le_refl _⟩
    | cons c rest =>
      rcases List.mem_cons.mp member with rfl | later
      · obtain ⟨last, found, le⟩ := ih decreasing List.mem_cons_self
        exact ⟨last, by simpa using found, le.trans (before c List.mem_cons_self).le⟩
      · obtain ⟨last, found, le⟩ := ih decreasing later
        exact ⟨last, by simpa using found, le⟩

omit [LinearOrder κ] in
theorem next_some {p : List α} {k : κ} (h : next key p limit = some k) :
    p.length = limit ∧ ∃ last, p.getLast? = some last ∧ key last = k := by
  unfold next at h
  split at h
  · exact ⟨by assumption, Option.map_eq_some_iff.mp h⟩
  · cases h

omit [LinearOrder κ] in
theorem next_none {p : List α} (positive : 1 ≤ limit) (h : next key p limit = none) : p.length ≠ limit := by
  intro full
  unfold next at h
  rw [if_pos full, Option.map_eq_none_iff, List.getLast?_eq_none_iff] at h
  subst h
  simp at full
  omega

/-! ### Rows that were added in the order of their keys -/

/-- Sorted, largest key first, and read from the end, such rows stand in the order they were added. -/
theorem oldest_first {p : α → Bool} (distinct : (rows.map key).Nodup)
    (added : (rows.filter p).Pairwise fun a b => key a < key b) :
    (rows.insertionSort fun a b => key b ≤ key a).reverse.filter p = rows.filter p := by
  have total : Std.Total fun a b : α => key b ≤ key a := ⟨fun a b => le_total (key b) (key a)⟩
  have trans : IsTrans α fun a b => key b ≤ key a := ⟨fun a b c left right => right.trans left⟩
  have perm : (rows.insertionSort fun a b => key b ≤ key a).Perm rows := List.perm_insertionSort ..
  have sorted : (rows.insertionSort fun a b => key b ≤ key a).Pairwise fun a b => key b ≤ key a :=
    List.pairwise_insertionSort ..
  have keys : ((rows.insertionSort fun a b => key b ≤ key a).map key).Nodup := (perm.map key).nodup_iff.mpr distinct
  rw [List.nodup_iff_pairwise_ne, List.pairwise_map] at keys
  have decreasing : (rows.insertionSort fun a b => key b ≤ key a).Pairwise fun a b => key b < key a :=
    (sorted.and keys).imp fun ⟨le, ne⟩ => lt_of_le_of_ne le ne.symm
  refine List.Perm.eq_of_pairwise ?_ ((List.pairwise_reverse.mpr decreasing).filter p) added
    (((List.reverse_perm _).trans perm).filter p)
  intro a b _ _ less greater
  exact absurd less greater.asymm

/-! ### A walk -/

/-- What has been returned so far, and what is left for the rest of the walk. -/
structure Walked (key : α → κ) (first rows returned : List α) (cursor : Option κ) : Prop where
  ordered : returned.Pairwise fun a b => key b < key a
  exist : returned ⊆ rows
  kept : first ⊆ rows
  left : ∀ a ∈ first, a ∈ returned ∨ ∃ k ∈ cursor, key a < k
  last : ∀ k ∈ cursor, ∃ a, returned.getLast? = some a ∧ key a = k
  ended : cursor = none → ∀ a ∈ rows, ∃ b, returned.getLast? = some b ∧ key b ≤ key a

theorem walked_start (distinct : (rows.map key).Nodup) (positive : 1 ≤ limit) :
    Walked key rows rows (page key rows none limit) (next key (page key rows none limit) limit) := by
  have ordered : (page key rows none limit).Pairwise fun a b => key b < key a := page_decreasing distinct
  have found : ∀ a ∈ rows, a ∈ page key rows none limit ∨
      (page key rows none limit).length = limit ∧ ∀ b ∈ page key rows none limit, key a < key b :=
    fun a member => mem_page_or distinct member (by simp)
  refine ⟨ordered, fun a member => (mem_page member).1, fun _ => id, fun a member => ?_, fun k more =>
    (next_some more).2,
    fun stopped a member => ?_⟩
  · rcases found a member with here | ⟨full, below⟩
    · exact Or.inl here
    · cases h : next key (page key rows none limit) limit with
      | none => exact (next_none positive h full).elim
      | some k =>
        obtain ⟨-, b, last, rfl⟩ := next_some h
        exact Or.inr ⟨_, rfl, below b (List.mem_of_getLast? last)⟩
  · rcases found a member with here | ⟨full, -⟩
    · exact last_le ordered here
    · exact (next_none positive stopped full).elim

theorem Walked.more {first rows' returned : List α} {k : κ} (walked : Walked key first rows returned (some k))
    (grown : rows ⊆ rows') (distinct : (rows'.map key).Nodup) (positive : 1 ≤ limit) :
    Walked key first rows' (returned ++ page key rows' (some k) limit)
      (next key (page key rows' (some k) limit) limit) := by
  obtain ⟨b, last, rfl⟩ := walked.last k rfl
  have strict : (page key rows' (some (key b)) limit).Pairwise fun a b => key b < key a := page_decreasing distinct
  have below : ∀ a ∈ page key rows' (some (key b)) limit, key a < key b := fun a member => (mem_page member).2 _ rfl
  have above : ∀ a ∈ returned, key b ≤ key a := by
    intro a member
    obtain ⟨b', last', le⟩ := last_le walked.ordered member
    cases last.symm.trans last'
    exact le
  have ordered : (returned ++ page key rows' (some (key b)) limit).Pairwise fun a b => key b < key a :=
    List.pairwise_append.mpr ⟨walked.ordered, strict, fun a old c new => lt_of_lt_of_le (below c new) (above a old)⟩
  have found : ∀ a ∈ rows', key a < key b → a ∈ page key rows' (some (key b)) limit ∨
      (page key rows' (some (key b)) limit).length = limit ∧
          ∀ c ∈ page key rows' (some (key b)) limit, key a < key c := by
    intro a member after
    apply mem_page_or distinct member
    rintro k ⟨⟩
    exact after
  refine ⟨ordered, ?_, fun a old => grown (walked.kept old), fun a member => ?_, fun k more => ?_,
    fun stopped a member => ?_⟩
  · intro a member
    rcases List.mem_append.mp member with old | new
    · exact grown (walked.exist old)
    · exact (mem_page new).1
  · rcases walked.left a member with old | ⟨_, ⟨⟩, after⟩
    · exact Or.inl (List.mem_append_left _ old)
    · rcases found a (grown (walked.kept member)) after with here | ⟨full, below'⟩
      · exact Or.inl (List.mem_append_right _ here)
      · cases h : next key (page key rows' (some (key b)) limit) limit with
        | none => exact (next_none positive h full).elim
        | some k =>
          obtain ⟨-, c, last', rfl⟩ := next_some h
          exact Or.inr ⟨_, rfl, below' c (List.mem_of_getLast? last')⟩
  · obtain ⟨full, c, last', rfl⟩ := next_some more
    exact ⟨c, by rw [List.getLast?_append, last', Option.some_or], rfl⟩
  · by_cases after : key a < key b
    · rcases found a member after with here | ⟨full, -⟩
      · exact last_le ordered (List.mem_append_right _ here)
      · exact (next_none positive stopped full).elim
    · obtain ⟨c, last', le⟩ := last_le ordered (List.mem_append_left _ (List.mem_of_getLast? last))
      exact ⟨c, last', le.trans (not_lt.mp after)⟩

theorem Walk.walked {first returned : List α} (walk : Walk key first rows returned cursor) :
    Walked key first rows returned cursor := by
  induction walk with
  | start distinct positive => exact walked_start distinct positive
  | more _ grown distinct positive ih => exact ih.more grown distinct positive

end Keyset
