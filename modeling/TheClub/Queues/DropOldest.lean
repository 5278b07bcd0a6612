import Mathlib

/-!
A bounded queue that drops its oldest entry when a new one arrives and it is full. Its reader is
behind by at most the capacity: an entry is lost exactly if that many later ones arrived before the
reader came to it.
-/

namespace DropOldest
variable {α : Type}

/-- What arrived at one queue, what its reader took, and what is in it. -/
structure Line (α : Type) where
  published : List α
  taken : List α
  queue : List α

inductive Line.Step (capacity : Nat) : Line α → Line α → Prop
  | put (l : Line α) (m : α) : Step capacity l { l with
      published := l.published ++ [m],
      queue := (if capacity ≤ l.queue.length then l.queue.tail else l.queue) ++ [m] }
  | take (l : Line α) (m : α) (rest : List α) (front : l.queue = m :: rest) : Step capacity l { l with
      taken := l.taken ++ [m],
      queue := rest }

/-- `Line.Visits capacity past l`: a run passed through the lines `past` and is at `l`. -/
inductive Line.Visits (capacity : Nat) : List (Line α) → Line α → Prop
  | start : Visits capacity [] ⟨[], [], []⟩
  | stay {past : List (Line α)} {l : Line α} (run : Visits capacity past l) : Visits capacity (past ++ [l]) l
  | step {past : List (Line α)} {l l' : Line α} (run : Visits capacity past l) (moved : Step capacity l l') :
      Visits capacity (past ++ [l]) l'

/-- Publication `k` was still to be taken when `capacity` later ones had arrived. `kept` lists the
publications that are taken in the end or still queued, in the order in which they are taken. -/
def Late (capacity : Nat) (kept : List Nat) (k : Nat) (v : Line α) : Prop :=
  k + capacity < v.published.length ∧ k ∉ kept.take v.taken.length

/-- What the reader has of the publications: `kept` in order, each once, and everything else was late. -/
structure Line.Keeps (capacity : Nat) (visited : List (Line α)) (l : Line α) (kept : List Nat) : Prop where
  increasing : kept.Pairwise (· < ·)
  published : ∀ k ∈ kept, k < l.published.length
  delivered : (l.taken ++ l.queue).map some = kept.map (l.published[·]?)
  missing : ∀ k < l.published.length, k ∉ kept ↔ ∃ v ∈ visited, Late capacity kept k v

/-- The invariant: `came` was taken, and the queue holds the end of what was published. -/
structure Line.Follows (capacity : Nat) (visited : List (Line α)) (l : Line α) (gone : List α) (came : List Nat) :
    Prop where
  short : l.queue.length ≤ capacity
  suffix : l.published = gone ++ l.queue
  increasing : came.Pairwise (· < ·)
  before : ∀ k ∈ came, k < gone.length
  taken : l.taken.map some = came.map (l.published[·]?)
  earlier : ∀ v ∈ visited, v.published.length ≤ l.published.length ∧ v.taken.length ≤ l.taken.length
  lost : ∀ k < gone.length, k ∉ came → ∃ v ∈ visited, Late capacity came k v
  inTime : ∀ k ∈ came, ∀ v ∈ visited, ¬ Late capacity came k v

variable {capacity : Nat} {visited past : List (Line α)} {l l' : Line α} {gone : List α} {came : List Nat}

theorem Line.Follows.count (follows : l.Follows capacity visited gone came) : came.length = l.taken.length := by
  have lengths := congrArg List.length follows.taken
  rwa [List.length_map, List.length_map, eq_comm] at lengths

theorem late_append {more : List Nat} {k : Nat} {v : Line α} (before : v.taken.length ≤ came.length) :
    Late capacity (came ++ more) k v ↔ Late capacity came k v := by
  unfold Late
  rw [List.take_append_of_le_length before]

/-- What was taken by the end is never late at the end. -/
theorem not_late_all {k : Nat} {v : Line α} (member : k ∈ came) (all : came.length ≤ v.taken.length) :
    ¬ Late capacity came k v := by
  rintro ⟨_, untaken⟩
  rw [List.take_of_length_le all] at untaken
  exact untaken member

theorem Line.Follows.start : (⟨[], [], []⟩ : Line α).Follows capacity [⟨[], [], []⟩] [] [] where
  short := Nat.zero_le _
  suffix := rfl
  increasing := List.Pairwise.nil
  before := fun _ member => by cases member
  taken := rfl
  earlier := by
    intro v member
    rw [List.mem_singleton.mp member]
    exact ⟨Nat.le_refl _, Nat.le_refl _⟩
  lost := fun _ before => by cases before
  inTime := fun _ member => by cases member

theorem Line.Follows.stay (follows : l.Follows capacity visited gone came) (current : l ∈ visited) :
    l.Follows capacity (visited ++ [l]) gone came := by
  have same : ∀ v ∈ visited ++ [l], v ∈ visited := by
    intro v member
    rcases List.mem_append.mp member with old | new
    · exact old
    · rw [List.mem_singleton.mp new]
      exact current
  refine { follows with earlier := ?_, lost := ?_, inTime := ?_ }
  · intro v member
    exact follows.earlier v (same v member)
  · intro k before untaken
    obtain ⟨v, member, late⟩ := follows.lost k before untaken
    exact ⟨v, List.mem_append_left _ member, late⟩
  · intro k member v visited
    exact follows.inTime k member v (same v visited)

/-- A new entry `m`: what leaves the queue is lost now, and everything else stays as it was. -/
theorem Line.Follows.put (follows : l.Follows capacity visited gone came) (dropped : List α) {queue : List α} (m : α)
    (split : l.queue = dropped ++ queue) (room : queue.length < capacity)
    (full : dropped ≠ [] → l.queue.length = capacity ∧ dropped.length = 1) :
    (⟨l.published ++ [m], l.taken, queue ++ [m]⟩ : Line α).Follows capacity
      (visited ++ [⟨l.published ++ [m], l.taken, queue ++ [m]⟩]) (gone ++ dropped) came where
  short := by
    rw [List.length_append, List.length_singleton]
    exact room
  suffix := by
    show l.published ++ [m] = _
    rw [follows.suffix, split, List.append_assoc, List.append_assoc, List.append_assoc]
  increasing := follows.increasing
  before := by
    intro k member
    rw [List.length_append]
    exact Nat.lt_add_right _ (follows.before k member)
  taken := by
    show l.taken.map some = _
    rw [follows.taken]
    apply List.map_congr_left
    intro k member
    have inside : k < l.published.length := by
      rw [follows.suffix, List.length_append]
      exact Nat.lt_add_right _ (follows.before k member)
    exact (List.getElem?_append_left inside).symm
  earlier := by
    intro v member
    show v.published.length ≤ (l.published ++ [m]).length ∧ v.taken.length ≤ l.taken.length
    rw [List.length_append]
    rcases List.mem_append.mp member with old | new
    · obtain ⟨fewer, less⟩ := follows.earlier v old
      exact ⟨Nat.le_add_right_of_le fewer, less⟩
    · rw [List.mem_singleton.mp new, List.length_append]
      exact ⟨Nat.le_refl _, Nat.le_refl _⟩
  lost := by
    intro k before untaken
    by_cases already : k < gone.length
    · obtain ⟨v, member, late⟩ := follows.lost k already untaken
      exact ⟨v, List.mem_append_left _ member, late⟩
    · -- the entry that this one pushes out
      have some_dropped : dropped ≠ [] := by
        rintro rfl
        rw [List.append_nil] at before
        exact already before
      obtain ⟨length, one⟩ := full some_dropped
      refine ⟨_, List.mem_append_right _ (List.mem_singleton_self _), ?_, fun taken =>
        untaken (List.mem_of_mem_take taken)⟩
      show k + capacity < (l.published ++ [m]).length
      rw [List.length_append, follows.suffix, List.length_append, length, List.length_singleton]
      rw [List.length_append] at before
      omega
  inTime := by
    intro k member v visited
    rcases List.mem_append.mp visited with old | new
    · exact follows.inTime k member v old
    · rw [List.mem_singleton.mp new]
      exact not_late_all member (Nat.le_of_eq follows.count)

theorem Line.Follows.take (follows : l.Follows capacity visited gone came) {m : α} {rest : List α}
    (front : l.queue = m :: rest) :
    (⟨l.published, l.taken ++ [m], rest⟩ : Line α).Follows capacity (visited ++ [⟨l.published, l.taken ++ [m], rest⟩])
      (gone ++ [m]) (came ++ [gone.length]) where
  short := by
    have short := follows.short
    rw [front, List.length_cons] at short
    exact Nat.le_of_succ_le short
  suffix := by
    show l.published = _
    rw [follows.suffix, front, List.append_assoc, List.singleton_append]
  increasing := by
    refine List.pairwise_append.mpr ⟨follows.increasing, List.pairwise_singleton _ _, ?_⟩
    intro k member next same
    rw [List.mem_singleton.mp same]
    exact follows.before k member
  before := by
    intro k member
    rw [List.length_append]
    rcases List.mem_append.mp member with old | new
    · exact Nat.lt_add_right _ (follows.before k old)
    · rw [List.mem_singleton.mp new]
      exact Nat.lt_succ_self _
  taken := by
    show (l.taken ++ [m]).map some = (came ++ [gone.length]).map (l.published[·]?)
    have next : l.published[gone.length]? = some m := by
      rw [follows.suffix, front, List.getElem?_append_right (Nat.le_refl _), Nat.sub_self]
      rfl
    rw [List.map_append, List.map_append, follows.taken, List.map_singleton, List.map_singleton, next]
  earlier := by
    intro v member
    show v.published.length ≤ l.published.length ∧ v.taken.length ≤ (l.taken ++ [m]).length
    rw [List.length_append]
    rcases List.mem_append.mp member with old | new
    · obtain ⟨fewer, less⟩ := follows.earlier v old
      exact ⟨fewer, Nat.le_add_right_of_le less⟩
    · rw [List.mem_singleton.mp new, List.length_append]
      exact ⟨Nat.le_refl _, Nat.le_refl _⟩
  lost := by
    intro k before untaken
    rw [List.mem_append, not_or, List.mem_singleton] at untaken
    rw [List.length_append, List.length_singleton] at before
    obtain ⟨v, member, late⟩ := follows.lost k (by omega) untaken.1
    have before := (follows.earlier v member).2
    rw [← follows.count] at before
    exact ⟨v, List.mem_append_left _ member, (late_append before).mpr late⟩
  inTime := by
    intro k member v visited late
    rcases List.mem_append.mp visited with old | new
    · obtain ⟨fewer, less⟩ := follows.earlier v old
      rw [← follows.count] at less
      rcases List.mem_append.mp member with before | next
      · exact follows.inTime k before v old ((late_append less).mp late)
      · -- the front is never late, since everything after it fits
        have short := follows.short
        have later := late.1
        rw [List.mem_singleton.mp next] at later
        rw [follows.suffix, List.length_append] at fewer
        omega
    · rw [List.mem_singleton.mp new] at late
      refine not_late_all member ?_ late
      show (came ++ [gone.length]).length ≤ (l.taken ++ [m]).length
      rw [List.length_append, List.length_append, follows.count]
      exact Nat.le_refl _

theorem Line.Visits.follows (run : Line.Visits capacity past l) (positive : 0 < capacity) :
    ∃ gone came, l.Follows capacity (past ++ [l]) gone came := by
  induction run with
  | start => exact ⟨[], [], .start⟩
  | stay _ ih =>
    obtain ⟨gone, came, follows⟩ := ih
    exact ⟨gone, came, follows.stay (List.mem_append_right _ (List.mem_singleton_self _))⟩
  | step _ moved ih =>
    obtain ⟨gone, came, follows⟩ := ih
    cases moved with
    | put m =>
      split
      · rename_i full
        obtain ⟨oldest, rest, split⟩ := List.exists_cons_of_length_pos (Nat.lt_of_lt_of_le positive full)
        have length : _ = capacity := Nat.le_antisymm follows.short full
        rw [split, List.tail_cons]
        refine ⟨_, _, follows.put [oldest] m split ?_ fun _ => ⟨length, rfl⟩⟩
        rw [← length, split, List.length_cons]
        exact Nat.lt_succ_self _
      · rename_i notFull
        exact ⟨_, _, follows.put [] m rfl (Nat.lt_of_not_le notFull) fun none => absurd rfl none⟩
    | take m rest front => exact ⟨_, _, follows.take front⟩

theorem Line.Follows.keeps (follows : l.Follows capacity visited gone came) :
    l.Keeps capacity visited (came ++ List.range' gone.length l.queue.length) where
  increasing := by
    refine List.pairwise_append.mpr ⟨follows.increasing, List.pairwise_lt_range', ?_⟩
    intro k before k' queued
    obtain ⟨low, _⟩ := List.mem_range'_1.mp queued
    exact Nat.lt_of_lt_of_le (follows.before k before) low
  published := by
    intro k member
    rw [follows.suffix, List.length_append]
    rcases List.mem_append.mp member with before | queued
    · exact Nat.lt_add_right _ (follows.before k before)
    · exact (List.mem_range'_1.mp queued).2
  delivered := by
    rw [List.map_append, List.map_append, follows.taken]
    congr 1
    apply List.ext_getElem?
    intro j
    rw [List.getElem?_map, List.getElem?_map]
    by_cases inside : j < l.queue.length
    · rw [List.getElem?_range' inside, follows.suffix, Option.map_some, List.getElem?_append_right (by omega),
        Nat.one_mul, Nat.add_sub_cancel_left, List.getElem?_eq_getElem inside]
      rfl
    · rw [List.getElem?_eq_none (Nat.le_of_not_lt inside), List.getElem?_eq_none (by rw [List.length_range']; omega)]
      rfl
  missing := by
    intro k published
    have taken : ∀ v ∈ visited, v.taken.length ≤ came.length := by
      intro v member
      rw [follows.count]
      exact (follows.earlier v member).2
    rw [follows.suffix, List.length_append] at published
    rw [List.mem_append, List.mem_range'_1, not_or]
    constructor
    · rintro ⟨untaken, unqueued⟩
      obtain ⟨v, member, late⟩ := follows.lost k (by omega) untaken
      exact ⟨v, member, (late_append (taken v member)).mpr late⟩
    · rintro ⟨v, member, late⟩
      refine ⟨fun before => follows.inTime k before v member ((late_append (taken v member)).mp late), fun queued => ?_⟩
      have fewer := (follows.earlier v member).1
      have short := follows.short
      have later := late.1
      rw [follows.suffix, List.length_append] at fewer
      omega

/-- Along every run, the reader keeps what it was not late for, and the queue stays within its capacity. -/
theorem Line.Visits.keeps (run : Line.Visits capacity past l) (positive : 0 < capacity) :
    l.queue.length ≤ capacity ∧ ∃ kept, l.Keeps capacity (past ++ [l]) kept := by
  obtain ⟨gone, came, follows⟩ := run.follows positive
  exact ⟨follows.short, _, follows.keeps⟩

end DropOldest
