import Mathlib

/-!
Attempts at one task, one at a time, until one succeeds. The record of the `n`-th failure sets the
time before which the task is not tried again: `backoff n` after the record was made.
-/

namespace Retry

structure Failure where
  attempts : Nat
  recorded : Int
  next : Int
  deriving DecidableEq, Repr

inductive Entry where
  | tried (time : Int) (succeeded : Bool)
  | failed (f : Failure)
  | finished
  deriving DecidableEq, Repr

inductive Phase where
  | waiting
  /-- The attempt begun at `since` has no record yet. -/
  | trying (since : Int) (succeeded : Bool)
  | finished
  deriving DecidableEq, Repr

structure Progress where
  attempts : Nat
  next : Option Int
  phase : Phase
  deriving DecidableEq, Repr

def start : Progress := { attempts := 0, next := none, phase := .waiting }

/-- `Course backoff log p`: the entries `log` lead to `p`. -/
inductive Course (backoff : Nat → Int) : List Entry → Progress → Prop
  | start : Course backoff [] start
  | tried {log : List Entry} {p : Progress} {time : Int} {succeeded : Bool} (course : Course backoff log p)
      (waiting : p.phase = .waiting) (due : ∀ next ∈ p.next, next ≤ time) :
      Course backoff (log ++ [.tried time succeeded]) { p with
        phase := .trying time succeeded }
  | failed {log : List Entry} {p : Progress} {since recorded : Int} (course : Course backoff log p)
      (trying : p.phase = .trying since false) (later : since ≤ recorded) :
      Course backoff (log ++ [.failed ⟨p.attempts + 1, recorded, recorded + backoff (p.attempts + 1)⟩])
        ⟨p.attempts + 1, some (recorded + backoff (p.attempts + 1)), .waiting⟩
  | finished {log : List Entry} {p : Progress} {since : Int} (course : Course backoff log p)
      (trying : p.phase = .trying since true) : Course backoff (log ++ [.finished]) { p with
        phase := .finished }

def Entry.failure : Entry → Option Failure
  | .failed f => some f
  | _ => none

def failures (log : List Entry) : List Failure := log.filterMap Entry.failure

@[simp] theorem failures_nil : failures [] = [] := rfl

@[simp] theorem failures_append (log more : List Entry) : failures (log ++ more) = failures log ++ failures more := by
  simp [failures]

@[simp] theorem failures_tried (time : Int) (succeeded : Bool) : failures [.tried time succeeded] = [] := rfl

@[simp] theorem failures_failed (f : Failure) : failures [.failed f] = [f] := rfl

@[simp] theorem failures_finished : failures [.finished] = [] := rfl

theorem mem_failures {log : List Entry} {f : Failure} : f ∈ failures log ↔ .failed f ∈ log := by
  unfold failures
  rw [List.mem_filterMap]
  constructor
  · rintro ⟨e, member, same⟩
    cases e with
    | failed f' => exact Option.some.inj same ▸ member
    | _ => cases same
  · exact fun member => ⟨_, member, rfl⟩

namespace Course
variable {backoff : Nat → Int} {log : List Entry} {p : Progress}

theorem attempts (course : Course backoff log p) : p.attempts = (failures log).length := by
  induction course with
  | start => rfl
  | tried _ _ _ ih => simpa using ih
  | failed _ _ _ ih => simp [ih]
  | finished _ _ ih => simpa using ih

theorem next (course : Course backoff log p) : p.next = (failures log).getLast?.map Failure.next := by
  induction course with
  | start => rfl
  | tried _ _ _ ih => simpa using ih
  | failed => simp
  | finished _ _ ih => simpa using ih

theorem finished_iff (course : Course backoff log p) : p.phase = .finished ↔ .finished ∈ log := by
  induction course with
  | start => simp [Retry.start]
  | tried _ waiting _ ih => simpa [waiting] using ih
  | failed _ trying _ ih => simpa [trying] using ih
  | finished => simp

theorem trying_iff (course : Course backoff log p) {since : Int} {succeeded : Bool} :
    p.phase = .trying since succeeded ↔ log.getLast? = some (.tried since succeeded) := by
  induction course with
  | start => simp [Retry.start]
  | tried => simp
  | failed => simp
  | finished => simp

/-- A failed attempt is followed by its record, and nothing else is. -/
theorem records (course : Course backoff log p) :
    log.IsChain fun e e' => (∃ time, e = .tried time false) ↔ ∃ f, e' = .failed f := by
  induction course with
  | start => exact List.IsChain.nil
  | tried earlier waiting _ ih =>
    refine List.isChain_append.mpr ⟨ih, List.IsChain.singleton _, fun e last e' first => ?_⟩
    cases first
    simp only [reduceCtorEq, exists_false, iff_false]
    rintro ⟨time, rfl⟩
    cases waiting.symm.trans (earlier.trying_iff.mpr last)
  | failed earlier trying _ ih =>
    refine List.isChain_append.mpr ⟨ih, List.IsChain.singleton _, fun e last e' first => ?_⟩
    cases first
    cases last.symm.trans (earlier.trying_iff.mp trying)
    simp
  | finished earlier trying ih =>
    refine List.isChain_append.mpr ⟨ih, List.IsChain.singleton _, fun e last e' first => ?_⟩
    cases first
    cases last.symm.trans (earlier.trying_iff.mp trying)
    simp

/-- The failures are numbered from one, and each sets its own backoff. -/
theorem numbered (course : Course backoff log p) {n : Nat} {f : Failure} (nth : (failures log)[n]? = some f) :
    f.attempts = n + 1 ∧ f.next = f.recorded + backoff f.attempts := by
  induction course with
  | start => simp at nth
  | tried _ _ _ ih => exact ih (by simpa using nth)
  | @failed log p since recorded earlier _ _ ih =>
    rw [failures_append, failures_failed, List.getElem?_append] at nth
    split at nth
    · exact ih nth
    · rename_i last
      obtain ⟨here, same⟩ := List.getElem?_eq_some_iff.mp nth
      have index : n = (failures log).length := by
        simp only [List.length_singleton] at here
        omega
      subst index
      simp only [Nat.sub_self, List.getElem_cons_zero] at same
      subst same
      exact ⟨congrArg (· + 1) earlier.attempts, rfl⟩
  | finished _ _ ih => exact ih (by simpa using nth)

theorem numbered_of_mem (course : Course backoff log p) {f : Failure} (member : f ∈ failures log) :
    f.attempts ≤ p.attempts ∧ f.next = f.recorded + backoff f.attempts := by
  obtain ⟨n, nth⟩ := List.mem_iff_getElem?.mp member
  obtain ⟨number, next⟩ := course.numbered nth
  have inside := (List.getElem?_eq_some_iff.mp nth).1
  rw [course.attempts]
  exact ⟨by omega, next⟩

/-- With a backoff that grows, so do the delays. -/
theorem delays (course : Course backoff log p) (grows : Monotone backoff) :
    (failures log).Pairwise fun f f' => f.next - f.recorded ≤ f'.next - f'.recorded := by
  induction course with
  | start => exact List.Pairwise.nil
  | tried _ _ _ ih => simpa using ih
  | @failed log p since recorded earlier _ _ ih =>
    rw [failures_append, failures_failed, List.pairwise_append]
    refine ⟨ih, List.pairwise_singleton _ _, fun f member f' last => ?_⟩
    obtain rfl := List.mem_singleton.mp last
    obtain ⟨number, next⟩ := earlier.numbered_of_mem member
    have longer : backoff f.attempts ≤ backoff (p.attempts + 1) := grows (by omega)
    simp only [next]
    omega
  | finished _ _ ih => simpa using ih

/-- No time set before is later than the one set last, nor than an attempt that has begun since. -/
theorem bounds (course : Course backoff log p) (forward : ∀ n, 0 ≤ backoff n) :
    (∀ f ∈ failures log, ∃ next ∈ p.next, f.next ≤ next) ∧
      ∀ since succeeded, p.phase = .trying since succeeded → ∀ next ∈ p.next, next ≤ since := by
  induction course with
  | start => simp [Retry.start]
  | tried _ _ due ih =>
    refine ⟨by simpa using ih.1, fun since succeeded trying => ?_⟩
    cases trying
    exact due
  | @failed log p since recorded _ trying later ih =>
    obtain ⟨bounded, begun⟩ := ih
    have longer := forward (p.attempts + 1)
    refine ⟨fun f member => ⟨_, rfl, ?_⟩, fun _ _ waiting => by cases waiting⟩
    rw [failures_append, failures_failed] at member
    rcases List.mem_append.mp member with old | new
    · obtain ⟨next, set, least⟩ := bounded f old
      have before := begun since false trying next set
      omega
    · obtain rfl := List.mem_singleton.mp new
      exact le_refl _
  | finished _ _ ih =>
    refine ⟨by simpa using ih.1, fun _ _ finished => by cases finished⟩

/-- No attempt begins before the time that an earlier failure has set. -/
theorem due (course : Course backoff log p) (forward : ∀ n, 0 ≤ backoff n) :
    log.Pairwise fun e e' => ∀ f time succeeded, e = .failed f → e' = .tried time succeeded → f.next ≤ time := by
  induction course with
  | start => exact List.Pairwise.nil
  | tried earlier _ due ih =>
    refine List.pairwise_append.mpr
      ⟨ih, List.pairwise_singleton _ _, fun e member e' last f time succeeded failed tried => ?_⟩
    obtain rfl := List.mem_singleton.mp last
    cases tried
    obtain ⟨next, set, least⟩ := (earlier.bounds forward).1 f (mem_failures.mpr (failed ▸ member))
    exact least.trans (due next set)
  | failed _ _ _ ih =>
    refine List.pairwise_append.mpr ⟨ih, List.pairwise_singleton _ _, fun e _ e' last f time succeeded _ tried => ?_⟩
    cases (List.mem_singleton.mp last).symm.trans tried
  | finished _ _ ih =>
    refine List.pairwise_append.mpr ⟨ih, List.pairwise_singleton _ _, fun e _ e' last f time succeeded _ tried => ?_⟩
    cases (List.mem_singleton.mp last).symm.trans tried

/-- Nothing follows the record of success. -/
theorem finished_last (course : Course backoff log p) : log.Pairwise fun e _ => e ≠ .finished := by
  have last : ∀ {log : List Entry} {p : Progress} (e : Entry), Course backoff log p → p.phase ≠ .finished →
      (log.Pairwise fun e _ => e ≠ .finished) → (log ++ [e]).Pairwise fun e _ => e ≠ .finished := by
    intro log p e course running ih
    refine List.pairwise_append.mpr ⟨ih, List.pairwise_singleton _ _, fun e member _ _ same => ?_⟩
    exact running (course.finished_iff.mpr (same ▸ member))
  induction course with
  | start => exact List.Pairwise.nil
  | tried earlier waiting _ ih => exact last _ earlier (by simp [waiting]) ih
  | failed earlier trying _ ih => exact last _ earlier (by simp [trying]) ih
  | finished earlier trying ih => exact last _ earlier (by simp [trying]) ih

end Course

end Retry
