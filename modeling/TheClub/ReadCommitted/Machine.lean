import TheClub.ReadCommitted.Program

/-!
Processes interleaved command by command on a shared state. A process may be started once,
may run its next command whenever the state lets it, and may die between two commands. The
rules at the end turn a protocol all programs follow into an invariant of every run.
-/

namespace ReadCommitted

/-- A shared state, the effect of a command run by process `i` (`none`: it has to wait), the
effect of a process's death, and the programs that may be started. -/
structure System (S : Signature) where
  State : Type
  Env : Type
  exec : Env → Nat → (c : S.Cmd) → State → Option (Except S.Err (S.Ret c) × State)
  die : Nat → State → State
  init : State
  Request : Type
  Reply : Type
  code : Request → Program S Reply

inductive Event (S : Signature) : Type where
  | ran (c : S.Cmd) (answer : Except S.Err (S.Ret c))
  | died

structure World {S : Signature} (Y : System S) where
  state : Y.State
  started : List Nat
  request : Nat → Option Y.Request
  proc : Nat → Option (Program S Y.Reply)
  history : Nat → List (Event S)

inductive Label {S : Signature} (Y : System S) : Type where
  | start (i : Nat) (q : Y.Request)
  | run (i : Nat) (env : Y.Env)
  | kill (i : Nat)

namespace World
variable {S : Signature} {Y : System S}

def initial : World Y where
  state := Y.init
  started := []
  request := fun _ => none
  proc := fun _ => none
  history := fun _ => []

def Finished (w : World Y) (i : Nat) (r : Except S.Err Y.Reply) : Prop := w.proc i = some (.done r)

def AboutTo (w : World Y) (i : Nat) (c : S.Cmd) : Prop := ∃ next, w.proc i = some (.call c next)

def Ran (w : World Y) (i : Nat) (c : S.Cmd) (r : Except S.Err (S.Ret c)) : Prop := .ran c r ∈ w.history i

theorem ran_update (w : World Y) (i : Nat) (e : Event S) (state : Y.State) (proc : Nat → Option (Program S Y.Reply))
    {j : Nat} {c : S.Cmd} {r : Except S.Err (S.Ret c)} :
    ({ w with state := state, proc := proc, history := Function.update w.history i (w.history i ++ [e]) } : World
      Y).Ran j c r ↔
      w.Ran j c r ∨ j = i ∧ e = .ran c r := by
  by_cases same : j = i
  · subst same
    simp only [Ran, Function.update_self, List.mem_append, List.mem_singleton, true_and]
    exact or_congr_right eq_comm
  · simp [Ran, same]

def step (w : World Y) : Label Y → Option (World Y)
  | .start i q =>
    match w.request i with
    | some _ => none
    | none => some { w with
        started := w.started ++ [i]
        request := Function.update w.request i (some q)
        proc := Function.update w.proc i (some (Y.code q)) }
  | .run i env =>
    match w.proc i with
    | some (.call c next) =>
      match Y.exec env i c w.state with
      | some (r, state) => some { w with
          state := state
          proc := Function.update w.proc i (some (next r))
          history := Function.update w.history i (w.history i ++ [.ran c r]) }
      | none => none
    | _ => none
  | .kill i =>
    match w.proc i with
    | some (.call _ _) => some { w with
        state := Y.die i w.state
        proc := Function.update w.proc i none
        history := Function.update w.history i (w.history i ++ [.died]) }
    | _ => none

theorem step_cases {w w' : World Y} {l : Label Y} (h : w.step l = some w') :
    (∃ i q, l = .start i q ∧ w.request i = none ∧ w' = { w with
      started := w.started ++ [i]
      request := Function.update w.request i (some q)
      proc := Function.update w.proc i (some (Y.code q)) }) ∨
    (∃ i env c next r state, l = .run i env ∧ w.proc i = some (.call c next) ∧
      Y.exec env i c w.state = some (r, state) ∧ w' = { w with
        state := state
        proc := Function.update w.proc i (some (next r))
        history := Function.update w.history i (w.history i ++ [.ran c r]) }) ∨
    (∃ i c, l = .kill i ∧ w.AboutTo i c ∧ w' = { w with
      state := Y.die i w.state
      proc := Function.update w.proc i none
      history := Function.update w.history i (w.history i ++ [.died]) }) := by
  cases l with
  | start i q =>
    simp only [step] at h
    split at h
    · cases h
    · cases h
      exact Or.inl ⟨i, q, rfl, by assumption, rfl⟩
  | run i env =>
    simp only [step] at h
    split at h
    · rename_i c next running
      split at h
      · rename_i r state ran
        cases h
        exact Or.inr (Or.inl ⟨i, env, c, next, r, state, rfl, running, ran, rfl⟩)
      · cases h
    · cases h
  | kill i =>
    simp only [step] at h
    split at h
    · rename_i c next running
      cases h
      exact Or.inr (Or.inr ⟨i, c, rfl, ⟨next, running⟩, rfl⟩)
    · cases h

end World

variable {S : Signature} {Y : System S}

/-- `w'` is reached from `w` by steps that all meet `ok`. -/
inductive Run (ok : World Y → Label Y → Prop) : World Y → World Y → Prop where
  | refl (w : World Y) : Run ok w w
  | step {w w' w'' : World Y} {l : Label Y} : Run ok w w' → ok w' l → w'.step l = some w'' → Run ok w w''

abbrev Reachable (ok : World Y → Label Y → Prop) (w : World Y) : Prop := Run ok World.initial w

theorem Run.trans {ok : World Y → Label Y → Prop} {w w' w'' : World Y} (first : Run ok w w') (second : Run ok w' w'') :
    Run ok w w'' := by
  induction second with
  | refl => exact first
  | step _ allowed moved ih => exact .step ih allowed moved

theorem Run.mono {ok ok' : World Y → Label Y → Prop} (weaker : ∀ w l, ok w l → ok' w l) {w w' : World Y}
    (h : Run ok w w') : Run ok' w w' := by
  induction h with
  | refl => exact .refl _
  | step _ allowed moved ih => exact .step ih (weaker _ _ allowed) moved

/-- An assertion that every step from a reachable world keeps holds along every run. -/
theorem Run.keeps {ok : World Y → Label Y → Prop} {J : World Y → Prop} {w w' : World Y} (h : Run ok w w')
    (reached : Reachable ok w) (start : J w)
    (kept : ∀ w l w', Reachable ok w → J w → ok w l → w.step l = some w' → J w') : J w' := by
  induction h with
  | refl => exact start
  | step before allowed moved ih => exact kept _ _ _ (reached.trans before) ih allowed moved

/-- Steps that meet `ok` meet whatever `ok` implies in the worlds it reaches. -/
theorem Run.strengthen {ok ok' : World Y → Label Y → Prop} {w w' : World Y} (run : Run ok w w')
    (reached : Reachable ok w)
    (sound : ∀ w l w', Reachable ok w → ok w l → w.step l = some w' → ok' w l) : Run ok' w w' := by
  induction run with
  | refl => exact .refl _
  | step before allowed moved ih => exact .step ih (sound _ _ _ (reached.trans before) allowed moved) moved

theorem Run.moment_after {ok : World Y → Label Y → Prop} {w w' : World Y} (run : Run ok w w') {i : Nat} {c : S.Cmd}
    {r : Except S.Err (S.Ret c)} (fresh : ¬w.Ran i c r) (ran : w'.Ran i c r) : ∃ before after env, Run ok w before ∧
      before.AboutTo i c ∧ ok before (.run i env) ∧ before.step (.run i env) = some after ∧
      Y.exec env i c before.state = some (r, after.state) ∧ Run ok after w' := by
  induction run with
  | refl => exact (fresh ran).elim
  | @step w' w'' l earlier allowed moved ih =>
    rcases World.step_cases moved with ⟨j, q, rfl, -, rfl⟩ | ⟨j, env, d, next, r', s, rfl, called, done, rfl⟩ |
      ⟨j, d, rfl, -, rfl⟩
    · obtain ⟨before, after, env, start, about, meets, step, exec, rest⟩ := ih ran
      exact ⟨before, after, env, start, about, meets, step, exec, .step rest allowed moved⟩
    · rcases (World.ran_update ..).mp ran with old | ⟨rfl, same⟩
      · obtain ⟨before, after, env, start, about, meets, step, exec, rest⟩ := ih old
        exact ⟨before, after, env, start, about, meets, step, exec, .step rest allowed moved⟩
      · cases same
        exact ⟨w', _, env, earlier, ⟨next, called⟩, allowed, moved, done, .refl _⟩
    · obtain ⟨before, after, env, start, about, meets, step, exec, rest⟩ :=
        ih (((World.ran_update ..).mp ran).resolve_right fun ⟨_, same⟩ => by cases same)
      exact ⟨before, after, env, start, about, meets, step, exec, .step rest allowed moved⟩

theorem Run.ran {ok : World Y → Label Y → Prop} {w w' : World Y} (run : Run ok w w') {i : Nat} {c : S.Cmd}
    {r : Except S.Err (S.Ret c)} (h : w.Ran i c r) : w'.Ran i c r := by
  induction run with
  | refl => exact h
  | step _ _ moved ih =>
    rcases World.step_cases moved with ⟨_, _, rfl, -, rfl⟩ | ⟨_, _, _, _, _, _, rfl, -, -, rfl⟩ | ⟨_, _, rfl, -, rfl⟩
    · exact ih
    · exact (World.ran_update ..).mpr (Or.inl ih)
    · exact (World.ran_update ..).mpr (Or.inl ih)

theorem Run.history {ok : World Y → Label Y → Prop} {w w' : World Y} (run : Run ok w w') (i : Nat) :
    ∃ more, w'.history i = w.history i ++ more := by
  induction run with
  | refl => exact ⟨[], (List.append_nil _).symm⟩
  | step _ _ moved ih =>
    obtain ⟨more, past⟩ := ih
    rcases World.step_cases moved with ⟨j, _, -, -, rfl⟩ | ⟨j, _, c, _, r, _, -, -, -, rfl⟩ | ⟨j, _, -, -, rfl⟩
    · exact ⟨more, past⟩
    · by_cases same : i = j
      · subst same
        exact ⟨more ++ [.ran c r], by simp [past]⟩
      · exact ⟨more, by simp [past, same]⟩
    · by_cases same : i = j
      · subst same
        exact ⟨more ++ [.died], by simp [past]⟩
      · exact ⟨more, by simp [past, same]⟩

theorem Run.moment {ok : World Y → Label Y → Prop} {w : World Y} (reached : Reachable ok w) {i : Nat} {c : S.Cmd}
    {r : Except S.Err (S.Ret c)} (ran : w.Ran i c r) : ∃ before after env, Reachable ok before ∧ before.AboutTo i c ∧
      ok before (.run i env) ∧ before.step (.run i env) = some after ∧
      Y.exec env i c before.state = some (r, after.state) ∧ Run ok after w :=
  Run.moment_after reached (fun ran => by cases ran) ran

/-- Run the labels in order, leaving out those that `check` refuses or that cannot happen. -/
def World.replay (check : World Y → Label Y → Bool) (w : World Y) (ls : List (Label Y)) : World Y :=
  ls.foldl (fun w l => if check w l then (w.step l).getD w else w) w

theorem run_replay {ok : World Y → Label Y → Prop} {check : World Y → Label Y → Bool}
    (sound : ∀ w l, check w l = true → ok w l) (w : World Y) (ls : List (Label Y)) : Run ok w (w.replay check ls) := by
  induction ls generalizing w with
  | nil => exact .refl w
  | cons l ls ih =>
    refine Run.trans ?_ (ih _)
    dsimp only
    split
    · cases moved : w.step l with
      | none => exact .refl w
      | some w' => exact .step (.refl w) (sound _ _ ‹_›) moved
    · exact .refl w

theorem Run.asked {ok : World Y → Label Y → Prop} {w w' : World Y} (run : Run ok w w') {i : Nat} {q : Y.Request}
    (asked : w.request i = some q) : w'.request i = some q := by
  induction run with
  | refl => exact asked
  | step _ _ moved ih =>
    rcases World.step_cases moved with ⟨j, _, -, fresh, rfl⟩ | ⟨_, _, _, _, _, _, -, -, -, rfl⟩ | ⟨_, _, -, -, rfl⟩
    · have other : i ≠ j := by
        rintro rfl
        cases fresh.symm.trans ih
      simpa [other] using ih
    · exact ih
    · exact ih

theorem replay_asked {check : World Y → Label Y → Bool} {w : World Y} {i : Nat} {q : Y.Request}
    (accepted : check w (.start i q) = true) (fresh : w.request i = none) (ls : List (Label Y)) :
    (w.replay check (.start i q :: ls)).request i = some q := by
  refine (run_replay (fun _ _ => id) _ ls).asked ?_
  simp [accepted, World.step, fresh]

/-! ### Protocols along a run -/

namespace World
variable (P : Protocol S)

def observe (g : P.Ghost) : Event S → P.Ghost
  | .ran c r => P.next g c r
  | .died => P.died g

/-- The ghost state of process `i`, read off its history. -/
def ghost (w : World Y) (i : Nat) : P.Ghost := (w.history i).foldl (observe P) P.start

theorem ghost_update (w : World Y) (i : Nat) (e : Event S) (state : Y.State) (proc : Nat → Option (Program S Y.Reply)) :
    ({ w with state := state, proc := proc, history := Function.update w.history i (w.history i ++ [e]) } :
      World Y).ghost P =
      Function.update (w.ghost P) i (observe P (w.ghost P i) e) := by
  funext j
  by_cases h : j = i
  · subst h; simp [ghost, List.foldl_append]
  · simp [ghost, h]

/-- What a ghost state says about the history it was read off. -/
theorem ghost_history {R : P.Ghost → List (Event S) → Prop} (start : R P.start [])
    (next : ∀ g h e, R g h → R (observe P g e) (h ++ [e])) (w : World Y) (i : Nat) :
    R (w.ghost P i) (w.history i) := by
  unfold ghost
  induction w.history i using List.reverseRecOn with
  | nil => exact start
  | append_singleton h e ih =>
    rw [List.foldl_append]
    exact next _ h e ih

end World

/-- The protocol that allows everything and whose ghost state is all that the process has been through. -/
def transcript (S : Signature) : Protocol S where
  Ghost := List (Event S)
  start := []
  allowed := fun _ _ => True
  possible := fun _ _ => True
  next := fun h c r => h ++ [.ran c r]
  died := fun h => h ++ [.died]

theorem ghost_transcript (w : World Y) (i : Nat) : w.ghost (transcript S) i = w.history i :=
  World.ghost_history (transcript S) (R := fun g h => g = h) rfl
    (fun g h e same => by cases e <;> exact congrArg (· ++ _) same) w i

/-- Every request that `ok` lets start runs a program that follows the protocol, and commands
are answered the way the protocol expects. -/
structure Disciplined (ok : World Y → Label Y → Prop) (P : Protocol S)
    (Q : Y.Request → P.Ghost → Except S.Err Y.Reply → Prop) : Prop where
  code : ∀ w i q, ok w (.start i q) → (Y.code q).Follows P (Q q) P.start
  answers : ∀ env i c s r s', Y.exec env i c s = some (r, s') → P.possible c r

variable {ok : World Y → Label Y → Prop} {P : Protocol S} {Q : Y.Request → P.Ghost → Except S.Err Y.Reply → Prop}

theorem follows_anything {α : Type} (p : Program S α) (free : ∀ g c, P.allowed g c) (g : P.Ghost) :
    p.Follows P (fun _ _ => True) g := by
  induction p generalizing g with
  | done r => trivial
  | call c next ih => exact ⟨free g c, fun r _ => ih r _⟩

theorem history_of_unstarted {w : World Y} (reached : Reachable ok w) :
    ∀ i, w.request i = none → w.history i = [] ∧ w.proc i = none := by
  induction reached with
  | refl => exact fun _ _ => ⟨rfl, rfl⟩
  | step _ _ moved ih =>
    intro j idle
    rcases World.step_cases moved with ⟨i, q, -, -, rfl⟩ | ⟨i, env, c, next, r, s, -, running, -, rfl⟩ |
      ⟨i, c, -, ⟨next, running⟩, rfl⟩
    all_goals
      have ne : j ≠ i := by
        rintro rfl
        simp_all
      simp_all

theorem started_of_proc {w : World Y} (reached : Reachable ok w) : ∀ i p, w.proc i = some p → i ∈ w.started := by
  induction reached with
  | refl => intro i p h; cases h
  | step _ _ moved ih =>
    intro j p running
    rcases World.step_cases moved with
      ⟨i, q, -, -, rfl⟩ | ⟨i, env, c, next, r, s, -, called, -, rfl⟩ | ⟨i, c, -, -, rfl⟩
    · by_cases h : j = i
      · simp [h]
      · exact List.mem_append_left _ (ih j p (by simpa [h] using running))
    · by_cases h : j = i
      · exact h ▸ ih i _ called
      · exact ih j p (by simpa [h] using running)
    · by_cases h : j = i
      · subst h; simp at running
      · exact ih j p (by simpa [h] using running)

theorem asked_by {w : World Y} (reached : Reachable ok w) {i : Nat} {q : Y.Request} (asked : w.request i = some q) :
    ∃ before, Reachable ok before ∧ ok before (.start i q) := by
  induction reached with
  | refl => cases asked
  | @step w w' l before allowed moved ih =>
    rcases World.step_cases moved with
      ⟨j, q', rfl, -, rfl⟩ | ⟨j, env, c, next, r, s, rfl, -, -, rfl⟩ | ⟨j, c, rfl, -, rfl⟩
    · by_cases same : i = j
      · subst same
        simp only [Function.update_self, Option.some.injEq] at asked
        subst asked
        exact ⟨w, before, allowed⟩
      · exact ih (by simpa [same] using asked)
    · exact ih asked
    · exact ih asked

/-- A process is asked for one thing, and keeps to the commands of that request's program. -/
theorem only_of_request {A : Y.Request → S.Cmd → Prop} (code : ∀ w i q, ok w (.start i q) → (Y.code q).Only (A q))
    {w : World Y} (reached : Reachable ok w) :
    (∀ i p, w.proc i = some p → ∃ q, w.request i = some q ∧ p.Only (A q)) ∧
      ∀ i c r, w.Ran i c r → ∃ q, w.request i = some q ∧ A q c := by
  induction reached with
  | refl => exact ⟨fun i p h => (by cases h), fun i c r ran => (by cases ran)⟩
  | @step w w' l before allowed moved ih =>
    obtain ⟨programs, commands⟩ := ih
    rcases World.step_cases moved with ⟨i, q, rfl, fresh, rfl⟩ | ⟨i, env, c, next, r, s, rfl, called, -, rfl⟩ |
      ⟨i, c, rfl, -, rfl⟩
    · have other : ∀ j, j ≠ i → Function.update w.request i (some q) j = w.request j :=
        fun j ne => Function.update_of_ne ne _ _
      refine ⟨fun j p running => ?_, fun j c r ran => ?_⟩
      · by_cases h : j = i
        · subst h
          simp only [Function.update_self, Option.some.injEq] at running ⊢
          exact ⟨q, rfl, running ▸ code w j q allowed⟩
        · simp only [other j h]
          exact programs j p (by simpa [h] using running)
      · obtain ⟨q', asked, member⟩ := commands j c r ran
        have h : j ≠ i := by
          rintro rfl
          cases fresh.symm.trans asked
        simp only [other j h]
        exact ⟨q', asked, member⟩
    · obtain ⟨q, asked, head, rest⟩ := programs i _ called
      refine ⟨fun j p running => ?_, fun j c' r' ran => ?_⟩
      · by_cases h : j = i
        · subst h
          simp only [Function.update_self, Option.some.injEq] at running
          exact ⟨q, asked, running ▸ rest r⟩
        · exact programs j p (by simpa [h] using running)
      · rcases (World.ran_update ..).mp ran with old | ⟨rfl, same⟩
        · exact commands j c' r' old
        · cases same
          exact ⟨q, asked, head⟩
    · refine ⟨fun j p running => ?_, fun j c' r' ran => ?_⟩
      · by_cases h : j = i
        · subst h; simp at running
        · exact programs j p (by simpa [h] using running)
      · exact commands j c' r' (((World.ran_update ..).mp ran).resolve_right fun ⟨_, same⟩ => by cases same)

/-- Wherever a run has got to, the rest of every program follows the protocol from its ghost state. -/
theorem Disciplined.follows (d : Disciplined ok P Q) {w : World Y} (reached : Reachable ok w) :
    ∀ i p, w.proc i = some p → ∃ q, w.request i = some q ∧ p.Follows P (Q q) (w.ghost P i) := by
  induction reached with
  | refl => intro i p h; cases h
  | @step w w' l before allowed moved ih =>
    intro j p running
    rcases World.step_cases moved with ⟨i, q, rfl, fresh, rfl⟩ | ⟨i, env, c, next, r, s, rfl, called, ran, rfl⟩ |
      ⟨i, c, rfl, _, rfl⟩
    · by_cases h : j = i
      · subst h
        simp only [Function.update_self, Option.some.injEq] at running ⊢
        subst running
        have idle := (history_of_unstarted before j fresh).1
        exact ⟨q, rfl, by simpa [World.ghost, idle] using d.code _ _ _ allowed⟩
      · simpa [h, World.ghost] using ih j p (by simpa [h] using running)
    · rw [World.ghost_update]
      by_cases h : j = i
      · subst h
        simp only [Function.update_self, Option.some.injEq] at running ⊢
        subst running
        obtain ⟨q, asked, follows⟩ := ih j _ called
        exact ⟨q, asked, follows.2 r (d.answers _ _ _ _ _ _ ran)⟩
      · simpa [h] using ih j p (by simpa [h] using running)
    · rw [World.ghost_update]
      by_cases h : j = i
      · subst h; simp at running
      · simpa [h] using ih j p (by simpa [h] using running)

theorem Disciplined.allowed (d : Disciplined ok P Q) {w : World Y} (reached : Reachable ok w) {i : Nat} {c : S.Cmd}
    (about : w.AboutTo i c) : P.allowed (w.ghost P i) c := by
  obtain ⟨next, running⟩ := about
  obtain ⟨_, _, follows⟩ := d.follows reached i _ running
  exact follows.1

theorem Disciplined.finished (d : Disciplined ok P Q) {w : World Y} (reached : Reachable ok w) {i : Nat}
    {r : Except S.Err Y.Reply} (finished : w.Finished i r) :
    ∃ q, w.request i = some q ∧ Q q (w.ghost P i) r := d.follows reached i _ finished

/-- The invariant rule: an assertion about the shared state and the ghost states that any
allowed command of any process keeps, and any death, holds in every reachable world. -/
theorem Disciplined.invariant (d : Disciplined ok P Q) (I : Y.State → (Nat → P.Ghost) → Prop)
    (init : I Y.init fun _ => P.start)
    (run : ∀ (w : World Y) i env c r s', Reachable ok w → I w.state (w.ghost P) → ok w (.run i env) → w.AboutTo i c →
      P.allowed (w.ghost P i) c → P.possible c r → Y.exec env i c w.state = some (r, s') →
      I s' (Function.update (w.ghost P) i (P.next (w.ghost P i) c r)))
    (kill : ∀ (w : World Y) i c, Reachable ok w → I w.state (w.ghost P) → w.AboutTo i c → ok w (.kill i) →
      I (Y.die i w.state) (Function.update (w.ghost P) i (P.died (w.ghost P i))))
    {w : World Y} (reached : Reachable ok w) : I w.state (w.ghost P) := by
  induction reached with
  | refl => exact init
  | @step w w' l before allowed moved ih =>
    rcases World.step_cases moved with ⟨i, q, rfl, -, rfl⟩ | ⟨i, env, c, next, r, s, rfl, called, ran, rfl⟩ |
      ⟨i, c, rfl, about, rfl⟩
    · exact ih
    · rw [World.ghost_update]
      have about : w.AboutTo i c := ⟨next, called⟩
      exact run w i env c r s before ih allowed about (d.allowed before about) (d.answers _ _ _ _ _ _ ran) ran
    · rw [World.ghost_update]
      exact kill w i c before ih about allowed

/-- What every allowed command keeps between a ghost state and the history it was read off. -/
theorem Disciplined.recorded (d : Disciplined ok P Q) {R : P.Ghost → List (Event S) → Prop} (start : R P.start [])
    (ran : ∀ g h c r, R g h → P.allowed g c → P.possible c r → R (P.next g c r) (h ++ [.ran c r]))
    (died : ∀ g h, R g h → R (P.died g) (h ++ [.died])) {w : World Y} (reached : Reachable ok w) :
    ∀ i, R (w.ghost P i) (w.history i) := by
  induction reached with
  | refl => exact fun _ => start
  | @step w w' l before allowed moved ih =>
    intro j
    rcases World.step_cases moved with ⟨i, q, rfl, -, rfl⟩ | ⟨i, env, c, next, r, s, rfl, called, done, rfl⟩ |
      ⟨i, c, rfl, about, rfl⟩
    · exact ih j
    · rw [World.ghost_update]
      by_cases same : j = i
      · subst same
        simp only [Function.update_self]
        exact ran _ _ c r (ih j) (d.allowed before ⟨next, called⟩) (d.answers _ _ _ _ _ _ done)
      · simpa [same] using ih j
    · rw [World.ghost_update]
      by_cases same : j = i
      · subst same
        simp only [Function.update_self]
        exact died _ _ (ih j)
      · simpa [same] using ih j

end ReadCommitted
