import TheClub.ReadCommitted.Machine

/-!
Where the answers to its commands take a program. What a process has been through is the way
of its request's program, so results are read off the program, one part after the other.
-/

namespace ReadCommitted

namespace Program
variable {S : Signature} {α β : Type}

/-- The program has become another one after these commands and answers. -/
inductive Resumed : Program S α → List (Event S) → Program S α → Prop where
  | start (p : Program S α) : Resumed p [] p
  | ran {c : S.Cmd} {next : Except S.Err (S.Ret c) → Program S α} {r : Except S.Err (S.Ret c)} {h : List (Event S)}
      {p : Program S α} : Resumed (next r) h p → Resumed (.call c next) (.ran c r :: h) p

theorem resumed_done {r : Except S.Err α} {h : List (Event S)} {p : Program S α} (resumed : (done r).Resumed h p) :
    h = [] ∧ p = done r := by
  cases resumed
  exact ⟨rfl, rfl⟩

theorem not_ran_done {r : Except S.Err α} {h : List (Event S)} {p : Program S α} (resumed : (done r).Resumed h p)
    {e : Event S} (ran : e ∈ h) : False := by
  rw [(resumed_done resumed).1] at ran
  cases ran

theorem Resumed.answer {p : Program S α} {h : List (Event S)} {c : S.Cmd} {next : Except S.Err (S.Ret c) → Program S α}
    (resumed : p.Resumed h (.call c next)) (r : Except S.Err (S.Ret c)) : p.Resumed (h ++ [.ran c r]) (next r) := by
  generalize about : Program.call c next = p' at resumed
  induction resumed with
  | start => rw [← about]; exact .ran (.start _)
  | ran _ ih => exact .ran (ih about)

/-- A program that follows a protocol still follows it on its way, where every command was allowed. -/
theorem Follows.resumed {P : Protocol S} {Q : P.Ghost → Except S.Err α → Prop} {p p' : Program S α} {g : P.Ghost}
    {h : List (Event S)} (follows : p.Follows P Q g) (resumed : p.Resumed h p')
    (answered : ∀ c r, .ran c r ∈ h → P.possible c r) :
    (∃ g', p'.Follows P Q g') ∧ ∀ c r, .ran c r ∈ h → ∃ g', P.allowed g' c := by
  induction resumed generalizing g with
  | start => exact ⟨⟨g, follows⟩, fun c r ran => by cases ran⟩
  | @ran c next r h p _ ih =>
    obtain ⟨rest, allowed⟩ := ih (follows.2 r (answered c r List.mem_cons_self)) fun c r ran =>
      answered c r (List.mem_cons_of_mem _ ran)
    refine ⟨rest, fun c' r' ran => ?_⟩
    rcases List.mem_cons.mp ran with same | later
    · cases same
      exact ⟨g, follows.1⟩
    · exact allowed c' r' later

/-- A sequence is still in its first part, or the first part has ended with a value. -/
theorem resumed_bind {p : Program S α} {f : α → Program S β} {h : List (Event S)} {p' : Program S β}
    (resumed : (p.bind f).Resumed h p') : (∃ q, p.Resumed h q ∧ p' = q.bind f) ∨
      ∃ first rest a, h = first ++ rest ∧ p.Resumed first (.done (.ok a)) ∧ (f a).Resumed rest p' := by
  induction p generalizing h with
  | done r =>
    cases r with
    | ok a => exact Or.inr ⟨[], h, a, rfl, .start _, resumed⟩
    | error e =>
      obtain ⟨rfl, rfl⟩ := resumed_done resumed
      exact Or.inl ⟨_, .start _, rfl⟩
  | call c next ih =>
    cases resumed with
    | start => exact Or.inl ⟨_, .start _, rfl⟩
    | ran later =>
      rcases ih _ later with ⟨q, went, rfl⟩ | ⟨first, rest, a, rfl, went, left⟩
      · exact Or.inl ⟨q, .ran went, rfl⟩
      · exact Or.inr ⟨_ :: first, rest, a, rfl, .ran went, left⟩

/-- A sequence that has ended with a value has gone through both parts. -/
theorem resumed_bind_ok {p : Program S α} {f : α → Program S β} {h : List (Event S)} {b : β}
    (resumed : (p.bind f).Resumed h (.done (.ok b))) :
    ∃ first rest a, h = first ++ rest ∧ p.Resumed first (.done (.ok a)) ∧ (f a).Resumed rest (.done (.ok b)) := by
  rcases resumed_bind resumed with ⟨q, went, ended⟩ | split
  · rcases q with (e | a) | ⟨c, next⟩
    · cases ended
    · exact ⟨h, [], a, (List.append_nil h).symm, went, ended ▸ .start _⟩
    · cases ended
  · exact split

theorem resumed_attempt {p : Program S α} {h : List (Event S)} {p' : Program S (Except S.Err α)}
    (resumed : p.attempt.Resumed h p') : ∃ q, p.Resumed h q ∧ p' = q.attempt := by
  induction p generalizing h with
  | done r =>
    obtain ⟨rfl, rfl⟩ := resumed_done resumed
    exact ⟨_, .start _, rfl⟩
  | call c next ih =>
    cases resumed with
    | start => exact ⟨_, .start _, rfl⟩
    | ran later =>
      obtain ⟨q, went, rfl⟩ := ih _ later
      exact ⟨q, .ran went, rfl⟩

theorem resumed_attempt_ok {p : Program S α} {h : List (Event S)} {r : Except S.Err α}
    (resumed : p.attempt.Resumed h (.done (.ok r))) : p.Resumed h (.done r) := by
  obtain ⟨q, went, ended⟩ := resumed_attempt resumed
  cases q with
  | done r' =>
    cases ended
    exact went
  | call c next => cases ended

/-- A value comes from the guarded program or from the handler of its exception. -/
theorem resumed_handle_ok {p : Program S α} {handler : S.Err → Program S α} {h : List (Event S)} {a : α}
    (resumed : (p.handle handler).Resumed h (.done (.ok a))) : p.Resumed h (.done (.ok a)) ∨
      ∃ first rest e, h = first ++ rest ∧ p.Resumed first (.done (.error e)) ∧
        (handler e).Resumed rest (.done (.ok a)) := by
  obtain ⟨first, rest, r, rfl, went, left⟩ := resumed_bind_ok resumed
  cases r with
  | ok b =>
    obtain ⟨rfl, same⟩ := resumed_done left
    cases same
    rw [List.append_nil]
    exact Or.inl (resumed_attempt_ok went)
  | error e => exact Or.inr ⟨first, rest, e, rfl, resumed_attempt_ok went, left⟩

theorem resumed_perform_ok {c : S.Cmd} {h : List (Event S)} {a : S.Ret c}
    (resumed : (perform c).Resumed h (.done (.ok a))) : h = [.ran c (.ok a)] := by
  cases resumed with
  | ran later =>
    obtain ⟨rfl, same⟩ := resumed_done later
    cases same
    rfl

/-- The commands that have been run are the program's. -/
theorem Resumed.only {A : S.Cmd → Prop} {p p' : Program S α} {h : List (Event S)} (resumed : p.Resumed h p')
    (only : p.Only A) : p'.Only A ∧ ∀ c r, .ran c r ∈ h → A c := by
  induction resumed with
  | start => exact ⟨only, by simp⟩
  | ran later ih =>
    obtain ⟨rest, commands⟩ := ih (only.2 _)
    refine ⟨rest, fun c r ran => ?_⟩
    rcases List.mem_cons.mp ran with same | member
    · cases same
      exact only.1
    · exact commands c r member

/-- A command that is not one of the first part is run in the second. -/
theorem Resumed.later {A : S.Cmd → Prop} {p : Program S α} {f : α → Program S β} {h : List (Event S)} {p' : Program S β}
    {c : S.Cmd} {r : Except S.Err (S.Ret c)} (resumed : (p.bind f).Resumed h p') (only : p.Only A) (ran : .ran c r ∈ h)
    (away : ¬A c) : ∃ first rest a, h = first ++ rest ∧ p.Resumed first (.done (.ok a)) ∧ (f a).Resumed rest p' ∧
      .ran c r ∈ rest := by
  rcases resumed_bind resumed with ⟨q, went, -⟩ | ⟨first, rest, a, rfl, went, left⟩
  · exact (away ((went.only only).2 c r ran)).elim
  · rcases List.mem_append.mp ran with before | after
    · exact (away ((went.only only).2 c r before)).elim
    · exact ⟨first, rest, a, rfl, went, left, after⟩

/-- A command that is not one of the second part is run in the first. -/
theorem Resumed.earlier {A : S.Cmd → Prop} {p : Program S α} {f : α → Program S β} {h : List (Event S)}
    {p' : Program S β} {c : S.Cmd} {r : Except S.Err (S.Ret c)} (resumed : (p.bind f).Resumed h p')
    (only : ∀ a, (f a).Only A) (ran : .ran c r ∈ h) (away : ¬A c) :
    ∃ first rest q, h = first ++ rest ∧ p.Resumed first q ∧ .ran c r ∈ first := by
  rcases resumed_bind resumed with ⟨q, went, -⟩ | ⟨first, rest, a, rfl, went, left⟩
  · exact ⟨h, [], q, (List.append_nil h).symm, went, ran⟩
  · rcases List.mem_append.mp ran with before | after
    · exact ⟨first, rest, _, rfl, went, before⟩
    · exact (away ((left.only (only a)).2 c r after)).elim

/-- The program has gone from its first command to the value `a` within `h`. -/
def Within (p : Program S α) (h : List (Event S)) (a : α) : Prop :=
  ∃ before during after, h = before ++ during ++ after ∧ p.Resumed during (.done (.ok a))

theorem Resumed.within {p : Program S α} {h : List (Event S)} {a : α} (ended : p.Resumed h (.done (.ok a))) :
    p.Within h a := ⟨[], h, [], by simp, ended⟩

theorem Within.prepend {p : Program S α} {h : List (Event S)} {a : α} (within : p.Within h a) (g : List (Event S)) :
    p.Within (g ++ h) a := by
  obtain ⟨before, during, after, rfl, ended⟩ := within
  exact ⟨g ++ before, during, after, by simp, ended⟩

theorem Within.extend {p : Program S α} {h : List (Event S)} {a : α} (within : p.Within h a) (g : List (Event S)) :
    p.Within (h ++ g) a := by
  obtain ⟨before, during, after, rfl, ended⟩ := within
  exact ⟨before, during, after ++ g, by simp, ended⟩

theorem within_done {r : Except S.Err α} {h : List (Event S)} {a : α} (within : (done r).Within h a) : r = .ok a := by
  obtain ⟨before, during, after, rfl, ended⟩ := within
  cases (resumed_done ended).2
  rfl

theorem within_bind {p : Program S α} {f : α → Program S β} {h : List (Event S)} {b : β}
    (within : (p.bind f).Within h b) :
    ∃ a, p.Within h a ∧ (f a).Within h b := by
  obtain ⟨before, during, after, rfl, ended⟩ := within
  obtain ⟨first, rest, a, rfl, went, left⟩ := resumed_bind_ok ended
  refine ⟨a, ((went.within.extend rest).prepend before).extend after, ?_⟩
  exact ((left.within.prepend first).prepend before).extend after

theorem within_attempt {p : Program S α} {h : List (Event S)} {a : α} (within : p.attempt.Within h (.ok a)) :
    p.Within h a := by
  obtain ⟨before, during, after, rfl, ended⟩ := within
  exact ⟨before, during, after, rfl, resumed_attempt_ok ended⟩

theorem within_perform {c : S.Cmd} {h : List (Event S)} {a : S.Ret c} (within : (perform c).Within h a) :
    .ran c (.ok a) ∈ h := by
  obtain ⟨before, during, after, rfl, ended⟩ := within
  simp [resumed_perform_ok ended]

theorem within_map {p : Program S α} {f : α → β} {h : List (Event S)} {b : β} (within : (f <$> p).Within h b) :
    ∃ a, p.Within h a ∧ b = f a := by
  obtain ⟨a, went, ended⟩ := within_bind within
  cases within_done ended
  exact ⟨a, went, rfl⟩

end Program

variable {S : Signature} {Y : System S} {ok : World Y → Label Y → Prop}

/-- A process is where its answers have taken the program of its request, unless it has died there. -/
theorem resumed_of_request {w : World Y} (reached : Reachable ok w) : ∀ i q, w.request i = some q →
    ∃ h p, (Y.code q).Resumed h p ∧
      (w.proc i = some p ∧ w.history i = h ∨ w.proc i = none ∧ w.history i = h ++ [.died]) := by
  induction reached with
  | refl => intro i q asked; cases asked
  | @step w w' l before allowed moved ih =>
    intro j q' asked
    rcases World.step_cases moved with ⟨i, q, rfl, fresh, rfl⟩ | ⟨i, env, c, next, r, s, rfl, called, ran, rfl⟩ |
      ⟨i, c, rfl, ⟨next, called⟩, rfl⟩
    · by_cases same : j = i
      · subst same
        simp only [Function.update_self, Option.some.injEq] at asked
        subst asked
        exact ⟨[], _, .start _, Or.inl ⟨by simp, (history_of_unstarted before j fresh).1⟩⟩
      · simpa [same] using ih j q' (by simpa [same] using asked)
    · obtain ⟨h, p, resumed, place⟩ := ih j q' asked
      by_cases same : j = i
      · subst same
        rcases place with ⟨running, past⟩ | ⟨stopped, -⟩
        · cases running.symm.trans called
          exact ⟨_, _, resumed.answer r, Or.inl ⟨by simp, by simp [past]⟩⟩
        · cases stopped.symm.trans called
      · exact ⟨h, p, resumed, by simpa [same] using place⟩
    · obtain ⟨h, p, resumed, place⟩ := ih j q' asked
      by_cases same : j = i
      · subst same
        rcases place with ⟨running, past⟩ | ⟨stopped, -⟩
        · exact ⟨h, p, resumed, Or.inr ⟨by simp, by simp [past]⟩⟩
        · cases stopped.symm.trans called
      · exact ⟨h, p, resumed, by simpa [same] using place⟩

/-- What a process has run is on its way. -/
theorem resumed_of_ran {w : World Y} (reached : Reachable ok w) {i : Nat} {q : Y.Request} (asked : w.request i = some q)
    {c : S.Cmd} {r : Except S.Err (S.Ret c)} (ran : w.Ran i c r) :
    ∃ h rest p, w.history i = h ++ rest ∧ (Y.code q).Resumed h p ∧ .ran c r ∈ h := by
  obtain ⟨h, p, resumed, place⟩ := resumed_of_request reached i q asked
  unfold World.Ran at ran
  rcases place with ⟨-, past⟩ | ⟨-, past⟩
  · exact ⟨h, [], p, by rw [past, List.append_nil], resumed, past ▸ ran⟩
  · refine ⟨h, _, p, past, resumed, ?_⟩
    rw [past] at ran
    simpa using ran

/-- The way of a finished process. -/
theorem resumed_of_finished {w : World Y} (reached : Reachable ok w) {i : Nat} {r : Except S.Err Y.Reply}
    (finished : w.Finished i r) : ∃ q, w.request i = some q ∧ (Y.code q).Resumed (w.history i) (.done r) := by
  have asked : w.request i ≠ none := fun none => by
    cases finished.symm.trans (history_of_unstarted reached i none).2
  obtain ⟨q, asked⟩ := Option.ne_none_iff_exists'.mp asked
  obtain ⟨h, p, resumed, ⟨running, past⟩ | ⟨stopped, -⟩⟩ := resumed_of_request reached i q asked
  · cases running.symm.trans finished
    exact ⟨q, asked, past ▸ resumed⟩
  · cases stopped.symm.trans finished

end ReadCommitted
