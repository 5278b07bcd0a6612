import TheClub.ReadCommitted.Machine

/-!
A process that runs to its end while no other one moves. Programs put together from parts run
alone part by part.
-/

namespace ReadCommitted
open Program

variable {S : Signature} {α β : Type}

/-- Process `i` runs the program from `s` to its end in `s'`, with result `r`. -/
inductive Alone (Y : System S) (i : Nat) : Program S α → Y.State → Except S.Err α → Y.State → Prop where
  | done (r : Except S.Err α) (s : Y.State) : Alone Y i (.done r) s r s
  | call {c : S.Cmd} {next : Except S.Err (S.Ret c) → Program S α} {env : Y.Env} {a : Except S.Err (S.Ret c)}
      {s s' s'' : Y.State} {r : Except S.Err α} (ran : Y.exec env i c s = some (a, s'))
      (rest : Alone Y i (next a) s' r s'') : Alone Y i (.call c next) s r s''

variable {Y : System S} {i : Nat} {s s' : Y.State}

theorem alone_done {r r' : Except S.Err α} : Alone Y i (.done r) s r' s' ↔ r' = r ∧ s' = s := by
  constructor
  · intro alone
    cases alone
    exact ⟨rfl, rfl⟩
  · rintro ⟨rfl, rfl⟩
    exact .done _ _

theorem alone_call {c : S.Cmd} {next : Except S.Err (S.Ret c) → Program S α} {r : Except S.Err α} :
    Alone Y i (.call c next) s r s' ↔ ∃ env a m, Y.exec env i c s = some (a, m) ∧ Alone Y i (next a) m r s' := by
  constructor
  · intro alone
    cases alone with
    | call ran rest => exact ⟨_, _, _, ran, rest⟩
  · rintro ⟨env, a, m, ran, rest⟩
    exact .call ran rest

theorem alone_bind {p : Program S α} {f : α → Program S β} {r : Except S.Err β} :
    Alone Y i (p.bind f) s r s' ↔
      (∃ a m, Alone Y i p s (.ok a) m ∧ Alone Y i (f a) m r s') ∨ ∃ e, r = .error e ∧ Alone Y i p s (.error e) s' := by
  induction p generalizing s with
  | done result =>
    cases result with
    | ok a =>
      simp only [Program.bind, alone_done]
      constructor
      · exact fun rest => Or.inl ⟨a, s, ⟨rfl, rfl⟩, rest⟩
      · rintro (⟨_, _, ⟨⟨⟩, rfl⟩, rest⟩ | ⟨_, _, ⟨⟩, _⟩)
        exact rest
    | error e =>
      simp only [Program.bind, alone_done]
      constructor
      · rintro ⟨rfl, rfl⟩
        exact Or.inr ⟨e, rfl, rfl, rfl⟩
      · rintro (⟨_, _, ⟨⟨⟩, _⟩, _⟩ | ⟨_, rfl, ⟨⟩, rfl⟩)
        exact ⟨rfl, rfl⟩
  | call c next ih =>
    simp only [Program.bind, alone_call, ih]
    constructor
    · rintro ⟨env, a, m, ran, ⟨b, m', first, rest⟩ | ⟨e, same, rest⟩⟩
      · exact Or.inl ⟨b, m', ⟨env, a, m, ran, first⟩, rest⟩
      · exact Or.inr ⟨e, same, env, a, m, ran, rest⟩
    · rintro (⟨b, m', ⟨env, a, m, ran, first⟩, rest⟩ | ⟨e, same, env, a, m, ran, rest⟩)
      · exact ⟨env, a, m, ran, Or.inl ⟨b, m', first, rest⟩⟩
      · exact ⟨env, a, m, ran, Or.inr ⟨e, same, rest⟩⟩

theorem alone_attempt {p : Program S α} {r : Except S.Err (Except S.Err α)} :
    Alone Y i p.attempt s r s' ↔ ∃ a, r = .ok a ∧ Alone Y i p s a s' := by
  induction p generalizing s with
  | done result =>
    simp only [attempt, alone_done]
    constructor
    · rintro ⟨rfl, rfl⟩
      exact ⟨result, rfl, rfl, rfl⟩
    · rintro ⟨_, rfl, rfl, rfl⟩
      exact ⟨rfl, rfl⟩
  | call c next ih =>
    simp only [attempt, alone_call, ih]
    constructor
    · rintro ⟨env, a, m, ran, b, same, rest⟩
      exact ⟨b, same, env, a, m, ran, rest⟩
    · rintro ⟨b, same, env, a, m, ran, rest⟩
      exact ⟨env, a, m, ran, b, same, rest⟩

theorem alone_perform {c : S.Cmd} {r : Except S.Err (S.Ret c)} :
    Alone Y i (perform c) s r s' ↔ ∃ env, Y.exec env i c s = some (r, s') := by
  simp only [perform, alone_call, alone_done]
  constructor
  · rintro ⟨env, a, m, ran, rfl, rfl⟩
    exact ⟨env, ran⟩
  · rintro ⟨env, ran⟩
    exact ⟨env, r, s', ran, rfl, rfl⟩

/-- Run the program alone, with one environment for each command; `none` if one of them has to wait. -/
def solo (Y : System S) (i : Nat) : List Y.Env → Program S α → Y.State → Option (Except S.Err α × Y.State)
  | _, .done r, s => some (r, s)
  | [], .call _ _, _ => none
  | env :: envs, .call c next, s =>
    match Y.exec env i c s with
    | some (a, m) => solo Y i envs (next a) m
    | none => none

theorem alone_solo {envs : List Y.Env} {p : Program S α} {r : Except S.Err α} (ran : solo Y i envs p s = some (r, s')) :
    Alone Y i p s r s' := by
  induction envs generalizing p s with
  | nil =>
    cases p with
    | done result =>
      cases ran
      exact .done _ _
    | call c next => cases ran
  | cons env envs ih =>
    cases p with
    | done result =>
      cases ran
      exact .done _ _
    | call c next =>
      simp only [solo] at ran
      split at ran
      · rename_i a m done
        exact .call done (ih ran)
      · cases ran

/-! ### Where a lone process ends up -/

/-- Run alone on the environments in `ok`, the program is never stuck and gets to `goal`, whatever it is answered. -/
inductive Leads (Y : System S) (i : Nat) (ok : Y.Env → Prop) (goal : Program S α → Y.State → Prop) :
    Program S α → Y.State → Prop where
  | here {p : Program S α} {s : Y.State} (reached : goal p s) : Leads Y i ok goal p s
  | next {c : S.Cmd} {next : Except S.Err (S.Ret c) → Program S α} {s : Y.State}
      (moves : ∃ env a m, ok env ∧ Y.exec env i c s = some (a, m))
      (rest : ∀ env a m, ok env → Y.exec env i c s = some (a, m) → Leads Y i ok goal (next a) m) :
      Leads Y i ok goal (.call c next) s

/-- The program is finished, with a result and in a state that `R` relates. -/
def Finishes (R : Except S.Err α → Y.State → Prop) (p : Program S α) (s : Y.State) : Prop := ∃ r, p = .done r ∧ R r s

variable {ok : Y.Env → Prop}

theorem Leads.mono {goal goal' : Program S α → Y.State → Prop} {p : Program S α} (leads : Leads Y i ok goal p s)
    (weaker : ∀ p s, goal p s → goal' p s) : Leads Y i ok goal' p s := by
  induction leads with
  | here reached => exact .here (weaker _ _ reached)
  | next moves _ ih => exact .next moves ih

/-- What every command of the process keeps holds where it ends up. -/
theorem Leads.keeps {I : Y.State → Prop} {goal : Program S α → Y.State → Prop} {p : Program S α}
    (keeps : ∀ env c a m m', I m → Y.exec env i c m = some (a, m') → I m') (leads : Leads Y i ok goal p s)
    (start : I s) :
    Leads Y i ok (fun p m => goal p m ∧ I m) p s := by
  induction leads with
  | here reached => exact .here ⟨reached, start⟩
  | next moves _ ih =>
    exact .next moves fun env a m fine ran => ih env a m fine ran (keeps env _ a _ m start ran)

theorem leads_bind {goal : Program S β → Y.State → Prop} {p : Program S α} {f : α → Program S β}
    (leads : Leads Y i ok (Finishes fun r s => match r with
      | .ok a => Leads Y i ok goal (f a) s
      | .error e => goal (.done (.error e)) s) p s) : Leads Y i ok goal (p.bind f) s := by
  induction leads with
  | here reached =>
    obtain ⟨r, rfl, rest⟩ := reached
    cases r with
    | ok a => exact rest
    | error e => exact .here rest
  | next moves _ ih => exact .next moves ih

theorem leads_attempt {R : Except S.Err (Except S.Err α) → Y.State → Prop} {p : Program S α}
    (leads : Leads Y i ok (Finishes fun r s => R (.ok r) s) p s) : Leads Y i ok (Finishes R) p.attempt s := by
  induction leads with
  | here reached =>
    obtain ⟨r, rfl, related⟩ := reached
    exact .here ⟨_, rfl, related⟩
  | next moves _ ih => exact .next moves ih

theorem leads_handle {R : Except S.Err α → Y.State → Prop} {p : Program S α} {handler : S.Err → Program S α}
    (leads : Leads Y i ok (Finishes fun r s => match r with
      | .ok a => R (.ok a) s
      | .error e => Leads Y i ok (Finishes R) (handler e) s) p s) : Leads Y i ok (Finishes R) (p.handle handler) s := by
  refine leads_bind (leads_attempt (leads.mono ?_))
  rintro _ s ⟨r, rfl, related⟩
  refine ⟨r, rfl, ?_⟩
  cases r with
  | ok a => exact .here ⟨_, rfl, related⟩
  | error e => exact related

end ReadCommitted
