import TheClub.ReadCommitted.Table

/-!
Programs that run one command at a time, and protocols they may follow. A protocol is a
ghost state that every answered command advances; a program follows it when each command
it issues is allowed there, whatever the commands before it answered.
-/

namespace ReadCommitted

/-- The commands of a machine, what each of them returns, and the exceptions. -/
structure Signature where
  Cmd : Type
  Ret : Cmd → Type
  Err : Type

/-- A program is finished, or about to issue a command whose answer it goes on from. -/
inductive Program (S : Signature) (α : Type) : Type where
  | done (result : Except S.Err α)
  | call (c : S.Cmd) (next : Except S.Err (S.Ret c) → Program S α)

namespace Program
variable {S : Signature} {α β : Type}

def bind : Program S α → (α → Program S β) → Program S β
  | .done (.ok a), f => f a
  | .done (.error e), _ => .done (.error e)
  | .call c next, f => .call c fun r => (next r).bind f

instance : Monad (Program S) where
  pure a := .done (.ok a)
  bind := bind

/-- Run `p` and return its result or its exception as a value. -/
def attempt : Program S α → Program S (Except S.Err α)
  | .done r => .done (.ok r)
  | .call c next => .call c fun r => (next r).attempt

/-- `try: p  except e: handler(e)`. -/
def handle (p : Program S α) (handler : S.Err → Program S α) : Program S α :=
  p.attempt >>= fun
    | .ok a => pure a
    | .error e => handler e

def raise (e : S.Err) : Program S α := .done (.error e)

def perform (c : S.Cmd) : Program S (S.Ret c) := .call c .done

@[simp] theorem pure_eq (a : α) : (pure a : Program S α) = .done (.ok a) := rfl
@[simp] theorem bind_eq (p : Program S α) (f : α → Program S β) : p >>= f = p.bind f := rfl
@[simp] theorem map_eq (f : α → β) (p : Program S α) : f <$> p = p.bind fun a => .done (.ok (f a)) := rfl

theorem bind_pure (p : Program S α) : p.bind (fun a => .done (.ok a)) = p := by
  induction p with
  | done r => cases r <;> rfl
  | call c next ih => simp only [bind]; congr 1; funext r; exact ih r

theorem bind_assoc {γ : Type} (p : Program S α) (f : α → Program S β) (g : β → Program S γ) :
    (p.bind f).bind g = p.bind fun a => (f a).bind g := by
  induction p with
  | done r => cases r <;> rfl
  | call c next ih => simp only [bind]; congr 1; funext r; exact ih r

instance : LawfulMonad (Program S) := LawfulMonad.mk' (Program S) (fun p => bind_pure p) (fun _ _ => rfl) bind_assoc

end Program

/-- A discipline on the commands of a process. `possible` says which answers a command can get. -/
structure Protocol (S : Signature) where
  Ghost : Type
  start : Ghost
  allowed : Ghost → S.Cmd → Prop
  possible : (c : S.Cmd) → Except S.Err (S.Ret c) → Prop
  next : Ghost → (c : S.Cmd) → Except S.Err (S.Ret c) → Ghost
  died : Ghost → Ghost

namespace Program
variable {S : Signature} {α β : Type} (P : Protocol S)

/-- From ghost state `g` the program issues allowed commands only, and ends as `Q` says. -/
def Follows (Q : P.Ghost → Except S.Err α → Prop) : Program S α → P.Ghost → Prop
  | .done r, g => Q g r
  | .call c next, g => P.allowed g c ∧ ∀ r, P.possible c r → (next r).Follows Q (P.next g c r)

variable {P}

@[simp] theorem follows_done {Q : P.Ghost → Except S.Err α → Prop} {r : Except S.Err α} {g : P.Ghost} :
    (done r : Program S α).Follows P Q g ↔ Q g r := Iff.rfl

@[simp] theorem follows_call {Q : P.Ghost → Except S.Err α → Prop} {c : S.Cmd}
    {next : Except S.Err (S.Ret c) → Program S α} {g : P.Ghost} :
    (call c next).Follows P Q g ↔
      P.allowed g c ∧ ∀ r, P.possible c r → (next r).Follows P Q (P.next g c r) := Iff.rfl

@[simp] theorem follows_raise {Q : P.Ghost → Except S.Err α → Prop} {e : S.Err} {g : P.Ghost} :
    (raise e : Program S α).Follows P Q g ↔ Q g (.error e) := Iff.rfl

@[simp] theorem follows_perform {c : S.Cmd} {Q : P.Ghost → Except S.Err (S.Ret c) → Prop} {g : P.Ghost} :
    (perform c).Follows P Q g ↔ P.allowed g c ∧ ∀ r, P.possible c r → Q (P.next g c r) r := Iff.rfl

theorem Follows.mono {Q Q' : P.Ghost → Except S.Err α → Prop} {p : Program S α} {g : P.Ghost}
    (h : p.Follows P Q g) (weaker : ∀ g r, Q g r → Q' g r) : p.Follows P Q' g := by
  induction p generalizing g with
  | done r => exact weaker g r h
  | call c next ih => exact ⟨h.1, fun r answer => ih r (h.2 r answer)⟩

/-- What a result leads to: the continuation on a value, the postcondition on an exception. -/
def andThen (f : α → Program S β) (Q : P.Ghost → Except S.Err β → Prop) (g : P.Ghost) : Except S.Err α → Prop
  | .ok a => (f a).Follows P Q g
  | .error e => Q g (.error e)

@[simp] theorem andThen_ok {f : α → Program S β} {Q : P.Ghost → Except S.Err β → Prop} {g : P.Ghost} {a : α} :
    andThen f Q g (.ok a) ↔ (f a).Follows P Q g := Iff.rfl

@[simp] theorem andThen_error {f : α → Program S β} {Q : P.Ghost → Except S.Err β → Prop} {g : P.Ghost} {e : S.Err} :
    andThen f Q g (.error e) ↔ Q g (.error e) := Iff.rfl

theorem follows_bind {f : α → Program S β} {Q : P.Ghost → Except S.Err β → Prop} {p : Program S α} {g : P.Ghost} :
    (p.bind f).Follows P Q g ↔ p.Follows P (andThen f Q) g := by
  induction p generalizing g with
  | done r => cases r <;> rfl
  | call c next ih => simp only [bind, follows_call, ih]

theorem follows_attempt {Q : P.Ghost → Except S.Err (Except S.Err α) → Prop} {p : Program S α} {g : P.Ghost} :
    p.attempt.Follows P Q g ↔ p.Follows P (fun g r => Q g (.ok r)) g := by
  induction p generalizing g with
  | done r => rfl
  | call c next ih => simp only [attempt, follows_call, ih]

theorem follows_handle {handler : S.Err → Program S α} {Q : P.Ghost → Except S.Err α → Prop}
    {p : Program S α} {g : P.Ghost} :
    (p.handle handler).Follows P Q g ↔ p.Follows P (fun g r => match r with
      | .ok a => Q g (.ok a)
      | .error e => (handler e).Follows P Q g) g := by
  simp only [handle, bind_eq, follows_bind, follows_attempt]
  constructor <;> intro h <;> refine h.mono fun g r q => ?_ <;> cases r <;> exact q

/-- `Q` of a result; of an exception nothing is said. -/
def Then (Q : P.Ghost → α → Prop) (g : P.Ghost) : Except S.Err α → Prop
  | .ok a => Q g a
  | .error _ => True

@[simp] theorem then_ok {Q : P.Ghost → α → Prop} {g : P.Ghost} {a : α} :
    Then Q g (.ok a : Except S.Err α) ↔ Q g a := Iff.rfl

@[simp] theorem then_error {Q : P.Ghost → α → Prop} {g : P.Ghost} {e : S.Err} : Then Q g (.error e : Except S.Err α) :=
  trivial

theorem follows_then_bind {f : α → Program S β} {Q : P.Ghost → β → Prop} {p : Program S α} {g : P.Ghost} :
    (p.bind f).Follows P (Then Q) g ↔ p.Follows P (Then fun g a => (f a).Follows P (Then Q) g) g := by
  rw [follows_bind]
  constructor <;> intro h <;> refine h.mono fun g r q => ?_ <;> cases r <;> exact q

theorem Follows.then_mono {Q Q' : P.Ghost → α → Prop} {p : Program S α} {g : P.Ghost} (h : p.Follows P (Then Q) g)
    (weaker : ∀ g a, Q g a → Q' g a) : p.Follows P (Then Q') g :=
  h.mono fun g r q => match r with
    | .ok a => weaker g a q
    | .error _ => trivial

/-- Sequencing when the first program determines the ghost state from its result. -/
theorem Follows.seq {f : α → Program S β} {Q : P.Ghost → β → Prop} {p : Program S α} {g : P.Ghost} {after : α → P.Ghost}
    (first : p.Follows P (Then fun g' a => g' = after a) g) (rest : ∀ a, (f a).Follows P (Then Q) (after a)) :
    (p.bind f).Follows P (Then Q) g :=
  follows_then_bind.mpr (first.then_mono fun _ a same => same ▸ rest a)

/-- A loop over programs that each leave the ghost state alone. -/
theorem follows_then_mapM {f : β → Program S α} {xs : List β} {g : P.Ghost}
    (each : ∀ x ∈ xs, (f x).Follows P (Then fun g' _ => g' = g) g) :
    (xs.mapM f).Follows P (Then fun g' _ => g' = g) g := by
  induction xs with
  | nil => rfl
  | cons x xs ih =>
    rw [List.mapM_cons]
    refine (each x List.mem_cons_self).seq fun a => ?_
    exact (ih fun y member => each y (List.mem_cons_of_mem _ member)).seq fun as => rfl

end Program

/-! ### Programs that issue certain commands only -/

namespace Program
variable {S : Signature} {α β : Type} {A B : S.Cmd → Prop}

/-- Every command the program may issue is in `A`. -/
def Only (A : S.Cmd → Prop) : Program S α → Prop
  | .done _ => True
  | .call c next => A c ∧ ∀ r, (next r).Only A

/-- Every command the program may issue is in `A`, and an exception ends it. -/
def Plain (A : S.Cmd → Prop) : Program S α → Prop
  | .done _ => True
  | .call c next => A c ∧ (∀ a, (next (.ok a)).Plain A) ∧ ∀ e, ∃ e', next (.error e) = .done (.error e')

@[simp] theorem plain_done {r : Except S.Err α} : (done r : Program S α).Plain A := trivial

@[simp] theorem plain_raise {e : S.Err} : (raise e : Program S α).Plain A := trivial

theorem plain_perform {c : S.Cmd} (member : A c) : (perform c).Plain A :=
  ⟨member, fun _ => trivial, fun e => ⟨e, rfl⟩⟩

theorem Plain.bind {p : Program S α} {f : α → Program S β} (first : p.Plain A) (rest : ∀ a, (f a).Plain A) :
    (p.bind f).Plain A := by
  induction p with
  | done r =>
    cases r with
    | ok a => exact rest a
    | error e => trivial
  | call c next ih =>
    obtain ⟨member, more, raised⟩ := first
    refine ⟨member, fun a => ih _ (more a), fun e => ?_⟩
    obtain ⟨e', ends⟩ := raised e
    exact ⟨e', by simp only [ends, Program.bind]⟩

theorem Plain.mono {p : Program S α} (h : p.Plain A) (weaker : ∀ c, A c → B c) : p.Plain B := by
  induction p with
  | done r => trivial
  | call c next ih => exact ⟨weaker c h.1, fun a => ih _ (h.2.1 a), h.2.2⟩

theorem plain_forM {f : β → Program S PUnit} {xs : List β} (each : ∀ x, (f x).Plain A) : (xs.forM f).Plain A := by
  induction xs with
  | nil => trivial
  | cons x xs ih => exact (each x).bind fun _ => ih

theorem plain_mapM {f : β → Program S α} {xs : List β} (each : ∀ x, (f x).Plain A) : (xs.mapM f).Plain A := by
  induction xs with
  | nil => trivial
  | cons x xs ih =>
    rw [List.mapM_cons]
    exact (each x).bind fun _ => ih.bind fun _ => trivial

theorem Plain.only {p : Program S α} (h : p.Plain A) : p.Only A := by
  induction p with
  | done r => trivial
  | call c next ih =>
    refine ⟨h.1, fun r => ?_⟩
    cases r with
    | ok a => exact ih _ (h.2.1 a)
    | error e =>
      obtain ⟨e', ends⟩ := h.2.2 e
      rw [ends]
      trivial

@[simp] theorem only_done {r : Except S.Err α} : (done r : Program S α).Only A := trivial

@[simp] theorem only_raise {e : S.Err} : (raise e : Program S α).Only A := trivial

theorem only_perform {c : S.Cmd} (member : A c) : (perform c).Only A := ⟨member, fun _ => trivial⟩

theorem Only.bind {p : Program S α} {f : α → Program S β} (first : p.Only A) (rest : ∀ a, (f a).Only A) :
    (p.bind f).Only A := by
  induction p with
  | done r =>
    cases r with
    | ok a => exact rest a
    | error e => trivial
  | call c next ih => exact ⟨first.1, fun r => ih r (first.2 r)⟩

theorem Only.attempt {p : Program S α} (h : p.Only A) : p.attempt.Only A := by
  induction p with
  | done r => trivial
  | call c next ih => exact ⟨h.1, fun r => ih r (h.2 r)⟩

theorem Only.handle {p : Program S α} {handler : S.Err → Program S α} (h : p.Only A)
    (handles : ∀ e, (handler e).Only A) :
    (p.handle handler).Only A := by
  refine h.attempt.bind fun r => ?_
  cases r with
  | ok a => trivial
  | error e => exact handles e

theorem Only.mono {p : Program S α} (h : p.Only A) (weaker : ∀ c, A c → B c) : p.Only B := by
  induction p with
  | done r => trivial
  | call c next ih => exact ⟨weaker c h.1, fun r => ih r (h.2 r)⟩

theorem only_forM {f : β → Program S PUnit} {xs : List β} (each : ∀ x, (f x).Only A) : (xs.forM f).Only A := by
  induction xs with
  | nil => trivial
  | cons x xs ih => exact (each x).bind fun _ => ih

variable {P : Protocol S}

/-- A program whose commands all keep an assertion about the ghost state keeps it. -/
theorem Only.follows {p : Program S α} {J : P.Ghost → Prop} {g : P.Ghost} (h : p.Only A) (start : J g)
    (keeps : ∀ g c, J g → A c → P.allowed g c ∧ ∀ r, P.possible c r → J (P.next g c r)) :
    p.Follows P (fun g _ => J g) g := by
  induction p generalizing g with
  | done r => exact start
  | call c next ih =>
    obtain ⟨allowed, next⟩ := keeps g c start h.1
    exact ⟨allowed, fun r answer => ih r (h.2 r) (next r answer)⟩

/-- Whatever came before, the program issues allowed commands only. -/
def Always (P : Protocol S) (p : Program S α) : Prop := ∀ g, p.Follows P (fun _ _ => True) g

theorem Only.always {p : Program S α} (h : p.Only A) (free : ∀ g c, A c → P.allowed g c) : p.Always P :=
  fun _ => h.follows trivial fun g c _ member => ⟨free g c member, fun _ _ => trivial⟩

theorem Always.bind {p : Program S α} {f : α → Program S β} (first : p.Always P) (rest : ∀ a, (f a).Always P) :
    (p.bind f).Always P := fun g => follows_bind.mpr ((first g).mono fun g r _ => by
  cases r with
  | ok a => exact rest a g
  | error e => trivial)

theorem Always.attempt {p : Program S α} (h : p.Always P) : p.attempt.Always P := fun g => follows_attempt.mpr (h g)

theorem Always.handle {p : Program S α} {handler : S.Err → Program S α} (h : p.Always P)
    (handles : ∀ e, (handler e).Always P) : (p.handle handler).Always P :=
  fun g => follows_handle.mpr ((h g).mono fun g r _ => by
    cases r with
    | ok a => trivial
    | error e => exact handles e g)

/-- A plain program whose commands leave the ghost state alone leaves it alone. -/
theorem Plain.follows {p : Program S α} {g : P.Ghost} (h : p.Plain A)
    (still : ∀ c, A c → P.allowed g c ∧ ∀ a, P.next g c (.ok a) = g) :
    p.Follows P (Then fun g' _ => g' = g) g := by
  induction p with
  | done r => cases r <;> trivial
  | call c next ih =>
    obtain ⟨allowed, stays⟩ := still c h.1
    refine ⟨allowed, fun r _ => ?_⟩
    cases r with
    | ok a =>
      rw [stays a]
      exact ih _ (h.2.1 a)
    | error e =>
      obtain ⟨e', ends⟩ := h.2.2 e
      rw [ends]
      trivial

end Program

end ReadCommitted
