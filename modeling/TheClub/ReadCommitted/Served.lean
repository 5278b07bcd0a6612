import TheClub.ReadCommitted.Program

/-!
Programs whose commands a layer serves with programs of its own. The layer keeps a state from
one command to the next; what it answers, a result or an exception, the program goes on from.
-/

namespace ReadCommitted
open Program

/-- How the commands of `S` are served with those of `T`. -/
structure Layer (S T : Signature) where
  State : Type
  serve : State → (c : S.Cmd) → Program T (Except S.Err (S.Ret c) × State)

variable {S T : Signature} {α : Type}

namespace Program

/-- The program with `layer` between it and what it talks to. -/
def under (layer : Layer S T) : Program S α → layer.State → Program T (Except S.Err α × layer.State)
  | .done r, s => .done (.ok (r, s))
  | .call c next, s => (layer.serve s c).bind fun served => (next served.1).under layer served.2

variable {layer : Layer S T} {P : Protocol S} {P' : Protocol T} {R : layer.State → P.Ghost → P'.Ghost → Prop}

/-- A layer carries a protocol to another, `R` relating the ghost states: what the first allows is served as the
second allows, and answered with an answer that the first can get. -/
def Carries (layer : Layer S T) (P : Protocol S) (P' : Protocol T)
    (R : layer.State → P.Ghost → P'.Ghost → Prop) : Prop :=
  ∀ s g g' c, R s g g' → P.allowed g c → (layer.serve s c).Follows P' (fun g'' r => ∃ answer s',
    r = .ok (answer, s') ∧ P.possible c answer ∧ R s' (P.next g c answer) g'') g'

/-- A program that follows the one protocol follows the other under a layer that carries it there. -/
theorem Carries.follows (carries : Carries layer P P' R) {p : Program S α} {Q : P.Ghost → Except S.Err α → Prop}
    {s : layer.State} {g : P.Ghost} {g' : P'.Ghost} (follows : p.Follows P Q g) (related : R s g g') :
    (p.under layer s).Follows P' (fun g'' r => ∃ result s' g, r = .ok (result, s') ∧ R s' g g'' ∧ Q g result) g' := by
  induction p generalizing s g g' with
  | done r => exact ⟨r, s, g, rfl, related, follows⟩
  | call c next ih =>
    refine follows_bind.mpr ((carries s g g' c related follows.1).mono fun g'' r served => ?_)
    obtain ⟨answer, s', rfl, possible, related⟩ := served
    exact ih answer (follows.2 answer possible) related

end Program

end ReadCommitted
