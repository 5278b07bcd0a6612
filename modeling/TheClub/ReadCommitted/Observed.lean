import TheClub.ReadCommitted.Machine

/-! Runs that an observer takes notes of: `note w l` is what the step `l` from `w` is worth noting. -/

namespace ReadCommitted
variable {S : Signature} {Y : System S} {β : Type}

/-- A run that has reached `w`, with its notes in order. -/
inductive Observed (ok : World Y → Label Y → Prop) (note : World Y → Label Y → List β) : World Y → List β → Prop where
  | start : Observed ok note World.initial []
  | step {w w' : World Y} {l : Label Y} {notes : List β} : Observed ok note w notes → ok w l → w.step l = some w' →
      Observed ok note w' (notes ++ note w l)

variable {ok : World Y → Label Y → Prop} {note : World Y → Label Y → List β}

theorem Observed.reachable {w : World Y} {notes : List β} (observed : Observed ok note w notes) : Reachable ok w := by
  induction observed with
  | start => exact .refl _
  | step _ allowed moved ih => exact .step ih allowed moved

/-- `World.replay` with the notes taken on the way. -/
def World.replayNoting (check : World Y → Label Y → Bool) (note : World Y → Label Y → List β) (w : World Y) :
    List (Label Y) → List β
  | [] => []
  | l :: ls =>
    if check w l then
      match w.step l with
      | some w' => note w l ++ w'.replayNoting check note ls
      | none => w.replayNoting check note ls
    else w.replayNoting check note ls

theorem observed_replay {check : World Y → Label Y → Bool} (sound : ∀ w l, check w l = true → ok w l) {w : World Y}
    {notes : List β} (observed : Observed ok note w notes) (ls : List (Label Y)) :
    Observed ok note (w.replay check ls) (notes ++ w.replayNoting check note ls) := by
  induction ls generalizing w notes with
  | nil => simpa [World.replay, World.replayNoting] using observed
  | cons l ls ih =>
    by_cases accepted : check w l = true
    · cases moved : w.step l with
      | none => simpa [World.replay, World.replayNoting, accepted, moved] using ih observed
      | some w' =>
        simpa [World.replay, World.replayNoting, accepted, moved] using ih (observed.step (sound w l accepted) moved)
    · simpa [World.replay, World.replayNoting, accepted] using ih observed

end ReadCommitted
