import TheClub.Domain.Fairness
import TheClub.Text.Rendering

/-!
HMAC messages are read from the right: after the last `:` stands either a nonce, which is then the
first digest of its spin, or an `r` and the index of a retry, and the nonce before it. A client seed
is what is left, colons and all.
-/

namespace TheClub

open Text

/-! ### The two shapes -/

def retrySuffix (roundIndex : Nat) : List Char := 'r' :: roundIndex.repr.toList

theorem colon_notMem_retrySuffix (roundIndex : Nat) : ':' ∉ retrySuffix roundIndex := by
  intro member
  rcases List.mem_cons.mp member with marker | digit
  · exact absurd marker (by decide)
  · exact notMem_repr rfl digit

theorem retrySuffix_inj {i i' : Nat} : retrySuffix i = retrySuffix i' ↔ i = i' := by
  unfold retrySuffix
  rw [List.cons_inj_right, String.toList_inj, repr_inj]

theorem colon_notMem_nonce (nonce : Int) : ':' ∉ nonce.repr.toList := notMem_intRepr rfl (by decide)

/-- A retry is never read as a nonce. -/
theorem nonce_ne_retrySuffix (nonce : Int) (i : Nat) : nonce.repr.toList ≠ retrySuffix i := by
  intro same
  have marker : 'r' ∈ nonce.repr.toList := same ▸ List.mem_cons_self
  exact notMem_intRepr rfl (by decide) marker

def spinPrefix (clientSeed : String) (nonce : Int) : List Char := clientSeed.toList ++ ':' :: nonce.repr.toList

theorem spinPrefix_inj {c c' : String} {n n' : Int} : spinPrefix c n = spinPrefix c' n' ↔ c = c' ∧ n = n' := by
  unfold spinPrefix
  rw [append_cons_inj (colon_notMem_nonce n) (colon_notMem_nonce n'), String.toList_inj, String.toList_inj, intRepr_inj]

theorem message_first (clientSeed : String) (nonce : Int) :
    message clientSeed nonce 0 = encode (.ofList (spinPrefix clientSeed nonce)) := by
  unfold message spinPrefix
  rw [if_pos rfl]
  congr 1
  apply String.toList_inj.mp
  show (clientSeed ++ ":" ++ nonce.repr).toList = _
  simp only [String.toList_append, String.toList_ofList, List.append_assoc]
  rfl

theorem message_retry (clientSeed : String) (nonce : Int) {i : Nat} (retry : i ≠ 0) :
    message clientSeed nonce i = encode (.ofList (spinPrefix clientSeed nonce ++ ':' :: retrySuffix i)) := by
  unfold message spinPrefix retrySuffix
  rw [if_neg retry]
  congr 1
  apply String.toList_inj.mp
  show (clientSeed ++ ":" ++ nonce.repr ++ ":r" ++ i.repr).toList = _
  simp only [String.toList_append, String.toList_ofList, List.append_assoc]
  rfl

theorem first_ne_retry {c c' : String} {n n' : Int} {i : Nat} (retry : i ≠ 0) : message c n 0 ≠ message c' n' i := by
  intro same
  rw [message_first, message_retry c' n' retry] at same
  have chars := congrArg String.toList (utf8_inj.mp same)
  rw [String.toList_ofList, String.toList_ofList] at chars
  obtain ⟨-, last⟩ := (append_cons_inj (colon_notMem_nonce n) (colon_notMem_retrySuffix i)).mp chars
  exact nonce_ne_retrySuffix n i last

/-- A message determines the client seed, the nonce and the index of the digest. -/
theorem message_inj {c c' : String} {n n' : Int} {i i' : Nat} :
    message c n i = message c' n' i' ↔ c = c' ∧ n = n' ∧ i = i' := by
  constructor
  · intro same
    by_cases first : i = 0 <;> by_cases first' : i' = 0
    · subst first first'
      rw [message_first, message_first] at same
      have chars := congrArg String.toList (utf8_inj.mp same)
      rw [String.toList_ofList, String.toList_ofList] at chars
      obtain ⟨seed, nonce⟩ := spinPrefix_inj.mp chars
      exact ⟨seed, nonce, rfl⟩
    · subst first
      exact absurd same (first_ne_retry first')
    · subst first'
      exact absurd same.symm (first_ne_retry first)
    · rw [message_retry c n first, message_retry c' n' first'] at same
      have chars := congrArg String.toList (utf8_inj.mp same)
      rw [String.toList_ofList, String.toList_ofList] at chars
      obtain ⟨spin, index⟩ := (append_cons_inj (colon_notMem_retrySuffix i) (colon_notMem_retrySuffix i')).mp chars
      obtain ⟨seed, nonce⟩ := spinPrefix_inj.mp spin
      exact ⟨seed, nonce, retrySuffix_inj.mp index⟩
  · rintro ⟨rfl, rfl, rfl⟩
    rfl

end TheClub
