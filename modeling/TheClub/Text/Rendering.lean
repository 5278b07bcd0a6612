import Mathlib

/-!
Texts written as fields with a separator before the last one. Such a text is read from the right:
a decimal contains no separator, so the last separator is where the last field begins, whatever the
text before it contains. UTF-8 and decimal rendering lose nothing.
-/

namespace Text

theorem toList_loop (bytes : ByteArray) (i : Nat) (taken : List UInt8) :
    ByteArray.toList.loop bytes i taken = taken.reverse ++ bytes.data.toList.drop i := by
  induction i, taken using ByteArray.toList.loop.induct bytes with
  | case1 i taken inside ih =>
    have bound : i < bytes.data.toList.length := inside
    have byte : bytes.get! i = bytes.data.toList[i] := getElem!_pos bytes.data i inside
    rw [ByteArray.toList.loop, if_pos inside, ih, List.drop_eq_getElem_cons bound, byte, List.reverse_cons,
      List.append_assoc, List.singleton_append]
  | case2 i taken outside =>
    have past : bytes.data.toList.length ≤ i := Nat.le_of_not_lt outside
    rw [ByteArray.toList.loop, if_neg outside, List.drop_of_length_le past, List.append_nil]

theorem utf8_inj {s t : String} : s.toUTF8.toList = t.toUTF8.toList ↔ s = t := by
  constructor
  · intro same
    unfold String.toUTF8 ByteArray.toList at same
    rw [toList_loop, toList_loop] at same
    exact String.toByteArray_inj.mp (ByteArray.ext (Array.toList_inj.mp same))
  · intro same
    rw [same]

/-! ### The last separator -/

theorem cut_last {α : Type*} {sep : α} {left left' right right' : List α} (free : sep ∉ right)
    (same : left ++ sep :: right = left' ++ sep :: right') (between : List α) (longer : left' = left ++ between) :
    between = [] := by
  subst longer
  rw [List.append_assoc, List.append_right_inj] at same
  cases between with
  | nil => rfl
  | cons c rest =>
    obtain ⟨-, later⟩ := List.cons.inj same
    exact absurd (later ▸ List.mem_append_right rest List.mem_cons_self) free

/-- `sep` and a segment without it can be cut off the end of a list in one way only. -/
theorem append_cons_inj {α : Type*} {sep : α} {left left' right right' : List α} (free : sep ∉ right)
    (free' : sep ∉ right') : left ++ sep :: right = left' ++ sep :: right' ↔ left = left' ∧ right = right' := by
  constructor
  · intro same
    have prefixes : left = left' := by
      rcases List.append_eq_append_iff.mp same with ⟨between, longer, -⟩ | ⟨between, longer, -⟩
      · rw [longer, cut_last free same between longer, List.append_nil]
      · rw [longer, cut_last free' same.symm between longer, List.append_nil]
    subst prefixes
    exact ⟨rfl, (List.cons.inj (List.append_right_inj left |>.mp same)).2⟩
  · rintro ⟨rfl, rfl⟩
    rfl

/-! ### Decimals -/

theorem notMem_repr {n : Nat} {c : Char} (other : c.isDigit = false) : c ∉ n.repr.toList := by
  intro member
  rw [Nat.toList_repr] at member
  rw [Nat.isDigit_of_mem_toDigits (by decide) (by decide) member] at other
  cases other

theorem repr_inj {n n' : Nat} : n.repr = n'.repr ↔ n = n' := by
  constructor
  · intro same
    have digits := congrArg String.toList same
    rw [Nat.toList_repr, Nat.toList_repr] at digits
    have value := congrArg (fun l => Nat.ofDigitChars 10 l 0) digits
    rwa [Nat.ofDigitChars_ten_toDigits, Nat.ofDigitChars_ten_toDigits] at value
  · intro same
    rw [same]

theorem notMem_intRepr {n : Int} {c : Char} (other : c.isDigit = false) (minus : c ≠ '-') : c ∉ n.repr.toList := by
  cases n with
  | ofNat m => exact notMem_repr other
  | negSucc m =>
    intro member
    rw [Int.repr, String.toList_append] at member
    rcases List.mem_append.mp member with sign | digit
    · exact minus (List.mem_singleton.mp sign)
    · exact notMem_repr other digit

theorem minus_ne_repr {m n : Nat} : "-" ++ m.repr ≠ n.repr := by
  intro same
  have member : '-' ∈ n.repr.toList := by
    rw [← same, String.toList_append]
    exact List.mem_append_left _ List.mem_cons_self
  exact notMem_repr rfl member

theorem intRepr_inj {n n' : Int} : n.repr = n'.repr ↔ n = n' := by
  constructor
  · intro same
    cases n with
    | ofNat m =>
      cases n' with
      | ofNat m' => exact congrArg Int.ofNat (repr_inj.mp same)
      | negSucc m' => exact absurd same.symm minus_ne_repr
    | negSucc m =>
      cases n' with
      | ofNat m' => exact absurd same minus_ne_repr
      | negSucc m' =>
        have digits : m.succ.repr = m'.succ.repr := String.append_right_inj "-" |>.mp same
        exact congrArg Int.negSucc (Nat.succ.inj (repr_inj.mp digits))
  · intro same
    rw [same]

end Text
