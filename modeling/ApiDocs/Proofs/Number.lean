import ApiDocs.Number.Reading

/-!
# Decimal digits

The digits of a number are read as that number.
-/

namespace ApiDocs

variable {n : Nat}

theorem isDigit_of_mem_digits {c : Char} (among : c ∈ Nat.toDigits 10 n) : c.isDigit = true :=
  Nat.isDigit_of_mem_toDigits (by decide) (by decide) among

/-- The digits of a number have it for their value. -/
theorem digitsValue_toDigits : digitsValue (Nat.toDigits 10 n) = n := by
  have read : Nat.ofDigitChars 10 (Nat.toDigits 10 n) 0 = n := Nat.ofDigitChars_ten_toDigits
  rw [Nat.ofDigitChars] at read
  simpa only [digitsValue, Nat.mul_comm] using read

/-- Numbers are told apart by how they are written. -/
theorem toString_eq_iff {m : Nat} : toString m = toString n ↔ m = n := by
  refine ⟨fun same => ?_, fun same => same ▸ rfl⟩
  have digits := congrArg (digitsValue ∘ String.toList) same
  simpa only [Function.comp_apply, Nat.toString_eq_repr, Nat.toList_repr, digitsValue_toDigits]
    using digits

theorem readDigits?_toDigits : readDigits? (Nat.toDigits 10 n) = some n := by
  have digits : (Nat.toDigits 10 n).all Char.isDigit = true :=
    List.all_eq_true.mpr fun _ among => isDigit_of_mem_digits among
  have present : (Nat.toDigits 10 n).isEmpty = false :=
    List.isEmpty_eq_false_iff.mpr Nat.toDigits_ne_nil
  rw [readDigits?, digits, present, digitsValue_toDigits]
  rfl

theorem readUInt16?_toDigits (small : n < Nat.pow 2 16) :
    readUInt16? (Nat.toDigits 10 n) = some n := by
  rw [readUInt16?, readDigits?_toDigits]
  · exact if_pos small
  · intro rest signed
    have sign : '+' ∈ Nat.toDigits 10 n := signed ▸ List.mem_cons_self
    cases isDigit_of_mem_digits sign

end ApiDocs
