import LineCalc.Token
import Mathlib.Logic.Function.Defs

/-!
# Values as they are printed

A value is printed in decimal digits, behind a `-` if it is negative. The digits are those of its
magnitude, and they read back as the magnitude, so no two values are printed alike.
-/

namespace LineCalc

/-- The digits of a value without its sign. -/
def magnitude (v : Int64) : List Char := Nat.toDigits 10 v.toInt.natAbs

theorem magnitude_ne_nil (v : Int64) : magnitude v ≠ [] := Nat.toDigits_ne_nil

theorem isDigit_of_mem_magnitude {v : Int64} {c : Char} (h : c ∈ magnitude v) :
    c.isDigit = true := Nat.isDigit_of_mem_toDigits (by decide) (by decide) h

theorem toList_decimal (v : Int64) :
    (decimal v).toList = if v.toInt < 0 then '-' :: magnitude v else magnitude v := by
  rw [decimal, Int.repr_eq_if, magnitude]
  by_cases hneg : v.toInt < 0
  · have hdigits : (-v.toInt).toNat = v.toInt.natAbs := by omega
    rw [if_neg (by omega), if_pos hneg, hdigits, String.toList_append, Nat.toList_repr]
    rfl
  · have hdigits : v.toInt.toNat = v.toInt.natAbs := by omega
    rw [if_pos (by omega), if_neg hneg, hdigits, Nat.toList_repr]

/-- The digits write the magnitude. -/
theorem ofDigitChars_magnitude (v : Int64) :
    Nat.ofDigitChars 10 (magnitude v) 0 = v.toInt.natAbs := Nat.ofDigitChars_ten_toDigits

/-- Nothing but digits and a sign is printed. -/
theorem not_mem_decimal (v : Int64) {c : Char} (hne : c ≠ '-') (hdigit : c.isDigit = false) :
    c ∉ (decimal v).toList := by
  have hmagnitude : c ∉ magnitude v := fun hc =>
    Bool.false_ne_true (hdigit.symm.trans (isDigit_of_mem_magnitude hc))
  rw [toList_decimal]
  split
  · exact List.not_mem_cons_of_ne_of_not_mem hne hmagnitude
  · exact hmagnitude

/-- A sign is no digit, so what is printed shows whether there is one. -/
theorem head?_decimal (v : Int64) : (decimal v).toList.head? = some '-' ↔ v.toInt < 0 := by
  rw [toList_decimal]
  split
  · rename_i hneg
    exact ⟨fun _ => hneg, fun _ => rfl⟩
  · rename_i hpos
    refine ⟨fun h => ?_, fun h => absurd h hpos⟩
    cases isDigit_of_mem_magnitude (List.mem_of_mem_head? h)

/-- **Values are told apart by what is printed of them.** -/
theorem decimal_injective : Function.Injective decimal := by
  intro v w h
  have hsign : v.toInt < 0 ↔ w.toInt < 0 := by
    rw [← head?_decimal, ← head?_decimal, h]
  have hdigits : magnitude v = magnitude w := by
    have hlist := congrArg String.toList h
    rw [toList_decimal, toList_decimal] at hlist
    by_cases hneg : v.toInt < 0
    · rw [if_pos hneg, if_pos (hsign.mp hneg)] at hlist
      exact (List.cons.inj hlist).2
    · rw [if_neg hneg, if_neg fun hw => hneg (hsign.mpr hw)] at hlist
      exact hlist
  have habs : v.toInt.natAbs = w.toInt.natAbs := by
    rw [← ofDigitChars_magnitude, ← ofDigitChars_magnitude, hdigits]
  exact Int64.toInt_inj.mp (by omega)

end LineCalc
