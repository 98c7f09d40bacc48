import LineCalc.Proofs.Evaluation
import Mathlib.Data.Int.ModEq

/-!
# Wrapped values and exact ones

The value of a tree is wrapped at every node, and its exact value is computed on unbounded
integers all the way up. Wrapping is a map from the integers that sums, differences, products
and negations go through, so for them it does not matter when it is done: once at the end is
enough, however often the exact values had left the range in between.

Quotients and remainders do not go through it. They have to be given the exact operands, which
they are if these fit 64 bits (`DivisionsFit`). What comes out need not fit: `-2 ^ 63 / -1` is
wrapped like a sum.
-/

namespace LineCalc

/-! ## Words and the integers they stand for -/

/-- An integer that 64 bits hold with its sign. -/
def FitsWord (n : Int) : Prop := -2 ^ 63 ≤ n ∧ n < 2 ^ 63

instance (n : Int) : Decidable (FitsWord n) := inferInstanceAs (Decidable (_ ∧ _))

theorem FitsWord.toInt_ofInt {n : Int} (h : FitsWord n) : (Int64.ofInt n).toInt = n :=
  Int64.toInt_ofInt_of_le h.1 h.2

/-- A word is the integer that was wrapped, up to a multiple of `2 ^ 64`. -/
theorem toInt_ofInt_modEq (n : Int) : (Int64.ofInt n).toInt ≡ n [ZMOD 2 ^ 64] := by
  rw [Int64.toInt_ofInt]
  exact Int.bmod_emod

/-- There is no other such word. -/
theorem eq_ofInt_of_modEq {w : Int64} {n : Int} (h : w.toInt ≡ n [ZMOD 2 ^ 64]) :
    w = Int64.ofInt n := by
  have hbmod : n.bmod (2 ^ 64) = w.toInt.bmod (2 ^ 64) := by
    rw [← Int.emod_bmod, ← Int.emod_bmod (x := w.toInt)]
    exact congrArg (Int.bmod · (2 ^ 64)) h.symm
  refine ((Int64.ofInt_eq_iff_bmod_eq_toInt n w).mpr ?_).symm
  rw [hbmod]
  exact Int.bmod_eq_of_le w.le_toInt w.toInt_lt

namespace Operator

/-- What an operation asks of its exact operands: to divide, both have to fit, and the divisor
not to be zero. -/
def Accepts (op : Operator) (left right : Int) : Prop :=
  op.divides = true → FitsWord left ∧ FitsWord right ∧ right ≠ 0

instance (op : Operator) (left right : Int) : Decidable (op.Accepts left right) :=
  inferInstanceAs (Decidable (_ → _))

/-- **Operands may be wrapped first.** -/
theorem wrapped_ofInt {op : Operator} {left right : Int} (h : op.Accepts left right) :
    op.wrapped (Int64.ofInt left) (Int64.ofInt right)
      = .ok (Int64.ofInt (op.exact left right)) := by
  by_cases hd : op.divides = true
  · obtain ⟨hl, hr, hne⟩ := h hd
    have hzero : Int64.ofInt right ≠ 0 := by
      intro h0
      refine hne ?_
      rw [← hr.toInt_ofInt, h0]
      rfl
    rw [wrapped, hl.toInt_ofInt, hr.toInt_ofInt, hd, decide_eq_false hzero]
    rfl
  · rw [← apply_eq_wrapped]
    cases op with
    | add => rw [apply, exact, Int64.ofInt_add]
    | sub => rw [apply, exact, Int64.ofInt_sub]
    | mul => rw [apply, exact, Int64.ofInt_mul]
    | div | rem => exact absurd rfl hd

end Operator

/-! ## Exact values of trees -/

/-- Something about the exact value of a phrase. About links it is said for every value on their
left. -/
abbrev Phrase.Exactly (α : Type) : Phrase → Type
  | .whole _ => α
  | .links _ => Int → α

namespace Tree

/-- The value of a tree on unbounded integers. -/
def exact {ph : Phrase} : Tree ph → ph.Exactly Int
  | number value => value.toInt
  | group inner => inner.exact
  | minus operand => -operand.exact
  | plus operand => operand.exact
  | chain first more => more.exact first.exact
  | done => fun left => left
  | link op _ right more => fun left => more.exact (op.exact left right.exact)

/-- Every operation accepts its exact operands. -/
def DivisionsFit {ph : Phrase} : Tree ph → ph.Exactly Prop
  | number _ => True
  | group inner => inner.DivisionsFit
  | minus operand => operand.DivisionsFit
  | plus operand => operand.DivisionsFit
  | chain first more => first.DivisionsFit ∧ more.DivisionsFit first.exact
  | done => fun _ => True
  | link op _ right more => fun left =>
      right.DivisionsFit ∧ op.Accepts left right.exact ∧
        more.DivisionsFit (op.exact left right.exact)

end Tree

/-- The value is the exact one, wrapped, if nothing is asked that does not hold. -/
def Phrase.WrapsTo : (ph : Phrase) → ph.Meaning → ph.Exactly Prop → ph.Exactly Int → Prop
  | .whole _, value, asked, exact => asked → value = .ok (Int64.ofInt exact)
  | .links _, value, asked, exact => ∀ left : Int,
      asked left → value (Int64.ofInt left) = .ok (Int64.ofInt (exact left))

/-- **Wrapping at every node is wrapping once at the end.** -/
theorem Tree.wrapsTo {ph : Phrase} (t : Tree ph) : ph.WrapsTo t.value t.DivisionsFit t.exact := by
  induction t with
  | number value =>
      intro _
      show Except.ok value = .ok (Int64.ofInt value.toInt)
      rw [Int64.ofInt_toInt]
  | group inner ih => exact ih
  | minus operand ih =>
      intro hfit
      show operand.value.map _ = .ok (Int64.ofInt (-operand.exact))
      rw [ih hfit, Except.map, Int64.ofInt_neg, Int64.ofInt_toInt, Int64.ofInt_neg]
  | plus operand ih => exact ih
  | chain first more ihFirst ihMore =>
      intro hfit
      obtain ⟨hfirst, hmore⟩ := hfit
      show first.value.bind more.value = _
      rw [ihFirst hfirst]
      exact ihMore first.exact hmore
  | done =>
      intro left _
      rfl
  | link op hop right more ihRight ihMore =>
      intro left hfit
      obtain ⟨hright, haccepts, hmore⟩ := hfit
      show right.value.bind _ = _
      rw [ihRight hright]
      show (op.wrapped _ _).bind more.value = _
      rw [Operator.wrapped_ofInt haccepts]
      exact ihMore _ hmore

/-! ## The theorem -/

namespace Derivation

variable {tokens : List Token}

/-- The value on unbounded integers. -/
def exact (d : Derivation tokens) : Int := d.tree.exact

/-- Whatever is divided and whatever it is divided by fits 64 bits, and no divisor is zero. -/
def DivisionsFit (d : Derivation tokens) : Prop := d.tree.DivisionsFit

end Derivation

/--
**Wrapping arithmetic against exact integers.** Let a token list be an expression that nests no
deeper than is allowed, and let its divisions have exact operands that fit 64 bits, with no divisor
zero. However many of its sums, products, negations and quotients do not fit, it has a value. This
is the one word that is the exact value modulo `2 ^ 64`, and it is the exact value if that one fits.
-/
theorem value_is_exact_modulo_size {tokens : List Token} (d : Derivation tokens)
    (hn : d.tree.nesting ≤ 255) (hfit : d.DivisionsFit) :
    ∃ v : Int64, evaluate tokens = .ok v ∧ v.toInt ≡ d.exact [ZMOD 2 ^ 64] ∧
      (∀ w : Int64, w.toInt ≡ d.exact [ZMOD 2 ^ 64] → w = v) ∧
      (FitsWord d.exact → v.toInt = d.exact) := by
  refine ⟨Int64.ofInt d.exact, ?_, toInt_ofInt_modEq _, fun w => eq_ofInt_of_modEq,
    FitsWord.toInt_ofInt⟩
  exact evaluate_eq_ok_iff.mpr ⟨d, hn, d.tree.wrapsTo hfit⟩

/-- The quotient does not fit, and what is left of it does. -/
theorem least_negated_less_two :
    ∃ d : Derivation [⟨.number Int64.minValue, "a"⟩, ⟨.slash, "/"⟩, ⟨.number (-1), "b"⟩,
        ⟨.minus, "-"⟩, ⟨.number 2, "2"⟩],
      d.tree.nesting ≤ 255 ∧ d.DivisionsFit ∧ d.exact = 9223372036854775806 ∧
      evaluate [⟨.number Int64.minValue, "a"⟩, ⟨.slash, "/"⟩, ⟨.number (-1), "b"⟩,
        ⟨.minus, "-"⟩, ⟨.number 2, "2"⟩] = .ok 9223372036854775806 := by
  let quotient : Tree (.whole .term) :=
    .chain (.number Int64.minValue) (.link .div rfl (.number (-1)) .done)
  let difference : Tree (.whole .expression) :=
    .chain quotient (.link .sub rfl (.chain (.number 2) .done) .done)
  have hfit : difference.DivisionsFit :=
    ⟨⟨trivial, trivial, fun _ => by decide, trivial⟩, ⟨trivial, trivial⟩, nofun, trivial⟩
  have hexact : difference.exact = (9223372036854775806 : Int) := by decide
  refine ⟨⟨difference, rfl⟩, by decide, hfit, hexact, ?_⟩
  obtain ⟨v, hv, -, -, hfits⟩ := value_is_exact_modulo_size
    (⟨difference, rfl⟩ : Derivation [⟨.number Int64.minValue, "a"⟩, ⟨.slash, "/"⟩,
      ⟨.number (-1), "b"⟩, ⟨.minus, "-"⟩, ⟨.number 2, "2"⟩]) (by decide) hfit
  obtain rfl : v = 9223372036854775806 := Int64.toInt_inj.mp (hfits (by decide))
  exact hv

end LineCalc
