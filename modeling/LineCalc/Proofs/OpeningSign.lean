import LineCalc.Proofs.Scanning
import LineCalc.Proofs.Substitution
import Mathlib.Algebra.Group.Nat.Defs

/-!
# The sign that opens a line

At the start of a line a sign and a number are one token, and anywhere else they are two.
For the value it makes no difference: an operand `-n` is read before any operator is
looked at, and its sign is one level of nesting where there are hundreds.

It makes one for the range. The least integer can be written with its sign only, because
its magnitude is no number by itself (`literal?_negative`).
-/

namespace LineCalc

/-- What a sign makes of the number behind it. -/
def TokenKind.signed? : TokenKind → Int64 → Option Int64
  | plus, value => some value
  | minus, value => some (-value)
  | _, _ => none

/-- `us` is `ts` with the sign of its first number apart. -/
def Unfolds (ts us : List Token) : Prop :=
  ∃ (t s n : Token) (value signed : Int64) (rest : List Token),
    ts = t :: rest ∧ us = s :: n :: rest ∧ t.kind = .number signed ∧ n.kind = .number value ∧
    s.kind.signed? value = some signed

namespace Production

/-- What a chain reads depends on what its first operand does. -/
theorem readChain_congr {operand : Production} {operator? : TokenKind → Option Operator}
    {ts us : List Token} (h : operand.read ts = operand.read us) :
    (chain operator? operand).read ts = (chain operator? operand).read us := by
  show readChain operator? operand ts = readChain operator? operand us
  rw [readChain, readChain, h]

/-- With a level to spare for the sign, a signed number is a number. -/
theorem primary_unfolds {ts us : List Token} (h : Unfolds ts us) (levels : Nat) :
    (primary (levels + 2)).read ts = (primary (levels + 2)).read us := by
  obtain ⟨t, s, n, value, signed, rest, rfl, rfl, ht, hn, hs⟩ := h
  have hnumber : (primary (levels + 1)).read (n :: rest) = ⟨.ok value, rest⟩ := by
    show readOperand _ (n :: rest) = _
    rw [readOperand, hn]
  show readOperand (primary (levels + 1)) (t :: rest)
    = readOperand (primary (levels + 1)) (s :: n :: rest)
  rw [readOperand, ht, readOperand]
  cases hk : s.kind with
  | plus =>
      rw [hk] at hs
      cases hs
      simp only [hnumber]
  | minus =>
      rw [hk] at hs
      cases hs
      simp only [hnumber]
      rfl
  | _ =>
      rw [hk] at hs
      cases hs

end Production

/-- **A sign may be folded into its number.** Value, fault and all are the same. -/
theorem evaluate_unfolds {ts us : List Token} (h : Unfolds ts us) : evaluate ts = evaluate us := by
  have hread : (Production.expression (maxNesting + 1)).read ts
      = (Production.expression (maxNesting + 1)).read us :=
    Production.readChain_congr (Production.readChain_congr (Production.primary_unfolds h 254))
  rw [evaluate, evaluate, hread]

namespace Statement

/-- Signs and numbers are no names, so names are replaced or refused all the same. -/
theorem valueOf_unfolds {ts us : List Token} (h : Unfolds ts us) (b : Bindings)
    (misspelt : Fault) : valueOf b misspelt ts = valueOf b misspelt us := by
  obtain ⟨t, s, n, value, signed, rest, rfl, rfl, ht, hn, hs⟩ := h
  have htn : t.name? = none := by rw [Token.name?, ht]
  have hnn : n.name? = none := by rw [Token.name?, hn]
  have hsn : s.name? = none := by
    cases hname : s.name? with
    | none => rfl
    | some name =>
        rw [(Token.name?_eq_some_iff.mp hname).1] at hs
        cases hs
  simp only [valueOf, List.mapM_cons, resolve_of_name?_eq_none htn, resolve_of_name?_eq_none hnn,
    resolve_of_name?_eq_none hsn]
  cases hr : rest.mapM (resolve b misspelt) with
  | error f => rfl
  | ok vs => exact evaluate_unfolds ⟨t, s, n, value, signed, vs, rfl, rfl, ht, hn, hs⟩

/-- A line whose first token is no name is an expression, and any `=` in it is a fault. -/
theorem run_of_name?_eq_none {t : Token} (ht : t.name? = none) (b : Bindings)
    (rest : List Token) :
    run b (t :: rest) =
      if (t :: rest).any fun u => u.kind.isEqual then (.error .identifier, b)
      else ((valueOf b .identifier (t :: rest)).map fun value => ⟨.expression, value⟩, b) := by
  by_cases hequal : ((t :: rest).any fun u => u.kind.isEqual) = true
  · have hform : ofTokens (t :: rest) = .assignment := by
      unfold ofTokens
      exact if_pos hequal
    have hassigned : assigned b (t :: rest) = .error .identifier :=
      assigned_of_not_name (by rw [ht, Option.filter_none])
    rw [if_pos hequal, run_of_assignment hform, hassigned]
  · have hform : ofTokens (t :: rest) = .expression := by
      unfold ofTokens
      rw [if_neg hequal]
      split
      · rename_i heq
        cases heq
        cases ht
      · rfl
    rw [if_neg hequal, run_of_ne_assignment (by rw [hform]; simp), hform]

/-- What the sign is a part of does not matter to a statement, either. -/
theorem run_unfolds {ts us : List Token} (h : Unfolds ts us) (b : Bindings) :
    run b ts = run b us := by
  have hvalue := valueOf_unfolds h b .identifier
  obtain ⟨t, s, n, value, signed, rest, rfl, rfl, ht, hn, hs⟩ := h
  have htn : t.name? = none := by rw [Token.name?, ht]
  have hsign : s.name? = none ∧ s.kind.isEqual = false := by
    rw [Token.name?]
    cases hk : s.kind with
    | plus | minus => exact ⟨rfl, rfl⟩
    | _ =>
        rw [hk] at hs
        cases hs
  have hequal : ((t :: rest).any fun u => u.kind.isEqual)
      = (s :: n :: rest).any fun u => u.kind.isEqual := by
    rw [List.any_cons, List.any_cons, List.any_cons, ht, hn, hsign.2]
    rfl
  rw [run_of_name?_eq_none htn, run_of_name?_eq_none hsign.1, hvalue, hequal]

end Statement

/-! ## The range -/

/-- The sign of a number is its own, unless only the negative number fits. -/
theorem literal?_negative {digits : List Char} (h : Nat.ofDigitChars 10 digits 0 ≠ 2 ^ 63) :
    literal? true digits = (literal? false digits).map fun v => -v := by
  unfold literal?
  rw [Int64.toInt_minValue, Int64.toInt_maxValue]
  simp only [Bool.false_eq_true, if_false, if_true]
  by_cases hfit : Nat.ofDigitChars 10 digits 0 < 2 ^ 63
  · rw [if_pos (by omega), if_pos (by omega), Option.map_some, Int64.ofInt_neg]
  · rw [if_neg (by omega), if_neg (by omega), Option.map_none]

theorem literal?_least {digits : List Char} (h : Nat.ofDigitChars 10 digits 0 = 2 ^ 63) :
    literal? false digits = none := by
  unfold literal?
  rw [Int64.toInt_minValue, Int64.toInt_maxValue]
  simp only [Bool.false_eq_true, if_false]
  rw [if_neg (by omega)]

/-- The value without its sign, and what the sign makes of it. -/
theorem exists_natAbs {v : Int64} (hv : v ≠ Int64.minValue) :
    ∃ w : Int64, w.toInt = v.toInt.natAbs ∧ (0 ≤ v.toInt → w = v) ∧ (v.toInt ≤ 0 → -w = v) := by
  have hleast : v.toInt ≠ -2 ^ 63 := by
    intro h
    exact hv (Int64.toInt_inj.mp (h.trans Int64.toInt_minValue.symm))
  have hlow := v.le_toInt
  have hhigh := v.toInt_lt
  refine ⟨Int64.ofInt v.toInt.natAbs, Int64.toInt_ofInt_of_le (by omega) (by omega), ?_, ?_⟩
  · intro hpos
    rw [Int.natAbs_of_nonneg hpos, Int64.ofInt_toInt]
  · intro hneg
    rw [Int.ofNat_natAbs_of_nonpos hneg, Int64.ofInt_neg, Int64.ofInt_toInt, Int64.neg_neg]

/-! ## The two readings of a line -/

/-- The pieces open with a `-` and a number that fits with it only. -/
def OpensLeast (ps : List Piece) : Prop :=
  ∃ digits rest, ps = .mark '-' :: .word digits :: rest ∧ (∀ c ∈ digits, c.isDigit = true) ∧
    Nat.ofDigitChars 10 digits 0 = 2 ^ 63

theorem readAll_of_opensLeast {ps : List Piece} (h : OpensLeast ps) :
    readAll ps = .error .expression := by
  obtain ⟨digits, rest, rfl, hd, hv⟩ := h
  have hne : digits ≠ [] := by
    intro he
    subst he
    cases hv
  have hword : (Piece.word digits).token? = none := by
    rw [Piece.token?_digits hne hd, literal?_least hv, Option.map_none]
  rw [readAll_cons_of_some (t := ⟨.minus, String.ofList ['-']⟩) rfl, readAll_cons_of_none hword]
  rfl

/-- A sign and the digits behind it, by themselves and as one. -/
theorem literal?_signed {s : Char} {digits : List Char} (hs : s = '+' ∨ s = '-')
    (h : s = '-' → Nat.ofDigitChars 10 digits 0 ≠ 2 ^ 63) :
    ∃ k, TokenKind.ofChar? s = some k ∧
      literal? (s = '-') digits = (literal? false digits).bind k.signed? := by
  rcases hs with rfl | rfl
  · refine ⟨.plus, rfl, ?_⟩
    rw [decide_eq_false (by decide)]
    cases literal? false digits <;> rfl
  · refine ⟨.minus, rfl, ?_⟩
    rw [decide_eq_true rfl, literal?_negative (h rfl)]
    cases literal? false digits <;> rfl

/-- **A line, with its opening sign apart.** Read piece by piece it has tokens exactly if it does
as a line, and they are the same but for the sign. -/
theorem scan_eq_readAll {line : String} (h : ¬ OpensLeast (pieces line.toList)) :
    (∃ f g, Token.scan line = .error f ∧ readAll (pieces line.toList) = .error g) ∨
    ∃ ts us, Token.scan line = .ok ts ∧ readAll (pieces line.toList) = .ok us ∧
      (ts = us ∨ Unfolds ts us) := by
  by_cases ho : OpensSigned (pieces line.toList)
  · obtain ⟨s, digits, ps, hp, hs, hd⟩ := ho
    obtain ⟨gap, -, hscan⟩ := scan_signed hp hs hd
    have hleast : s = '-' → Nat.ofDigitChars 10 digits 0 ≠ 2 ^ 63 := by
      intro he hv
      subst he
      exact h ⟨digits, ps, hp, hd, hv⟩
    obtain ⟨k, hk, hlit⟩ := literal?_signed hs hleast
    have hne : digits ≠ [] := by
      have hmem : Piece.word digits ∈ pieces line.toList := by rw [hp]; simp
      exact (proper_of_mem_pieces hmem).1
    have hsign : (Piece.mark s).token? = some ⟨k, String.ofList [s]⟩ := by
      rw [Piece.token?, hk, Option.map_some]
    have hword := Piece.token?_digits hne hd
    rw [hscan, hp, readAll_cons_of_some hsign, hlit]
    cases hv : literal? false digits with
    | none =>
        rw [hv, Option.map_none] at hword
        rw [readAll_cons_of_none hword]
        exact Or.inl ⟨_, _, rfl, rfl⟩
    | some v =>
        rw [hv, Option.map_some] at hword
        rw [readAll_cons_of_some hword]
        -- a sign makes something of every number
        obtain ⟨w, hw⟩ : ∃ w, k.signed? v = some w := by
          rcases hs with rfl | rfl <;> cases hk <;> exact ⟨_, rfl⟩
        rw [Option.bind_some, hw]
        cases readAll ps with
        | error f => exact Or.inl ⟨f, f, rfl, rfl⟩
        | ok rest =>
            exact Or.inr ⟨_, _, rfl, rfl, Or.inr ⟨_, _, _, v, w, rest, rfl, rfl, rfl, rfl, hw⟩⟩
  · rw [scan_unsigned ho]
    cases hr : readAll (pieces line.toList) with
    | error f => exact Or.inl ⟨f, f, rfl, rfl⟩
    | ok ts => exact Or.inr ⟨ts, ts, rfl, rfl, Or.inl rfl⟩

end LineCalc
