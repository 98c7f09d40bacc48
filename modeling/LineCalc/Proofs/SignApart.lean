import LineCalc.Proofs.Layout
import LineCalc.Proofs.OpeningSign

/-!
# The sign of the first number, taken apart

A line that opens with a sign and a number has the two as one token. Taken apart, the sign
by itself and the number without it run to the same outcome and leave the same variables,
whatever follows them (`run_sign_apart`).

That the two parts mean what the one token means is a fact about the line and not about
the token alone: the lexeme has a sign in front because the value has one. Only the least
value has no number without its sign.
-/

namespace LineCalc

theorem TokenKind.not_isDigit_of_isSign {k : TokenKind} (h : k.isSign = true) {c : Char}
    (hc : k.character? = some c) : c.isDigit = false := by
  rw [isSign_iff, hc] at h
  rcases h with h | h <;> cases h <;> rfl

/-- A number that is read off a line with a sign in front has the sign for its own. -/
theorem signSpelled_of_scan {line : String} {t s : Token} {rest : List Token} {v : Int64}
    (h : Token.scan line = .ok (t :: rest)) (ht : t.kind = .number v)
    (hs : s.kind.isSign = true) (hlexeme : t.lexeme.toList.head? = s.kind.character?) :
    t.SignSpelled := by
  obtain ⟨hl, -⟩ := scan_eq_ok_iff.mp h
  rcases hl.first t rfl with hspelled | hsigned
  · -- by itself a number starts with a digit
    cases hspelled with
    | @number digits value hne hdigits =>
        obtain ⟨d, ds, rfl⟩ := List.exists_cons_of_ne_nil hne
        rw [String.toList_ofList, List.head?_cons] at hlexeme
        have hdigit := hdigits d List.mem_cons_self
        rw [TokenKind.not_isDigit_of_isSign hs hlexeme.symm] at hdigit
        cases hdigit
    | name => cases ht
    | @mark k c hc =>
        rw [show k = .number v from ht] at hc
        cases hc
  · exact hsigned

/-- The lexeme has the sign that the value has. -/
theorem Token.SignSpelled.unfolds {t s n : Token} {v w : Int64} {rest : List Token}
    (h : t.SignSpelled) (ht : t.kind = .number v) (hs : s.kind.isSign = true)
    (hlexeme : t.lexeme.toList.head? = s.kind.character?) (hn : n.kind = .number w)
    (hpos : 0 ≤ v.toInt → w = v) (hneg : v.toInt ≤ 0 → -w = v) :
    Unfolds (t :: rest) (s :: n :: rest) := by
  refine ⟨t, s, n, w, v, rest, rfl, rfl, ht, hn, ?_⟩
  cases h with
  | @number c gap digits value hc hgap hne hdigits hvalue =>
      cases ht
      rw [String.toList_ofList, List.cons_append, List.head?_cons] at hlexeme
      cases hk : s.kind with
      | plus =>
          rw [hk] at hlexeme
          cases hlexeme
          rw [if_neg (by decide)] at hvalue
          rw [TokenKind.signed?, hpos (by omega)]
      | minus =>
          rw [hk] at hlexeme
          cases hlexeme
          rw [if_pos rfl] at hvalue
          rw [TokenKind.signed?, hneg (by omega)]
      | _ =>
          rw [hk] at hs
          cases hs

/--
**A folded sign changes nothing.** Let the tokens of a line start with a number whose lexeme starts
with a sign, and let it not be the least number. Then it has an absolute value, and with the sign
and that value as two tokens in its place the tokens run, for all variables, to the same outcome and
leave the same variables.
-/
theorem run_sign_apart {line : String} {t s : Token} {rest : List Token} {v : Int64}
    (h : Line.tokens line = .ok (t :: rest)) (ht : t.kind = .number v) (hv : v ≠ Int64.minValue)
    (hs : s.kind.isSign = true) (hlexeme : t.lexeme.toList.head? = s.kind.character?) :
    ∃ w : Int64, w.toInt = v.toInt.natAbs ∧ ∀ n : Token, n.kind = .number w →
      ∀ b, Statement.run b (s :: n :: rest) = Statement.run b (t :: rest) := by
  obtain ⟨-, hscan, -⟩ := Line.tokens_eq_ok_iff.mp h
  have hsigned := signSpelled_of_scan hscan ht hs hlexeme
  obtain ⟨w, hw, hpos, hneg⟩ := exists_natAbs hv
  refine ⟨w, hw, fun n hn b => ?_⟩
  have hunfolds : Unfolds (t :: rest) (s :: n :: rest) :=
    hsigned.unfolds ht hs hlexeme hn hpos hneg
  exact (Statement.run_unfolds hunfolds b).symm

theorem signed_remainder_sign_apart :
    Line.tokens "- 7 % x" = .ok [⟨.number (-7), "- 7"⟩, ⟨.percent, "%"⟩, ⟨.identifier, "x"⟩] ∧
    ∀ b, Statement.run b [⟨.minus, "-"⟩, ⟨.number 7, "7"⟩, ⟨.percent, "%"⟩, ⟨.identifier, "x"⟩]
      = Statement.run b [⟨.number (-7), "- 7"⟩, ⟨.percent, "%"⟩, ⟨.identifier, "x"⟩] := by
  have hopens : SignedNumeral [] '-' [' '] ['7'] " % x".toList :=
    ⟨List.forall_mem_nil _, Or.inr rfl, List.forall_mem_singleton.mpr rfl, by simp,
      List.forall_mem_singleton.mpr rfl, rfl⟩
  have hscan : Token.scan "- 7 % x"
      = .ok [⟨.number (-7), "- 7"⟩, ⟨.percent, "%"⟩, ⟨.identifier, "x"⟩] := by
    rw [scan_numeral rfl hopens]
    rfl
  have h : Line.tokens "- 7 % x"
      = .ok [⟨.number (-7), "- 7"⟩, ⟨.percent, "%"⟩, ⟨.identifier, "x"⟩] := by
    rw [Line.tokens, hscan]
    rfl
  obtain ⟨w, hw, hrun⟩ := run_sign_apart (s := ⟨.minus, "-"⟩) h rfl (by decide) rfl (by decide)
  obtain rfl : w = 7 := Int64.toInt_inj.mp hw
  exact ⟨h, hrun ⟨.number 7, "7"⟩ rfl⟩

end LineCalc
