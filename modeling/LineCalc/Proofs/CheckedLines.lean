import LineCalc.Proofs.Checks
import LineCalc.Proofs.Layout

/-!
# The checks on a line change no value

Between reading a line and running its tokens stand the checks: one `=` at most, no
neighbours that clash, an end that closes an operand. A line whose tokens would come to a
value passes all of them, so without the checks the same lines would have the same values
(`evaluate_ok_iff_unchecked`). They only choose the fault that a faulty line is reported
with.

For an expression the tree of its tokens has what the checks ask for. For an assignment it
is the tree of the right-hand side, and the name and the `=` in front of it are harmless:
they clash with nothing, and the `=` is the only one of the line.
-/

namespace LineCalc

theorem countP_isEqual_eq_zero {ts : List Token} :
    (ts.countP fun t => t.kind.isEqual) = 0 ↔ ∀ t ∈ ts, t.kind ≠ .equal := by
  simp only [List.countP_eq_zero, TokenKind.isEqual_iff, Ne]

/-- Only an `=` of the line is an `=` among its tokens. -/
theorem kind_ne_equal_of_scan {line : String} {ts : List Token} (hno : '=' ∉ line.toList)
    (h : Token.scan line = .ok ts) : ∀ t ∈ ts, t.kind ≠ .equal := by
  rw [← countP_isEqual_eq_zero, ← count_equal_of_scan h]
  exact List.count_eq_zero.mpr hno

section

variable {b b' : Bindings} {line : String} {ts : List Token}

/-- What has a value by itself passes the checks as a line. -/
theorem Line.tokens_of_valueOf {misspelt : Fault} {v : Int64} (hscan : Token.scan line = .ok ts)
    (hv : Statement.valueOf b misspelt ts = .ok v) : Line.tokens line = .ok ts := by
  have hval := (Statement.valueOf_eq_ok_iff.mp hv).2
  obtain ⟨hclash, hends⟩ := passes_of_evaluate hval
  have hzero : Line.equalSigns line = 0 := by
    rw [count_equal_of_scan hscan]
    exact countP_isEqual_eq_zero.mpr (Statement.kind_ne_equal_of_evaluate_valued hval)
  exact Line.tokens_eq_ok_iff.mpr ⟨by omega, hscan, hclash, fun _ => hends⟩

/-- What is assigned a value passes them too: its right-hand side does, and has no `=`. -/
theorem Line.tokens_of_assigned {name : String} {v : Int64} (hscan : Token.scan line = .ok ts)
    (ha : Statement.assigned b ts = .ok (name, v)) : Line.tokens line = .ok ts := by
  obtain ⟨sign, rhs, rfl, -, hsign, -, hv⟩ := Statement.assigned_eq_ok_iff.mp ha
  have hval := (Statement.valueOf_eq_ok_iff.mp hv).2
  have hone : Line.equalSigns line = 1 := by
    have hrhs := countP_isEqual_eq_zero.mpr (Statement.kind_ne_equal_of_evaluate_valued hval)
    rw [count_equal_of_scan hscan, List.countP_cons, List.countP_cons, hrhs, hsign]
    rfl
  have hclash : Line.hasClash (⟨.identifier, name⟩ :: sign :: rhs) = false :=
    Line.hasClash_assignment rfl hsign (passes_of_evaluate hval).1
  exact Line.tokens_eq_ok_iff.mpr ⟨by omega, hscan, hclash, fun hzero => by omega⟩

theorem Line.tokens_of_run {e : Evaluation} (hscan : Token.scan line = .ok ts)
    (hrun : Statement.run b ts = (.ok e, b')) : Line.tokens line = .ok ts := by
  rcases Statement.run_cases b ts with ⟨f, h⟩ | ⟨v, -, -, hv⟩ | ⟨name, v, -, ha⟩
  · rw [hrun] at h
    cases h
  · exact Line.tokens_of_valueOf hscan hv
  · exact Line.tokens_of_assigned hscan ha

end

/--
**The checks refuse nothing that has a value.** A line evaluates to `e` and leaves the variables
`b'` exactly if its stream yields tokens and no fault, and these tokens, unchecked, run to `e` and
leave `b'`.
-/
theorem evaluate_ok_iff_unchecked (b b' : Bindings) (line : String) (e : Evaluation) :
    Line.evaluate b line = (.ok e, b') ↔
      ∃ ts, (TokenStream.ofLine line).items = ts.map .ok ∧
        Statement.run b ts = (.ok e, b') := by
  constructor
  · intro h
    rw [Line.evaluate] at h
    cases htokens : Line.tokens line with
    | error f =>
        rw [htokens] at h
        cases h
    | ok ts =>
        rw [htokens] at h
        obtain ⟨-, hscan, -⟩ := Line.tokens_eq_ok_iff.mp htokens
        exact ⟨ts, Token.scan_eq_ok_iff_items.mp hscan, h⟩
  · intro he
    obtain ⟨ts, hitems, hrun⟩ := he
    have hscan := Token.scan_eq_ok_iff_items.mpr hitems
    rw [Line.evaluate, Line.tokens_of_run hscan hrun]
    exact hrun

end LineCalc
