import LineCalc.Proofs.Atomicity
import LineCalc.Proofs.CheckedLines
import LineCalc.Proofs.OpeningSign

/-!
# An assignment has the value of its right-hand side

Behind a name and an `=` an expression is not read as it would be on a line of its own.
Its opening sign is a token by itself, it may end in anything as far as the checks go, a
single name is substituted and not looked up, and a misspelt name is another fault. None of
this matters to a line that has a value, so a line and an assignment of it have one
together (`yields_scan_iff`), but for one number: the least can be written at the start of a
line only.
-/

namespace LineCalc

/-- The text opens with a `-` and a number that fits with it only. -/
def OpensWithLeast (cs : List Char) : Prop :=
  ∃ gap gap' run after, cs = gap ++ '-' :: gap' ++ run ++ after ∧ Blank gap ∧ Blank gap' ∧
    IsNumeral (gap ++ '-' :: gap') run after ∧ Nat.ofDigitChars 10 run 0 = 2 ^ 63

theorem opensLeast_pieces_iff {cs : List Char} :
    OpensLeast (pieces cs) ↔ OpensWithLeast cs := by
  refine ⟨fun h => ?_, fun h => ?_⟩
  · obtain ⟨digits, rest, hps, hd, hv⟩ := h
    have hcut : pieces cs = [.mark '-'] ++ .word digits :: rest := hps
    obtain ⟨before, after, rfl, hp, hb, hbefore, -⟩ := exists_of_pieces_eq_append hcut
    obtain ⟨gap, gap', hg, hg', rfl⟩ := (pieces_eq_singleton_mark_iff ⟨rfl, rfl⟩).mp hbefore
    exact ⟨gap, gap', digits, after, rfl, hg, hg', ⟨isRun_iff.mpr ⟨hp, hb⟩, hd⟩, hv⟩
  · obtain ⟨gap, gap', run, after, rfl, hg, hg', ⟨hrun, hd⟩, hv⟩ := h
    obtain ⟨hp, hb⟩ := isRun_iff.mp hrun
    refine ⟨run, pieces after, ?_, hd, hv⟩
    have hps := pieces_around hp hb
    rw [(pieces_eq_singleton_mark_iff ⟨rfl, rfl⟩).mpr ⟨gap, gap', hg, hg', rfl⟩] at hps
    exact hps

/-! ## Lines without an `=` -/

/-- What has been read has tokens, and these have the value. -/
def Yields (b : Bindings) (read : Except Fault (List Token)) (v : Int64) : Prop :=
  ∃ ts, read = .ok ts ∧ Statement.valueOf b .identifier ts = .ok v

/-- A line and its pieces come to the same. -/
theorem yields_scan_iff {b : Bindings} {line : String} {v : Int64}
    (h : ¬ OpensLeast (pieces line.toList)) :
    Yields b (Token.scan line) v ↔ Yields b (readAll (pieces line.toList)) v := by
  rcases scan_eq_readAll h with ⟨f, g, hs, hr⟩ | ⟨ts, us, hs, hr, htu⟩
  · rw [hs, hr]
    exact ⟨fun ⟨_, he, _⟩ => (by cases he), fun ⟨_, he, _⟩ => (by cases he)⟩
  · have hvalue : Statement.valueOf b .identifier ts = Statement.valueOf b .identifier us := by
      rcases htu with rfl | hu
      · rfl
      · exact Statement.valueOf_unfolds hu b .identifier
    rw [hs, hr]
    refine ⟨fun hex => ?_, fun hex => ?_⟩
    · obtain ⟨ts', he, hv⟩ := hex
      cases he
      exact ⟨us, rfl, hvalue ▸ hv⟩
    · obtain ⟨us', he, hv⟩ := hex
      cases he
      exact ⟨ts, rfl, hvalue ▸ hv⟩

section

variable {b : Bindings} {line : String}

/-- The checks aside, a line without `=` has the value of its tokens. -/
theorem Line.evaluate_of_yields (hno : '=' ∉ line.toList) {v : Int64}
    (h : Yields b (Token.scan line) v) :
    ∃ form, Line.evaluate b line = (.ok ⟨form, v⟩, b) := by
  obtain ⟨ts, hscan, hv⟩ := h
  have htokens : Line.tokens line = .ok ts := Line.tokens_of_valueOf hscan hv
  have hform : Statement.ofTokens ts ≠ .assignment := by
    rw [Ne, Statement.ofTokens_eq_assignment_iff]
    intro he
    obtain ⟨t, ht, hk⟩ := he
    exact kind_ne_equal_of_scan hno hscan t ht hk
  refine ⟨Statement.ofTokens ts, ?_⟩
  rw [Line.evaluate, htokens]
  dsimp only
  rw [Statement.run_of_ne_assignment hform, hv]
  rfl

/-- There is no other way for it to have one. -/
theorem Line.evaluate_of_not_yields (hno : '=' ∉ line.toList)
    (h : ∀ v, ¬ Yields b (Token.scan line) v) : ∃ f, Line.evaluate b line = (.error f, b) := by
  rw [Line.evaluate]
  cases htokens : Line.tokens line with
  | error f => exact ⟨f, rfl⟩
  | ok ts =>
      have hscan : Token.scan line = .ok ts := (Line.tokens_eq_ok_iff.mp htokens).2.1
      rcases Statement.run_cases b ts with ⟨f, hrun⟩ | ⟨v, -, -, hv⟩ | ⟨name, v, -, ha⟩
      · exact ⟨f, hrun⟩
      · exact absurd ⟨ts, hscan, hv⟩ (h v)
      · -- an assignment has an `=` among its tokens
        obtain ⟨sign, rhs, rfl, -, hsign, -⟩ := Statement.assigned_eq_ok_iff.mp ha
        exact absurd hsign (kind_ne_equal_of_scan hno hscan sign (by simp))

end

/-! ## Assignments -/

section

variable {b : Bindings} {x rhs : String}

theorem assignment_toList (x rhs : String) :
    (x ++ " =" ++ rhs).toList = x.toList ++ ' ' :: '=' :: rhs.toList := by
  rw [String.toList_append, String.toList_append, List.append_assoc]
  rfl

/-- The name of an assignment is one token, its `=` another, and the rest of the line is read
like the rest of any line. -/
theorem scan_assignment (hx : isVariableName x = true) (rhs : String) :
    Token.scan (x ++ " =" ++ rhs) = (readAll (pieces rhs.toList)).map fun us =>
      ⟨.identifier, x⟩ :: ⟨.equal, "="⟩ :: us := by
  have hpieces : pieces (x ++ " =" ++ rhs).toList
      = .word x.toList :: .mark '=' :: pieces rhs.toList := by
    have h : pieces ([] ++ x.toList ++ ' ' :: '=' :: rhs.toList)
        = .word x.toList :: pieces (' ' :: '=' :: rhs.toList) :=
      pieces_around (proper_of_isVariableName hx) ⟨rfl, rfl⟩
    rw [pieces_blank rfl, pieces_mark ⟨rfl, rfl⟩] at h
    rw [assignment_toList]
    exact h
  have hunsigned : ¬ OpensSigned (pieces (x ++ " =" ++ rhs).toList) := by
    intro he
    obtain ⟨s, digits, rest, h, -⟩ := he
    rw [hpieces] at h
    cases h
  rw [scan_unsigned hunsigned, hpieces,
    readAll_cons_of_some (Piece.token?_of_isVariableName hx),
    readAll_cons_of_some (t := ⟨.equal, "="⟩) rfl]
  cases readAll (pieces rhs.toList) <;> rfl

theorem Line.equalSigns_assignment (hx : isVariableName x = true) (hno : '=' ∉ rhs.toList) :
    Line.equalSigns (x ++ " =" ++ rhs) = 1 := by
  obtain ⟨-, hletters⟩ := isVariableName_iff.mp hx
  have hname : '=' ∉ x.toList := fun h => by cases hletters '=' h
  rw [Line.equalSigns, assignment_toList, List.count_append, List.count_eq_zero.mpr hname,
    List.count_cons_of_ne (by decide), List.count_cons_self, List.count_eq_zero.mpr hno]

theorem valueOf_nil {misspelt : Fault} {v : Int64} : Statement.valueOf b misspelt [] ≠ .ok v := by
  intro h
  cases h

theorem Line.evaluate_assignment_of_yields (hx : isVariableName x = true) {v : Int64}
    (h : Yields b (readAll (pieces rhs.toList)) v) :
    Line.evaluate b (x ++ " =" ++ rhs) = (.ok ⟨.assignment, v⟩, b.define x v) := by
  obtain ⟨us, hread, hv⟩ := h
  have hne : us ≠ [] := by
    intro he
    subst he
    exact valueOf_nil hv
  have hscan : Token.scan (x ++ " =" ++ rhs) = .ok (⟨.identifier, x⟩ :: ⟨.equal, "="⟩ :: us) := by
    rw [scan_assignment hx, hread]
    rfl
  have hassigned : Statement.assigned b (⟨.identifier, x⟩ :: ⟨.equal, "="⟩ :: us)
      = .ok (x, v) :=
    Statement.assigned_eq_ok_iff.mpr
      ⟨⟨.equal, "="⟩, us, rfl, hx, rfl, hne, Statement.valueOf_eq_ok_congr.mp hv⟩
  have hform : Statement.ofTokens (⟨.identifier, x⟩ :: ⟨.equal, "="⟩ :: us) = .assignment :=
    Statement.ofTokens_eq_assignment_iff.mpr ⟨⟨.equal, "="⟩, by simp, rfl⟩
  rw [Line.evaluate, Line.tokens_of_assigned hscan hassigned]
  dsimp only
  rw [Statement.run_of_assignment hform, hassigned]

theorem Line.evaluate_assignment_of_not_yields (hx : isVariableName x = true)
    (h : ∀ v, ¬ Yields b (readAll (pieces rhs.toList)) v) :
    ∃ g, Line.evaluate b (x ++ " =" ++ rhs) = (.error g, b) := by
  rw [Line.evaluate]
  cases htokens : Line.tokens (x ++ " =" ++ rhs) with
  | error g => exact ⟨g, rfl⟩
  | ok ts =>
      obtain ⟨-, hscan, -⟩ := Line.tokens_eq_ok_iff.mp htokens
      rw [scan_assignment hx] at hscan
      cases hread : readAll (pieces rhs.toList) with
      | error g => rw [hread] at hscan; cases hscan
      | ok us =>
          rw [hread] at hscan
          cases hscan
          rcases Statement.run_cases b (⟨.identifier, x⟩ :: ⟨.equal, "="⟩ :: us) with
            ⟨g, hrun⟩ | ⟨v, -, hform, -⟩ | ⟨name, v, -, ha⟩
          · exact ⟨g, hrun⟩
          · refine absurd (Statement.ofTokens_eq_assignment_iff.mpr ?_) hform
            exact ⟨⟨.equal, "="⟩, by simp, rfl⟩
          · obtain ⟨sign, rest, heq, -, -, -, hv⟩ := Statement.assigned_eq_ok_iff.mp ha
            cases heq
            exact absurd ⟨us, hread, Statement.valueOf_eq_ok_congr.mp hv⟩ (h v)

/-- Nothing can be assigned the least number by writing it. -/
theorem Line.evaluate_assignment_of_opensLeast (hx : isVariableName x = true)
    (hno : '=' ∉ rhs.toList) (h : OpensLeast (pieces rhs.toList)) :
    Line.evaluate b (x ++ " =" ++ rhs) = (.error .expression, b) := by
  have hcount := Line.equalSigns_assignment hx hno
  have htokens : Line.tokens (x ++ " =" ++ rhs) = .error .expression := by
    rw [Line.tokens, if_neg (by omega), scan_assignment hx, readAll_of_opensLeast h]
    rfl
  rw [Line.evaluate, htokens]

end

/-! ## The theorem -/

/--
**An assignment has the value of its right-hand side.** For all variables, every name `x` made of
letters and every text `rhs` without an `=`:

1. unless `rhs` opens with the least number, either `rhs` as a line has a value and changes nothing,
   and the assignment has the same value, gives it to `x` and changes no other name, or both are at
   fault and change nothing;
2. if it does, the assignment is a faulty expression and changes nothing.

The value is the one that `rhs` has with the variables as they were, also if it mentions `x`.
-/
theorem assignment_has_value_of_rhs (b : Bindings) (x rhs : String)
    (hx : isVariableName x = true) (hno : '=' ∉ rhs.toList) :
    (¬ OpensWithLeast rhs.toList →
      (∃ v form after, Line.evaluate b rhs = (.ok ⟨form, v⟩, b) ∧
        Line.evaluate b (x ++ " =" ++ rhs) = (.ok ⟨.assignment, v⟩, after) ∧
        after.get? x = some v ∧ ∀ other, other ≠ x → after.get? other = b.get? other) ∨
      (∃ f g, Line.evaluate b rhs = (.error f, b) ∧
        Line.evaluate b (x ++ " =" ++ rhs) = (.error g, b))) ∧
    (OpensWithLeast rhs.toList → Line.evaluate b (x ++ " =" ++ rhs) = (.error .expression, b)) := by
  rw [← opensLeast_pieces_iff]
  refine ⟨fun hleast => ?_, Line.evaluate_assignment_of_opensLeast hx hno⟩
  by_cases hvalue : ∃ v, Yields b (Token.scan rhs) v
  · obtain ⟨v, hv⟩ := hvalue
    obtain ⟨form, hline⟩ := Line.evaluate_of_yields hno hv
    have hassign := Line.evaluate_assignment_of_yields hx ((yields_scan_iff hleast).mp hv)
    refine Or.inl ⟨v, form, b.define x v, hline, hassign, ?_, fun other hother => ?_⟩
    · rw [Bindings.get?_define, if_pos rfl]
    · rw [Bindings.get?_define, if_neg (Ne.symm hother)]
  · have hline : ∀ v, ¬ Yields b (Token.scan rhs) v := fun v hv => hvalue ⟨v, hv⟩
    obtain ⟨f, hf⟩ := Line.evaluate_of_not_yields hno hline
    obtain ⟨g, hg⟩ := Line.evaluate_assignment_of_not_yields hx fun v hv =>
      hline v ((yields_scan_iff hleast).mpr hv)
    exact Or.inr ⟨f, g, hf, hg⟩

theorem quotient_assigned_to_divisor :
    (∃ after, Line.evaluate ((∅ : Bindings).define "x" 2) "x = -7 / x"
        = (.ok ⟨.assignment, -3⟩, after) ∧ after.get? "x" = some (-3)) ∧
      Line.evaluate ∅ "x = -9223372036854775808" = (.error .expression, ∅) := by
  constructor
  · have hline : (Line.evaluate ((∅ : Bindings).define "x" 2) " -7 / x").1
        = .ok ⟨.expression, -3⟩ := by decide +kernel
    have hleast : ¬ OpensWithLeast " -7 / x".toList := by
      have hpieces : pieces " -7 / x".toList
          = [.mark '-', .word ['7'], .mark '/', .word ['x']] := by decide
      rw [← opensLeast_pieces_iff, hpieces]
      intro he
      obtain ⟨digits, rest, h, -, hv⟩ := he
      cases h
      cases hv
    rcases (assignment_has_value_of_rhs ((∅ : Bindings).define "x" 2) "x" " -7 / x" (by decide)
      (by decide)).1 hleast with ⟨v, form, after, hrhs, hassign, hx, -⟩ | ⟨f, g, hrhs, -⟩
    · rw [hrhs] at hline
      cases hline
      exact ⟨after, hassign, hx⟩
    · rw [hrhs] at hline
      cases hline
  · refine (assignment_has_value_of_rhs ∅ "x" " -9223372036854775808" (by decide)
      (by decide)).2 (opensLeast_pieces_iff.mp ?_)
    exact ⟨"9223372036854775808".toList, [], by decide, List.all_eq_true.mp (by decide), by decide⟩

end LineCalc
