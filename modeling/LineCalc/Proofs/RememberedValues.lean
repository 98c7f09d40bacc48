import LineCalc.Proofs.Atomicity
import LineCalc.Proofs.Layout
import Mathlib.Data.List.Induction

/-!
# What a session remembers

The variables are all that is left of the lines that have been entered. A line that succeeds
as an assignment binds the name in front of its `=`, and no other line binds anything. So
after any lines, faulty ones among them, a name has a value exactly if some line bound it,
and its value is the one that the last such line had (`get?_variablesAfter`).

The way back is a line that is the name and nothing else but blanks: it has the value of the
name, or there is none (`Line.evaluate_lookup`).

`Line.Binds` is about the text of a line and its outcome, and knows nothing of the variables
after it. What they are is `Line.evaluate_cases`; everything else is an induction over the
lines, from the last to the first.
-/

namespace LineCalc

namespace Line

/-! ## The name that a line binds -/

/-- What stands in front of the first `=` is `name`, with blanks around it or none. -/
def Targets (line name : String) : Prop :=
  ∃ gap gap' rhs, line.toList = gap ++ name.toList ++ gap' ++ '=' :: rhs ∧ Blank gap ∧
    Blank gap' ∧ ∀ c ∈ name.toList, c ≠ '=' ∧ ¬ Blank [c]

/-- With these variables the line succeeds as an assignment of `v` to `name`. -/
structure Binds (b : Bindings) (line name : String) (v : Int64) : Prop where
  outcome : (evaluate b line).1 = .ok ⟨.assignment, v⟩
  target : Targets line name

variable {b : Bindings} {line name : String} {v : Int64}

theorem Targets.toList_eq (h : Targets line name) :
    name.toList = (line.toList.takeWhile (· != '=')).filter fun c => !isBlank c := by
  obtain ⟨gap, gap', rhs, hline, hg, hg', hname⟩ := h
  rw [blank_iff] at hg hg'
  have hfront : ∀ c ∈ gap ++ name.toList ++ gap', (c != '=') = true := by
    intro c hc
    rw [bne_iff_ne]
    rintro rfl
    rcases List.mem_append.mp hc with hc | hc
    · rcases List.mem_append.mp hc with hc | hc
      · cases hg '=' hc
      · exact (hname '=' hc).1 rfl
    · cases hg' '=' hc
  have hkept : name.toList.filter (fun c => !isBlank c) = name.toList := by
    refine List.filter_eq_self.mpr fun c hc => ?_
    have hb := (hname c hc).2
    rw [blank_singleton, Bool.not_eq_true] at hb
    rw [hb]
    rfl
  have hgone : ∀ {g : List Char}, (∀ c ∈ g, isBlank c = true) →
      g.filter (fun c => !isBlank c) = [] := by
    intro g h
    refine List.filter_eq_nil_iff.mpr fun c hc => ?_
    rw [h c hc]
    simp
  rw [hline, takeWhile_append_eq hfront rfl, List.filter_append, List.filter_append, hgone hg,
    hgone hg', hkept, List.nil_append, List.append_nil]

/-- A line has one target at most. -/
theorem Targets.unique {other : String} (h : Targets line name) (h' : Targets line other) :
    name = other :=
  String.toList_inj.mp (h.toList_eq.trans h'.toList_eq.symm)

theorem Binds.unique {other : String} {w : Int64} (h : Binds b line name v)
    (h' : Binds b line other w) : name = other ∧ v = w := by
  refine ⟨h.target.unique h'.target, ?_⟩
  have he := h.outcome.symm.trans h'.outcome
  cases he
  rfl

/-- The text of a line whose tokens start with a name and an `=` starts with them, too. -/
theorem targets_of_scan {sign : Token} {rhs : List Token}
    (h : Token.scan line = .ok (⟨.identifier, name⟩ :: sign :: rhs)) (hsign : sign.kind = .equal) :
    Targets line name := by
  obtain ⟨hl, l, htokens, hline, hs⟩ := scan_eq_ok_iff.mp h
  have htext : line.toList = l.text := toList_eq_text_iff.mpr hline
  have hname : ∀ c ∈ name.toList, c.isAlphanum = true := by
    rcases hl.first _ rfl with hspelled | hspelled
    · cases hspelled with
      | name hrun => rwa [String.toList_ofList]
      | mark hc => cases hc
    · cases hspelled
  have hequal : sign.lexeme.toList = ['='] := by
    have hspelled : sign.Spelled := hl.others sign List.mem_cons_self
    cases hspelled with
    | number => cases hsign
    | name => cases hsign
    | @mark k c hc =>
        rw [show k = .equal from hsign] at hc
        cases hc
        exact String.toList_ofList
  cases l with
  | last => cases htokens
  | token gap t l =>
      cases l with
      | last => cases htokens
      | token gap' u l =>
          cases htokens
          refine ⟨gap, gap', l.text, ?_, hs.1, hs.2.1.1, fun c hc => ⟨?_, ?_⟩⟩
          · rw [htext, Layout.text, Layout.text, hequal]
            simp only [List.append_assoc, List.singleton_append]
          · rintro rfl
            cases hname '=' hc
          · rw [blank_singleton, isBlank_of_isAlphanum (hname c hc)]
            simp

/-- **What a line does to the variables.** It binds one name, which is made of letters, or it binds
none and leaves the variables as they were. -/
theorem evaluate_cases (b : Bindings) (line : String) :
    (∃ name v, Binds b line name v ∧ isVariableName name = true ∧
      (evaluate b line).2 = b.define name v) ∨
    (∀ v, (evaluate b line).1 ≠ .ok ⟨.assignment, v⟩) ∧ (evaluate b line).2 = b := by
  cases htokens : tokens line with
  | error f =>
      have heval : evaluate b line = (.error f, b) := by rw [evaluate, htokens]
      refine Or.inr ⟨fun v ho => ?_, by rw [heval]⟩
      rw [heval] at ho
      cases ho
  | ok ts =>
      have heval : evaluate b line = Statement.run b ts := by rw [evaluate, htokens]
      rcases Statement.run_cases b ts with ⟨f, h⟩ | ⟨v, h, hs, -⟩ | ⟨name, v, h, ha⟩
      · refine Or.inr ⟨fun v ho => ?_, by rw [heval, h]⟩
        rw [heval, h] at ho
        cases ho
      · refine Or.inr ⟨fun w ho => ?_, by rw [heval, h]⟩
        rw [heval, h] at ho
        exact hs (congrArg Evaluation.statement (Except.ok.inj ho))
      · obtain ⟨sign, rhs, rfl, hname, hsign, -⟩ := Statement.assigned_eq_ok_iff.mp ha
        have hscan := (tokens_eq_ok_iff.mp htokens).2.1
        exact Or.inl ⟨name, v, ⟨by rw [heval, h], targets_of_scan hscan hsign⟩, hname,
          by rw [heval, h]⟩

/-- An assignment that succeeds is one to some name. -/
theorem exists_binds (h : (evaluate b line).1 = .ok ⟨.assignment, v⟩) :
    ∃ name, Binds b line name v := by
  rcases evaluate_cases b line with ⟨name, w, hb, -⟩ | ⟨hno, -⟩
  · have ho := h.symm.trans hb.outcome
    cases ho
    exact ⟨name, hb⟩
  · exact absurd h (hno v)

theorem Binds.isVariableName (h : Binds b line name v) : isVariableName name = true := by
  rcases evaluate_cases b line with ⟨other, w, hb, hname, -⟩ | ⟨hno, -⟩
  · rw [(h.unique hb).1]
    exact hname
  · exact absurd h.outcome (hno v)

theorem Binds.after (h : Binds b line name v) : (evaluate b line).2 = b.define name v := by
  rcases evaluate_cases b line with ⟨other, w, hb, -, hafter⟩ | ⟨hno, -⟩
  · obtain ⟨rfl, rfl⟩ := h.unique hb
    exact hafter
  · exact absurd h.outcome (hno v)

/-- Only the line that binds a name changes its value. -/
theorem get?_evaluate_of_not_binds (h : ∀ v, ¬ Binds b line name v) :
    (evaluate b line).2.get? name = b.get? name := by
  rcases evaluate_cases b line with ⟨other, w, hb, -, hafter⟩ | ⟨-, hafter⟩
  · have hother : other ≠ name := by
      rintro rfl
      exact h w hb
    rw [hafter, Bindings.get?_define, if_neg hother]
  · rw [hafter]

/-- A line takes no value away. -/
theorem contains_evaluate (h : b.contains name = true) :
    (evaluate b line).2.contains name = true := by
  rw [Bindings.contains_eq_isSome] at h ⊢
  by_cases hb : ∃ v, Binds b line name v
  · obtain ⟨v, hv⟩ := hb
    rw [hv.after, Bindings.get?_define, if_pos rfl]
    rfl
  · rw [get?_evaluate_of_not_binds fun v hv => hb ⟨v, hv⟩]
    exact h

theorem contains_evaluateAll {lines : List String} (h : b.contains name = true) :
    (evaluateAll b lines).2.contains name = true := by
  induction lines generalizing b with
  | nil => exact h
  | cons line lines ih => exact ih (contains_evaluate h)

end Line

/-! ## The variables after some lines -/

/-- The variables after some lines, where none had a value before. -/
def variablesAfter (lines : List String) : Bindings := (Line.evaluateAll ∅ lines).2

/-- The line at place `i` binds `name` to `v`, its turn being after the lines in front of it. -/
def BindsAt (lines : List String) (i : Nat) (name : String) (v : Int64) : Prop :=
  ∃ line, lines[i]? = some line ∧ Line.Binds (variablesAfter (lines.take i)) line name v

section

variable {lines : List String} {name : String} {v : Int64}

theorem variablesAfter_concat (lines : List String) (line : String) :
    variablesAfter (lines ++ [line]) = (Line.evaluate (variablesAfter lines) line).2 := by
  rw [variablesAfter, Line.evaluateAll_append]
  rfl

theorem contains_variablesAfter_append {more : List String}
    (h : (variablesAfter lines).contains name = true) :
    (variablesAfter (lines ++ more)).contains name = true := by
  rw [variablesAfter, Line.evaluateAll_append]
  exact Line.contains_evaluateAll h

theorem BindsAt.lt_length {i : Nat} (h : BindsAt lines i name v) : i < lines.length := by
  obtain ⟨line, hline, -⟩ := h
  exact (List.getElem?_eq_some_iff.mp hline).1

theorem BindsAt.isVariableName {i : Nat} (h : BindsAt lines i name v) :
    isVariableName name = true := by
  obtain ⟨line, -, hb⟩ := h
  exact hb.isVariableName

/-- One more line is one more place. -/
theorem bindsAt_concat {line : String} {i : Nat} :
    BindsAt (lines ++ [line]) i name v ↔
      BindsAt lines i name v ∨
        i = lines.length ∧ Line.Binds (variablesAfter lines) line name v := by
  rcases Nat.lt_trichotomy i lines.length with hlt | heq | hgt
  · have htake : (lines ++ [line]).take i = lines.take i :=
      List.take_append_of_le_length (by omega)
    rw [BindsAt, BindsAt, List.getElem?_append_left hlt, htake]
    exact ⟨Or.inl, fun h => h.resolve_right fun hr => by omega⟩
  · subst heq
    rw [BindsAt, List.getElem?_concat_length, List.take_left]
    constructor
    · intro h
      obtain ⟨other, hother, hb⟩ := h
      cases hother
      exact Or.inr ⟨rfl, hb⟩
    · intro h
      rcases h with h | ⟨-, hb⟩
      · have := h.lt_length
        omega
      · exact ⟨line, rfl, hb⟩
  · constructor
    · intro h
      have := h.lt_length
      rw [List.length_append, List.length_singleton] at this
      omega
    · intro h
      rcases h with h | ⟨hi, -⟩
      · have := h.lt_length
        omega
      · omega

/-- **A value is that of the last line that bound the name.** -/
theorem get?_variablesAfter :
    (variablesAfter lines).get? name = some v ↔
      ∃ i, BindsAt lines i name v ∧ ∀ j w, i < j → ¬ BindsAt lines j name w := by
  induction lines using List.reverseRecOn with
  | nil =>
      constructor
      · intro h
        cases (Bindings.get?_empty name).symm.trans h
      · intro h
        obtain ⟨i, ⟨line, hline, -⟩, -⟩ := h
        cases hline
  | append_singleton lines line ih =>
      rw [variablesAfter_concat]
      by_cases hb : ∃ w, Line.Binds (variablesAfter lines) line name w
      · -- the new line is the last to bind the name
        obtain ⟨w, hw⟩ := hb
        rw [hw.after, Bindings.get?_define, if_pos rfl]
        constructor
        · intro h
          cases h
          refine ⟨lines.length, bindsAt_concat.mpr (Or.inr ⟨rfl, hw⟩), fun j u hj hu => ?_⟩
          have := hu.lt_length
          rw [List.length_append, List.length_singleton] at this
          omega
        · intro h
          obtain ⟨i, hi, hlast⟩ := h
          rcases bindsAt_concat.mp hi with hi | ⟨-, hv⟩
          · exact absurd (bindsAt_concat.mpr (Or.inr ⟨rfl, hw⟩)) (hlast _ w hi.lt_length)
          · rw [(hv.unique hw).2]
      · -- it does not bind the name, so neither side has changed
        have hno : ∀ w, ¬ Line.Binds (variablesAfter lines) line name w :=
          fun w hw => hb ⟨w, hw⟩
        have hplace : ∀ i w, BindsAt (lines ++ [line]) i name w ↔ BindsAt lines i name w :=
          fun i w => bindsAt_concat.trans (or_iff_left fun h => hno w h.2)
        simp only [hplace]
        rw [Line.get?_evaluate_of_not_binds hno]
        exact ih

/-- A name has a value if a line bound it, whatever came afterwards. -/
theorem contains_variablesAfter :
    (variablesAfter lines).contains name = true ↔ ∃ i v, BindsAt lines i name v := by
  constructor
  · intro h
    rw [Bindings.contains_eq_isSome] at h
    obtain ⟨v, hv⟩ := Option.isSome_iff_exists.mp h
    obtain ⟨i, hi, -⟩ := get?_variablesAfter.mp hv
    exact ⟨i, v, hi⟩
  · intro h
    obtain ⟨i, v, line, hline, hb⟩ := h
    have hthen : (variablesAfter (lines.take (i + 1))).contains name = true := by
      rw [List.take_add_one, hline, Option.toList_some, variablesAfter_concat, hb.after,
        Bindings.contains_eq_isSome, Bindings.get?_define, if_pos rfl]
      rfl
    have hnow : (variablesAfter (lines.take (i + 1) ++ lines.drop (i + 1))).contains name = true :=
      contains_variablesAfter_append hthen
    rwa [List.take_append_drop] at hnow

end

/-! ## Lines that read one name -/

section

variable {b : Bindings} {name : String} {gap gap' : List Char}

theorem Line.tokens_lookup (hname : isVariableName name = true) (hg : Blank gap)
    (hg' : Blank gap') :
    Line.tokens (String.ofList (gap ++ name.toList ++ gap')) = .ok [⟨.identifier, name⟩] := by
  obtain ⟨hne, hletters⟩ := isVariableName_iff.mp hname
  have hrun : ∀ c ∈ name.toList, c.isAlphanum = true := (proper_of_isVariableName hname).2
  have hspelled : Token.Spelled ⟨.identifier, name⟩ := by
    obtain ⟨c, hc⟩ := List.exists_mem_of_ne_nil _ hne
    rw [← String.ofList_toList (s := name)]
    exact .name hrun ⟨c, hc, hletters c hc⟩
  have hl : Lexical [⟨.identifier, name⟩] := by
    refine ⟨fun t ht => ?_, fun t ht => (by cases ht), fun s t rest h => (by cases h)⟩
    cases ht
    exact Or.inl hspelled
  have hs : (Layout.token gap ⟨.identifier, name⟩ (.last gap')).Spaced :=
    ⟨hg, hg', fun u hu => (by cases hu)⟩
  have hscan : Token.scan (String.ofList (gap ++ name.toList ++ gap'))
      = .ok [⟨.identifier, name⟩] := by
    have h := scan_line (l := .token gap ⟨.identifier, name⟩ (.last gap')) hl hs
    rw [Layout.line, Layout.text, Layout.text, ← List.append_assoc] at h
    exact h
  have hequals : Line.equalSigns (String.ofList (gap ++ name.toList ++ gap')) = 0 :=
    count_equal_of_scan hscan
  exact Line.tokens_eq_ok_iff.mpr ⟨by omega, hscan, rfl, fun _ => rfl⟩

/-- **A line that is a name has its value**, blanks or no blanks, and changes nothing. -/
theorem Line.evaluate_lookup (hname : isVariableName name = true) (hg : Blank gap)
    (hg' : Blank gap') :
    Line.evaluate b (String.ofList (gap ++ name.toList ++ gap'))
      = ((b.get name).map fun v => ⟨.lookup, v⟩, b) := by
  rw [Line.evaluate, Line.tokens_lookup hname hg hg']
  show Statement.run b [⟨.identifier, name⟩] = _
  rw [Statement.run_lookup, if_pos hname]

end

/-! ## The theorem -/

/-- The variables are what the lines have made of them. -/
structure Remembers (lines : List String) (b : Bindings) : Prop where
  letters : ∀ name v, b.get? name = some v →
    name.toList ≠ [] ∧ ∀ c ∈ name.toList, c.isAlpha = true
  /-- A name has a value exactly if a line has bound it. -/
  bound : ∀ name, b.contains name = true ↔ ∃ i v, BindsAt lines i name v
  /-- It is the value of the last such line. -/
  value : ∀ name v, b.get? name = some v ↔
    ∃ i, BindsAt lines i name v ∧ ∀ j w, i < j → ¬ BindsAt lines j name w
  /-- As many names have a value as lines have bound, each name counted once. -/
  size : ∃ names : List String, names.Nodup ∧
    (∀ name, name ∈ names ↔ ∃ i v, BindsAt lines i name v) ∧ b.size = names.length
  isEmpty : b.isEmpty = true ↔ ∀ i name v, ¬ BindsAt lines i name v

/-- A line that is a name, with blanks around it or none, is answered with the value of the name,
and changes nothing. -/
structure Recalls (b : Bindings) (echo : Bool) : Prop where
  known : ∀ name v gap gap', b.get? name = some v → Blank gap → Blank gap' →
    (⟨b, echo⟩ : Calculator).answer (String.ofList (gap ++ name.toList ++ gap'))
      = (.ok (some v), ⟨b, echo⟩) ∧
    Line.process b (String.ofList (gap ++ name.toList ++ gap')) = (.ok (some v), b)
  unknown : ∀ name gap gap', isVariableName name = true → b.get? name = none → Blank gap →
    Blank gap' →
    (⟨b, echo⟩ : Calculator).answer (String.ofList (gap ++ name.toList ++ gap'))
      = (.error .unknownVariable, ⟨b, echo⟩) ∧
    Line.process b (String.ofList (gap ++ name.toList ++ gap')) = (.error .unknownVariable, b)

theorem remembers_variablesAfter (lines : List String) :
    Remembers lines (variablesAfter lines) where
  letters := by
    intro name v h
    obtain ⟨i, hi, -⟩ := get?_variablesAfter.mp h
    exact isVariableName_iff.mp hi.isVariableName
  bound := fun name => contains_variablesAfter
  value := fun name v => get?_variablesAfter
  size := by
    obtain ⟨names, hnodup, hmem, hlength⟩ := (variablesAfter lines).exists_names
    exact ⟨names, hnodup, fun name => (hmem name).trans contains_variablesAfter, hlength.symm⟩
  isEmpty := by
    obtain ⟨names, -, hmem, hlength⟩ := (variablesAfter lines).exists_names
    rw [Bindings.isEmpty_eq_size, beq_iff_eq, ← hlength, List.length_eq_zero_iff,
      List.eq_nil_iff_forall_not_mem]
    constructor
    · intro h i name v hi
      exact h name ((hmem name).mpr (contains_variablesAfter.mpr ⟨i, v, hi⟩))
    · intro h name hname
      obtain ⟨i, v, hi⟩ := contains_variablesAfter.mp ((hmem name).mp hname)
      exact h i name v hi

theorem recalls_of_letters {b : Bindings} (echo : Bool)
    (h : ∀ name v, b.get? name = some v → isVariableName name = true) : Recalls b echo where
  known := by
    intro name v gap gap' hv hg hg'
    have hget : b.get name = .ok v := by rw [Bindings.get, hv]
    have heval := Line.evaluate_lookup (b := b) (h name v hv) hg hg'
    rw [Calculator.answer, Line.process, heval, hget]
    exact ⟨rfl, rfl⟩
  unknown := by
    intro name gap gap' hname hv hg hg'
    have hget : b.get name = .error .unknownVariable := by rw [Bindings.get, hv]
    have heval := Line.evaluate_lookup (b := b) hname hg hg'
    rw [Calculator.answer, Line.process, heval, hget]
    exact ⟨rfl, rfl⟩

/--
**What a session remembers.** After any lines, whether they have values or not, that a calculator
is given from the beginning:

1. its variables are `variablesAfter lines`, with echo or without it, and the same if the lines are
   processed one by one;
2. the names with a value are made of letters, they are those that a line has bound, each has the
   value of the last line that bound it, and they are counted right;
3. whatever lines come next, no name loses its value;
4. a line that is one of these names has its value, and one that is another name made of letters is
   an unknown variable.
-/
theorem session_remembers (lines : List String) (echo : Bool) :
    (((Calculator.new echo).answers lines).2 = ⟨variablesAfter lines, echo⟩ ∧
      lines.foldl (fun b line => (Line.process b line).2) ∅ = variablesAfter lines) ∧
    Remembers lines (variablesAfter lines) ∧
    (∀ more name, (variablesAfter lines).contains name = true →
      (variablesAfter (lines ++ more)).contains name = true) ∧
    Recalls (variablesAfter lines) echo := by
  have hremembers := remembers_variablesAfter lines
  refine ⟨⟨?_, Line.foldl_process ∅ lines⟩, hremembers,
    fun more name => contains_variablesAfter_append, ?_⟩
  · rw [Calculator.answers_eq]
    rfl
  · refine recalls_of_letters echo fun name v hv => ?_
    exact isVariableName_iff.mpr (hremembers.letters name v hv)

/-- The second line is at fault, as `y` has no value yet, and so is the fourth. -/
theorem sum_remembered :
    (variablesAfter ["x = 2", "x = x * y", "y = 7 % x", "x = 1 / 0", "y=y+x"]).get? "y" = some 3 ∧
    (⟨variablesAfter ["x = 2", "x = x * y", "y = 7 % x", "x = 1 / 0", "y=y+x"], false⟩ :
        Calculator).answer " y\t"
      = (.ok (some 3),
        ⟨variablesAfter ["x = 2", "x = x * y", "y = 7 % x", "x = 1 / 0", "y=y+x"], false⟩) := by
  have hvalue : (variablesAfter ["x = 2", "x = x * y", "y = 7 % x", "x = 1 / 0", "y=y+x"]).get? "y"
      = some 3 := by decide +kernel
  obtain ⟨-, -, -, hrecalls⟩ :=
    session_remembers ["x = 2", "x = x * y", "y = 7 % x", "x = 1 / 0", "y=y+x"] false
  refine ⟨hvalue, (hrecalls.known "y" 3 [' '] ['\t'] hvalue ?_ ?_).1⟩
  · simp [Blank]
  · simp [Blank]

end LineCalc
