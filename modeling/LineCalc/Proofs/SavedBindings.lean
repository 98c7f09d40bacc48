import LineCalc.Proofs.AssignedValue
import LineCalc.Proofs.Decimal
import LineCalc.Proofs.RememberedValues
import LineCalc.Proofs.Turns

/-!
# Variables saved and restored

A session that is asked for a variable prints its value. A name, an `=` and what was printed
make a line again, and such lines, one for each variable, are all that has to be saved of a
session. Their order does not matter, as none of them reads a variable.

There is one value that does not come back. What is printed of a negative value is a sign and
its digits, and behind an `=` a sign is a token by itself: `x = -7` negates a 7. So the digits
have to be a number without their sign, and those of `-2 ^ 63` are none. The line is a faulty
expression (`Line.evaluate_saved`), and the name has no value afterwards. Whether a value is
the least is all that `get?_evaluateAll_saved` needs to know of it.
-/

namespace LineCalc

/-! ## Values as they are printed -/

theorem pieces_magnitude (v : Int64) : pieces (magnitude v) = [.word (magnitude v)] :=
  pieces_run (magnitude_ne_nil v) fun _ hc => isAlphanum_of_isDigit (isDigit_of_mem_magnitude hc)

/-- A printed value is a number, perhaps with a sign in front. -/
theorem pieces_decimal (v : Int64) :
    pieces (" " ++ decimal v).toList =
      if v.toInt < 0 then [.mark '-', .word (magnitude v)] else [.word (magnitude v)] := by
  have hblank : (" " ++ decimal v).toList = ' ' :: (decimal v).toList := by
    rw [String.toList_append]
    rfl
  rw [hblank, pieces_blank rfl, toList_decimal]
  split
  · rw [pieces_mark ⟨rfl, rfl⟩, pieces_magnitude]
  · exact pieces_magnitude v

theorem token?_magnitude {v w : Int64} (hw : w.toInt = v.toInt.natAbs) :
    (Piece.word (magnitude v)).token? = some ⟨.number w, String.ofList (magnitude v)⟩ := by
  have hliteral : literal? false (magnitude v) = some w := by
    rw [literal?_eq_some_iff, hw]
    exact congrArg Nat.cast (ofDigitChars_magnitude v).symm
  rw [Piece.token?_digits (magnitude_ne_nil v) fun _ => isDigit_of_mem_magnitude, hliteral]
  rfl

theorem valueOf_number {b : Bindings} {misspelt : Fault} {t : Token} {v : Int64}
    (ht : t.kind = .number v) : Statement.valueOf b misspelt [t] = .ok v := by
  have hname : t.name? = none := by rw [Token.name?, ht]
  rw [Statement.valueOf, List.mapM_cons, Statement.resolve_of_name?_eq_none hname]
  exact evaluate_number ht

/-- **A value that is printed can be read behind an `=`,** but for the least. -/
theorem yields_decimal (b : Bindings) {v : Int64} (hv : v ≠ Int64.minValue) :
    Yields b (readAll (pieces (" " ++ decimal v).toList)) v := by
  obtain ⟨w, hw, hpos, hneg⟩ := exists_natAbs hv
  have hword := token?_magnitude hw
  rw [pieces_decimal]
  split
  · -- the sign is a token by itself, and makes of the magnitude the value
    rename_i hlt
    have hunfolds : Unfolds [⟨.number v, decimal v⟩]
        [⟨.minus, "-"⟩, ⟨.number w, String.ofList (magnitude v)⟩] :=
      ⟨_, _, _, w, v, [], rfl, rfl, rfl, rfl, congrArg some (hneg (by omega))⟩
    refine ⟨[⟨.minus, "-"⟩, ⟨.number w, String.ofList (magnitude v)⟩], ?_, ?_⟩
    · rw [readAll_cons_of_some (t := ⟨.minus, "-"⟩) rfl, readAll_cons_of_some hword]
      rfl
    · rw [← Statement.valueOf_unfolds hunfolds]
      exact valueOf_number rfl
  · obtain rfl : w = v := hpos (by omega)
    refine ⟨[⟨.number w, String.ofList (magnitude w)⟩], ?_, valueOf_number rfl⟩
    rw [readAll_cons_of_some hword]
    rfl

theorem opensLeast_decimal : OpensLeast (pieces (" " ++ decimal Int64.minValue).toList) := by
  refine ⟨magnitude Int64.minValue, [], ?_, fun _ => isDigit_of_mem_magnitude, ?_⟩
  · rw [pieces_decimal, if_pos (by decide)]
  · rw [ofDigitChars_magnitude]
    decide

/-! ## One variable -/

section

variable {x : String}

/-- **The line that assigns a printed value.** -/
theorem Line.evaluate_saved (b : Bindings) (hx : isVariableName x = true) (v : Int64) :
    Line.evaluate b (x ++ " = " ++ decimal v) =
      if v = Int64.minValue then (.error .expression, b)
      else (.ok ⟨.assignment, v⟩, b.define x v) := by
  have hline : x ++ " = " ++ decimal v = x ++ " =" ++ (" " ++ decimal v) := by
    rw [String.append_assoc, String.append_assoc, ← @String.append_assoc " =" " "]
    rfl
  rw [hline]
  split
  · rename_i hv
    subst hv
    exact Line.evaluate_assignment_of_opensLeast hx (by decide) opensLeast_decimal
  · rename_i hv
    exact Line.evaluate_assignment_of_yields hx (yields_decimal b hv)

/-- A session that is asked for a variable says its value, and nothing changes. -/
theorem Calculator.reply_lookup {c : Calculator} (hx : isVariableName x = true) {v : Int64}
    (hv : c.bindings.get? x = some v) : c.reply x = (.say (decimal v), c) := by
  have hcommand : Command.ofLine? x = none := by
    refine if_neg fun hslash => ?_
    cases (isVariableName_iff.mp hx).2 '/' (List.mem_of_mem_head? hslash)
  have hgap : Blank [] := fun _ h => by cases h
  have heval := Line.evaluate_lookup (b := c.bindings) hx hgap hgap
  rw [List.nil_append, List.append_nil, String.ofList_toList, Bindings.get, hv] at heval
  rw [reply, hcommand]
  dsimp only
  rw [answer_eq, heval]
  rfl

/-- The line that assigns to `name` what a session says that it is. -/
def Calculator.savedLine (c : Calculator) (name : String) : String :=
  name ++ " = " ++ (c.reply name).1.message?.getD ""

theorem Calculator.savedLine_eq {c : Calculator} (hx : isVariableName x = true) {v : Int64}
    (hv : c.bindings.get? x = some v) : c.savedLine x = x ++ " = " ++ decimal v := by
  rw [savedLine, reply_lookup hx hv]
  rfl

end

/-! ## All variables -/

/-- These names have values, and are made of letters. -/
def Stored (b : Bindings) (names : List String) : Prop :=
  ∀ name ∈ names, isVariableName name = true ∧ ∃ v, b.get? name = some v

/-- The value that `name` has again after it has been saved, if there is one. -/
def Bindings.restorable (b : Bindings) (name : String) : Option Int64 :=
  (b.get? name).filter (· ≠ Int64.minValue)

theorem Bindings.restorable_of_least {b : Bindings} {name : String}
    (h : b.get? name = some Int64.minValue) : b.restorable name = none := by
  rw [restorable, h]
  rfl

theorem Bindings.restorable_of_ne {b : Bindings} {name : String}
    (h : b.get? name ≠ some Int64.minValue) : b.restorable name = b.get? name := by
  rw [restorable]
  cases hv : b.get? name with
  | none => rfl
  | some v =>
      refine Option.filter_some_pos (decide_eq_true fun hleast => ?_)
      rw [hv, hleast] at h
      exact h rfl

section

variable {c : Calculator} {names : List String}

/-- A saved line restores its variable. -/
theorem get?_evaluate_saved {name : String} (hx : isVariableName name = true) {v : Int64}
    (hv : c.bindings.get? name = some v) (b : Bindings) (other : String) :
    (Line.evaluate b (c.savedLine name)).2.get? other =
      if other = name then (c.bindings.restorable other).or (b.get? other) else b.get? other := by
  rw [Calculator.savedLine_eq hx hv, Line.evaluate_saved b hx]
  by_cases hleast : v = Int64.minValue
  · rw [if_pos hleast]
    split
    · rename_i hother
      rw [hother, Bindings.restorable_of_least (hleast ▸ hv), Option.none_or]
    · rfl
  · have hrestored : c.bindings.restorable name = some v := by
      rw [Bindings.restorable_of_ne fun he => hleast (Option.some.inj (hv.symm.trans he)), hv]
    rw [if_neg hleast, Bindings.get?_define]
    split
    · rename_i hother
      rw [if_pos hother.symm, ← hother, hrestored, Option.some_or]
    · rename_i hother
      rw [if_neg (Ne.symm hother)]

/-- **Saved lines restore their variables,** in whatever order, and have no effect on others. -/
theorem get?_evaluateAll_saved (h : Stored c.bindings names) (b : Bindings) (other : String) :
    (Line.evaluateAll b (names.map c.savedLine)).2.get? other =
      if other ∈ names then (c.bindings.restorable other).or (b.get? other)
      else b.get? other := by
  induction names generalizing b with
  | nil => rfl
  | cons name names ih =>
      obtain ⟨hx, v, hv⟩ := h name List.mem_cons_self
      have htail : Stored c.bindings names := fun n hn => h n (List.mem_cons_of_mem name hn)
      rw [List.map_cons, Line.evaluateAll]
      dsimp only
      rw [ih htail, get?_evaluate_saved hx hv]
      by_cases hmem : other ∈ names
      · rw [if_pos hmem, if_pos (List.mem_cons_of_mem name hmem)]
        split
        · -- the name has been saved twice
          rw [← Option.or_assoc, Option.or_self]
        · rfl
      · rw [if_neg hmem]
        simp only [List.mem_cons, hmem, or_false]

end

/-! ## The theorem -/

/-- The saved lines of `c` for `names` have been entered on a new calculator, and `answers` is what
came of it. -/
structure Restores (c : Calculator) (names : List String) (echo : Bool)
    (answers : List (Except Fault (Option Int64)) × Calculator) : Prop where
  /-- Each line succeeds and gives its value back, or is a faulty expression if it is the least. -/
  answer : ∀ (k : Nat) (name : String) (v : Int64), names[k]? = some name →
    c.bindings.get? name = some v →
    answers.1[k]? = some (if v = Int64.minValue then .error .expression
      else .ok (Evaluation.shown echo ⟨.assignment, v⟩))
  /-- The names that had other values have them again, and no others have any. -/
  value : ∀ name, answers.2.bindings.get? name = c.bindings.restorable name
  /-- If no name had the least value, everything is as it was. -/
  same : (∀ name, c.bindings.get? name ≠ some Int64.minValue) → answers.2.bindings = c.bindings

theorem answer_saved {c : Calculator} {names : List String} (h : Stored c.bindings names)
    {k : Nat} {name : String} {v : Int64} (hk : names[k]? = some name)
    (hv : c.bindings.get? name = some v) (new : Calculator) :
    (new.answers (names.map c.savedLine)).1[k]?
      = some (if v = Int64.minValue then .error .expression
          else .ok (Evaluation.shown new.echo ⟨.assignment, v⟩)) := by
  have hline : (names.map c.savedLine)[k]? = some (c.savedLine name) := by
    rw [List.getElem?_map, hk]
    rfl
  have hx := (h name (List.mem_of_getElem? hk)).1
  rw [Calculator.answers_getElem? hline, Calculator.answer_eq, Calculator.savedLine_eq hx hv,
    Line.evaluate_saved _ hx, Calculator.answers_eq]
  split <;> rfl

theorem restores_of_stored {c : Calculator} {names : List String}
    (hletters : ∀ name v, c.bindings.get? name = some v → isVariableName name = true)
    (hnames : ∀ name, name ∈ names ↔ c.bindings.contains name = true) (echo : Bool) :
    Restores c names echo ((Calculator.new echo).answers (names.map c.savedLine)) := by
  have hstored : Stored c.bindings names := by
    intro name hname
    rw [hnames, Bindings.contains_eq_isSome] at hname
    obtain ⟨v, hv⟩ := Option.isSome_iff_exists.mp hname
    exact ⟨hletters name v hv, v, hv⟩
  have hvalue : ∀ name, ((Calculator.new echo).answers (names.map c.savedLine)).2.bindings.get? name
      = c.bindings.restorable name := by
    intro name
    rw [Calculator.answers_eq]
    refine (get?_evaluateAll_saved hstored ∅ name).trans ?_
    rw [Bindings.get?_empty, Option.or_none]
    split
    · rfl
    · rename_i hname
      rw [hnames, Bindings.contains_eq_isSome, Bool.not_eq_true, Option.isSome_eq_false_iff,
        Option.isNone_iff_eq_none] at hname
      rw [Bindings.restorable, hname]
      rfl
  refine ⟨fun k name v hk hv => answer_saved hstored hk hv (Calculator.new echo), hvalue, ?_⟩
  intro hnone
  refine Bindings.ext fun name => ?_
  rw [hvalue, Bindings.restorable_of_ne (hnone name)]

/--
**The variables of a session can be saved, but for the least value.** After any lines that a
calculator is given from the beginning, with echo or without it:

1. asked for a variable, the session prints its value;
2. the lines made of the names and of what is printed, entered on a new calculator in any order,
   succeed and restore the variables, except that a line with the least value is at fault and
   changes nothing;
3. whatever the variables, a printed value can be assigned to every name, but for the least value,
   which can be assigned to none.
-/
theorem saved_bindings_restored (lines : List String) (echo : Bool) (c : Calculator)
    (hc : c = ((Calculator.new echo).answers lines).2) (names : List String)
    (hnames : ∀ name, name ∈ names ↔ c.bindings.contains name = true) (echo' : Bool) :
    (∀ name v, c.bindings.get? name = some v → c.reply name = (.say (decimal v), c)) ∧
    Restores c names echo' ((Calculator.new echo').answers (names.map c.savedLine)) ∧
    ∀ (b : Bindings) (x : String) (v : Int64), isVariableName x = true →
      Line.evaluate b (x ++ " = " ++ decimal v) =
        if v = Int64.minValue then (.error .expression, b)
        else (.ok ⟨.assignment, v⟩, b.define x v) := by
  have hletters : ∀ name v, c.bindings.get? name = some v → isVariableName name = true := by
    intro name v hv
    rw [hc, Calculator.answers_eq] at hv
    exact isVariableName_iff.mpr ((remembers_variablesAfter lines).letters name v hv)
  exact ⟨fun name v hv => Calculator.reply_lookup (hletters name v hv) hv,
    restores_of_stored hletters hnames echo', fun b x v hx => Line.evaluate_saved b hx v⟩

/-- Two values that are restored, and one that is not. -/
theorem product_restored_without_least :
    (∀ name, name ∈ ["y", "m", "x"] ↔ ((Calculator.new false).answers
      ["x = 7 - 9", "y = x * x", "m = -9223372036854775807 - 1"]).2.bindings.contains name = true) ∧
    Restores ((Calculator.new false).answers
        ["x = 7 - 9", "y = x * x", "m = -9223372036854775807 - 1"]).2 ["y", "m", "x"] true
      ((Calculator.new true).answers (["y", "m", "x"].map ((Calculator.new false).answers
        ["x = 7 - 9", "y = x * x", "m = -9223372036854775807 - 1"]).2.savedLine)) := by
  have hnames : ∀ name, name ∈ ["y", "m", "x"] ↔ ((Calculator.new false).answers
      ["x = 7 - 9", "y = x * x", "m = -9223372036854775807 - 1"]).2.bindings.contains name
        = true := by
    intro name
    rw [Bindings.contains_eq_isSome, Option.isSome_iff_exists]
    simp only [← Bindings.mem_toList_iff]
    have hlist : ((Calculator.new false).answers
        ["x = 7 - 9", "y = x * x", "m = -9223372036854775807 - 1"]).2.bindings.toList
          = [("m", Int64.minValue), ("x", -2), ("y", 4)] := by decide +kernel
    rw [hlist]
    simp only [List.mem_cons, List.not_mem_nil, or_false, Prod.mk.injEq]
    constructor
    · rintro (h | h | h)
      · exact ⟨4, Or.inr (Or.inr ⟨h, rfl⟩)⟩
      · exact ⟨Int64.minValue, Or.inl ⟨h, rfl⟩⟩
      · exact ⟨-2, Or.inr (Or.inl ⟨h, rfl⟩)⟩
    · rintro ⟨v, ⟨h, -⟩ | ⟨h, -⟩ | ⟨h, -⟩⟩
      · exact Or.inr (Or.inl h)
      · exact Or.inr (Or.inr h)
      · exact Or.inl h
  exact ⟨hnames, (saved_bindings_restored _ false _ rfl ["y", "m", "x"] hnames true).2.1⟩

/-- **The least value is not restored.** A session can have it and print it, and the line that is
made of what it prints has no value. -/
theorem least_value_not_restored :
    ((Calculator.new false).answers ["x = -9223372036854775807 - 1"]).2.bindings.toList
      = [("x", Int64.minValue)] ∧
    ((Calculator.new false).answers ["x = -9223372036854775807 - 1"]).2.savedLine "x"
      = "x = -9223372036854775808" ∧
    ((Calculator.new false).answers ["x = -9223372036854775808"]).1 = [.error .expression] ∧
    ((Calculator.new false).answers ["x = -9223372036854775808"]).2.bindings.get? "x" = none :=
  ⟨by decide +kernel, by decide +kernel, by decide +kernel, by decide +kernel⟩

end LineCalc
