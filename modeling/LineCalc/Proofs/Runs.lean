import LineCalc.Calculator

/-!
# Lines one after the other

A calculator that is given several lines answers each with the variables that the lines
before it left. The answers are those of `Line.evaluate`, shown as the print policy says,
and the variables do not depend on the policy at all.
-/

namespace LineCalc

/-- The outcomes of some lines, and the variables after the last. -/
def Line.evaluateAll (b : Bindings) : List String → List (Except Fault Evaluation) × Bindings
  | [] => ([], b)
  | line :: lines =>
      let (outcome, after) := evaluate b line
      ((outcome :: (evaluateAll after lines).1), (evaluateAll after lines).2)

/-- The answers to some lines, and the calculator after the last. -/
def Calculator.answers (c : Calculator) :
    List String → List (Except Fault (Option Int64)) × Calculator
  | [] => ([], c)
  | line :: lines =>
      let (answer, after) := c.answer line
      ((answer :: (after.answers lines).1), (after.answers lines).2)

/-- The answer to a line is its outcome, as far as it is shown. -/
theorem Calculator.answer_eq (c : Calculator) (line : String) :
    c.answer line = ((Line.evaluate c.bindings line).1.map (Evaluation.shown c.echo),
      ⟨(Line.evaluate c.bindings line).2, c.echo⟩) := rfl

theorem Calculator.answers_cons (c : Calculator) (line : String) (lines : List String) :
    c.answers (line :: lines) =
      ((c.answer line).1 :: ((c.answer line).2.answers lines).1,
        ((c.answer line).2.answers lines).2) := rfl

/-- The answers are the outcomes, as far as they are shown. -/
theorem Calculator.answers_eq (c : Calculator) (lines : List String) :
    c.answers lines =
      ((Line.evaluateAll c.bindings lines).1.map fun o => o.map (Evaluation.shown c.echo),
        ⟨(Line.evaluateAll c.bindings lines).2, c.echo⟩) := by
  induction lines generalizing c with
  | nil => rfl
  | cons line lines ih =>
      rw [answers, Line.evaluateAll]
      simp only [List.map_cons]
      rw [ih]
      rfl

/-- Processing lines one by one leaves the variables that evaluating them does. -/
theorem Line.foldl_process (b : Bindings) (lines : List String) :
    lines.foldl (fun b line => (process b line).2) b = (evaluateAll b lines).2 := by
  induction lines generalizing b with
  | nil => rfl
  | cons line lines ih => exact ih _

/-- Some lines and then some more are answered as all of them together. -/
theorem Line.evaluateAll_append (b : Bindings) (xs ys : List String) :
    evaluateAll b (xs ++ ys) =
      ((evaluateAll b xs).1 ++ (evaluateAll (evaluateAll b xs).2 ys).1,
        (evaluateAll (evaluateAll b xs).2 ys).2) := by
  induction xs generalizing b with
  | nil => rfl
  | cons x xs ih =>
      rw [List.cons_append, evaluateAll, evaluateAll]
      simp only [ih, List.cons_append]

theorem Calculator.answers_append (c : Calculator) (xs ys : List String) :
    c.answers (xs ++ ys) =
      ((c.answers xs).1 ++ ((c.answers xs).2.answers ys).1, ((c.answers xs).2.answers ys).2) := by
  rw [answers_eq, answers_eq, answers_eq, Line.evaluateAll_append]
  simp only [List.map_append]

/-- Each line is answered with the variables that the lines in front of it left. -/
theorem Calculator.answers_getElem? {lines : List String} {k : Nat} {line : String}
    (h : lines[k]? = some line) (c : Calculator) :
    (c.answers lines).1[k]? = some ((c.answers (lines.take k)).2.answer line).1 := by
  induction lines generalizing c k with
  | nil => cases h
  | cons first lines ih =>
      cases k with
      | zero =>
          cases h
          rfl
      | succ k => exact ih h (c.answer first).2

theorem Calculator.length_answers (c : Calculator) (lines : List String) :
    (c.answers lines).1.length = lines.length := by
  induction lines generalizing c with
  | nil => rfl
  | cons line lines ih => exact congrArg (· + 1) (ih _)

/-- A line that leaves the variables as they were can be repeated. -/
theorem Line.evaluateAll_replicate {b : Bindings} {line : String} (h : (evaluate b line).2 = b)
    (n : Nat) :
    evaluateAll b (List.replicate n line) = (List.replicate n (evaluate b line).1, b) := by
  induction n with
  | zero => rfl
  | succ n ih =>
      rw [List.replicate_succ, evaluateAll]
      simp only [h, ih]
      rfl

end LineCalc
