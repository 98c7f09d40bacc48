import LineCalc.Line
import LineCalc.Statement

/-!
# The calculator: one line after another

A calculator holds the variables and a print policy. The policy decides one thing:
whether the value of an assignment is part of the answer. It has no say in what the
variables are.
-/

namespace LineCalc

/-- The part of an evaluation that is shown. Only the value of an assignment may be held back. -/
def Evaluation.shown (echo : Bool) (e : Evaluation) : Option Int64 :=
  if e.statement = .assignment && !echo then none else some e.value

namespace Line

/-- The outcome of a line, and the variables after it. -/
def evaluate (b : Bindings) (line : String) : Except Fault Evaluation × Bindings :=
  match tokens line with
  | .ok tokens => Statement.run b tokens
  | .error fault => (.error fault, b)

/-- The answer to a line as it is usually shown, without the values of assignments, and the
variables after it. -/
def process (b : Bindings) (line : String) : Except Fault (Option Int64) × Bindings :=
  let (outcome, after) := evaluate b line
  (outcome.map (Evaluation.shown false), after)

end Line

/-- The variables, and whether the values of assignments are shown. -/
structure Calculator where
  bindings : Bindings
  echo : Bool

namespace Calculator

/-- A calculator on which nothing has been entered. -/
def new (echo : Bool) : Calculator := ⟨∅, echo⟩

/-- The answer to a line, and the calculator after it. -/
def answer (c : Calculator) (line : String) : Except Fault (Option Int64) × Calculator :=
  let (outcome, after) := Line.evaluate c.bindings line
  (outcome.map (Evaluation.shown c.echo), { c with bindings := after })

/-- Without echo a calculator answers the way lines are usually shown. -/
theorem answer_quiet (b : Bindings) (line : String) :
    (⟨b, false⟩ : Calculator).answer line =
      ((Line.process b line).1, ⟨(Line.process b line).2, false⟩) := rfl

end Calculator

end LineCalc
