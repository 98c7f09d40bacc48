import LineCalc.Bindings
import LineCalc.Expression

/-!
# Statements: what a line asks for

A line with an `=` assigns, a line that is one name looks it up, and every other
line is an expression. Each has a value; only an assignment changes the variables,
and only once its value is known. Any fault leaves the variables as they were.

Names are replaced by their values from left to right before anything is evaluated,
so a faulty name is reported before a misspelt expression or a zero divisor, and the
leftmost one before all others. In an assignment the left-hand side comes first, and
what follows the `=` may mention the assigned name: it still has its old value.
-/

namespace LineCalc

/-- The forms of a line. -/
inductive Statement where
  /-- Arithmetic, with variables or without. -/
  | expression
  /-- A name by itself. -/
  | lookup
  /-- A name, an `=`, and an expression. -/
  | assignment
  deriving DecidableEq, Repr

/-- The form of a line and the value it came to. -/
structure Evaluation where
  statement : Statement
  value : Int64
  deriving DecidableEq, Repr

namespace Statement

/-- The form of a line, which its tokens alone decide. -/
def ofTokens (tokens : List Token) : Statement :=
  if tokens.any fun t => t.kind.isEqual then .assignment
  else
    match tokens with
    | [⟨.identifier, _⟩] => .lookup
    | _ => .expression

/-- The token with its name, if it is one, replaced by the name's value. A name that is not made
of letters is reported as `misspelt`. -/
def resolve (b : Bindings) (misspelt : Fault) (t : Token) : Except Fault Token :=
  match t.name? with
  | none => .ok t
  | some name =>
      if isVariableName name then (b.get name).map fun value => ⟨.number value, t.lexeme⟩
      else .error misspelt

/-- The value of an expression with variables. -/
def valueOf (b : Bindings) (misspelt : Fault) (tokens : List Token) : Except Fault Int64 := do
  evaluate (← tokens.mapM (resolve b misspelt))

/-- The name that an assignment is to, and its value. -/
def assigned (b : Bindings) (tokens : List Token) : Except Fault (String × Int64) :=
  match tokens with
  | [] => .error .expression
  | target :: tokens =>
      match target.name?.filter isVariableName, tokens with
      | none, _ => .error .identifier
      | some _, [] => .error .expression
      | some name, t :: tokens =>
          if !t.kind.isEqual then .error .expression
          else if tokens.isEmpty then .error .assignment
          else (valueOf b .assignment tokens).map fun value => (name, value)

/-- The outcome of a line's tokens, and the variables after it. -/
def run (b : Bindings) (tokens : List Token) : Except Fault Evaluation × Bindings :=
  match ofTokens tokens with
  | .assignment =>
      match assigned b tokens with
      | .ok (name, value) => (.ok ⟨.assignment, value⟩, b.define name value)
      | .error fault => (.error fault, b)
  | statement => ((valueOf b .identifier tokens).map fun value => ⟨statement, value⟩, b)

end Statement

end LineCalc
