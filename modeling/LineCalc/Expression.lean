import LineCalc.Fault
import LineCalc.Token

/-!
# Expressions, evaluated as they are read

    expression = term    { ("+" | "-") term }
    term       = primary { ("*" | "/" | "%") primary }
    primary    = NUMBER | "(" expression ")" | "-" primary | "+" primary

Both chains associate to the left. Arithmetic is that of 64-bit words: it wraps, and
division truncates toward zero. An operator is applied as soon as its right operand
has been read, so a zero divisor is reported before any misspelling further right.

Parentheses and signs may nest up to `maxNesting` deep. Each phrase is read by a
`Production`, and the productions for one depth are built from those for the next
one: `primary 0` refuses everything, and `primary (n + 1)` is an operand whose inside
is read with `primary n`. Depth is therefore a matter of where a token stands, and
groups side by side never add up.
-/

namespace LineCalc

/-! ## Operators -/

/-- The five operations on two numbers. -/
inductive Operator where
  | add
  | sub
  | mul
  | div
  | rem
  deriving DecidableEq, Repr

namespace Operator

/-- The value of an operation. Only division and remainder can fail. -/
def apply (op : Operator) (left right : Int64) : Except Fault Int64 :=
  match op with
  | add => .ok (left + right)
  | sub => .ok (left - right)
  | mul => .ok (left * right)
  | div => if right = 0 then .error .divisionByZero else .ok (left / right)
  | rem => if right = 0 then .error .divisionByZero else .ok (left % right)

/-- The operations that chain terms. -/
def additive? : TokenKind → Option Operator
  | .plus => some add
  | .minus => some sub
  | _ => none

/-- The operations that chain primaries. -/
def multiplicative? : TokenKind → Option Operator
  | .star => some mul
  | .slash => some div
  | .percent => some rem
  | _ => none

end Operator

/-! ## Productions -/

/-- What comes of reading a phrase: its value or a fault, and the tokens that were not reached. -/
structure Reading where
  outcome : Except Fault Int64
  rest : List Token

/-- A way of reading a phrase off the front of a token list. -/
structure Production where
  read : List Token → Reading
  /-- Reading only ever moves forward. -/
  rest_suffix : ∀ tokens, (read tokens).rest <:+ tokens

namespace Production

/-- The production that reads nothing. -/
def refuse : Production := ⟨fun tokens => ⟨.error .expression, tokens⟩, List.suffix_refl⟩

/-- Go on with a chain whose value so far is `left`: as long as an operator comes next, read its
right operand and apply it. -/
def follow (operand : Production) (operator? : TokenKind → Option Operator) (left : Int64) :
    List Token → Reading
  | [] => ⟨.ok left, []⟩
  | t :: tokens =>
      match operator? t.kind with
      | none => ⟨.ok left, t :: tokens⟩
      | some op =>
          let r := operand.read tokens
          match r.outcome.bind (op.apply left) with
          | .error fault => ⟨.error fault, r.rest⟩
          | .ok value => follow operand operator? value r.rest
termination_by tokens => tokens.length
decreasing_by exact Nat.lt_succ_of_le (operand.rest_suffix tokens).length_le

theorem follow_rest_suffix (operand : Production) (operator? : TokenKind → Option Operator)
    (left : Int64) (tokens : List Token) :
    (follow operand operator? left tokens).rest <:+ tokens := by
  fun_induction follow operand operator? left tokens with
  | case1 | case2 => exact List.suffix_refl _
  | case3 left t tokens => exact (operand.rest_suffix tokens).trans (List.suffix_cons t tokens)
  | case4 left t tokens _ _ _ _ _ ih =>
      exact ih.trans ((operand.rest_suffix tokens).trans (List.suffix_cons t tokens))

/-- Read operands joined by operators, from the left. -/
def readChain (operator? : TokenKind → Option Operator) (operand : Production)
    (tokens : List Token) : Reading :=
  let r := operand.read tokens
  match r.outcome with
  | .error fault => ⟨.error fault, r.rest⟩
  | .ok left => follow operand operator? left r.rest

theorem readChain_rest_suffix (operator? : TokenKind → Option Operator) (operand : Production)
    (tokens : List Token) : (readChain operator? operand tokens).rest <:+ tokens := by
  unfold readChain
  dsimp only
  split
  · exact operand.rest_suffix tokens
  · exact (follow_rest_suffix ..).trans (operand.rest_suffix tokens)

/-- Operands joined by operators, from the left. -/
def chain (operator? : TokenKind → Option Operator) (operand : Production) : Production :=
  ⟨readChain operator? operand, readChain_rest_suffix operator? operand⟩

/-- A term, given how to read its operands. -/
def termOf (operand : Production) : Production := chain Operator.multiplicative? operand

/-- An expression, given how to read its operands. -/
def expressionOf (operand : Production) : Production := chain Operator.additive? (termOf operand)

/-- What follows the expression inside a group has to close it. -/
def closeGroup : Reading → Reading
  | ⟨.ok value, ⟨.rightParen, _⟩ :: rest⟩ => ⟨.ok value, rest⟩
  | ⟨.ok _, rest⟩ => ⟨.error .expression, rest.tail⟩
  | ⟨.error fault, rest⟩ => ⟨.error fault, rest⟩

theorem closeGroup_rest_suffix (r : Reading) : (closeGroup r).rest <:+ r.rest := by
  unfold closeGroup
  split
  · exact List.suffix_cons _ _
  · exact List.tail_suffix _
  · exact List.suffix_refl _

/-- Read a number, a group or a signed operand; the operands inside are read with `inner`. -/
def readOperand (inner : Production) : List Token → Reading
  | [] => ⟨.error .expression, []⟩
  | t :: tokens =>
      match t.kind with
      | .number value => ⟨.ok value, tokens⟩
      | .leftParen => closeGroup ((expressionOf inner).read tokens)
      | .minus =>
          let r := inner.read tokens
          ⟨r.outcome.map fun value => -value, r.rest⟩
      | .plus => inner.read tokens
      | _ => ⟨.error .expression, tokens⟩

theorem readOperand_rest_suffix (inner : Production) (tokens : List Token) :
    (readOperand inner tokens).rest <:+ tokens := by
  cases tokens with
  | nil => simp [readOperand]
  | cons t tokens =>
      rw [readOperand]
      split
      · exact List.suffix_cons t tokens
      · exact (closeGroup_rest_suffix _).trans
          (((expressionOf inner).rest_suffix tokens).trans (List.suffix_cons t tokens))
      · exact (inner.rest_suffix tokens).trans (List.suffix_cons t tokens)
      · exact (inner.rest_suffix tokens).trans (List.suffix_cons t tokens)
      · exact List.suffix_cons t tokens

/-- A number, a group or a signed operand. -/
def operand (inner : Production) : Production :=
  ⟨readOperand inner, readOperand_rest_suffix inner⟩

/-- An operand for which `levels` levels of nesting are left, its own among them. -/
def primary : (levels : Nat) → Production
  | 0 => refuse
  | levels + 1 => operand (primary levels)

/-- A term at the same level as its operands. -/
def term (levels : Nat) : Production := termOf (primary levels)

/-- An expression at the same level as its operands. -/
def expression (levels : Nat) : Production := expressionOf (primary levels)

end Production

/-- How many parentheses and signs may enclose a number. -/
def maxNesting : Nat := 255

/-- The value of a token list that is one expression from end to end. -/
def evaluate (tokens : List Token) : Except Fault Int64 :=
  match (Production.expression (maxNesting + 1)).read tokens with
  | ⟨.ok value, []⟩ => .ok value
  | ⟨.ok _, _ :: _⟩ => .error .expression
  | ⟨.error fault, _⟩ => .error fault

end LineCalc
