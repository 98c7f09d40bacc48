/-!
# Tokens

A line is a sequence of tokens. A token has a kind, and a lexeme: the text it was
read from. Only a number carries more than its kind, namely its value, because a
sign in front of the first number of a line belongs to the number.

Nothing here asks that lexeme and kind agree. Tokens read from a line always do;
what evaluates them looks at kinds alone, and at the lexeme of an identifier for
the variable's name.
-/

namespace LineCalc

-- Kinds are told apart by matching. Decidable equality would let a case split try to refute
-- "for every value, not a number of that value" by going through all the values.
/-- What a token is. -/
inductive TokenKind where
  /-- An integer literal. -/
  | number (value : Int64)
  /-- A word that is not all digits. -/
  | identifier
  | plus
  | minus
  | star
  | slash
  | percent
  | leftParen
  | rightParen
  | equal
  deriving Repr

namespace TokenKind

/-- The kind's name in token listings. -/
def label : TokenKind → String
  | number _ => "NUMBER"
  | identifier => "IDENTIFIER"
  | plus => "PLUS"
  | minus => "MINUS"
  | star => "STAR"
  | slash => "SLASH"
  | percent => "PERCENT"
  | leftParen => "LEFT_PAREN"
  | rightParen => "RIGHT_PAREN"
  | equal => "EQUAL"

/-- The five arithmetic operators. -/
def isOperator : TokenKind → Bool
  | plus | minus | star | slash | percent => true
  | _ => false

/-- The two operators that may also stand in front of an operand. -/
def isSign : TokenKind → Bool
  | plus | minus => true
  | _ => false

/-- Numbers and identifiers, the kinds that alphanumeric runs have. -/
def isWord : TokenKind → Bool
  | number _ | identifier => true
  | _ => false

/-- The sign of an assignment. -/
def isEqual : TokenKind → Bool
  | equal => true
  | _ => false

/-- The same kind, whatever the numbers. -/
def alike (k l : TokenKind) : Bool := k.ctorIdx == l.ctorIdx

/-- Kinds are alike exactly when a listing names them alike. -/
theorem alike_iff_label_eq (k l : TokenKind) : k.alike l = true ↔ k.label = l.label := by
  cases k <;> cases l <;> simp [alike, label, TokenKind.ctorIdx]

/-- The token that a punctuation character makes by itself. -/
def ofChar? : Char → Option TokenKind
  | '+' => some plus
  | '-' => some minus
  | '*' => some star
  | '/' => some slash
  | '%' => some percent
  | '(' => some leftParen
  | ')' => some rightParen
  | '=' => some equal
  | _ => none

end TokenKind

/-- A kind, and the text it was read from. -/
structure Token where
  kind : TokenKind
  lexeme : String
  deriving Repr

namespace Token

/-- The value of a number token. -/
def number? (t : Token) : Option Int64 :=
  match t.kind with
  | .number value => some value
  | _ => none

/-- The name that an identifier token stands for. -/
def name? (t : Token) : Option String :=
  match t.kind with
  | .identifier => some t.lexeme
  | _ => none

/-- The same kind and the same text, whatever the numbers. -/
def alike (t u : Token) : Bool := t.kind.alike u.kind && t.lexeme = u.lexeme

end Token

/-- A value as it is printed: decimal digits, behind a `-` if it is negative. -/
def decimal (value : Int64) : String := value.toInt.repr

/-- What a variable may be called: one ASCII letter or more, and nothing else. -/
def isVariableName (name : String) : Bool :=
  !name.toList.isEmpty && name.toList.all Char.isAlpha

theorem isVariableName_iff {name : String} :
    isVariableName name = true ↔
      name.toList ≠ [] ∧ ∀ c ∈ name.toList, c.isAlpha = true := by
  simp [isVariableName]

end LineCalc
