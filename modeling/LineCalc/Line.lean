import LineCalc.Token.Stream

/-!
# The tokens of a line

Some sequences of tokens are refused before anything looks at what they mean: a
line with several `=`, a doubled `*`, `/` or `%`, two numbers side by side, and a
line without `=` that ends in an operator, a `(` or the like. None of them could
have had a value anyway; refusing them here decides which fault is reported.

The `=` are counted first, on the characters, so that several of them are a faulty
assignment whatever else is wrong with the line.
-/

namespace LineCalc

namespace TokenKind

/-- Two neighbours that no line may have. -/
def clash : TokenKind → TokenKind → Bool
  | star, star | slash, slash | percent, percent => true
  | number _, number _ => true
  | _, _ => false

/-- What the last token of a line without `=` may be. -/
def mayEnd : TokenKind → Bool
  | number _ | identifier | rightParen => true
  | _ => false

end TokenKind

namespace Line

/-- How many `=` a line has, wherever they stand. -/
def equalSigns (line : String) : Nat := line.toList.count '='

/-- Some two neighbours clash. -/
def hasClash (tokens : List Token) : Bool :=
  (tokens.zip tokens.tail).any fun (t, u) => t.kind.clash u.kind

/-- There is a last token, and a line without `=` may not end in it. -/
def endsOpen (tokens : List Token) : Bool :=
  tokens.getLast?.any fun t => !t.kind.mayEnd

/-- The tokens of a line, or why it is refused. A line of blanks has no tokens. -/
def tokens (line : String) : Except Fault (List Token) :=
  if 1 < equalSigns line then .error .assignment
  else
    match Token.scan line with
    | .error fault => .error fault
    | .ok tokens =>
        -- What an assignment ends in is for its right-hand side to say.
        if hasClash tokens || (equalSigns line = 0 && endsOpen tokens) then .error .expression
        else .ok tokens

end Line

end LineCalc
