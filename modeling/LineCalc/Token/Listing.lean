import LineCalc.Text.JsonString
import LineCalc.Token

/-!
# Listings of tokens

A token is listed on a line of its own as its kind, its lexeme and its value, or the
tokens of one line together as a JSON array. Only a number has a value; the value is
part of the kind in JSON, and stands last in the plain listing, where the other kinds
have `null`.
-/

namespace LineCalc

namespace TokenKind

/-- A kind in JSON: its name, or for a number an object of its name and value. -/
def json : TokenKind → String
  | number value =>
      "\x7b" ++ Text.JsonString.encode (number value).label ++ ":" ++ decimal value ++ "\x7d"
  | kind => Text.JsonString.encode kind.label

end TokenKind

namespace Token

/-- A token as one line of a plain listing. -/
def describe (t : Token) : String :=
  t.kind.label ++ " " ++ t.lexeme ++ " " ++
    match t.number? with
    | some value => decimal value
    | none => "null"

/-- A token in JSON. -/
def json (t : Token) : String :=
  "\x7b\"token_type\":" ++ t.kind.json ++
    ",\"lexeme\":" ++ Text.JsonString.encode t.lexeme ++ "\x7d"

/-- The tokens of a line in JSON. -/
def jsonArray (tokens : List Token) : String :=
  "[" ++ String.intercalate "," (tokens.map json) ++ "]"

end Token

end LineCalc
