import LineCalc.Text.Unprintable

/-!
# Names in quotation marks

How a file's name stands in a message: between quotation marks, with everything that
would not show behind a backslash, by a letter if it has one and by its code in
hexadecimal digits if not.
-/

namespace LineCalc.Text.Quoted

/-- One character between the quotation marks. -/
def escape (c : Char) : List Char :=
  match c with
  | '"' => ['\\', '"']
  | '\\' => ['\\', '\\']
  | '\x00' => ['\\', '0']
  | '\n' => ['\\', 'n']
  | '\r' => ['\\', 'r']
  | '\t' => ['\\', 't']
  | c =>
      if isUnprintable c then ['\\', 'u', '\x7b'] ++ Nat.toDigits 16 c.toNat ++ ['\x7d'] else [c]

/-- A name with its quotation marks. -/
def encode (s : String) : String := String.ofList ('"' :: s.toList.flatMap escape ++ ['"'])

end LineCalc.Text.Quoted
