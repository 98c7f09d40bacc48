/-!
# Commands

A trimmed line that starts with `/` is a command and never arithmetic, whether the
command exists or not.
-/

namespace LineCalc

/-- What a session can be told to do. -/
inductive Command where
  | exit
  | help
  /-- A line that starts like a command and is none. -/
  | unknown (line : String)
  deriving DecidableEq, Repr

namespace Command

/-- The command that a line is, if it starts like one. -/
def ofLine? (line : String) : Option Command :=
  if line.toList.head? = some '/' then
    some (if line = "/exit" then .exit else if line = "/help" then .help else .unknown line)
  else none

/-- The answer to `/help`. -/
def helpText : String :=
  "Integer calculator. Enter an expression such as `2 + 3 * (4 - 1)`.\n" ++
  "Operators: + - * / % and parentheses; division truncates.\n" ++
  "Assign with `name = expression` (letters only), read back with `name`.\n" ++
  "Commands: /help, /exit"

end Command

end LineCalc
