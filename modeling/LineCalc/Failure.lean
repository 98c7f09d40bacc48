/-!
# Failures of input and output

What a program reports when the outside world lets it down: what it was doing, and
what came of it. The same failure is told on one line, or as a report of several.
-/

namespace LineCalc

/-- What was being done, and what went wrong. -/
structure Failure where
  context : String
  cause : String
  deriving DecidableEq, Repr

namespace Failure

/-- A failure on one line. -/
def summary (f : Failure) : String := f.context ++ ": " ++ f.cause

/-- A failure as the last words of a program. -/
def report (f : Failure) : String :=
  "Error: " ++ f.context ++ "\n\nCaused by:\n    " ++ f.cause ++ "\n"

/-- The cause of a failure to read text from bytes that encode none. -/
def notUtf8 : String := "stream did not contain valid UTF-8"

end Failure

end LineCalc
