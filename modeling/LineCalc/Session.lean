import LineCalc.Calculator
import LineCalc.Failure
import LineCalc.Session.Command
import LineCalc.Text.Lines
import LineCalc.Text.WhiteSpace

/-!
# Sessions: the read loop

A session reads lines until one of them is `/exit` or none is left. It trims each
line, passes over the empty ones, and writes at most one message per line: a value,
a fault, or the answer to a command. Faults never end a session. Two things outside
of it do: a line that is not UTF-8, and an output that takes no more messages.

A line has had its effect on the variables before its message is written, so a
message that is not taken leaves its assignment in place.
-/

namespace LineCalc

/-- What a line makes a session do. -/
inductive Reply where
  /-- Nothing is written. -/
  | silence
  /-- Write the message. -/
  | say (message : String)
  /-- Write the message and end. -/
  | leave (message : String)
  deriving DecidableEq, Repr

/-- The reply to a trimmed line that is not empty, and the calculator after it. -/
def Calculator.reply (c : Calculator) (line : String) : Reply × Calculator :=
  match Command.ofLine? line with
  | some .exit => (.leave "Bye!", c)
  | some .help => (.say Command.helpText, c)
  | some (.unknown _) => (.say "Unknown command", c)
  | none =>
      match c.answer line with
      | (.ok (some value), after) => (.say (decimal value), after)
      | (.ok none, after) => (.silence, after)
      | (.error fault, after) => (.say fault.message, after)

namespace Session

/-- How a session ended. -/
inductive Ending where
  /-- By `/exit`. -/
  | command
  /-- There was no further line. -/
  | endOfInput
  /-- The next line was not UTF-8. -/
  | unreadable
  /-- The output refused a message. -/
  | unwritable
  deriving DecidableEq, Repr

/-- The failure that an ending is, if it is one. -/
def Ending.failure? : Ending → Option Failure
  | .command | .endOfInput => none
  | .unreadable => some ⟨"Failed to read input line", Failure.notUtf8⟩
  | .unwritable => some ⟨"Failed to write output", "sink full"⟩

/-- A session from beginning to end: what it wrote, why it ended, and the calculator it left. -/
structure Transcript where
  messages : List String
  ending : Ending
  calculator : Calculator

namespace Transcript

/-- The same session with one more message at its beginning. -/
def saying (message : String) (t : Transcript) : Transcript :=
  { t with messages := message :: t.messages }

/-- Everything written: each message ends its line. -/
def output (t : Transcript) : String := String.join (t.messages.map (· ++ "\n"))

end Transcript

/-- The session on some lines, those without a text being the unreadable ones. The output takes
`room` messages, or any number. -/
def runLines (room : Option Nat) (c : Calculator) : List (Option String) → Transcript
  | [] => ⟨[], .endOfInput, c⟩
  | none :: _ => ⟨[], .unreadable, c⟩
  | some text :: lines =>
      let line := Text.trim text
      if line = "" then runLines room c lines
      else
        match c.reply line, room with
        | (.silence, after), _ => runLines room after lines
        | (_, after), some 0 => ⟨[], .unwritable, after⟩
        | (.say message, after), _ =>
            (runLines (room.map (· - 1)) after lines).saying message
        | (.leave message, after), _ => ⟨[message], .command, after⟩

/-- The session on some input. -/
def run (room : Option Nat) (c : Calculator) (input : List UInt8) : Transcript :=
  runLines room c (Text.decodedLines input)

end Session

end LineCalc
