import LineCalc.CommandLine.Arguments
import LineCalc.CommandLine.Folder
import LineCalc.Session
import LineCalc.Text.Quoted
import LineCalc.Token.Listing

/-!
# The command line

What a run of the program comes to, as a function of its arguments, the folder it
runs in and its standard input: an exit code, what it writes on either output, and
the files it leaves.

`repl` and `evaluate` are the same session on different input, except that a file is
read as a whole before its first line is answered. `tokenize` takes every line by
itself and knows no variables; it passes over commands, `/exit` included.
-/

namespace LineCalc.CommandLine

/-- The name that the program goes by. -/
def programName : String := "smart-calc"

/-- The file that a log is written to. -/
def logName : String := programName ++ ".log"

/-- The answer to `--version`. -/
def versionText : String := programName ++ " 0.1.0\n"

/-- The answer to arguments that the program does not take. -/
def usageText : String :=
  "Usage: " ++ programName ++ " [OPTIONS] [COMMAND]\n"

/-- The answer to `--help`. -/
def helpText : String :=
  "Interactive integer calculator with variables\n\n" ++ usageText ++
  "\nCommands:\n" ++
  "  repl      Reads lines from stdin and evaluates them (default)\n" ++
  "  tokenize  Tokenizes every line of a file, printing each token\n" ++
  "  evaluate  Evaluates every line of a file as if typed into the REPL\n" ++
  "  help      Print this message or the help of the given subcommand(s)\n" ++
  "\nOptions:\n" ++
  "      --log               Enable logging to " ++ logName ++ "\n" ++
  "      --echo-assignments  Print the value of assignment statements too\n" ++
  "  -h, --help              Print help\n" ++
  "  -V, --version           Print version\n"

/-- What a run writes, and the code it ends with. -/
structure Report where
  code : Nat
  stdout : String
  stderr : String
  deriving DecidableEq, Repr

namespace Report

/-- A run that a failure cut short after it had written `stdout`. -/
def failed (stdout : String) (failure : Failure) : Report := ⟨1, stdout, failure.report⟩

/-- One report after the other. A code other than 0 stays. -/
def append (r r' : Report) : Report :=
  ⟨if r.code = 0 then r'.code else r.code, r.stdout ++ r'.stdout, r.stderr ++ r'.stderr⟩

instance : Append Report := ⟨append⟩

/-- Nothing is written, and all is well. -/
def empty : Report := ⟨0, "", ""⟩

end Report

/-! ## Files -/

/-- The text of a file, or the failure to get at it. -/
def textOf (path : String) (found : Found) : Except Failure String :=
  let failure (verb cause : String) : Failure :=
    ⟨"Failed to " ++ verb ++ " file " ++ Text.Quoted.encode path, cause⟩
  match found with
  | .nothing => .error (failure "open" "No such file or directory (os error 2)")
  | .throughFile => .error (failure "open" "Not a directory (os error 20)")
  | .tooLong => .error (failure "open" "File name too long (os error 36)")
  | .folder => .error (failure "read" "Is a directory (os error 21)")
  | .file content =>
      match Text.decode? content with
      | some text => .ok text
      | none => .error (failure "read" Failure.notUtf8)

/-! ## Tasks -/

/-- The session on some input as a run of the program. -/
def sessionReport (echo : Bool) (input : List UInt8) : Report :=
  let transcript := Session.run none (Calculator.new echo) input
  match transcript.ending.failure? with
  | none => ⟨0, transcript.output, ""⟩
  | some failure => .failed transcript.output failure

/-- The listing of the tokens of a line. -/
def listing (json : Bool) (tokens : List Token) : String :=
  if json then Token.jsonArray tokens ++ "\n"
  else String.join (tokens.map fun t => t.describe ++ "\n")

/-- What listing the tokens of one trimmed line comes to. -/
def lineReport (json : Bool) (line : String) : Report :=
  if line = "" || (Command.ofLine? line).isSome then .empty
  else
    match Line.tokens line with
    | .ok tokens => ⟨0, listing json tokens, ""⟩
    | .error fault => ⟨65, "", line ++ ": " ++ fault.message ++ "\n"⟩

/-- What listing the tokens of a text comes to. -/
def tokenizeReport (json : Bool) (text : String) : Report :=
  ((Text.lines '\n' text.toList).map fun line =>
    lineReport json (Text.trim (String.ofList line))).foldr (· ++ ·) .empty

/-- What a task comes to, where `find` says what a path leads to. -/
def perform (echo : Bool) (find : String → Found) (stdin : List UInt8) : Task → Report
  | .repl => sessionReport echo stdin
  | .tokenize file json =>
      match textOf file (find file) with
      | .ok text => tokenizeReport json text
      | .error failure => .failed "" failure
  | .evaluate file =>
      match textOf file (find file) with
      | .ok text => sessionReport echo text.toUTF8.data.toList
      | .error failure => .failed "" failure

/-! ## Runs -/

/-- The records of a log up to the moment when the task looks at its file. None of them is a line
that has a value, so a log that is evaluated answers each with a fault. -/
def logRecords (options : Options) (task : Task) : List String :=
  let reading (name file : String) : List String :=
    ["task: " ++ name, "reading " ++ Text.Quoted.encode file]
  ["log: " ++ logName, "log: " ++ toString options.log, "echo: " ++ toString options.echo,
      "calculator: new"] ++
    match task with
    | .repl => ["task: repl"]
    | .tokenize file _ => reading "tokenize" file
    | .evaluate file => reading "evaluate" file

/-- The text of a log up to that moment. -/
def logText (options : Options) (task : Task) : String :=
  String.join ((logRecords options task).map fun record =>
    "[" ++ programName ++ "] " ++ record ++ "\n")

/-- What a run comes to, and the folder it leaves. A log is begun before anything else is done. -/
def run (args : List String) (folder : Folder) (stdin : List UInt8) : Report × Folder :=
  match Request.ofArguments args with
  | .misuse => (⟨2, "", usageText⟩, folder)
  | .help => (⟨0, helpText, ""⟩, folder)
  | .version => (⟨0, versionText, ""⟩, folder)
  | .run options task =>
      let folder :=
        if options.log then folder.create logName (logText options task).toUTF8.data.toList
        else folder
      (perform options.echo (folder.find stdin) stdin task, folder)

/-- Whether a folder holds a log. -/
def hasLog (folder : Folder) : Bool := (folder.content? logName).isSome

end LineCalc.CommandLine
