/-!
# Command-line arguments

    smart-calc [--log] [--echo-assignments] [repl]
    smart-calc [--log] [--echo-assignments] tokenize [--json] FILE
    smart-calc [--log] [--echo-assignments] evaluate FILE

Options start with `-` and may stand anywhere, the two general ones on either side of
the subcommand; a `--` ends them, so that a file name may start with `-`. No option
takes a value, and none may be given twice on the same side. Arguments are read from
the left, and the first that decides the matter does: a request for help or for the
version is granted if nothing wrong stands in front of it.
-/

namespace LineCalc.CommandLine

/-! ## Arguments by their form -/

/-- An argument by its form. -/
inductive Argument where
  /-- The end of the options. -/
  | stop
  /-- `--word`. -/
  | long (word : String)
  /-- `-x`, whatever may follow the letter. -/
  | short (letter : Char)
  /-- Not an option. -/
  | plain (text : String)
  deriving DecidableEq, Repr

namespace Argument

/-- The form of an argument. A single `-` is no option. -/
def ofString (s : String) : Argument :=
  match s.toList with
  | ['-', '-'] => .stop
  | '-' :: '-' :: word => .long (String.ofList word)
  | '-' :: letter :: _ => .short letter
  | _ => .plain s

/-- A request for help. -/
def asksHelp (a : Argument) : Bool := a = .long "help" || a = .short 'h'

/-- A request for the version. -/
def asksVersion (a : Argument) : Bool := a = .long "version" || a = .short 'V'

end Argument

/-! ## What arguments can ask for -/

/-- The general options. -/
structure Options where
  log : Bool
  echo : Bool
  deriving DecidableEq, Repr

namespace Options

/-- Nothing asked for. -/
def unset : Options := ⟨false, false⟩

/-- What is asked for in either of two places. -/
def union (o o' : Options) : Options := ⟨o.log || o'.log, o.echo || o'.echo⟩

/-- The options with a further one, unless it is not general or has been given. -/
def add? (o : Options) (a : Argument) : Option Options :=
  if a = .long "log" && !o.log then some { o with log := true }
  else if a = .long "echo-assignments" && !o.echo then some { o with echo := true }
  else none

end Options

/-- What the program is to do. -/
inductive Task where
  /-- Answer the lines of the standard input. -/
  | repl
  /-- List the tokens of each line of a file. -/
  | tokenize (file : String) (json : Bool)
  /-- Answer the lines of a file. -/
  | evaluate (file : String)
  deriving DecidableEq, Repr

/-- What the arguments ask for. -/
inductive Request where
  | run (options : Options) (task : Task)
  | version
  | help
  /-- Nothing that the program can do. -/
  | misuse
  deriving DecidableEq, Repr

/-! ## Subcommands -/

/-- A subcommand and what has been read of its own arguments. -/
inductive Subcommand where
  | repl
  | tokenize (file : Option String) (json : Bool)
  | evaluate (file : Option String)
  deriving DecidableEq, Repr

namespace Subcommand

/-- The subcommand of that name, with nothing read of its arguments. -/
def named? : String → Option Subcommand
  | "repl" => some .repl
  | "tokenize" => some (.tokenize none false)
  | "evaluate" => some (.evaluate none)
  | _ => none

/-- A file name is taken once, and is not empty. -/
def takeFile? (c : Subcommand) (file : String) : Option Subcommand :=
  match c with
  | .tokenize none json => if file = "" then none else some (.tokenize file json)
  | .evaluate none => if file = "" then none else some (.evaluate file)
  | _ => none

/-- An option of the subcommand's own is taken once. -/
def takeOption? (c : Subcommand) (a : Argument) : Option Subcommand :=
  match c with
  | .tokenize file false => if a = .long "json" then some (.tokenize file true) else none
  | _ => none

/-- What the subcommand is to do, once it has all it needs. -/
def task? : Subcommand → Option Task
  | .repl => some .repl
  | .tokenize file json => file.map (.tokenize · json)
  | .evaluate file => file.map .evaluate

end Subcommand

/-! ## Reading arguments -/

namespace Request

/-- The request that a subcommand comes to. -/
def ofSubcommand (o : Options) (c : Subcommand) : Request :=
  match c.task? with
  | some task => .run o task
  | none => .misuse

/-- Read file names only. -/
def readFiles (o : Options) (c : Subcommand) : List String → Request
  | [] => ofSubcommand o c
  | a :: args =>
      match c.takeFile? a with
      | some c => readFiles o c args
      | none => .misuse

/-- Read what follows a subcommand. `before` was given in front of it, `o` behind it. -/
def readSubcommand (before o : Options) (c : Subcommand) : List String → Request
  | [] => ofSubcommand (before.union o) c
  | a :: args =>
      match Argument.ofString a with
      | .stop => readFiles (before.union o) c args
      | .plain file =>
          match c.takeFile? file with
          | some c => readSubcommand before o c args
          | none => .misuse
      | option =>
          if option.asksHelp then .help
          else
            match o.add? option, c.takeOption? option with
            | some o, _ => readSubcommand before o c args
            | none, some c => readSubcommand before o c args
            | none, none => .misuse

/-- Read what `help` is asked about: the program, or one subcommand. -/
def readHelp : List String → Request
  | [] | ["repl"] | ["tokenize"] | ["evaluate"] | ["help"] => .help
  | _ => .misuse

/-- Read arguments from the left, when `o` has been given already. -/
def read (o : Options) : List String → Request
  | [] => .run o .repl
  | a :: args =>
      match Argument.ofString a with
      | .stop => if args.isEmpty then .run o .repl else .misuse
      | .plain "help" => readHelp args
      | .plain name =>
          match Subcommand.named? name with
          | some c => readSubcommand o .unset c args
          | none => .misuse
      | option =>
          if option.asksHelp then .help
          else if option.asksVersion then .version
          else
            match o.add? option with
            | some o => read o args
            | none => .misuse

/-- The request that the arguments of a run make. -/
def ofArguments (args : List String) : Request := read .unset args

end Request

end LineCalc.CommandLine
