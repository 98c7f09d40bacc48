import LineCalc.CommandLine

/-!
# The program

The outermost layer: it fetches arguments, files and lines, and puts out what the
command line makes of them. A file is taken as a whole. The standard input is answered
line by line as it comes in, each line being a session of its own that starts where
the one before it stopped.
-/

namespace LineCalc.CommandLine

/-- What a path leads to outside. -/
def lookAt (path : String) : IO Found := do
  try
    return .file (← IO.FS.readBinFile path).data.toList
  catch
    | .noFileOrDirectory .. => return .nothing
    | .invalidArgument .. => return .tooLong
    | .inappropriateType _ code _ =>
        return if code = 21 then .folder else .throughFile
    | error => throw error

/-- The bytes up to the next newline, and it, or up to the end. -/
partial def readLine (input : IO.FS.Stream) (line : ByteArray) : IO ByteArray := do
  let next ← input.read 1
  match next.data.toList with
  | [] => return line
  | byte :: _ => if byte = 0x0A then return line.push byte else readLine input (line.push byte)

/-- Answer the standard input as it comes in. -/
partial def converse (input output : IO.FS.Stream) (c : Calculator) : IO UInt32 := do
  let line ← readLine input .empty
  let transcript := Session.run none c line.data.toList
  output.putStr transcript.output
  output.flush
  match transcript.ending.failure? with
  | some failure =>
      (← IO.getStderr).putStr failure.report
      return 1
  | none =>
      if transcript.ending = .command || line.isEmpty then return 0
      else converse input output transcript.calculator

/-- Put out a report. -/
def publish (report : Report) : IO UInt32 := do
  (← IO.getStdout).putStr report.stdout
  (← IO.getStderr).putStr report.stderr
  return report.code.toUInt32

/-- Do what a request asks for. -/
def serve (args : List String) : IO UInt32 := do
  match Request.ofArguments args with
  | .run options task => do
      if options.log then IO.FS.writeFile logName (logText options task)
      match task with
      | .repl => converse (← IO.getStdin) (← IO.getStdout) (.new options.echo)
      | .tokenize file _ | .evaluate file =>
          let found ← lookAt file
          publish (perform options.echo (fun _ => found) [] task)
  | _ => publish (run args ⟨[]⟩ []).1

end LineCalc.CommandLine

/-- Run the program on its arguments. -/
def main (args : List String) : IO UInt32 := LineCalc.CommandLine.serve args
