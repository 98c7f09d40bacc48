import LineCalc.CommandLine
import LineCalc.Proofs.EncodedLines
import LineCalc.Proofs.Turns
import Mathlib.Data.String.Basic

/-!
# A file and the standard input

`evaluate` answers the lines of a file and `repl` those of the standard input. Bytes that are text
have the same answers in either place, and neither command fails, whatever the lines are.

They part over bytes that are no text. A file is read as a whole before its first line is looked
at, so nothing is answered. The standard input is read line by line, and every line in front of the
first one that is no text has its answer, unless an `/exit` among them comes before.
-/

namespace LineCalc.CommandLine

open Session

/-! ## Reports of sessions -/

section

variable {echo : Bool} {input : List UInt8}

theorem sessionReport_of_ended
    (h : (Session.run none (.new echo) input).ending = .endOfInput ∨
      (Session.run none (.new echo) input).ending = .command) :
    sessionReport echo input = ⟨0, (Session.run none (.new echo) input).output, ""⟩ := by
  unfold sessionReport
  rcases h with h | h <;> simp only [h, Ending.failure?]

theorem sessionReport_of_unreadable
    (h : (Session.run none (.new echo) input).ending = .unreadable) :
    sessionReport echo input = .failed (Session.run none (.new echo) input).output
      ⟨"Failed to read input line", Failure.notUtf8⟩ := by
  unfold sessionReport
  simp only [h, Ending.failure?]

/-- A text is answered to its end, or to an `/exit`. -/
theorem sessionReport_of_decode? (h : (Text.decode? input).isSome = true) :
    sessionReport echo input = ⟨0, (Session.run none (.new echo) input).output, ""⟩ :=
  sessionReport_of_ended (ending_of_readable fun _ => Text.isSome_of_mem_decodedLines h)

end

/-- What a session on the standard input comes to when `line` is the first that is no text. -/
structure AnsweredBefore (echo : Bool) (before : List UInt8) (answered : Report) : Prop where
  /-- Without an `/exit`, everything in front of the line is answered, and the session fails. -/
  fails : NoExit (Text.decodedLines before) →
    answered.code = 1 ∧ answered.stdout = (Session.run none (.new echo) before).output
  /-- Otherwise everything in front of the first `/exit` is answered, and the session ends there. -/
  leaves : ¬ NoExit (Text.decodedLines before) → ∃ front text back,
    Text.decodedLines before = front ++ some text :: back ∧ NoExit front ∧
    Text.trim text = "/exit" ∧ answered.code = 0 ∧ answered.stderr = "" ∧
    answered.stdout = (runLines none (.new echo) front).output ++ "Bye!\n"

theorem answeredBefore {echo : Bool} {input before line behind : List UInt8}
    (h : Text.FirstUnreadable input before line behind) :
    AnsweredBefore echo before (sessionReport echo input) := by
  obtain ⟨rest, hlines⟩ := h.decodedLines
  have hread : ∀ item ∈ Text.decodedLines before, item.isSome = true := fun _ =>
    Text.isSome_of_mem_decodedLines h.readable
  refine ⟨fun hno => ?_, fun hno => ?_⟩
  · have hfront : (Session.run none (.new echo) before).ending = .endOfInput :=
      ending_of_noExit hread hno
    have hrun : Session.run none (.new echo) input
        = (Session.run none (.new echo) before).andThen
          ⟨[], .unreadable, (Session.run none (.new echo) before).calculator⟩ := by
      rw [Session.run, hlines, runLines_unreadable]
      rfl
    have hending : (Session.run none (.new echo) input).ending = .unreadable := by
      rw [hrun, Transcript.andThen_of_endOfInput hfront]
    have houtput : (Session.run none (.new echo) input).output
        = (Session.run none (.new echo) before).output := by
      rw [hrun, Transcript.output_andThen hfront]
      exact String.append_empty
    rw [sessionReport_of_unreadable hending, houtput]
    exact ⟨rfl, rfl⟩
  · rcases exists_first_exit (Text.decodedLines before) with hno' | ⟨front, text, back, hsplit,
      hfront, hexit⟩
    · exact absurd hno' hno
    refine ⟨front, text, back, hsplit, hfront, hexit, ?_⟩
    have hended : (runLines none (.new echo) front).ending = .endOfInput :=
      ending_of_noExit (fun item hitem => hread item (hsplit ▸ List.mem_append_left _ hitem)) hfront
    have hrun : Session.run none (.new echo) input = (runLines none (.new echo) front).andThen
        ⟨["Bye!"], .command, (runLines none (.new echo) front).calculator⟩ := by
      rw [Session.run, hlines, hsplit, List.append_assoc, List.cons_append, runLines_exit hexit]
    have hending : (Session.run none (.new echo) input).ending = .command := by
      rw [hrun, Transcript.andThen_of_endOfInput hended]
    rw [sessionReport_of_ended (Or.inr hending), hrun]
    exact ⟨rfl, rfl, Transcript.output_andThen hended _⟩

/-! ## Files by their names -/

/-- The path is a name: a single part, which neither stays nor goes up, and no path too long. -/
def IsName (path : String) : Prop :=
  path ∉ ["", ".", ".."] ∧ '/' ∉ path.toList ∧ path.utf8ByteSize ≤ maxPathBytes

instance (path : String) : Decidable (IsName path) := inferInstanceAs (Decidable (_ ∧ _))

/-- With `front` passed and no slash to come, nothing is split off any more. -/
theorem splitOnAux_eq_single (front : List Char) {back : List Char} (h : '/' ∉ back) :
    String.splitOnAux (.ofList (front ++ back)) "/" 0 ⟨String.utf8Len front⟩ 0 []
      = [.ofList (front ++ back)] := by
  induction back generalizing front with
  | nil =>
      rw [String.splitOnAux, if_pos ((String.atEnd_of_valid _ _).mpr rfl), List.append_nil,
        ← String.rawEndPos_ofList, String.extract_zero_rawEndPos]
      rfl
  | cons c back ih =>
      obtain ⟨hc, hback⟩ := not_or.mp (mt List.mem_cons.mpr h)
      have hend : ¬ String.Pos.Raw.atEnd (.ofList (front ++ c :: back)) ⟨String.utf8Len front⟩ :=
        mt (String.atEnd_of_valid _ _).mp (List.cons_ne_nil _ _)
      have hslash : ¬ (String.Pos.Raw.get (.ofList (front ++ c :: back)) ⟨String.utf8Len front⟩
          == String.Pos.Raw.get "/" 0) := by
        rw [String.get_of_valid]
        exact fun hget => hc (beq_iff_eq.mp hget).symm
      have hlen : String.utf8Len (front ++ [c]) = String.utf8Len front + c.utf8Size := by simp
      have hnext := ih (front ++ [c]) hback
      rw [List.append_assoc, List.singleton_append, hlen] at hnext
      rw [String.splitOnAux, if_neg hend, if_neg hslash, String.Pos.Raw.unoffsetBy_zero,
        String.next_of_valid]
      exact hnext

theorem splitOn_eq_single {path : String} (h : '/' ∉ path.toList) : path.splitOn "/" = [path] := by
  have hsplit := splitOnAux_eq_single [] h
  rw [List.nil_append, String.ofList_toList] at hsplit
  rw [String.splitOn, if_neg (by decide)]
  exact hsplit

/-- **A name leads to the file that has it.** -/
theorem find_of_isName {folder : Folder} {stdin content : List UInt8} {name : String}
    (hname : IsName name) (h : folder.content? name = some content) :
    folder.find stdin name = .file content := by
  obtain ⟨hpart, hslash, hsize⟩ := hname
  simp only [List.mem_cons, List.not_mem_nil, or_false, not_or] at hpart
  obtain ⟨hempty, hstays, hup⟩ := hpart
  rw [Folder.find, if_neg hempty, if_neg (Nat.not_lt.mpr hsize), splitOn_eq_single hslash]
  simp [Folder.follow, Folder.entry?, h, hempty, hstays, hup]

/-! ## Runs of the program -/

section

variable {args : List String} {folder : Folder} {stdin content : List UInt8} {options : Options}
  {task : Task} {file : String}

/-- A run does its task in the folder that it leaves: only a log has been put there, beforehand. -/
theorem run_of_arguments (h : Request.ofArguments args = .run options task) :
    (run args folder stdin).1
      = perform options.echo ((run args folder stdin).2.find stdin) stdin task := by
  unfold run
  rw [h]

theorem run_evaluate_text (h : Request.ofArguments args = .run options (.evaluate file))
    (hfile : (run args folder stdin).2.find stdin file = .file content)
    (htext : (Text.decode? content).isSome = true) :
    (run args folder stdin).1 = sessionReport options.echo content := by
  obtain ⟨text, htext⟩ := Option.isSome_iff_exists.mp htext
  rw [run_of_arguments h, perform, hfile, textOf, htext]
  show sessionReport options.echo text.toUTF8.data.toList = _
  rw [Text.toUTF8_of_decode? htext]

theorem run_evaluate_noText (h : Request.ofArguments args = .run options (.evaluate file))
    (hfile : (run args folder stdin).2.find stdin file = .file content)
    (htext : Text.decode? content = none) :
    (run args folder stdin).1.code = 1 ∧ (run args folder stdin).1.stdout = "" := by
  rw [run_of_arguments h, perform, hfile, textOf, htext]
  exact ⟨rfl, rfl⟩

end

/-! ## The theorem -/

/-- What comes of evaluating a file with some content, and what comes of the same content on the
standard input. -/
structure AnsweredAlike (echo : Bool) (content : List UInt8) (evaluated answered : Report) :
    Prop where
  /-- A text is answered alike and without failure. -/
  text : (Text.decode? content).isSome = true →
    answered.stdout = evaluated.stdout ∧ evaluated.stderr = "" ∧ answered.stderr = "" ∧
      evaluated.code = 0 ∧ answered.code = 0
  /-- A file that is no text is not answered at all. -/
  file : Text.decode? content = none → evaluated.code = 1 ∧ evaluated.stdout = ""
  /-- On the standard input it is answered up to the first line that is none. -/
  input : Text.decode? content = none → ∃ before line behind,
    Text.FirstUnreadable content before line behind ∧ AnsweredBefore echo before answered

/--
**A file and the standard input are answered alike.**

Take two runs of the program that ask for echo both or neither, of which one is to evaluate a file
and the other to answer its standard input, and let the bytes of the two be the same. If they are
text, both runs write the same, nothing to the standard error, and end with code 0. If they are
not, the first fails without an answer, and the second answers every line in front of the first one
that is no text and then fails, unless an `/exit` ends it before.
-/
theorem file_answered_like_input (args args' : List String) (options options' : Options)
    (folder folder' : Folder) {file : String} {stdin content : List UInt8}
    (hevaluate : Request.ofArguments args = .run options (.evaluate file))
    (hrepl : Request.ofArguments args' = .run options' .repl)
    (hecho : options.echo = options'.echo)
    (hfile : (run args folder stdin).2.find stdin file = .file content) :
    AnsweredAlike options.echo content (run args folder stdin).1 (run args' folder' content).1 := by
  have hanswered : (run args' folder' content).1 = sessionReport options.echo content := by
    rw [run_of_arguments hrepl, hecho]
    rfl
  refine ⟨fun htext => ?_, run_evaluate_noText hevaluate hfile, fun htext => ?_⟩
  · rw [hanswered, run_evaluate_text hevaluate hfile htext, sessionReport_of_decode? htext]
    exact ⟨rfl, rfl, rfl, rfl, rfl⟩
  · obtain ⟨before, line, behind, hfirst⟩ := Text.exists_firstUnreadable htext
    rw [hanswered]
    exact ⟨before, line, behind, hfirst, answeredBefore hfirst⟩

/-- A file with a fault in it is evaluated, and another one, with a byte that is no text, is not. -/
theorem product_from_file :
    (run ["evaluate", "sums", "--echo-assignments"]
        ⟨[("sums", "x = 6 * 7\n1 / 0\nx".toUTF8.data.toList)]⟩ []).1.stdout
      = "42\nDivision by zero\n42\n" ∧
    (run ["--log", "evaluate", "sums"]
        ⟨[("sums", "x = 6 * 7\n".toUTF8.data.toList ++ [0xFF])]⟩ []).1.code = 1 := by
  have hname : IsName "sums" := by decide
  have hfind : ∀ content, (run ["evaluate", "sums", "--echo-assignments"] ⟨[("sums", content)]⟩
      []).2.find [] "sums" = .file content := fun _ => find_of_isName hname rfl
  have hlog : ∀ content, (run ["--log", "evaluate", "sums"] ⟨[("sums", content)]⟩ []).2.find []
      "sums" = .file content := fun _ => find_of_isName hname rfl
  constructor
  · have htext := (file_answered_like_input _ ["--echo-assignments"] ⟨false, true⟩ ⟨false, true⟩
      _ ⟨[]⟩ (by decide +kernel) (by decide +kernel) rfl
      (hfind "x = 6 * 7\n1 / 0\nx".toUTF8.data.toList)).text (by decide +kernel)
    rw [← htext.1]
    decide +kernel
  · have hnone := (file_answered_like_input _ [] ⟨true, false⟩ ⟨false, false⟩ _ ⟨[]⟩
      (by decide +kernel) (by decide +kernel) rfl
      (hlog ("x = 6 * 7\n".toUTF8.data.toList ++ [0xFF]))).file (by decide +kernel)
    exact hnone.1

end LineCalc.CommandLine
