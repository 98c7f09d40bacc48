import LineCalc.Proofs.Turns
import LineCalc.Proofs.VisibleLines

/-!
# A session sees the visible lines

Line endings, indentation and blank lines are gone before a session looks at anything. So it is a
function of the visible lines of its input (`run_eq_runVisible`), whatever room its output has.

On visible lines a session is simple. It goes through them up to the first `/exit`, and what it
does to the variables on the way is the fold of the answers to the lines that are no commands
(`runVisible_calculator`). Commands do not take part in it, known or unknown.
-/

namespace LineCalc

namespace Session

theorem isStatement_of_visible {line : String} (h : line ≠ "") :
    isStatement line = !startsCommand line := by
  rw [isStatement, decide_eq_true h, Bool.true_and, ← Command.isSome_ofLine?, Option.not_isSome]

/-- The session on some lines that can all be read. -/
def runVisible (room : Option Nat) (c : Calculator) (lines : List String) : Transcript :=
  runLines room c (lines.map some)

/-! ## What is trimmed away -/

section

variable {room : Option Nat} {c : Calculator}

/-- Of its first line a session sees what trimming leaves. -/
theorem runLines_congr {text text' : String} {lines lines' : List (Option String)}
    (htrim : Text.trim text = Text.trim text')
    (h : ∀ room c, runLines room c lines = runLines room c lines') :
    runLines room c (some text :: lines) = runLines room c (some text' :: lines') := by
  rw [runLines.eq_def room c (some text :: lines), runLines.eq_def room c (some text' :: lines')]
  simp only [htrim, h]

/-- Nothing is lost on a session by trimming its lines and leaving out the empty ones. -/
theorem runVisible_trim (room : Option Nat) (c : Calculator) (lines : List String) :
    runVisible room c lines = runVisible room c ((lines.map Text.trim).filter (· ≠ "")) := by
  induction lines generalizing room c with
  | nil => rfl
  | cons text lines ih =>
      rw [List.map_cons]
      by_cases hblank : Text.trim text = ""
      · rw [List.filter_cons_of_neg (by simpa using hblank), ← ih]
        exact runLines_blank hblank
      · rw [List.filter_cons_of_pos (by simpa using hblank)]
        exact runLines_congr (Text.trim_trim text).symm ih

/-- **A session on a text is one on its visible lines.** -/
theorem run_eq_runVisible {input : List UInt8} {text : String}
    (h : Text.decode? input = some text) (room : Option Nat) (c : Calculator) :
    run room c input = runVisible room c (Text.visibleLines text.toList) := by
  have hlines : Text.decodedLines input
      = ((Text.lines '\n' text.toList).map String.ofList).map some := by
    rw [Text.decodedLines_of_decode? h, List.map_map]
    rfl
  rw [run, hlines]
  exact (runVisible_trim room c _).trans (by rw [List.map_map]; rfl)

/-! ## Commands -/

/-- What stands behind an `/exit` makes no difference. -/
theorem runVisible_exit (room : Option Nat) (c : Calculator) (front back back' : List String) :
    runVisible room c (front ++ "/exit" :: back)
      = runVisible room c (front ++ "/exit" :: back') := by
  have hexit : Text.trim "/exit" = "/exit" := by decide +kernel
  have hreply : ∀ c : Calculator, c.reply (Text.trim "/exit") = (.leave "Bye!", c) := by
    intro c
    rw [hexit, Calculator.reply, Command.ofLine?_eq_exit_iff.mpr rfl]
  have hstops : ∀ room c,
      runVisible room c ("/exit" :: back) = runVisible room c ("/exit" :: back') := by
    intro room c
    have hblank : Text.trim "/exit" ≠ "" := by
      rw [hexit]
      decide
    by_cases hroom : room = some 0
    · subst hroom
      exact (runLines_full hblank (hreply c) (by simp)).trans
        (runLines_full hblank (hreply c) (by simp)).symm
    · exact (runLines_leave hblank (hreply c) hroom).trans
        (runLines_leave hblank (hreply c) hroom).symm
  unfold runVisible at hstops ⊢
  rw [List.map_append, List.map_append, runLines_append, runLines_append, hstops]

/-- A turn with a command leaves the variables as they were. -/
theorem respond_of_startsCommand {text : String} (h : startsCommand (Text.trim text) = true) :
    (respond c text).2 = c := by
  have hno : isStatement (Text.trim text) = false := by
    rw [isStatement, ← Bool.not_eq_true, Bool.and_eq_true, not_and, Option.isNone_iff_eq_none,
      ← Option.not_isSome_iff_eq_none, not_not, Command.isSome_ofLine?]
    exact fun _ => h
  obtain ⟨reply, hreply, -⟩ := respond_of_not_isStatement hno
  rw [hreply]

end

/-! ## The lines up to the first `/exit` -/

/-- The lines in front of the first `/exit` that are no commands. -/
def statementsBeforeExit (lines : List String) : List String :=
  (lines.takeWhile (· ≠ "/exit")).filter fun line => !startsCommand line

section

variable {c : Calculator} {line : String} {lines : List String}

/-- A session on visible lines goes on behind the first of them unless this is `/exit`. -/
theorem runVisible_cons (htrim : Text.trim line = line) (c : Calculator) (lines : List String) :
    (runVisible none c (line :: lines)).calculator
      = (if line = "/exit" then c else (runVisible none (respond c line).2 lines).calculator) ∧
    (runVisible none c (line :: lines)).ending
      = if line = "/exit" then .command else (runVisible none (respond c line).2 lines).ending := by
  unfold runVisible
  rw [List.map_cons, runLines_goesOn]
  by_cases hexit : line = "/exit"
  · have hlast : (respond c line).1.isLast = true := isLast_respond_iff.mpr (htrim.trans hexit)
    have hsame : (respond c line).2 = c := by
      apply respond_of_startsCommand
      rw [htrim, hexit]
      decide
    rw [if_pos hlast, if_pos hexit, if_pos hexit, hsame]
    exact ⟨rfl, rfl⟩
  · have hlast : ¬ (respond c line).1.isLast = true := fun h =>
      hexit (htrim.symm.trans (isLast_respond_iff.mp h))
    rw [if_neg hlast, if_neg hexit, if_neg hexit]
    exact ⟨rfl, rfl⟩

/-- **The variables are the business of the lines that are no commands,** up to the first
`/exit`. -/
theorem runVisible_calculator (h : ∀ line ∈ lines, Text.trim line = line ∧ line ≠ "") :
    (runVisible none c lines).calculator
      = (statementsBeforeExit lines).foldl (fun d line => (d.answer line).2) c := by
  induction lines generalizing c with
  | nil => rfl
  | cons line lines ih =>
      obtain ⟨⟨htrim, hne⟩, hlines⟩ := List.forall_mem_cons.mp h
      rw [(runVisible_cons htrim c lines).1, statementsBeforeExit]
      by_cases hexit : line = "/exit"
      · rw [if_pos hexit, List.takeWhile_cons_of_neg (by simpa using hexit)]
        rfl
      · rw [if_neg hexit, List.takeWhile_cons_of_pos (by simpa using hexit), ih hlines]
        cases hcommand : startsCommand line with
        | true =>
            have hsame : (respond c line).2 = c :=
              respond_of_startsCommand (by rw [htrim, hcommand])
            rw [hsame, List.filter_cons_of_neg (by simp [hcommand])]
            rfl
        | false =>
            have hstatement : isStatement (Text.trim line) = true := by
              rw [htrim, isStatement_of_visible hne, hcommand]
              rfl
            rw [respond_of_isStatement hstatement, htrim,
              List.filter_cons_of_pos (by simp [hcommand]), List.foldl_cons]
            rfl

theorem runVisible_ending (h : ∀ line ∈ lines, Text.trim line = line ∧ line ≠ "") :
    (runVisible none c lines).ending = if "/exit" ∈ lines then .command else .endOfInput := by
  induction lines generalizing c with
  | nil => rfl
  | cons line lines ih =>
      obtain ⟨⟨htrim, -⟩, hlines⟩ := List.forall_mem_cons.mp h
      rw [(runVisible_cons htrim c lines).2, ih hlines]
      by_cases hexit : line = "/exit"
      · simp [hexit]
      · simp [hexit, Ne.symm hexit]

end

/-! ## The theorem -/

/-- What a session on some bytes does, seen from the visible lines of the text that they encode. -/
structure SeesVisibleLines (c : Calculator) (input : List UInt8) (text : String) : Prop where
  /-- Whatever has the same visible lines is the same to it, on an output with any room. -/
  same : ∀ input' text', Text.decode? input' = some text' →
    Text.visibleLines text'.toList = Text.visibleLines text.toList →
    ∀ room, run room c input' = run room c input
  /-- So is the text without some white space at the edge of a line, be it a carriage return, a
  newline at the end or at the start, a blank line, or indentation. -/
  padding : ∀ front pad back, text.toList = front ++ pad ++ back → Text.IsEdge front back →
    Text.White pad → ∀ room, run room c (Text.encode (front ++ back)) = run room c input
  /-- A line that starts like a command leaves the variables as they are. -/
  command : ∀ turn ∈ turns c (Text.decodedLines input), startsCommand turn.line = true →
    turn.after = turn.before
  /-- Lines behind an `/exit` might as well be others. -/
  exit : ∀ front back, Text.visibleLines text.toList = front ++ "/exit" :: back →
    ∀ input' text' back', Text.decode? input' = some text' →
      Text.visibleLines text'.toList = front ++ "/exit" :: back' →
      ∀ room, run room c input' = run room c input
  /-- The variables are those that the other lines leave when they are answered in turn. -/
  calculator : (run none c input).calculator
    = (statementsBeforeExit (Text.visibleLines text.toList)).foldl
        (fun d line => (d.answer line).2) c
  ending : (run none c input).ending
    = if "/exit" ∈ Text.visibleLines text.toList then .command else .endOfInput

/--
**A session sees the visible lines of its input,** and nothing else of it.

Whatever the variables and the print policy, take a session on bytes that encode a text. Any text
with the same trimmed lines, the empty ones left out, gives the same session: the same messages,
the same ending, the same variables. Of these lines the commands and those behind the first `/exit`
have no part in the variables, which come from answering the others one by one.
-/
theorem session_sees_visible_lines (c : Calculator) {input : List UInt8} {text : String}
    (h : Text.decode? input = some text) : SeesVisibleLines c input text := by
  have hvisible : ∀ line ∈ Text.visibleLines text.toList, Text.trim line = line ∧ line ≠ "" :=
    fun _ => Text.of_mem_visibleLines
  have hrun := run_eq_runVisible h
  have hsame : ∀ input' text', Text.decode? input' = some text' →
      Text.visibleLines text'.toList = Text.visibleLines text.toList →
      ∀ room, run room c input' = run room c input := by
    intro input' text' h' hlines room
    rw [run_eq_runVisible h', hlines, hrun]
  exact {
    same := hsame
    padding := by
      intro front pad back htext hedge hpad
      refine hsame _ _ (Text.decode?_encode _) ?_
      rw [htext, Text.visibleLines_padding hedge hpad, String.toList_ofList]
    command := by
      intro turn hturn hcommand
      obtain ⟨front, back, hsplit⟩ := List.append_of_mem hturn
      obtain ⟨text', -, hline, hrespond⟩ := (turns_split hsplit).text
      have hunchanged := respond_of_startsCommand (c := turn.before) (hline ▸ hcommand)
      rw [hrespond] at hunchanged
      exact hunchanged
    exit := by
      intro front back hlines input' text' back' h' hlines' room
      rw [run_eq_runVisible h', hrun, hlines, hlines']
      exact runVisible_exit room c front back' back
    calculator := by
      rw [hrun]
      exact runVisible_calculator hvisible
    ending := by
      rw [hrun]
      exact runVisible_ending hvisible }

/-- Carriage returns, a no-break space, blank lines, and a line behind the `/exit`. -/
theorem product_in_padded_lines :
    (run none (Calculator.new false)
      (Text.encode "\r\nx = 6\r\n\u00a0/x\r\n \t\r\nx * 7\r\n/exit\r\nx = 0".toList)).output
      = "Unknown command\n42\nBye!\n" := by
  have hsees := session_sees_visible_lines (Calculator.new false)
    (Text.decode?_encode "x = 6\n/x\nx * 7\n/exit".toList)
  rw [hsees.exit ["x = 6", "/x", "x * 7"] [] (by decide +kernel) _ _ ["x = 0"]
    (Text.decode?_encode _) (by decide +kernel) none]
  decide +kernel

end Session

end LineCalc
