import LineCalc.Proofs.RememberedValues
import LineCalc.Proofs.Turns

/-!
# Echo is for showing only

With echo the value of an assignment is shown, and without it it is not. This is all there is to
the print policy. Two calculators that differ in it and are given the same lines have the same
variables throughout, find the same faults, and answer expressions and lookups alike.

So do two sessions. What the quiet one writes is what the other writes, without the messages of
the assignments: turn by turn the two are the same (`turns_quiet`), but for the reply to an
assignment that succeeds.
-/

namespace LineCalc

/-! ## Answers -/

/-- Two answers to a line, with the values of assignments shown and held back: the fault of the
line, or its value, or if it binds a name the value and nothing. -/
inductive Echoes (b : Bindings) (line : String) :
    (loud quiet : Except Fault (Option Int64)) → Prop
  | fault {fault : Fault} (h : (Line.evaluate b line).1 = .error fault) :
      Echoes b line (.error fault) (.error fault)
  | value {form : Statement} {v : Int64} (h : (Line.evaluate b line).1 = .ok ⟨form, v⟩)
      (hform : form = .expression ∨ form = .lookup) : Echoes b line (.ok (some v)) (.ok (some v))
  | assignment {name : String} {v : Int64} (h : Line.Binds b line name v)
      (hafter : (Line.evaluate b line).2.get? name = some v) :
      Echoes b line (.ok (some v)) (.ok none)

theorem Line.Binds.get? {b : Bindings} {line name : String} {v : Int64}
    (h : Line.Binds b line name v) : (Line.evaluate b line).2.get? name = some v := by
  rw [h.after, Bindings.get?_define, if_pos rfl]

theorem echoes_answer (b : Bindings) (line : String) :
    Echoes b line ((⟨b, true⟩ : Calculator).answer line).1
      ((⟨b, false⟩ : Calculator).answer line).1 := by
  rw [Calculator.answer_eq, Calculator.answer_eq]
  rcases houtcome : (Line.evaluate b line).1 with fault | ⟨form, v⟩
  · exact .fault houtcome
  cases form with
  | expression => exact .value houtcome (Or.inl rfl)
  | lookup => exact .value houtcome (Or.inr rfl)
  | assignment =>
      obtain ⟨name, hbinds⟩ := Line.exists_binds houtcome
      exact .assignment hbinds hbinds.get?

theorem Echoes.eq_of_not_binds {b : Bindings} {line : String}
    {loud quiet : Except Fault (Option Int64)} (h : Echoes b line loud quiet)
    (hno : ∀ name v, ¬ Line.Binds b line name v) : loud = quiet := by
  cases h with
  | fault => rfl
  | value => rfl
  | assignment hbinds => exact absurd hbinds (hno _ _)

/-- The variables after some lines, whatever is shown. -/
theorem Calculator.bindings_answers (c : Calculator) (lines : List String) :
    (c.answers lines).2.bindings = (Line.evaluateAll c.bindings lines).2 := by
  rw [answers_eq]

namespace Session

/-! ## Replies -/

/-- Entered with these variables the line is a statement, and an assignment that succeeds. -/
def assigns (b : Bindings) (line : String) : Bool :=
  isStatement line &&
    match (Line.evaluate b line).1 with
    | .ok e => e.statement = .assignment
    | .error _ => false

theorem assigns_iff {b : Bindings} {line : String} :
    assigns b line = true ↔ isStatement line = true ∧ ∃ name v, Line.Binds b line name v := by
  rw [assigns, Bool.and_eq_true]
  refine and_congr_right fun _ => ⟨fun h => ?_, fun h => ?_⟩
  · cases houtcome : (Line.evaluate b line).1 with
    | error f =>
        rw [houtcome] at h
        cases h
    | ok e =>
        obtain ⟨form, v⟩ := e
        rw [houtcome] at h
        obtain rfl : form = .assignment := of_decide_eq_true h
        obtain ⟨name, hbinds⟩ := Line.exists_binds houtcome
        exact ⟨name, v, hbinds⟩
  · obtain ⟨name, v, hbinds⟩ := h
    rw [hbinds.outcome]
    rfl

section

variable {b : Bindings} {text : String}

/-- An assignment has its value for a message with echo, and none without. -/
theorem respond_of_assigns (h : assigns b (Text.trim text) = true) :
    ∃ name v, Line.Binds b (Text.trim text) name v ∧
      respond ⟨b, true⟩ text = (.say (decimal v), ⟨b.define name v, true⟩) ∧
      respond ⟨b, false⟩ text = (.silence, ⟨b.define name v, false⟩) := by
  obtain ⟨hstatement, name, v, hbinds⟩ := assigns_iff.mp h
  have hrespond : ∀ echo, respond ⟨b, echo⟩ text
      = (.ofAnswer (.ok (Evaluation.shown echo ⟨.assignment, v⟩)), ⟨b.define name v, echo⟩) := by
    intro echo
    rw [respond_of_isStatement hstatement, Calculator.answer_eq, hbinds.outcome, hbinds.after]
    rfl
  exact ⟨name, v, hbinds, hrespond true, hrespond false⟩

/-- Every other line has one reply with echo and without it. -/
theorem respond_of_not_assigns (h : assigns b (Text.trim text) = false) :
    ∃ reply after, respond ⟨b, true⟩ text = (reply, ⟨after, true⟩) ∧
      respond ⟨b, false⟩ text = (reply, ⟨after, false⟩) := by
  cases hstatement : isStatement (Text.trim text) with
  | false =>
      obtain ⟨reply, hreply, -⟩ := respond_of_not_isStatement hstatement
      exact ⟨reply, b, hreply _, hreply _⟩
  | true =>
      have hno : ∀ name v, ¬ Line.Binds b (Text.trim text) name v := by
        intro name v hbinds
        rw [assigns_iff.mpr ⟨hstatement, name, v, hbinds⟩] at h
        cases h
      have hanswer := (echoes_answer b (Text.trim text)).eq_of_not_binds hno
      rw [respond_of_isStatement hstatement, respond_of_isStatement hstatement, ← hanswer]
      simp only [Calculator.answer_eq]
      exact ⟨_, _, rfl, rfl⟩

/-- The reply without echo is the one with echo, or silence instead of the value assigned. -/
theorem respond_quiet (b : Bindings) (text : String) :
    ∃ reply after, respond ⟨b, true⟩ text = (reply, ⟨after, true⟩) ∧
      respond ⟨b, false⟩ text
        = (if assigns b (Text.trim text) then .silence else reply, ⟨after, false⟩) ∧
      (if assigns b (Text.trim text) then Reply.silence else reply).isLast = reply.isLast := by
  cases h : assigns b (Text.trim text) with
  | true =>
      obtain ⟨name, v, -, hloud, hquiet⟩ := respond_of_assigns h
      exact ⟨_, _, hloud, hquiet, rfl⟩
  | false =>
      obtain ⟨reply, after, hloud, hquiet⟩ := respond_of_not_assigns h
      exact ⟨reply, after, hloud, hquiet, rfl⟩

end

/-! ## Turns -/

/-- The turn is that of an assignment that succeeds. -/
def Turn.assigns (t : Turn) : Bool := Session.assigns t.before.bindings t.line

/-- The same turn without echo. -/
def Turn.quieten (t : Turn) : Turn :=
  ⟨t.line, ⟨t.before.bindings, false⟩, if t.assigns then .silence else t.reply,
    ⟨t.after.bindings, false⟩⟩

/-- **Turn by turn** a session without echo is the one with echo. -/
theorem turns_quiet (b : Bindings) (lines : List (Option String)) :
    turns ⟨b, false⟩ lines = (turns ⟨b, true⟩ lines).map Turn.quieten := by
  induction lines generalizing b with
  | nil => rfl
  | cons item lines ih =>
      rcases item with _ | text
      · rfl
      obtain ⟨reply, after, hloud, hquiet, hlast⟩ := respond_quiet b text
      rw [turns_cons, turns_cons, hloud, hquiet, hlast, List.map_cons, Turn.quieten, Turn.assigns]
      dsimp only
      refine List.cons_eq_cons.mpr ⟨rfl, ?_⟩
      cases reply.isLast with
      | true => rfl
      | false => exact ih after

/-- The messages without echo are those of the turns that do not assign. -/
theorem messages_quieten (ts : List Turn) :
    messages (ts.map Turn.quieten) = messages (ts.filter fun t => !t.assigns) := by
  rw [messages, messages, List.filterMap_map, List.filterMap_filter]
  congr 1
  funext t
  show (if t.assigns then Reply.silence else t.reply).message? = _
  cases t.assigns <;> rfl

/-- Sessions with and without echo end alike, and with the same variables. -/
theorem runLines_quiet (b : Bindings) (lines : List (Option String)) :
    (runLines none ⟨b, false⟩ lines).ending = (runLines none ⟨b, true⟩ lines).ending ∧
      (runLines none ⟨b, false⟩ lines).calculator.bindings
        = (runLines none ⟨b, true⟩ lines).calculator.bindings := by
  induction lines generalizing b with
  | nil => exact ⟨rfl, rfl⟩
  | cons item lines ih =>
      rcases item with _ | text
      · exact ⟨rfl, rfl⟩
      obtain ⟨reply, after, hloud, hquiet, hlast⟩ := respond_quiet b text
      rw [runLines_goesOn, runLines_goesOn, hloud, hquiet, hlast]
      split
      · exact ⟨rfl, rfl⟩
      · exact ih after

/-- An assignment that succeeds has its value for a message, with echo. -/
theorem reply_of_assigns {b : Bindings} {lines : List (Option String)} {turn : Turn}
    (hturn : turn ∈ turns ⟨b, true⟩ lines) (h : turn.assigns = true) :
    ∃ name v, Line.Binds turn.before.bindings turn.line name v ∧ turn.reply = .say (decimal v) ∧
      turn.after.bindings.get? name = some v := by
  obtain ⟨front, back, hsplit⟩ := List.append_of_mem hturn
  have hat := turns_split hsplit
  obtain ⟨text, -, hline, hrespond⟩ := hat.text
  have hbefore : turn.before = ⟨turn.before.bindings, true⟩ := by
    rw [hat.before, Calculator.answers_eq]
  rw [Turn.assigns, hline] at h
  obtain ⟨name, v, hbinds, hloud, -⟩ := respond_of_assigns h
  rw [hbefore, hloud] at hrespond
  obtain ⟨hreply, hafter⟩ := Prod.mk.inj hrespond
  refine ⟨name, v, hline ▸ hbinds, hreply.symm, ?_⟩
  rw [← hafter, Bindings.get?_define, if_pos rfl]

/-! ## The theorem -/

/-- Two calculators, one with echo and one without, are given the same lines. -/
structure AnsweredAlike (b : Bindings) (lines : List String) : Prop where
  /-- Both answer every line. -/
  loud : ((⟨b, true⟩ : Calculator).answers lines).1.length = lines.length
  quiet : ((⟨b, false⟩ : Calculator).answers lines).1.length = lines.length
  /-- After each line they have the same variables. -/
  bindings : ∀ k, ((⟨b, true⟩ : Calculator).answers (lines.take k)).2.bindings
    = ((⟨b, false⟩ : Calculator).answers (lines.take k)).2.bindings
  /-- To each line the answers are the same but for the value of an assignment. -/
  answers : ∀ k line, lines[k]? = some line → ∃ loud quiet,
    ((⟨b, true⟩ : Calculator).answers lines).1[k]? = some loud ∧
    ((⟨b, false⟩ : Calculator).answers lines).1[k]? = some quiet ∧
    Echoes ((⟨b, true⟩ : Calculator).answers (lines.take k)).2.bindings line loud quiet

/-- Two sessions on the same lines, one with echo and one without. -/
structure WrittenAlike (b : Bindings) (lines : List (Option String)) (loud quiet : Transcript) :
    Prop where
  ending : quiet.ending = loud.ending
  bindings : quiet.calculator.bindings = loud.calculator.bindings
  messages : loud.messages = messages (turns ⟨b, true⟩ lines)
  /-- Without echo the messages of the assignments are missing, and no others. -/
  missing : quiet.messages
    = Session.messages ((turns ⟨b, true⟩ lines).filter fun turn => !turn.assigns)
  /-- Each of them is the value assigned. -/
  assigned : ∀ turn ∈ turns ⟨b, true⟩ lines, turn.assigns = true →
    ∃ name v, Line.Binds turn.before.bindings turn.line name v ∧ turn.reply = .say (decimal v) ∧
      turn.after.bindings.get? name = some v

/--
**Echo is for showing only.** For all variables:

1. calculators with echo and without that are given the same lines have the same variables after
   each of them; to each line both answer with its fault, or both with its value, or it has assigned
   a value and one answers with this value and the other with nothing;
2. sessions on the same bytes, with an output that takes every message, end alike and with the same
   variables, and the one without echo writes what the other writes, the messages of successful
   assignments left out.
-/
theorem echo_only_shows (b : Bindings) :
    (∀ lines, AnsweredAlike b lines) ∧
    (∀ input, WrittenAlike b (Text.decodedLines input)
      (run none ⟨b, true⟩ input) (run none ⟨b, false⟩ input)) := by
  refine ⟨fun lines => ?_, fun input => ?_⟩
  · refine ⟨Calculator.length_answers _ _, Calculator.length_answers _ _, fun k => ?_,
      fun k line hline => ?_⟩
    · rw [Calculator.bindings_answers, Calculator.bindings_answers]
    · refine ⟨_, _, Calculator.answers_getElem? hline _, Calculator.answers_getElem? hline _, ?_⟩
      rw [Calculator.answers_eq, Calculator.answers_eq]
      exact echoes_answer _ line
  · obtain ⟨hending, hbindings⟩ := runLines_quiet b (Text.decodedLines input)
    refine ⟨hending, hbindings, messages_runLines _ _, ?_, fun turn => reply_of_assigns⟩
    rw [run, messages_runLines, turns_quiet, messages_quieten]

end Session

end LineCalc
