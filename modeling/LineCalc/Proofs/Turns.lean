import LineCalc.Proofs.Continuation
import LineCalc.Proofs.Runs

/-!
# A session, turn by turn

A transcript says what was written and how the session ended. It does not say which line a
message belongs to, nor what the variables were when it was written. `turns` does: each line
that the session comes to has a turn, with the calculator in front of it, a reply, and the
calculator behind it. The turns are those of a session whose output takes every message.

With room for `n` messages a session is one of two things (`runLines_room`). Either its turns
have no more than `n` messages, and nothing is different; or a turn has one message too many,
and everything up to this turn has happened, its effect on the variables included.

The variables are the business of the statements alone. Those are the lines that are neither
empty nor commands, and a turn leaves what they leave when they are entered one after the
other (`turns_split`).
-/

namespace LineCalc

/-- The message of a reply, if it has one. -/
def Reply.message? : Reply → Option String
  | .silence => none
  | .say message | .leave message => some message

/-- The reply that ends a session. -/
def Reply.isLast : Reply → Bool
  | .leave _ => true
  | .silence | .say _ => false

/-- How an answer is put. -/
def Reply.ofAnswer : Except Fault (Option Int64) → Reply
  | .ok (some value) => .say (decimal value)
  | .ok none => .silence
  | .error fault => .say fault.message

theorem Reply.isLast_ofAnswer (answer : Except Fault (Option Int64)) :
    (ofAnswer answer).isLast = false := by
  rcases answer with f | _ | v <;> rfl

theorem Command.ofLine?_eq_exit_iff {line : String} :
    ofLine? line = some .exit ↔ line = "/exit" := by
  constructor
  · intro h
    unfold ofLine? at h
    split at h
    · split at h
      · assumption
      · split at h <;> cases h
    · cases h
  · rintro rfl
    decide

namespace Session

/-! ## Statements and commands -/

/-- A trimmed line that the calculator is given: neither nothing nor a command. -/
def isStatement (line : String) : Bool := line ≠ "" && (Command.ofLine? line).isNone

/-- The statements among some lines, trimmed. -/
def statements (lines : List (Option String)) : List String :=
  (lines.filterMap fun item => item.map Text.trim).filter isStatement

/-- The reply to a line as it was entered. An empty one is passed over. -/
def respond (c : Calculator) (text : String) : Reply × Calculator :=
  if Text.trim text = "" then (.silence, c) else c.reply (Text.trim text)

section

variable {c : Calculator} {text : String}

/-- A statement is answered. -/
theorem respond_of_isStatement (h : isStatement (Text.trim text) = true) :
    respond c text
      = (.ofAnswer (c.answer (Text.trim text)).1, (c.answer (Text.trim text)).2) := by
  rw [isStatement, Bool.and_eq_true, decide_eq_true_eq, Option.isNone_iff_eq_none] at h
  rw [respond, if_neg h.1, Calculator.reply, h.2]
  rcases c.answer (Text.trim text) with ⟨f | _ | v, after⟩ <;> rfl

/-- Everything else is replied to without a look at the variables, and does not change them. Of
this only `/exit` ends a session. -/
theorem respond_of_not_isStatement (h : isStatement (Text.trim text) = false) :
    ∃ reply, (∀ c, respond c text = (reply, c)) ∧
      (reply.isLast = true ↔ Text.trim text = "/exit") := by
  rw [← Command.ofLine?_eq_exit_iff]
  by_cases hblank : Text.trim text = ""
  · refine ⟨.silence, fun c => by rw [respond, if_pos hblank], ?_⟩
    rw [hblank]
    decide
  · cases hcommand : Command.ofLine? (Text.trim text) with
    | none =>
        rw [isStatement, hcommand, decide_eq_true hblank] at h
        cases h
    | some command =>
        cases command with
        | exit =>
            refine ⟨.leave "Bye!", fun c => ?_, by simp [Reply.isLast]⟩
            rw [respond, if_neg hblank, Calculator.reply, hcommand]
        | help =>
            refine ⟨.say Command.helpText, fun c => ?_, by simp [Reply.isLast]⟩
            rw [respond, if_neg hblank, Calculator.reply, hcommand]
        | unknown line =>
            refine ⟨.say "Unknown command", fun c => ?_, by simp [Reply.isLast]⟩
            rw [respond, if_neg hblank, Calculator.reply, hcommand]

/-- A session ends by `/exit` and by no other line. -/
theorem isLast_respond_iff : (respond c text).1.isLast = true ↔ Text.trim text = "/exit" := by
  cases hstatement : isStatement (Text.trim text) with
  | true =>
      rw [respond_of_isStatement hstatement, Reply.isLast_ofAnswer]
      refine ⟨fun h => (by cases h), fun h => ?_⟩
      rw [h] at hstatement
      exact absurd hstatement (by decide)
  | false =>
      obtain ⟨reply, hreply, hlast⟩ := respond_of_not_isStatement hstatement
      rw [hreply]
      exact hlast

/-- One line leaves the variables that its statement leaves, if it is one. -/
theorem respond_after : (respond c text).2 = (c.answers (statements [some text])).2 := by
  cases hstatement : isStatement (Text.trim text) with
  | true =>
      have hlines : statements [some text] = [Text.trim text] := by
        simp [statements, hstatement]
      rw [respond_of_isStatement hstatement, hlines, Calculator.answers_cons, Calculator.answers]
  | false =>
      have hlines : statements [some text] = [] := by
        simp [statements, hstatement]
      obtain ⟨reply, hreply, -⟩ := respond_of_not_isStatement hstatement
      rw [hreply, hlines]
      rfl

end

theorem statements_append (xs ys : List (Option String)) :
    statements (xs ++ ys) = statements xs ++ statements ys := by
  rw [statements, List.filterMap_append, List.filter_append]
  rfl

/-! ## Turns -/

/-- What became of one line of a session. -/
structure Turn where
  /-- The line, trimmed. -/
  line : String
  before : Calculator
  reply : Reply
  after : Calculator

/-- The turns of a session on some lines whose output takes every message. -/
def turns (c : Calculator) : List (Option String) → List Turn
  | [] => []
  | none :: _ => []
  | some text :: lines =>
      let (reply, after) := respond c text
      ⟨Text.trim text, c, reply, after⟩ :: if reply.isLast then [] else turns after lines

/-- The messages of some turns. -/
def messages (ts : List Turn) : List String := ts.filterMap fun t => t.reply.message?

section

variable {room : Option Nat} {c after : Calculator} {text message : String}
  {lines : List (Option String)}

theorem turns_cons (c : Calculator) (text : String) (lines : List (Option String)) :
    turns c (some text :: lines) =
      ⟨Text.trim text, c, (respond c text).1, (respond c text).2⟩ ::
        if (respond c text).1.isLast then [] else turns (respond c text).2 lines := by
  rw [turns]

theorem messages_cons (t : Turn) (ts : List Turn) :
    messages (t :: ts) = t.reply.message?.toList ++ messages ts := by
  cases h : t.reply.message? with
  | none => exact List.filterMap_cons_none h
  | some message => exact List.filterMap_cons_some h

theorem runLines_respond_silence (h : respond c text = (.silence, after)) :
    runLines room c (some text :: lines) = runLines room after lines := by
  by_cases hblank : Text.trim text = ""
  · rw [respond, if_pos hblank] at h
    cases h
    exact runLines_blank hblank
  · rw [respond, if_neg hblank] at h
    exact runLines_silence hblank h

/-- A line with a message has a reply of its own. -/
theorem trim_ne_of_respond {reply : Reply} (h : respond c text = (reply, after))
    (hmessage : reply ≠ .silence) :
    Text.trim text ≠ "" ∧ c.reply (Text.trim text) = (reply, after) := by
  by_cases hblank : Text.trim text = ""
  · rw [respond, if_pos hblank] at h
    cases h
    exact absurd rfl hmessage
  · rw [respond, if_neg hblank] at h
    exact ⟨hblank, h⟩

/-- After the turn of a line a session goes on with the others, unless the reply was the last. -/
theorem runLines_goesOn (c : Calculator) (text : String) (lines : List (Option String)) :
    runLines none c (some text :: lines) =
      if (respond c text).1.isLast then
        ⟨(respond c text).1.message?.toList, .command, (respond c text).2⟩
      else
        { runLines none (respond c text).2 lines with
          messages := (respond c text).1.message?.toList ++
            (runLines none (respond c text).2 lines).messages } := by
  rcases hrespond : respond c text with ⟨reply, after⟩
  cases reply with
  | silence => exact runLines_respond_silence hrespond
  | say message =>
      obtain ⟨hblank, hreply⟩ := trim_ne_of_respond hrespond (by simp)
      exact runLines_say hblank hreply (by simp)
  | leave message =>
      obtain ⟨hblank, hreply⟩ := trim_ne_of_respond hrespond (by simp)
      exact runLines_leave hblank hreply (by simp)

/-- **A session writes the messages of its turns.** -/
theorem messages_runLines (c : Calculator) (lines : List (Option String)) :
    (runLines none c lines).messages = messages (turns c lines) := by
  induction lines generalizing c with
  | nil => rfl
  | cons item lines ih =>
      rcases item with _ | text
      · rfl
      rw [turns_cons, messages_cons, runLines_goesOn]
      rcases respond c text with ⟨reply, after⟩
      cases reply.isLast with
      | true => exact (List.append_nil _).symm
      | false => exact congrArg (_ ++ ·) (ih after)

/-- **What a session does with room for `n` messages.** Its turns have no more, and the room makes
no difference; or some turn has a message after `n` others, and the session ends with it. -/
theorem runLines_room (n : Nat) (c : Calculator) (lines : List (Option String)) :
    ((messages (turns c lines)).length ≤ n ∧ runLines (some n) c lines = runLines none c lines) ∨
    ∃ front turn back, turns c lines = front ++ turn :: back ∧ (messages front).length = n ∧
      turn.reply ≠ .silence ∧
      runLines (some n) c lines = ⟨messages front, .unwritable, turn.after⟩ := by
  induction lines generalizing n c with
  | nil => exact Or.inl ⟨Nat.zero_le n, rfl⟩
  | cons item lines ih =>
      rcases item with _ | text
      · exact Or.inl ⟨Nat.zero_le n, rfl⟩
      rw [turns_cons]
      rcases hrespond : respond c text with ⟨reply, after⟩
      by_cases hsilence : reply = .silence
      · -- a turn without a message leaves the room as it is
        subst hsilence
        rw [runLines_respond_silence hrespond, runLines_respond_silence hrespond]
        rcases ih n after with ⟨hle, hrun⟩ | ⟨front, turn, back, hturns, hlength, hreply, hrun⟩
        · exact Or.inl ⟨hle, hrun⟩
        · exact Or.inr ⟨⟨Text.trim text, c, .silence, after⟩ :: front, turn, back,
            congrArg (_ :: ·) hturns, hlength, hreply, hrun⟩
      obtain ⟨hblank, hreply⟩ := trim_ne_of_respond hrespond hsilence
      cases n with
      | zero => exact Or.inr ⟨[], _, _, rfl, rfl, hsilence, runLines_full hblank hreply hsilence⟩
      | succ n =>
          cases reply with
          | silence => exact absurd rfl hsilence
          | say message =>
              rw [runLines_say hblank hreply (by simp), runLines_say hblank hreply (by simp)]
              rcases ih n after with ⟨hle, hrun⟩ | ⟨front, turn, back, hturns, hlength, ht, hrun⟩
              · exact Or.inl ⟨Nat.succ_le_succ hle, congrArg (Transcript.saying message) hrun⟩
              · refine Or.inr ⟨⟨Text.trim text, c, .say message, after⟩ :: front, turn, back,
                  congrArg (_ :: ·) hturns, congrArg (· + 1) hlength, ht, ?_⟩
                exact congrArg (Transcript.saying message) hrun
          | leave message =>
              rw [runLines_leave hblank hreply (by simp), runLines_leave hblank hreply (by simp)]
              exact Or.inl ⟨Nat.succ_le_succ (Nat.zero_le n), rfl⟩

end

/-! ## How a session ends -/

section

variable {c : Calculator} {lines front back : List (Option String)} {text : String}

/-- None of the lines ends the session. -/
def NoExit (lines : List (Option String)) : Prop :=
  ∀ text, some text ∈ lines → Text.trim text ≠ "/exit"

theorem exists_first_exit (lines : List (Option String)) :
    NoExit lines ∨ ∃ front text back, lines = front ++ some text :: back ∧ NoExit front ∧
      Text.trim text = "/exit" := by
  induction lines with
  | nil => exact Or.inl fun _ h => (by cases h)
  | cons item lines ih =>
      by_cases hitem : ∃ text, item = some text ∧ Text.trim text = "/exit"
      · obtain ⟨text, rfl, hexit⟩ := hitem
        exact Or.inr ⟨[], text, lines, rfl, fun _ h => (by cases h), hexit⟩
      · have hfirst : ∀ rest, NoExit rest → NoExit (item :: rest) := by
          intro rest hrest text htext hexit
          rcases List.mem_cons.mp htext with he | htext
          · exact hitem ⟨text, he.symm, hexit⟩
          · exact hrest text htext hexit
        rcases ih with hno | ⟨front, text, back, rfl, hno, hexit⟩
        · exact Or.inl (hfirst lines hno)
        · exact Or.inr ⟨item :: front, text, back, rfl, hfirst front hno, hexit⟩

/-- With an output that takes every message, and lines that can all be read, there are two ways. -/
theorem ending_of_readable (hread : ∀ item ∈ lines, item.isSome = true) :
    (runLines none c lines).ending = .endOfInput ∨ (runLines none c lines).ending = .command := by
  induction lines generalizing c with
  | nil => exact Or.inl rfl
  | cons item lines ih =>
      obtain ⟨text, rfl⟩ := Option.isSome_iff_exists.mp (hread item List.mem_cons_self)
      rw [runLines_goesOn]
      split
      · exact Or.inr rfl
      · exact ih fun item hitem => hread item (List.mem_cons_of_mem _ hitem)

/-- Without an `/exit` it is the end of the input. -/
theorem ending_of_noExit (hread : ∀ item ∈ lines, item.isSome = true) (hno : NoExit lines) :
    (runLines none c lines).ending = .endOfInput := by
  induction lines generalizing c with
  | nil => rfl
  | cons item lines ih =>
      obtain ⟨text, rfl⟩ := Option.isSome_iff_exists.mp (hread item List.mem_cons_self)
      have hgoes : ¬ (respond c text).1.isLast = true := fun h =>
        hno text List.mem_cons_self (isLast_respond_iff.mp h)
      rw [runLines_goesOn, if_neg hgoes]
      exact ih (fun item hitem => hread item (List.mem_cons_of_mem _ hitem))
        fun text htext => hno text (List.mem_cons_of_mem _ htext)

/-- A session stops at an `/exit`, unless it has stopped before. -/
theorem runLines_exit (hexit : Text.trim text = "/exit") :
    runLines none c (front ++ some text :: back)
      = (runLines none c front).andThen
        ⟨["Bye!"], .command, (runLines none c front).calculator⟩ := by
  have hreply : ∀ c : Calculator, c.reply (Text.trim text) = (.leave "Bye!", c) := by
    intro c
    rw [Calculator.reply, Command.ofLine?_eq_exit_iff.mpr hexit]
  have hblank : Text.trim text ≠ "" := by
    rw [hexit]
    decide
  rw [runLines_append]
  exact congrArg _ (runLines_leave hblank (hreply _) (by simp))

/-- A session stops at a line that cannot be read, unless it has stopped before. -/
theorem runLines_unreadable :
    runLines none c (front ++ none :: back)
      = (runLines none c front).andThen ⟨[], .unreadable, (runLines none c front).calculator⟩ := by
  rw [runLines_append]
  rfl

end

/-! ## Which turn it is -/

/-- The turn is that of the line at place `k`, and in front of it and behind it the variables are
those that the statements up to there have left. -/
structure TurnAt (c : Calculator) (lines : List (Option String)) (k : Nat) (turn : Turn) :
    Prop where
  text : ∃ text, lines[k]? = some (some text) ∧ turn.line = Text.trim text ∧
    respond turn.before text = (turn.reply, turn.after)
  before : turn.before = (c.answers (statements (lines.take k))).2
  after : turn.after = (c.answers (statements (lines.take (k + 1)))).2

theorem turns_split {c : Calculator} {lines : List (Option String)} {front back : List Turn}
    {turn : Turn} (h : turns c lines = front ++ turn :: back) :
    TurnAt c lines front.length turn := by
  induction lines generalizing c front with
  | nil => exact absurd h.symm (by simp [turns])
  | cons item lines ih =>
      rcases item with _ | text
      · exact absurd h.symm (by simp [turns])
      rcases hrespond : respond c text with ⟨reply, after⟩
      have hafter : after = (c.answers (statements [some text])).2 := by
        rw [← respond_after, hrespond]
      rw [turns_cons, hrespond] at h
      cases front with
      | nil =>
          obtain ⟨rfl, -⟩ := List.cons.inj h
          exact ⟨⟨text, rfl, rfl, hrespond⟩, rfl, hafter⟩
      | cons first front =>
          obtain ⟨-, hrest⟩ := List.cons.inj h
          have hgoes : ¬ reply.isLast = true := by
            intro hlast
            rw [if_pos hlast] at hrest
            simp at hrest
          rw [if_neg hgoes] at hrest
          have hturn := ih hrest
          -- the statements of the first line come first
          have hfirst : ∀ rest : List (Option String),
              (after.answers (statements rest)).2
                = (c.answers (statements (some text :: rest))).2 := by
            intro rest
            have hcut : statements (some text :: rest)
                = statements [some text] ++ statements rest := statements_append [some text] rest
            rw [hafter, hcut, Calculator.answers_append]
          exact ⟨hturn.text, hturn.before.trans (hfirst _), hturn.after.trans (hfirst _)⟩

end Session

end LineCalc
