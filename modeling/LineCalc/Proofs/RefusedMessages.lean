import LineCalc.Proofs.RememberedValues
import LineCalc.Proofs.Turns

/-!
# An output that takes no more

An output with room for `n` messages refuses the next one, and then the session is over. What
it has done by then is definite: `n` messages have been written, and every line up to and
including the one whose message was refused has had its effect. A line has its effect before
its message is written, so a refused value is nevertheless assigned; and lines that write
nothing need no room, so they go on having theirs when the room is used up.

All of this is `runLines_room`, seen from the messages.
-/

namespace LineCalc.Session

theorem message?_eq_none_iff {reply : Reply} : reply.message? = none ↔ reply = .silence := by
  cases reply <;> simp [Reply.message?]

theorem messages_append (xs ys : List Turn) : messages (xs ++ ys) = messages xs ++ messages ys :=
  List.filterMap_append

/-- The messages of some turns, of one that has a message, and of others. -/
theorem exists_message (front back : List Turn) {turn : Turn} (h : turn.reply ≠ .silence) :
    ∃ message, turn.reply.message? = some message ∧
      messages (front ++ turn :: back) = messages front ++ message :: messages back := by
  obtain ⟨message, hmessage⟩ :=
    Option.ne_none_iff_exists'.mp fun hnone => h (message?_eq_none_iff.mp hnone)
  refine ⟨message, hmessage, ?_⟩
  rw [messages_append, messages_cons, hmessage]
  rfl

/-- The statement of a turn is the calculator's to answer, and an assignment is made. -/
theorem TurnAt.binds {c : Calculator} {lines : List (Option String)} {k : Nat} {turn : Turn}
    (h : TurnAt c lines k turn) (hstatement : isStatement turn.line = true) {name : String}
    {v : Int64} (hbinds : Line.Binds turn.before.bindings turn.line name v) :
    turn.after.bindings = turn.before.bindings.define name v := by
  obtain ⟨text, -, hline, hrespond⟩ := h.text
  rw [hline] at hstatement hbinds
  rw [respond_of_isStatement hstatement] at hrespond
  rw [← (Prod.mk.inj hrespond).2, Calculator.answer_eq, hbinds.after]

/-! ## The theorem -/

/-- Of the turns of a session on `lines`, the one of line `k` has the message that comes after `n`
others. -/
structure SpeaksAfter (c : Calculator) (lines : List (Option String)) (n k : Nat) (turn : Turn) :
    Prop where
  isTurn : (turns c lines)[k]? = some turn
  isAt : TurnAt c lines k turn
  message : ∃ message, turn.reply.message? = some message ∧
    (messages (turns c lines))[n]? = some message
  others : messages ((turns c lines).take k) = (messages (turns c lines)).take n

theorem speaksAfter {c : Calculator} {lines : List (Option String)} {front back : List Turn}
    {turn : Turn} (hturns : turns c lines = front ++ turn :: back) (h : turn.reply ≠ .silence) :
    SpeaksAfter c lines (messages front).length front.length turn := by
  obtain ⟨message, hmessage, hmessages⟩ := exists_message front back h
  refine ⟨?_, turns_split hturns, ⟨message, hmessage, ?_⟩, ?_⟩
  · rw [hturns, List.getElem?_append_right (Nat.le_refl _), Nat.sub_self]
    rfl
  · rw [hturns, hmessages, List.getElem?_append_right (Nat.le_refl _), Nat.sub_self]
    rfl
  · rw [hturns, hmessages, List.take_left, List.take_left]

/-- How a session relates to the same session with an output that has room for `n` messages. -/
structure CutShort (c : Calculator) (lines : List (Option String)) (n : Nat)
    (whole cut : Transcript) : Prop where
  /-- The messages come from turns, and so each of them from a line. -/
  messages : whole.messages = messages (turns c lines)
  /-- If all of them fit, there is no difference. -/
  fits : whole.messages.length ≤ n → cut = whole
  /-- Otherwise the session ends in the turn of the first message that does not. This turn has had
  its effect on the variables, an assignment's included, and no later line has had any. -/
  refused : n < whole.messages.length → ∃ k turn, SpeaksAfter c lines n k turn ∧
    cut = ⟨whole.messages.take n, .unwritable, turn.after⟩ ∧
    turn.after = (c.answers (statements (lines.take (k + 1)))).2 ∧
    ∀ name v, isStatement turn.line = true → Line.Binds turn.before.bindings turn.line name v →
      turn.after.bindings = turn.before.bindings.define name v

/--
**A session ends with the message that is refused,** and not before or after it.

Whatever the variables and the print policy, for all bytes and every `n`: if the session writes `n`
messages at most, room for `n` is as good as any. If it writes more, then with room for `n` it
writes the first `n`, ends because the output refused the next one, whatever it is and however the
session would have ended, and leaves the variables as they are after the line of that message.
-/
theorem refused_message_ends_session (c : Calculator) (input : List UInt8) (n : Nat) :
    CutShort c (Text.decodedLines input) n (run none c input) (run (some n) c input) := by
  have hmessages := messages_runLines c (Text.decodedLines input)
  rcases runLines_room n c (Text.decodedLines input) with
    ⟨hle, hrun⟩ | ⟨front, turn, back, hturns, rfl, hreply, hrun⟩
  · rw [← hmessages] at hle
    exact {
      messages := hmessages
      fits := fun _ => hrun
      refused := fun hlt => absurd hlt (Nat.not_lt.mpr hle) }
  · have hspeaks := speaksAfter hturns hreply
    obtain ⟨message, -, hwhole⟩ := exists_message front back hreply
    have hfront : (run none c input).messages = messages front ++ message :: messages back := by
      rw [run, hmessages, hturns, hwhole]
    refine { messages := hmessages, fits := fun hle => ?_, refused := fun _ => ?_ }
    · rw [hfront, List.length_append, List.length_cons] at hle
      omega
    · refine ⟨front.length, turn, hspeaks, ?_, hspeaks.isAt.after, fun _ _ hstatement =>
        hspeaks.isAt.binds hstatement⟩
      rw [hfront, List.take_left]
      exact hrun

/-- The value of `y` is refused, and `y` has it. -/
example :
    let t := run (some 1) (Calculator.new true) "x = 2\ny = x * x\nx = 1\n".toUTF8.toList
    (t.messages, t.ending, t.calculator.bindings.get? "x", t.calculator.bindings.get? "y")
      = (["2"], .unwritable, some 2, some 4) := by
  decide +kernel

end LineCalc.Session
