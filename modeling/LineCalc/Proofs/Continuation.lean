import LineCalc.Session

/-!
# Input in parts

A session reads its input line by line and keeps nothing but the calculator. So a cut between
two lines is none: what a session does on the whole of its input is what it does on the first
part and then, with the calculator that this left, on the second (`runLines_append`). Unless it
ended in the first part, and then the second might as well not be there.

The law holds for an output with room for so many messages, too. What was written for the first
part has used up some of the room.
-/

namespace LineCalc.Session

/-! ## One line -/

section

variable {room : Option Nat} {c after : Calculator} {text message : String}
  {lines : List (Option String)}

theorem runLines_blank (h : Text.trim text = "") :
    runLines room c (some text :: lines) = runLines room c lines := by
  rw [runLines.eq_def]
  simp only [h, if_true]

theorem runLines_silence (h : Text.trim text ≠ "")
    (hreply : c.reply (Text.trim text) = (.silence, after)) :
    runLines room c (some text :: lines) = runLines room after lines := by
  rw [runLines.eq_def]
  simp only [h, if_false, hreply]

/-- A message for which there is no room. -/
theorem runLines_full {reply : Reply} (h : Text.trim text ≠ "")
    (hreply : c.reply (Text.trim text) = (reply, after)) (hmessage : reply ≠ .silence) :
    runLines (some 0) c (some text :: lines) = ⟨[], .unwritable, after⟩ := by
  rw [runLines.eq_def]
  simp only [h, if_false, hreply]

theorem runLines_say (h : Text.trim text ≠ "")
    (hreply : c.reply (Text.trim text) = (.say message, after)) (hroom : room ≠ some 0) :
    runLines room c (some text :: lines)
      = (runLines (room.map (· - 1)) after lines).saying message := by
  rw [runLines.eq_def]
  simp only [h, if_false, hreply]

theorem runLines_leave (h : Text.trim text ≠ "")
    (hreply : c.reply (Text.trim text) = (.leave message, after)) (hroom : room ≠ some 0) :
    runLines room c (some text :: lines) = ⟨[message], .command, after⟩ := by
  rw [runLines.eq_def]
  simp only [h, if_false, hreply]

end

/-- **What a line does,** whatever lines there are behind it. It writes nothing, or it writes a
message, or its message is the last; or it has a message for which there is no room. -/
theorem runLines_cases (room : Option Nat) (c : Calculator) (text : String) :
    (∃ after, ∀ lines, runLines room c (some text :: lines) = runLines room after lines) ∨
    (∃ message after, room ≠ some 0 ∧ ∀ lines, runLines room c (some text :: lines)
      = (runLines (room.map (· - 1)) after lines).saying message) ∨
    (∃ message after, room ≠ some 0 ∧ ∀ lines, runLines room c (some text :: lines)
      = ⟨[message], .command, after⟩) ∨
    (∃ after, room = some 0 ∧ ∀ lines, runLines room c (some text :: lines)
      = ⟨[], .unwritable, after⟩) := by
  by_cases hblank : Text.trim text = ""
  · exact Or.inl ⟨c, fun _ => runLines_blank hblank⟩
  rcases hreply : c.reply (Text.trim text) with ⟨reply, after⟩
  by_cases hsilence : reply = .silence
  · subst hsilence
    exact Or.inl ⟨after, fun _ => runLines_silence hblank hreply⟩
  by_cases hroom : room = some 0
  · subst hroom
    exact Or.inr (Or.inr (Or.inr ⟨after, rfl, fun _ => runLines_full hblank hreply hsilence⟩))
  rcases reply with _ | message | message
  · exact absurd rfl hsilence
  · exact Or.inr (Or.inl ⟨message, after, hroom, fun _ => runLines_say hblank hreply hroom⟩)
  · exact Or.inr (Or.inr (Or.inl
      ⟨message, after, hroom, fun _ => runLines_leave hblank hreply hroom⟩))

/-! ## Some lines and then more -/

/-- A session that goes on as `more` if the end of its input is why it ended. -/
def Transcript.andThen (t more : Transcript) : Transcript :=
  match t.ending with
  | .endOfInput => ⟨t.messages ++ more.messages, more.ending, more.calculator⟩
  | _ => t

theorem Transcript.saying_andThen (message : String) (t more : Transcript) :
    (t.saying message).andThen more = (t.andThen more).saying message := by
  obtain ⟨messages, ending, c⟩ := t
  cases ending <;> rfl

theorem Transcript.andThen_of_endOfInput {t : Transcript} (h : t.ending = .endOfInput)
    (more : Transcript) :
    t.andThen more = ⟨t.messages ++ more.messages, more.ending, more.calculator⟩ := by
  unfold andThen
  rw [h]

theorem Transcript.andThen_of_ne {t : Transcript} (h : t.ending ≠ .endOfInput)
    (more : Transcript) : t.andThen more = t := by
  unfold andThen
  split
  · rename_i heq
    exact absurd heq h
  · rfl

theorem Transcript.output_andThen {t : Transcript} (h : t.ending = .endOfInput)
    (more : Transcript) : (t.andThen more).output = t.output ++ more.output := by
  rw [andThen_of_endOfInput h]
  unfold output
  rw [List.map_append, String.join_append]

/-- The room after one message and then `n` more. -/
theorem room_map_sub (room : Option Nat) (n : Nat) :
    (room.map (· - 1)).map (· - n) = room.map (· - (n + 1)) := by
  rw [Option.map_map]
  congr 1
  funext k
  show k - 1 - n = k - (n + 1)
  omega

/-- **A session on some lines and then on more.** The room for the rest is what the messages so far
have left. -/
theorem runLines_append (room : Option Nat) (c : Calculator) (xs ys : List (Option String)) :
    runLines room c (xs ++ ys) =
      (runLines room c xs).andThen
        (runLines (room.map (· - (runLines room c xs).messages.length))
          (runLines room c xs).calculator ys) := by
  -- each of the lines `xs` ends the session, or it leaves a calculator and some room for the others
  induction xs generalizing room c with
  | nil =>
      have hroom : room.map (· - 0) = room := by rcases room with _ | n <;> rfl
      show runLines room c ys = Transcript.andThen _ (runLines (room.map (· - 0)) c ys)
      rw [hroom, Transcript.andThen_of_endOfInput rfl]
      rfl
  | cons item xs ih =>
      rcases item with _ | text
      · rfl
      rw [List.cons_append]
      rcases runLines_cases room c text with ⟨after, h⟩ | ⟨message, after, -, h⟩ |
        ⟨message, after, -, h⟩ | ⟨after, -, h⟩
      · rw [h, h, ih]
      · rw [h, h, ih, Transcript.saying_andThen, room_map_sub]
        rfl
      · rw [h, h]
        rfl
      · rw [h, h]
        rfl

/-- An output without room has taken all the messages that it had room for. -/
theorem room_of_unwritable {room : Option Nat} {c : Calculator} {lines : List (Option String)}
    (hend : (runLines room c lines).ending = .unwritable) :
    room = some (runLines room c lines).messages.length := by
  induction lines generalizing room c with
  | nil => cases hend
  | cons item lines ih =>
      rcases item with _ | text
      · cases hend
      rcases runLines_cases room c text with ⟨after, h⟩ | ⟨message, after, hroom, h⟩ |
        ⟨message, after, -, h⟩ | ⟨after, hroom, h⟩
      · rw [h] at hend ⊢
        exact ih hend
      · rw [h] at hend ⊢
        have hrest := ih hend
        rcases room with _ | _ | n
        · cases hrest
        · exact absurd rfl hroom
        · exact congrArg (Option.map (· + 1)) hrest
      · rw [h] at hend
        cases hend
      · rw [h]
        exact hroom

/-! ## The theorem -/

/-- How a session on an input relates to one on its first part and one that goes on from there with
the second part. -/
structure InParts (first second whole : Transcript) : Prop where
  /-- There are three ways for the first session to end. -/
  ending : first.ending = .endOfInput ∨ first.ending = .command ∨ first.ending = .unreadable
  /-- If it came to the end of its input, all goes on as in the second. -/
  goesOn : first.ending = .endOfInput →
    whole.output = first.output ++ second.output ∧
      whole.messages = first.messages ++ second.messages ∧ whole.ending = second.ending ∧
      whole.calculator = second.calculator
  /-- If it ended before, nothing goes on. -/
  stops : first.ending = .command ∨ first.ending = .unreadable → whole = first
  /-- Either way, what was written for the first part stands. -/
  causal : ∃ later, whole.output = first.output ++ later

/--
**A cut between lines is none.**

Whatever the variables and the print policy, for all bytes `a` that end with a newline or are none,
and all bytes `b`: the session on `a ++ b`, with an output that takes every message, is the session
on `a` and then, if that came to the end of its input, the session on `b` with the calculator that
it left.
-/
theorem session_in_parts (c : Calculator) (a b : List UInt8)
    (ha : a = [] ∨ a.getLast? = some 0x0A) :
    InParts (run none c a) (run none (run none c a).calculator b) (run none c (a ++ b)) := by
  have hwhole : run none c (a ++ b)
      = (run none c a).andThen (run none (run none c a).calculator b) := by
    unfold run
    rw [Text.decodedLines_append ha, runLines_append]
    rfl
  have hwritable : (run none c a).ending ≠ .unwritable := by
    intro h
    have hroom := room_of_unwritable h
    cases hroom
  rw [hwhole]
  generalize run none (run none c a).calculator b = second
  generalize run none c a = first at hwritable
  by_cases hend : first.ending = .endOfInput
  · have houtput := Transcript.output_andThen hend second
    rw [Transcript.andThen_of_endOfInput hend] at houtput ⊢
    exact {
      ending := Or.inl hend
      goesOn := fun _ => ⟨houtput, rfl, rfl, rfl⟩
      stops := fun h => by
        rw [hend] at h
        rcases h with h | h <;> cases h
      causal := ⟨second.output, houtput⟩ }
  · rw [Transcript.andThen_of_ne hend]
    have hended : first.ending = .command ∨ first.ending = .unreadable := by
      rcases first with ⟨messages, ending, calculator⟩
      cases ending with
      | command => exact Or.inl rfl
      | unreadable => exact Or.inr rfl
      | endOfInput => exact absurd rfl hend
      | unwritable => exact absurd rfl hwritable
    exact {
      ending := Or.inr hended
      goesOn := fun h => absurd h hend
      stops := fun _ => rfl
      causal := ⟨"", (String.append_empty).symm⟩ }

/-- The first part leaves `x`; the second uses it, ends the session and has a line too many. -/
theorem square_in_second_part :
    (run none (Calculator.new false) ("7 % 4\nx = 2\n".toUTF8.toList
      ++ "x * x\n/exit\nx\n".toUTF8.toList)).output = "3\n4\nBye!\n" := by
  have hparts := session_in_parts (Calculator.new false) "7 % 4\nx = 2\n".toUTF8.toList
    "x * x\n/exit\nx\n".toUTF8.toList (Or.inr (by decide +kernel))
  obtain ⟨houtput, -⟩ := hparts.goesOn (by decide +kernel)
  rw [houtput]
  decide +kernel

end LineCalc.Session
