import LineCalc.Fault
import LineCalc.Token

/-!
# Reading tokens off a line

A line is read from the left, one token at a time, always taking the longest run.
Blanks separate and are dropped. The runs are the words: maximal blocks of ASCII
letters and digits, a number if all are digits and an identifier otherwise. All
other tokens are single characters.

The one case that needs to look ahead is the sign that opens a line. If a run of
digits follows it, perhaps after blanks, the two make one number, so that the least
64-bit integer can be written at all. If anything else follows, the sign stands by
itself and reading goes on right behind it.

A character that starts no token, or a number that does not fit, is a fault, and
nothing is read after a fault. `next?_shorter` is why reading ends: every step
leaves less text than it found.
-/

namespace LineCalc

/-- The characters that may stand between tokens. -/
def isBlank (c : Char) : Bool := c = ' ' || c = '\t' || c = '\r'

/-- The integer that a run of digits writes, if it fits 64 bits together with its sign. -/
def literal? (negative : Bool) (digits : List Char) : Option Int64 :=
  let magnitude : Int := Nat.ofDigitChars 10 digits 0
  let value := if negative then -magnitude else magnitude
  if Int64.minValue.toInt ≤ value ∧ value ≤ Int64.maxValue.toInt then some (Int64.ofInt value)
  else none

/-- What a run of letters and digits is. No token is empty. -/
def wordKind? (run : List Char) : Option TokenKind :=
  if run.isEmpty then none
  else if run.all Char.isDigit then (literal? false run).map .number
  else some .identifier

/-- The text of a line that is still to be read, and whether its first token is part of it. -/
structure TokenStream where
  ahead : List Char
  opening : Bool
  deriving DecidableEq, Repr

namespace TokenStream

/-- A line of which nothing has been read. -/
def ofLine (line : String) : TokenStream := ⟨line.toList, true⟩

/-- The blanks and the digits that continue a sign, and what is left. There are none if the run
behind the blanks is empty or holds a letter. -/
def signedDigits? (cs : List Char) : Option (List Char × List Char × List Char) :=
  let gap := cs.takeWhile isBlank
  let run := (cs.dropWhile isBlank).takeWhile Char.isAlphanum
  let rest := (cs.dropWhile isBlank).dropWhile Char.isAlphanum
  if !run.isEmpty && run.all Char.isDigit then some (gap, run, rest) else none

/-- The token that starts with `c`, and what is left of the text `cs` behind `c`. -/
def token? (opening : Bool) (c : Char) (cs : List Char) : Option (Token × List Char) :=
  match if opening && (c = '+' || c = '-') then signedDigits? cs else none with
  | some (gap, digits, rest) =>
      (literal? (c = '-') digits).map fun value =>
        (⟨.number value, String.ofList (c :: gap ++ digits)⟩, rest)
  | none =>
      match TokenKind.ofChar? c with
      | some kind => some (⟨kind, String.ofList [c]⟩, cs)
      | none =>
          let run := (c :: cs).takeWhile Char.isAlphanum
          (wordKind? run).map fun kind =>
            (⟨kind, String.ofList run⟩, (c :: cs).dropWhile Char.isAlphanum)

/-- The next token, or the fault that ends the line. Only blanks are left when there is neither. -/
def next? (s : TokenStream) : Option (Except Fault Token × TokenStream) :=
  match s.ahead.dropWhile isBlank with
  | [] => none
  | c :: cs =>
      match token? s.opening c cs with
      | some (token, rest) => some (.ok token, ⟨rest, false⟩)
      | none => some (.error .expression, ⟨[], false⟩)

/-! ## Every step leaves less text -/

private theorem length_dropWhile_le (p : Char → Bool) (cs : List Char) :
    (cs.dropWhile p).length ≤ cs.length :=
  (List.dropWhile_suffix p).length_le

theorem signedDigits?_length {cs gap digits rest : List Char}
    (h : signedDigits? cs = some (gap, digits, rest)) : rest.length ≤ cs.length := by
  simp only [signedDigits?, Option.ite_none_right_eq_some, Option.some.injEq, Prod.mk.injEq] at h
  rw [← h.2.2.2]
  exact Nat.le_trans (length_dropWhile_le _ _) (length_dropWhile_le _ _)

theorem token?_length {opening : Bool} {c : Char} {cs rest : List Char} {t : Token}
    (h : token? opening c cs = some (t, rest)) : rest.length ≤ cs.length := by
  unfold token? at h
  split at h
  · rename_i hd
    obtain ⟨v, -, hv⟩ := Option.map_eq_some_iff.1 h
    split at hd
    · cases hv; exact signedDigits?_length hd
    · cases hd
  · split at h
    · cases h; exact Nat.le_refl _
    · obtain ⟨k, hk, hv⟩ := Option.map_eq_some_iff.1 h
      cases hv
      by_cases hc : c.isAlphanum = true
      · rw [List.dropWhile_cons_of_pos hc]
        exact length_dropWhile_le _ _
      · simp [wordKind?, List.takeWhile_cons_of_neg hc] at hk

theorem next?_shorter {s s' : TokenStream} {item : Except Fault Token}
    (h : s.next? = some (item, s')) : s'.ahead.length < s.ahead.length := by
  have hd := length_dropWhile_le isBlank s.ahead
  unfold next? at h
  split at h
  · cases h
  · rename_i c cs hcs
    rw [hcs, List.length_cons] at hd
    split at h
    · rename_i ht
      cases h
      exact Nat.lt_of_le_of_lt (token?_length ht) hd
    · cases h
      exact Nat.lt_of_le_of_lt (Nat.zero_le _) hd

/-! ## Reading to the end -/

/-- Everything that is still to be read, and the stream as it stands afterwards. -/
def drain (s : TokenStream) : List (Except Fault Token) × TokenStream :=
  match h : s.next? with
  | none => ([], s)
  | some (item, s') =>
      have := next?_shorter h
      (item :: s'.drain.1, s'.drain.2)
termination_by s.ahead.length

/-- The items of a stream: its tokens, and the fault that ended it if one did. -/
def items (s : TokenStream) : List (Except Fault Token) := s.drain.1

/-- A drained stream stays empty. -/
theorem next?_drain (s : TokenStream) : s.drain.2.next? = none := by
  fun_induction drain s with
  | case1 s h => exact h
  | case2 s item s' h _ ih => exact ih

end TokenStream

/-- The tokens of a line, taken by themselves. -/
def Token.scan (line : String) : Except Fault (List Token) :=
  (TokenStream.ofLine line).items.mapM id

end LineCalc
