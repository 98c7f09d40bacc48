import LineCalc.Line
import LineCalc.Proofs.Scanning
import Mathlib.Data.List.Basic

/-!
# Variables by other names

A renaming gives every variable a name of its own. Applied to a line it replaces the words that
are made of letters. Numbers, words with a digit in them, blanks and all other characters stay as
they are.

A name may become longer or shorter, so nothing behind it keeps its place in the line. What can
be followed through the reading of a line are its pieces: words are replaced by words, and
nothing else ends or begins a word (`pieces_text`). So the renamed line has the tokens of the
line, with their names replaced, or it is refused for the same reason (`tokens_line`).
-/

namespace LineCalc

/-- A name for every variable, in place of its own. No two variables get the same. -/
structure Renaming where
  name : String → String
  letters : ∀ n, isVariableName n = true → isVariableName (name n) = true
  injective : ∀ m n, isVariableName m = true → isVariableName n = true → name m = name n → m = n

namespace Renaming

variable (r : Renaming)

/-- A word after the renaming. Only the names of variables change. -/
def word (w : String) : String := if isVariableName w then r.name w else w

/-- A text with its words replaced, which are its maximal runs of letters and digits. -/
def text : List Char → List Char
  | [] => []
  | c :: cs =>
      if c.isAlphanum then
        (r.word (String.ofList (c :: cs.takeWhile Char.isAlphanum))).toList
          ++ text (cs.dropWhile Char.isAlphanum)
      else c :: text cs
termination_by cs => cs.length
decreasing_by
  · exact Nat.lt_succ_of_le (List.dropWhile_suffix Char.isAlphanum).length_le
  · exact Nat.lt_succ_self cs.length

/-- A line with its variables renamed. -/
def line (s : String) : String := String.ofList (r.text s.toList)

def piece : Piece → Piece
  | .word run => .word (r.word (String.ofList run)).toList
  | .mark c => .mark c

/-- A token with its name replaced, if it is one. -/
def token (t : Token) : Token :=
  match t.kind with
  | .identifier => ⟨.identifier, r.word t.lexeme⟩
  | _ => t

/-! ## Words -/

variable {r}

theorem word_of_letters {w : String} (h : isVariableName w = true) : r.word w = r.name w :=
  if_pos h

theorem word_of_not_letters {w : String} (h : isVariableName w ≠ true) : r.word w = w :=
  if_neg h

@[simp] theorem isVariableName_word (w : String) :
    isVariableName (r.word w) = isVariableName w := by
  by_cases h : isVariableName w = true
  · rw [word_of_letters h, h]
    exact r.letters w h
  · rw [word_of_not_letters h]

/-- Numbers are not replaced. -/
theorem word_digits {run : List Char} (h : ∀ c ∈ run, c.isDigit = true) :
    r.word (String.ofList run) = String.ofList run := by
  refine word_of_not_letters fun hname => ?_
  have hdigits := not_digits_of_isVariableName hname
  rw [String.toList_ofList] at hdigits
  exact hdigits h

/-- Nor is a number put in. -/
theorem digits_of_word {run : List Char}
    (h : ∀ c ∈ (r.word (String.ofList run)).toList, c.isDigit = true) :
    ∀ c ∈ run, c.isDigit = true := by
  by_cases hname : isVariableName (String.ofList run) = true
  · rw [← isVariableName_word (r := r)] at hname
    exact absurd h (not_digits_of_isVariableName hname)
  · rw [word_of_not_letters hname, String.toList_ofList] at h
    exact h

/-- A word is replaced by a word. -/
theorem proper_piece {p : Piece} (h : p.Proper) : (r.piece p).Proper := by
  rcases p with run | c
  · show (Piece.word (r.word (String.ofList run)).toList).Proper
    by_cases hname : isVariableName (String.ofList run) = true
    · rw [word_of_letters hname]
      exact proper_of_isVariableName (r.letters _ hname)
    · rw [word_of_not_letters hname, String.toList_ofList]
      exact h
  · exact h

/-! ## The text, part by part -/

theorem text_mark {c : Char} (hc : c.isAlphanum = false) (cs : List Char) :
    r.text (c :: cs) = c :: r.text cs := by
  rw [text, if_neg (by rw [hc]; simp)]

theorem text_gap {gap : List Char} (hg : ∀ c ∈ gap, isBlank c = true) (cs : List Char) :
    r.text (gap ++ cs) = gap ++ r.text cs := by
  induction gap with
  | nil => rfl
  | cons c gap ih =>
      have hc : c.isAlphanum = false := isAlphanum_of_isBlank (hg c List.mem_cons_self)
      rw [List.cons_append, text_mark hc, ih fun d hd => hg d (List.mem_cons_of_mem c hd),
        List.cons_append]

/-- A run of letters and digits is replaced as a whole. -/
theorem text_run {run after : List Char} (hrun : (Piece.word run).Proper)
    (hafter : startsInWord after = false) :
    r.text (run ++ after) = (r.word (String.ofList run)).toList ++ r.text after := by
  obtain ⟨hne, halnum⟩ := hrun
  have htake := takeWhile_append_eq halnum hafter
  have hdrop := dropWhile_append_eq halnum hafter
  obtain ⟨c, cs, rfl⟩ := List.exists_cons_of_ne_nil hne
  have hc : c.isAlphanum = true := halnum c List.mem_cons_self
  rw [List.cons_append, List.takeWhile_cons_of_pos hc] at htake
  rw [List.cons_append, List.dropWhile_cons_of_pos hc] at hdrop
  rw [List.cons_append, text, if_pos hc, htake, hdrop]

/-- The run that a text starts with. -/
theorem proper_firstWord {c : Char} (hc : c.isAlphanum = true) (cs : List Char) :
    (Piece.word (c :: cs.takeWhile Char.isAlphanum)).Proper :=
  ⟨List.cons_ne_nil c _, List.forall_mem_cons.mpr ⟨hc, fun _ => mem_takeWhile⟩⟩

theorem firstWord_append (c : Char) (cs : List Char) :
    (c :: cs.takeWhile Char.isAlphanum) ++ cs.dropWhile Char.isAlphanum = c :: cs := by
  rw [List.cons_append, List.takeWhile_append_dropWhile]

theorem startsInWord_text (cs : List Char) : startsInWord (r.text cs) = startsInWord cs := by
  rcases cs with _ | ⟨c, cs⟩
  · rw [text]
  by_cases hc : c.isAlphanum = true
  · obtain ⟨hne, halnum⟩ := proper_piece (r := r) (proper_firstWord hc cs)
    obtain ⟨d, ds, hword⟩ := List.exists_cons_of_ne_nil hne
    rw [hword] at halnum
    rw [text, if_pos hc, hword, List.cons_append, startsInWord_cons, startsInWord_cons, hc]
    exact halnum d List.mem_cons_self
  · rw [Bool.not_eq_true] at hc
    rw [text_mark hc, startsInWord_cons, startsInWord_cons]

/-- **The pieces of the renamed text are the renamed pieces.** -/
theorem pieces_text (cs : List Char) : pieces (r.text cs) = (pieces cs).map r.piece := by
  fun_induction text r cs with
  | case1 => rfl
  | case2 c cs hc ih =>
      have hrun := proper_firstWord hc cs
      have hword := proper_piece (r := r) hrun
      have hrest : startsInWord (cs.dropWhile Char.isAlphanum) = false :=
        head?_dropWhile_any Char.isAlphanum cs
      -- neither the word nor the one put in its place goes on behind it
      rw [pieces_append _ _ (Or.inr (by rw [startsInWord_text]; exact hrest)),
        pieces_run hword.1 hword.2, ih, ← firstWord_append c cs, pieces_append _ _ (Or.inr hrest),
        pieces_run hrun.1 hrun.2]
      rfl
  | case3 c cs hc ih =>
      rw [Bool.not_eq_true] at hc
      by_cases hb : isBlank c = true
      · rw [pieces_blank hb, pieces_blank hb, ih]
      · rw [Bool.not_eq_true] at hb
        rw [pieces_mark ⟨hb, hc⟩, pieces_mark ⟨hb, hc⟩, ih]
        rfl

/-- A renaming neither adds an `=` nor takes one away. -/
theorem count_equal_text (cs : List Char) : (r.text cs).count '=' = cs.count '=' := by
  have hnone : ∀ run : List Char, (∀ c ∈ run, c.isAlphanum = true) → run.count '=' = 0 := by
    intro run hrun
    refine List.count_eq_zero.mpr fun hmem => ?_
    have hequal := hrun '=' hmem
    cases hequal
  fun_induction text r cs with
  | case1 => rfl
  | case2 c cs hc ih =>
      have hrun := proper_firstWord hc cs
      rw [← firstWord_append c cs, List.count_append, List.count_append, hnone _ hrun.2,
        hnone _ (proper_piece (r := r) hrun).2, ih]
  | case3 c cs hc ih => rw [List.count_cons, List.count_cons, ih]

/-! ## Tokens -/

@[simp] theorem kind_token (t : Token) : (r.token t).kind = t.kind := by
  unfold token
  cases h : t.kind <;> simp [h]

theorem token_of_kind {t : Token} (h : t.kind ≠ .identifier) : r.token t = t := by
  unfold token
  cases hk : t.kind <;> simp_all

theorem name?_token (t : Token) : (r.token t).name? = t.name?.map r.word := by
  unfold token Token.name?
  cases h : t.kind <;> simp [h]

/-- A renamed piece makes the renamed token, or is refused as the piece is. -/
theorem token?_piece {p : Piece} (hp : p.Proper) :
    (r.piece p).token? = p.token?.map r.token := by
  rcases p with run | c
  · show (Piece.word (r.word (String.ofList run)).toList).token? = _
    by_cases hd : ∀ c ∈ run, c.isDigit = true
    · rw [word_digits hd, String.toList_ofList, Piece.token?_digits hp.1 hd, Option.map_map]
      rfl
    · have hword := proper_piece (r := r) hp
      rw [Piece.token?_name hp.1 hd, Piece.token?_name hword.1 fun h => hd (digits_of_word h),
        String.ofList_toList]
      rfl
  · show (Piece.mark c).token? = _
    cases hk : TokenKind.ofChar? c with
    | none => rw [Piece.token?, hk]; rfl
    | some k =>
        have hkind : k ≠ .identifier := by
          rintro rfl
          unfold TokenKind.ofChar? at hk
          split at hk <;> cases hk
        rw [Piece.token?, hk]
        exact congrArg some (token_of_kind hkind).symm

theorem readAll_piece {ps : List Piece} (hp : ∀ p ∈ ps, p.Proper) :
    readAll (ps.map r.piece) = (readAll ps).map (List.map r.token) := by
  induction ps with
  | nil => rfl
  | cons p ps ih =>
      obtain ⟨hfirst, hrest⟩ := List.forall_mem_cons.mp hp
      have htoken := token?_piece (r := r) hfirst
      rw [List.map_cons]
      cases ht : p.token? with
      | none =>
          rw [ht, Option.map_none] at htoken
          rw [readAll_cons_of_none htoken, readAll_cons_of_none ht]
          rfl
      | some t =>
          rw [ht, Option.map_some] at htoken
          rw [readAll_cons_of_some htoken, readAll_cons_of_some ht, ih hrest]
          cases readAll ps <;> rfl

/-- A sign and a number open the renamed line exactly if they open the line. -/
theorem opensSigned_of_map {ps : List Piece} (h : OpensSigned (ps.map r.piece)) :
    OpensSigned ps := by
  obtain ⟨s, digits, rest, hps, hs, hd⟩ := h
  obtain ⟨p, ps, rfl, hp, hps⟩ := List.map_eq_cons_iff.mp hps
  obtain ⟨q, ps, rfl, hq, -⟩ := List.map_eq_cons_iff.mp hps
  rcases p with run | c
  · cases hp
  rcases q with run | d
  · cases hp
    cases hq
    exact ⟨s, run, ps, rfl, hs, digits_of_word hd⟩
  · cases hq

/-- **What is read from the renamed line.** -/
theorem scan_line (s : String) :
    Token.scan (r.line s) = (Token.scan s).map (List.map r.token) := by
  have hline : (r.line s).toList = r.text s.toList := String.toList_ofList
  have hpieces : pieces (r.line s).toList = (pieces s.toList).map r.piece := by
    rw [hline, pieces_text]
  by_cases hopens : OpensSigned (pieces s.toList)
  · obtain ⟨sign, digits, ps, hps, hsign, hd⟩ := hopens
    obtain ⟨front, gap, after, hs, hnumeral, -⟩ := SignedNumeral.of_pieces hps hsign hd
    -- blanks, sign and digits stay as they are, so the two lines open with the same number
    have hrun : (Piece.word digits).Proper :=
      ⟨hnumeral.ne_nil, fun c hc => isAlphanum_of_isDigit (hd c hc)⟩
    have hs' : (r.line s).toList = front ++ sign :: (gap ++ (digits ++ r.text after)) := by
      rw [hline, hs, text_gap hnumeral.front, text_mark hnumeral.proper.2, text_gap hnumeral.gap,
        text_run hrun hnumeral.after, word_digits hd, String.toList_ofList]
    have hafter : startsInWord (r.text after) = false := by
      rw [startsInWord_text, hnumeral.after]
    rw [scan_numeral hs hnumeral, scan_numeral hs' { hnumeral with after := hafter }]
    cases literal? (sign = '-') digits with
    | none => rfl
    | some v =>
        dsimp only
        rw [pieces_text, readAll_piece fun p => proper_of_mem_pieces]
        cases readAll (pieces after) <;> rfl
  · have hopens' : ¬ OpensSigned (pieces (r.line s).toList) := by
      rw [hpieces]
      exact fun h => hopens (opensSigned_of_map h)
    rw [scan_unsigned hopens, scan_unsigned hopens', hpieces,
      readAll_piece fun p => proper_of_mem_pieces]

theorem hasClash_map (ts : List Token) : Line.hasClash (ts.map r.token) = Line.hasClash ts := by
  unfold Line.hasClash
  rw [← List.map_tail, List.zip_map, List.any_map]
  simp [Function.comp_def]

theorem endsOpen_map (ts : List Token) : Line.endsOpen (ts.map r.token) = Line.endsOpen ts := by
  unfold Line.endsOpen
  rw [List.getLast?_map]
  cases ts.getLast? <;> simp

theorem equalSigns_line (s : String) : Line.equalSigns (r.line s) = Line.equalSigns s := by
  rw [Line.equalSigns, line, String.toList_ofList, count_equal_text]
  rfl

/-- **The tokens of the renamed line** are those of the line with their names replaced. Where the
line has none, it is refused for the same reason. -/
theorem tokens_line (s : String) :
    Line.tokens (r.line s) = (Line.tokens s).map (List.map r.token) := by
  unfold Line.tokens
  rw [equalSigns_line, scan_line]
  split
  · rfl
  · cases Token.scan s with
    | error f => rfl
    | ok ts =>
        simp only [Except.map, hasClash_map, endsOpen_map]
        split <;> rfl

end Renaming

end LineCalc
