import LineCalc.Proofs.Pieces

/-!
# Reading tokens is reading pieces

A token stream past the first token of its line makes each piece of the text ahead a token
by itself, up to the first piece that is none (`items_closed`). At the start of a line this
differs in one case: a sign and an all-digit word behind it make a single token, and the
range of the literal is that of the two together (`items_signed`). In every other case the
start of a line is like the rest of it (`items_unsigned`).

What the tokens are, and whether there is a fault, can therefore be read off the pieces.
-/

namespace LineCalc

/-- The token that a piece makes by itself. -/
def Piece.token? : Piece → Option Token
  | word run => (wordKind? run).map fun kind => ⟨kind, String.ofList run⟩
  | mark c => (TokenKind.ofChar? c).map fun kind => ⟨kind, String.ofList [c]⟩

theorem Piece.token?_digits {run : List Char} (hne : run ≠ [])
    (hd : ∀ c ∈ run, c.isDigit = true) :
    (Piece.word run).token?
      = (literal? false run).map fun v => ⟨.number v, String.ofList run⟩ := by
  have hempty : run.isEmpty = false := by simpa using hne
  rw [token?, wordKind?, hempty, if_neg (by simp), if_pos (List.all_eq_true.mpr hd),
    Option.map_map]
  rfl

theorem Piece.token?_name {run : List Char} (hne : run ≠ [])
    (hd : ¬ ∀ c ∈ run, c.isDigit = true) :
    (Piece.word run).token? = some ⟨.identifier, String.ofList run⟩ := by
  have hempty : run.isEmpty = false := by simpa using hne
  rw [token?, wordKind?, hempty, if_neg (by simp), if_neg fun h => hd (List.all_eq_true.mp h),
    Option.map_some]

theorem Piece.token?_of_isVariableName {name : String} (h : isVariableName name = true) :
    (Piece.word name.toList).token? = some ⟨.identifier, name⟩ := by
  rw [token?_name (proper_of_isVariableName h).1 (not_digits_of_isVariableName h),
    String.ofList_toList]

/-- The tokens of some pieces, up to the first that makes none. -/
def readPieces : List Piece → List (Except Fault Token)
  | [] => []
  | p :: ps =>
      match p.token? with
      | none => [.error .expression]
      | some t => .ok t :: readPieces ps

theorem ofChar?_of_isAlphanum {c : Char} (h : c.isAlphanum = true) :
    TokenKind.ofChar? c = none := by
  unfold TokenKind.ofChar?
  split
  case h_9 => rfl
  all_goals cases h

/-! ## Splitting a text at a class of characters -/

section

variable {p : Char → Bool} {xs ys : List Char}

theorem takeWhile_append_eq (hx : ∀ c ∈ xs, p c = true) (hy : ys.head?.any p = false) :
    (xs ++ ys).takeWhile p = xs := by
  rw [List.takeWhile_append_of_pos hx]
  cases ys with
  | nil => rw [List.takeWhile_nil, List.append_nil]
  | cons y ys =>
      rw [List.takeWhile_cons_of_neg (by rw [show p y = false from hy]; simp), List.append_nil]

theorem dropWhile_append_eq (hx : ∀ c ∈ xs, p c = true) (hy : ys.head?.any p = false) :
    (xs ++ ys).dropWhile p = ys := by
  rw [List.dropWhile_append_of_pos hx]
  cases ys with
  | nil => rfl
  | cons y ys => rw [List.dropWhile_cons_of_neg (by rw [show p y = false from hy]; simp)]

theorem head?_dropWhile_any (p : Char → Bool) (cs : List Char) :
    (cs.dropWhile p).head?.any p = false := by
  induction cs with
  | nil => rfl
  | cons c cs ih =>
      by_cases h : p c = true
      · rw [List.dropWhile_cons_of_pos h]; exact ih
      · rw [List.dropWhile_cons_of_neg h]; simpa using h

end

theorem mem_takeWhile {p : Char → Bool} {cs : List Char} {c : Char} (h : c ∈ cs.takeWhile p) :
    p c = true := List.all_eq_true.mp List.all_takeWhile c h

theorem pieces_dropWhile_isBlank (cs : List Char) : pieces (cs.dropWhile isBlank) = pieces cs := by
  have hgap : ∀ c ∈ cs.takeWhile isBlank, isBlank c = true := fun _ => mem_takeWhile
  have h := pieces_gap hgap (cs.dropWhile isBlank)
  rw [List.takeWhile_append_dropWhile] at h
  exact h.symm

/-- The run that a text starts with is its first piece. -/
theorem pieces_takeWhile_isAlphanum {cs : List Char} (h : cs.takeWhile Char.isAlphanum ≠ []) :
    pieces cs = .word (cs.takeWhile Char.isAlphanum) :: pieces (cs.dropWhile Char.isAlphanum) := by
  have hrest : startsInWord (cs.dropWhile Char.isAlphanum) = false :=
    head?_dropWhile_any Char.isAlphanum cs
  have hcut := pieces_append (cs.takeWhile Char.isAlphanum) _ (Or.inr hrest)
  rw [List.takeWhile_append_dropWhile, pieces_run h fun c hc => mem_takeWhile hc] at hcut
  exact hcut

namespace TokenStream

/-! ## One token -/

theorem items_of_next?_eq_none {s : TokenStream} (h : s.next? = none) : s.items = [] := by
  unfold items
  rw [drain]
  split
  · rfl
  · rename_i h'; rw [h] at h'; cases h'

theorem items_of_next?_eq_some {s s' : TokenStream} {item : Except Fault Token}
    (h : s.next? = some (item, s')) : s.items = item :: s'.items := by
  unfold items
  rw [drain]
  split
  · rename_i h'; rw [h] at h'; cases h'
  · rename_i h'; rw [h] at h'; cases h'; rfl

/-- The stream starts with the first piece, and nothing is done to it. -/
theorem token?_closed {c : Char} (hc : isBlank c = false) (cs : List Char) :
    ∃ p rest, pieces (c :: cs) = p :: pieces rest ∧ rest.length ≤ cs.length ∧
      token? false c cs = p.token?.map fun t => (t, rest) := by
  by_cases ha : c.isAlphanum = true
  · have hne : (c :: cs).takeWhile Char.isAlphanum ≠ [] := by
      rw [List.takeWhile_cons_of_pos ha]
      simp
    refine ⟨.word ((c :: cs).takeWhile Char.isAlphanum), (c :: cs).dropWhile Char.isAlphanum,
      pieces_takeWhile_isAlphanum hne, ?_, ?_⟩
    · rw [List.dropWhile_cons_of_pos ha]
      exact (List.dropWhile_suffix Char.isAlphanum).length_le
    · simp [token?, ofChar?_of_isAlphanum ha, Piece.token?, Function.comp_def]
  · rw [Bool.not_eq_true] at ha
    refine ⟨.mark c, cs, pieces_mark ⟨hc, ha⟩ cs, Nat.le_refl _, ?_⟩
    cases hk : TokenKind.ofChar? c with
    | some kind => simp [token?, hk, Piece.token?]
    | none => simp [token?, hk, Piece.token?, ha, wordKind?]

/-- A text of blanks, or blanks and the first character that is none. -/
theorem dropWhile_isBlank_cases (cs : List Char) :
    (pieces cs = [] ∧ cs.dropWhile isBlank = []) ∨
      ∃ c cs', cs.dropWhile isBlank = c :: cs' ∧ isBlank c = false ∧
        pieces cs = pieces (c :: cs') ∧ cs'.length < cs.length := by
  have hp : pieces cs = pieces (cs.dropWhile isBlank) := (pieces_dropWhile_isBlank cs).symm
  cases h : cs.dropWhile isBlank with
  | nil => exact Or.inl ⟨by rw [hp, h]; rfl, rfl⟩
  | cons c cs' =>
      have hb := head?_dropWhile_any isBlank cs
      have hl := (List.dropWhile_suffix isBlank (l := cs)).length_le
      rw [h] at hb hl hp
      exact Or.inr ⟨c, cs', rfl, hb, hp, hl⟩

/-- **Past its first token, a line is read piece by piece.** -/
theorem items_closed (cs : List Char) :
    (⟨cs, false⟩ : TokenStream).items = readPieces (pieces cs) := by
  -- each piece that is a token leaves less text
  induction h : cs.length using Nat.strongRecOn generalizing cs with
  | ind n ih =>
    rcases dropWhile_isBlank_cases cs with ⟨hp, hd⟩ | ⟨c, cs', hd, hc, hp, hl⟩
    · rw [items_of_next?_eq_none (by rw [next?]; simp only [hd]), hp]
      rfl
    · obtain ⟨p, rest, hps, hrest, htoken⟩ := token?_closed hc cs'
      rw [hp, hps, readPieces]
      cases ht : p.token? with
      | none =>
          have hnext : (⟨cs, false⟩ : TokenStream).next?
              = some (.error .expression, ⟨[], false⟩) := by
            rw [next?]; simp only [hd, htoken, ht, Option.map_none]
          rw [items_of_next?_eq_some hnext]
          exact congrArg _ (items_of_next?_eq_none rfl)
      | some t =>
          have hnext : (⟨cs, false⟩ : TokenStream).next? = some (.ok t, ⟨rest, false⟩) := by
            rw [next?]; simp only [hd, htoken, ht, Option.map_some]
          rw [items_of_next?_eq_some hnext, ih rest.length (by omega) rest rfl]

/-! ## The sign that opens a line -/

/-- Digits behind a sign are the first piece there. -/
theorem pieces_of_signedDigits? {cs gap digits rest : List Char}
    (h : signedDigits? cs = some (gap, digits, rest)) :
    (∀ c ∈ gap, isBlank c = true) ∧ pieces cs = .word digits :: pieces rest ∧
      ∀ c ∈ digits, c.isDigit = true := by
  unfold signedDigits? at h
  dsimp only at h
  split at h
  · rename_i hd
    cases h
    obtain ⟨hne, hd⟩ := Bool.and_eq_true_iff.mp hd
    have hne : (cs.dropWhile isBlank).takeWhile Char.isAlphanum ≠ [] := by simpa using hne
    refine ⟨fun c hc => mem_takeWhile hc, ?_, List.all_eq_true.mp hd⟩
    rw [← pieces_dropWhile_isBlank, pieces_takeWhile_isAlphanum hne]
  · cases h

/-- Digits behind blanks continue a sign, up to where their word ends. -/
theorem signedDigits?_append {gap digits after : List Char} (hg : ∀ c ∈ gap, isBlank c = true)
    (hne : digits ≠ []) (hd : ∀ c ∈ digits, c.isDigit = true)
    (hafter : startsInWord after = false) :
    signedDigits? (gap ++ (digits ++ after)) = some (gap, digits, after) := by
  have ha : ∀ c ∈ digits, c.isAlphanum = true := fun c hc => isAlphanum_of_isDigit (hd c hc)
  have hhead : (digits ++ after).head?.any isBlank = false := by
    obtain ⟨d, ds, rfl⟩ := List.exists_cons_of_ne_nil hne
    exact isBlank_of_isAlphanum (ha d List.mem_cons_self)
  have hempty : digits.isEmpty = false := by simpa using hne
  simp only [signedDigits?, takeWhile_append_eq hg hhead, dropWhile_append_eq hg hhead,
    takeWhile_append_eq ha hafter, dropWhile_append_eq ha hafter, hempty,
    List.all_eq_true.mpr hd]
  rfl

end TokenStream

/-- The pieces start with a sign and a word of digits. -/
def OpensSigned (ps : List Piece) : Prop :=
  ∃ s digits rest, ps = .mark s :: .word digits :: rest ∧ (s = '+' ∨ s = '-') ∧
    ∀ c ∈ digits, c.isDigit = true

/-- The parts of a text that opens with a sign and a number: the blanks in front of the sign, those
behind it, the digits, and what is left. -/
structure SignedNumeral (front : List Char) (s : Char) (gap digits after : List Char) : Prop where
  front : ∀ c ∈ front, isBlank c = true
  sign : s = '+' ∨ s = '-'
  gap : ∀ c ∈ gap, isBlank c = true
  ne_nil : digits ≠ []
  digits : ∀ c ∈ digits, c.isDigit = true
  /-- The digits are not part of a longer word. -/
  after : startsInWord after = false

namespace SignedNumeral

variable {front gap digits after : List Char} {s : Char}

theorem proper (h : SignedNumeral front s gap digits after) : (Piece.mark s).Proper := by
  rcases h.sign with rfl | rfl <;> exact ⟨rfl, rfl⟩

/-- Pieces that open with a sign and a number are those of such a text. -/
theorem of_pieces {cs : List Char} {ps : List Piece} (h : pieces cs = .mark s :: .word digits :: ps)
    (hs : s = '+' ∨ s = '-') (hd : ∀ c ∈ digits, c.isDigit = true) :
    ∃ front gap after, cs = front ++ s :: (gap ++ (digits ++ after)) ∧
      SignedNumeral front s gap digits after ∧ pieces after = ps := by
  obtain ⟨front, rest, rfl, hf, -, -, hrest⟩ := exists_of_pieces_eq_cons h
  obtain ⟨gap, after, rfl, hg, hp, hb, hafter⟩ := exists_of_pieces_eq_cons hrest
  exact ⟨front, gap, after, by simp [Piece.text], ⟨hf, hs, hg, hp.1, hd, hb.2⟩, hafter⟩

end SignedNumeral

namespace TokenStream

/-- Unless a sign and digits open it, a line is read piece by piece from the start. -/
theorem items_unsigned {cs : List Char} (h : ¬ OpensSigned (pieces cs)) :
    (⟨cs, true⟩ : TokenStream).items = readPieces (pieces cs) := by
  rw [← items_closed]
  -- the two streams can differ in their next token only: behind it both are the same
  have hnext : (⟨cs, true⟩ : TokenStream).next? = (⟨cs, false⟩ : TokenStream).next? := by
    rcases dropWhile_isBlank_cases cs with ⟨-, hd⟩ | ⟨c, cs', hd, hc, hp, -⟩
    · simp only [next?, hd]
    · have htoken : token? true c cs' = token? false c cs' := by
        by_cases hs : c = '+' ∨ c = '-'
        · have hnone : signedDigits? cs' = none := by
            cases hsd : signedDigits? cs' with
            | none => rfl
            | some parts =>
                obtain ⟨gap, digits, rest⟩ := parts
                obtain ⟨-, hps, hdig⟩ := pieces_of_signedDigits? hsd
                refine absurd ⟨c, digits, pieces rest, ?_, hs, hdig⟩ h
                have hm : (Piece.mark c).Proper := by rcases hs with rfl | rfl <;> exact ⟨rfl, rfl⟩
                rw [hp, pieces_mark hm, hps]
          simp [token?, hnone]
        · simp [token?, hs]
      simp only [next?, hd, htoken]
  cases hn : (⟨cs, false⟩ : TokenStream).next? with
  | none => rw [items_of_next?_eq_none hn, items_of_next?_eq_none (hnext.trans hn)]
  | some r => rw [items_of_next?_eq_some hn, items_of_next?_eq_some (hnext.trans hn)]

/-- **A sign and digits that open a line make one token**, with the blanks between them. -/
theorem items_signed {front gap digits after : List Char} {s : Char}
    (h : SignedNumeral front s gap digits after) :
    (⟨front ++ s :: (gap ++ (digits ++ after)), true⟩ : TokenStream).items =
      match literal? (s = '-') digits with
      | some v => .ok ⟨.number v, String.ofList (s :: gap ++ digits)⟩ :: readPieces (pieces after)
      | none => [.error .expression] := by
  have hhead : (s :: (gap ++ (digits ++ after))).head?.any isBlank = false := h.proper.1
  have hdrop : (front ++ s :: (gap ++ (digits ++ after))).dropWhile isBlank
      = s :: (gap ++ (digits ++ after)) := dropWhile_append_eq h.front hhead
  have htoken : token? true s (gap ++ (digits ++ after)) = (literal? (s = '-') digits).map fun v =>
      (⟨.number v, String.ofList (s :: gap ++ digits)⟩, after) := by
    simp [token?, h.sign, signedDigits?_append h.gap h.ne_nil h.digits h.after]
  cases hv : literal? (s = '-') digits with
  | none =>
      rw [hv, Option.map_none] at htoken
      have hnext : (⟨front ++ s :: (gap ++ (digits ++ after)), true⟩ : TokenStream).next?
          = some (.error .expression, ⟨[], false⟩) := by
        simp only [next?, hdrop, htoken]
      rw [items_of_next?_eq_some hnext]
      exact congrArg _ (items_of_next?_eq_none rfl)
  | some v =>
      rw [hv, Option.map_some] at htoken
      have hnext : (⟨front ++ s :: (gap ++ (digits ++ after)), true⟩ : TokenStream).next?
          = some (.ok ⟨.number v, String.ofList (s :: gap ++ digits)⟩, ⟨after, false⟩) := by
        simp only [next?, hdrop, htoken]
      rw [items_of_next?_eq_some hnext, items_closed]

end TokenStream

/-! ## All tokens of a line -/

/-- The tokens of some pieces, if each of them makes one. -/
def readAll (ps : List Piece) : Except Fault (List Token) := (readPieces ps).mapM id

theorem readAll_nil : readAll [] = .ok [] := rfl

theorem readAll_cons_of_none {p : Piece} (h : p.token? = none) (ps : List Piece) :
    readAll (p :: ps) = .error .expression := by
  rw [readAll, readPieces, h]
  rfl

theorem readAll_cons_of_some {p : Piece} {t : Token} (h : p.token? = some t) (ps : List Piece) :
    readAll (p :: ps) = (readAll ps).map (t :: ·) := by
  rw [readAll, readPieces, h]
  simp only [List.mapM_cons, id]
  cases hr : (readPieces ps).mapM id with
  | error f => rw [readAll, hr]; rfl
  | ok ts => rw [readAll, hr]; rfl

theorem readAll_eq_error {ps : List Piece} {f : Fault} (h : readAll ps = .error f) :
    f = .expression := by
  induction ps with
  | nil => cases h
  | cons p ps ih =>
      cases hp : p.token? with
      | none => rw [readAll_cons_of_none hp] at h; cases h; rfl
      | some t =>
          rw [readAll_cons_of_some hp] at h
          cases hr : readAll ps with
          | error g => rw [hr] at h; cases h; exact ih hr
          | ok ts => rw [hr] at h; cases h

theorem readAll_eq_ok_iff {ps : List Piece} {ts : List Token} :
    readAll ps = .ok ts ↔ ps.map Piece.token? = ts.map some := by
  rw [readAll, Fault.mapM_eq_ok_iff, List.map_id]
  induction ps generalizing ts with
  | nil => cases ts <;> simp [readPieces]
  | cons p ps ih =>
      rw [readPieces, List.map_cons]
      cases hp : p.token? with
      | none => cases ts <;> simp
      | some t =>
          cases ts with
          | nil => simp
          | cons u us => simp [ih]

theorem scan_unsigned {line : String} (h : ¬ OpensSigned (pieces line.toList)) :
    Token.scan line = readAll (pieces line.toList) := by
  rw [Token.scan, TokenStream.ofLine, TokenStream.items_unsigned h, readAll]

theorem scan_numeral {line : String} {front gap digits after : List Char} {s : Char}
    (hline : line.toList = front ++ s :: (gap ++ (digits ++ after)))
    (h : SignedNumeral front s gap digits after) :
    Token.scan line =
      match literal? (s = '-') digits with
      | some v =>
          (readAll (pieces after)).map (⟨.number v, String.ofList (s :: gap ++ digits)⟩ :: ·)
      | none => .error .expression := by
  rw [Token.scan, TokenStream.ofLine, hline, TokenStream.items_signed h]
  cases literal? (s = '-') digits with
  | none => rfl
  | some v =>
      simp only [List.mapM_cons, id, readAll]
      cases (readPieces (pieces after)).mapM id <;> rfl

theorem scan_signed {line : String} {digits : List Char} {s : Char} {ps : List Piece}
    (h : pieces line.toList = .mark s :: .word digits :: ps) (hs : s = '+' ∨ s = '-')
    (hd : ∀ c ∈ digits, c.isDigit = true) :
    ∃ gap, (∀ c ∈ gap, isBlank c = true) ∧
      Token.scan line =
        match literal? (s = '-') digits with
        | some v => (readAll ps).map (⟨.number v, String.ofList (s :: gap ++ digits)⟩ :: ·)
        | none => .error .expression := by
  obtain ⟨front, gap, after, hline, hn, rfl⟩ := SignedNumeral.of_pieces h hs hd
  exact ⟨gap, hn.gap, scan_numeral hline hn⟩

/-- There is one fault that reading tokens can find. -/
theorem scan_eq_error {line : String} {f : Fault} (h : Token.scan line = .error f) :
    f = .expression := by
  by_cases ho : OpensSigned (pieces line.toList)
  · obtain ⟨s, digits, ps, hp, hs, hd⟩ := ho
    obtain ⟨gap, -, hscan⟩ := scan_signed hp hs hd
    rw [hscan] at h
    split at h
    · cases hr : readAll ps with
      | error g => rw [hr] at h; cases h; exact readAll_eq_error hr
      | ok ts => rw [hr] at h; cases h
    · cases h
      rfl
  · rw [scan_unsigned ho] at h
    exact readAll_eq_error h

end LineCalc
