import LineCalc.Calculator
import LineCalc.Proofs.Spelling

/-!
# How the tokens of a line lie in its text

A `Layout` is a line taken apart: a gap in front of each token and one behind the last. Its
text puts the lexemes and the gaps together again. In a spaced layout the gaps are blank,
and there is one wherever two words would otherwise be one.

The tokens of a line are known from its layouts. Reading a line gives the tokens `ts`
exactly if `ts` is `Lexical`, which is a property of the tokens alone, and the line is the
text of some spaced layout of `ts` (`scan_eq_ok_iff`). One direction says that reading
loses nothing but blanks, the other that it does not matter which blanks they were.
-/

namespace LineCalc

/-- A line taken apart: what is in front of each token, and what is behind the last. -/
inductive Layout where
  | last (gap : List Char)
  | token (gap : List Char) (t : Token) (rest : Layout)

namespace Layout

/-- What is in front of the first token, or all there is if there is no token. -/
def front : Layout → List Char
  | last gap => gap
  | token gap _ _ => gap

/-- The tokens, from left to right. -/
def tokens : Layout → List Token
  | last _ => []
  | token _ t rest => t :: rest.tokens

/-- Lexemes and gaps, from left to right. -/
def text : Layout → List Char
  | last gap => gap
  | token gap t rest => gap ++ (t.lexeme.toList ++ rest.text)

/-- The line that the layout is one of. -/
def line (l : Layout) : String := String.ofList l.text

/-- The gaps are blank, and two words have one between them. -/
def Spaced : Layout → Prop
  | last gap => Blank gap
  | token gap t rest => Blank gap ∧ rest.Spaced ∧
      ∀ u ∈ rest.tokens.head?, t.kind.isWord = true → u.kind.isWord = true → rest.front ≠ []

end Layout

/-- What the tokens of a line are like, whatever is between them. -/
structure Lexical (ts : List Token) : Prop where
  /-- Only the first token can be a number with a sign of its own. -/
  first : ∀ t ∈ ts.head?, t.Spelled ∨ t.SignSpelled
  others : ∀ t ∈ ts.tail, t.Spelled
  /-- A sign that opens a line and is a token by itself is in front of no number. -/
  sign : ∀ s t rest, ts = s :: t :: rest → s.kind.isSign = true → ∀ v, t.kind ≠ .number v

/-! ## Pieces of a layout -/

theorem startsInWord_append_left {xs ys : List Char} (h : xs ≠ []) :
    startsInWord (xs ++ ys) = startsInWord xs := by
  obtain ⟨x, xs, rfl⟩ := List.exists_cons_of_ne_nil h
  rfl

theorem startsInWord_of_isBlank {gap : List Char} (hg : ∀ c ∈ gap, isBlank c = true) :
    startsInWord gap = false := by
  cases gap with
  | nil => rfl
  | cons c gap => exact isAlphanum_of_isBlank (hg c List.mem_cons_self)

namespace Layout

variable {l : Layout}

theorem Spaced.blank_front (h : l.Spaced) : ∀ c ∈ l.front, isBlank c = true := by
  cases l with
  | last gap => exact blank_iff.mp h
  | token gap t rest => exact blank_iff.mp h.1

/-- The text of a layout starts with its first token, unless there is a gap. -/
theorem startsInWord_text (hs : l.Spaced) (hspelled : ∀ t ∈ l.tokens, t.Spelled) :
    startsInWord l.text = false ↔
      ∀ t ∈ l.tokens.head?, t.kind.isWord = true → l.front ≠ [] := by
  have hfront := hs.blank_front
  cases l with
  | last gap =>
      have hgap : startsInWord gap = false := startsInWord_of_isBlank hfront
      exact ⟨fun _ t ht => (by cases ht), fun _ => hgap⟩
  | token gap t rest =>
      have ht : t.Spelled := hspelled t List.mem_cons_self
      by_cases hgap : gap = []
      · subst hgap
        have hstart : startsInWord (token [] t rest).text = t.kind.isWord := by
          rw [text, List.nil_append, startsInWord_append_left ht.lexeme_ne_nil, ht.startsInWord]
        rw [hstart]
        constructor
        · intro hw u hu hword
          obtain rfl : t = u := Option.some.inj hu
          rw [hw] at hword
          cases hword
        · intro h
          rw [← Bool.not_eq_true]
          exact fun hword => h t rfl hword rfl
      · have hstart : startsInWord (token gap t rest).text = false := by
          rw [text, startsInWord_append_left hgap]
          exact startsInWord_of_isBlank hfront
        exact ⟨fun _ _ _ _ => hgap, fun _ => hstart⟩

/-- The words of a layout stand apart exactly if none of them goes on in the text behind it. -/
theorem spaced_token_iff {gap : List Char} {t : Token} {rest : Layout}
    (hspelled : ∀ u ∈ rest.tokens, u.Spelled) :
    (token gap t rest).Spaced ↔ Blank gap ∧ rest.Spaced ∧
      (t.kind.isWord = true → startsInWord rest.text = false) := by
  constructor
  · intro h
    obtain ⟨hgap, hrest, hapart⟩ := h
    refine ⟨hgap, hrest, fun hword => ?_⟩
    exact (startsInWord_text hrest hspelled).mpr fun u hu => hapart u hu hword
  · intro h
    obtain ⟨hgap, hrest, hapart⟩ := h
    exact ⟨hgap, hrest, fun u hu hword =>
      (startsInWord_text hrest hspelled).mp (hapart hword) u hu⟩

/-- Each token of a spaced layout is a piece of its text. -/
theorem readAll_text (hs : l.Spaced) (hspelled : ∀ t ∈ l.tokens, t.Spelled) :
    readAll (pieces l.text) = .ok l.tokens := by
  induction l with
  | last gap =>
      have hgap : pieces gap = [] := pieces_eq_nil_iff.mpr hs.blank_front
      rw [text, hgap]
      rfl
  | token gap t rest ih =>
      have hgap : ∀ c ∈ gap, isBlank c = true := hs.blank_front
      obtain ⟨ht, hrest⟩ := List.forall_mem_cons.mp hspelled
      obtain ⟨-, hspaced, hapart⟩ := (spaced_token_iff hrest).mp hs
      obtain ⟨p, hp, htext, htoken⟩ := ht.exists_piece
      have hbound : p.Bounded gap rest.text :=
        (Token.bounded_iff htoken (endsInWord_of_isBlank hgap)).mpr hapart
      have hpieces := pieces_around hp hbound
      rw [pieces_eq_nil_iff.mpr hgap, List.nil_append, htext, List.append_assoc] at hpieces
      rw [text, hpieces, readAll_cons_of_some htoken, ih hspaced hrest]
      rfl

end Layout

/-- Whatever is read off a text piece by piece can be laid out as that text. -/
theorem exists_layout_of_readAll {cs : List Char} {ts : List Token}
    (h : readAll (pieces cs) = .ok ts) :
    (∀ t ∈ ts, t.Spelled) ∧ ∃ l : Layout, l.tokens = ts ∧ l.text = cs ∧ l.Spaced := by
  induction ts generalizing cs with
  | nil =>
      have hnil : pieces cs = [] := List.map_eq_nil_iff.mp (readAll_eq_ok_iff.mp h)
      exact ⟨by simp, .last cs, rfl, rfl, blank_iff.mpr (pieces_eq_nil_iff.mp hnil)⟩
  | cons t ts ih =>
      obtain ⟨p, ps, hpieces, htoken, hps⟩ := List.map_eq_cons_iff.mp (readAll_eq_ok_iff.mp h)
      obtain ⟨gap, after, rfl, hgap, hp, hbound, rfl⟩ := exists_of_pieces_eq_cons hpieces
      obtain ⟨hspelled, l, rfl, rfl, hl⟩ := ih (readAll_eq_ok_iff.mpr hps)
      obtain ⟨ht, htext⟩ := (Piece.token?_eq_some_iff hp).mp htoken
      have hapart : t.kind.isWord = true → startsInWord l.text = false :=
        (Token.bounded_iff htoken (endsInWord_of_isBlank hgap)).mp hbound
      refine ⟨List.forall_mem_cons.mpr ⟨ht, hspelled⟩, .token gap t l, rfl, ?_, ?_⟩
      · rw [Layout.text, htext, List.append_assoc]
      · exact (Layout.spaced_token_iff hspelled).mpr ⟨blank_iff.mpr hgap, hl, hapart⟩

/-! ## The start of a line -/

/-- The pieces of a text open with a sign and a number if their tokens do. -/
theorem opensSigned_iff {ps : List Piece} {ts : List Token} (h : readAll ps = .ok ts) :
    OpensSigned ps ↔
      ∃ s t rest v, ts = s :: t :: rest ∧ s.kind.isSign = true ∧ t.kind = .number v := by
  have hb := become_of_readAll h
  constructor
  · intro he
    obtain ⟨c, digits, rest, rfl, hc, hd⟩ := he
    obtain ⟨s, us, hs, htail, rfl⟩ := List.forall₂_cons_left_iff.mp hb
    obtain ⟨t, us, ht, -, rfl⟩ := List.forall₂_cons_left_iff.mp htail
    have hsign : s.kind.isSign = true := by
      have hk := TokenKind.ofChar?_eq_some_iff.mp hs
      rw [TokenKind.isSign_iff, hk]
      exact hc.imp (congrArg some) (congrArg some)
    -- a word of digits is no name, and no word is anything else
    have hword := isWord_of_becomes ht
    cases hkind : t.kind with
    | number v => exact ⟨s, t, us, v, rfl, hsign, hkind⟩
    | identifier =>
        rw [hkind] at ht
        exact absurd hd ht
    | _ =>
        rw [hkind] at hword
        cases hword
  · intro he
    obtain ⟨s, t, us, v, rfl, hsign, hkind⟩ := he
    obtain ⟨p, qs, hp, htail, rfl⟩ := List.forall₂_cons_right_iff.mp hb
    obtain ⟨q, qs, hq, -, rfl⟩ := List.forall₂_cons_right_iff.mp htail
    rw [hkind] at hq
    cases p with
    | word run =>
        have hword := isWord_of_becomes hp
        rw [TokenKind.isWord_of_isSign hsign] at hword
        cases hword
    | mark c =>
        have hc : c = '+' ∨ c = '-' := by
          rw [TokenKind.isSign_iff, TokenKind.ofChar?_eq_some_iff.mp hp] at hsign
          exact hsign.imp Option.some.inj Option.some.inj
        cases q with
        | word digits => exact ⟨c, digits, qs, rfl, hc, hq⟩
        | mark d =>
            have hmark := isWord_of_ofChar? hq
            cases hmark

theorem toList_eq_text_iff {line : String} {l : Layout} :
    line.toList = l.text ↔ l.line = line := by
  rw [Layout.line, eq_comm]
  exact ⟨fun h => by rw [h, String.ofList_toList], fun h => by rw [← h, String.toList_ofList]⟩

theorem Layout.text_signed {front gap digits : List Char} {s : Char} {k : TokenKind}
    {rest : Layout} : (token front ⟨k, String.ofList (s :: gap ++ digits)⟩ rest).text
      = front ++ s :: (gap ++ (digits ++ rest.text)) := by
  rw [text, String.toList_ofList]
  simp only [List.cons_append, List.append_assoc]

/-- What is read off a line lies in it as in a layout. -/
theorem layout_of_scan {line : String} {ts : List Token} (h : Token.scan line = .ok ts) :
    Lexical ts ∧ ∃ l : Layout, l.tokens = ts ∧ l.line = line ∧ l.Spaced := by
  by_cases ho : OpensSigned (pieces line.toList)
  · obtain ⟨s, digits, ps, hps, hs, hd⟩ := ho
    obtain ⟨front, gap, after, hline, hn, -⟩ := SignedNumeral.of_pieces hps hs hd
    rw [scan_numeral hline hn] at h
    cases hv : literal? (s = '-') digits with
    | none => rw [hv] at h; cases h
    | some v =>
        rw [hv] at h
        cases hr : readAll (pieces after) with
        | error f => rw [hr] at h; cases h
        | ok us =>
            rw [hr] at h
            cases h
            obtain ⟨hspelled, l, rfl, rfl, hl⟩ := exists_layout_of_readAll hr
            have hvalue := literal?_eq_some_iff.mp hv
            simp only [decide_eq_true_eq] at hvalue
            have hfirst : Token.SignSpelled ⟨.number v, String.ofList (s :: gap ++ digits)⟩ :=
              .number hs (blank_iff.mpr hn.gap) hn.ne_nil hd hvalue
            refine ⟨⟨?_, hspelled, ?_⟩, .token front _ l, rfl, ?_, ?_⟩
            · intro t ht
              cases ht
              exact Or.inr hfirst
            · intro t u rest heq hsign
              obtain ⟨rfl, -⟩ := List.cons.inj heq
              cases hsign
            · exact toList_eq_text_iff.mp (hline.trans Layout.text_signed.symm)
            · exact (Layout.spaced_token_iff hspelled).mpr
                ⟨blank_iff.mpr hn.front, hl, fun _ => hn.after⟩
  · rw [scan_unsigned ho] at h
    obtain ⟨hspelled, l, hl, htext, hspaced⟩ := exists_layout_of_readAll h
    refine ⟨⟨?_, ?_, ?_⟩, l, hl, toList_eq_text_iff.mp htext.symm, hspaced⟩
    · intro t ht
      exact Or.inl (hspelled t (List.mem_of_mem_head? ht))
    · intro t ht
      exact hspelled t (List.mem_of_mem_tail ht)
    · intro s t rest hts hsign v hv
      exact ho ((opensSigned_iff h).mpr ⟨s, t, rest, v, hts, hsign, hv⟩)

/-- What is laid out is read again. -/
theorem scan_line {l : Layout} (hl : Lexical l.tokens) (hs : l.Spaced) :
    Token.scan l.line = .ok l.tokens := by
  have htext : l.line.toList = l.text := toList_eq_text_iff.mpr rfl
  by_cases hspelled : ∀ t ∈ l.tokens, t.Spelled
  · have hread := Layout.readAll_text hs hspelled
    have hunsigned : ¬ OpensSigned (pieces l.line.toList) := by
      rw [htext, opensSigned_iff hread]
      intro he
      obtain ⟨s, t, rest, v, hts, hsign, hv⟩ := he
      exact hl.sign s t rest hts hsign v hv
    rw [scan_unsigned hunsigned, htext, hread]
  · -- only the first token can be spelled differently
    cases l with
    | last gap => exact absurd (fun t ht => by cases ht) hspelled
    | token front t rest =>
        have hrest : ∀ u ∈ rest.tokens, u.Spelled := hl.others
        rcases hl.first t rfl with ht | ht
        · exact absurd (List.forall_mem_cons.mpr ⟨ht, hrest⟩) hspelled
        · obtain ⟨hfront, hspaced, hapart⟩ := (Layout.spaced_token_iff hrest).mp hs
          have hread := Layout.readAll_text hspaced hrest
          cases ht with
          | @number s gap digits v hsign hgap hne hdigits hvalue =>
              have hn : SignedNumeral front s gap digits rest.text :=
                ⟨blank_iff.mp hfront, hsign, blank_iff.mp hgap, hne, hdigits, hapart rfl⟩
              have hv : literal? (s = '-') digits = some v := by
                simp only [literal?_eq_some_iff, decide_eq_true_eq]
                exact hvalue
              rw [scan_numeral (htext.trans Layout.text_signed) hn, hv, hread]
              rfl

/-- **A line has the tokens that it can be laid out with.** -/
theorem scan_eq_ok_iff {line : String} {ts : List Token} :
    Token.scan line = .ok ts ↔
      Lexical ts ∧ ∃ l : Layout, l.tokens = ts ∧ l.line = line ∧ l.Spaced := by
  constructor
  · exact layout_of_scan
  · intro h
    obtain ⟨hl, l, rfl, rfl, hs⟩ := h
    exact scan_line hl hs

/-! ## Counting the equal signs -/

theorem Lexical.count_equal {ts : List Token} (h : Lexical ts) {t : Token} (ht : t ∈ ts) :
    t.lexeme.toList.count '=' = if t.kind.isEqual = true then 1 else 0 := by
  cases ts with
  | nil => cases ht
  | cons u us =>
      rcases List.mem_cons.mp ht with rfl | ht
      · rcases h.first t rfl with hspelled | hsigned
        · exact hspelled.count_equal
        · exact hsigned.count_equal
      · exact (h.others t ht).count_equal

theorem Layout.Spaced.count_equal_front {l : Layout} (hs : l.Spaced) : l.front.count '=' = 0 := by
  rw [List.count_eq_zero]
  intro he
  cases hs.blank_front '=' he

/-- Every `=` of a text is a token, and stands in no gap. -/
theorem Layout.count_equal_text {l : Layout} (hs : l.Spaced)
    (h : ∀ t ∈ l.tokens, t.lexeme.toList.count '=' = if t.kind.isEqual = true then 1 else 0) :
    l.text.count '=' = l.tokens.countP fun t => t.kind.isEqual := by
  induction l with
  | last gap => exact hs.count_equal_front
  | token gap t rest ih =>
      have hgap : gap.count '=' = 0 := hs.count_equal_front
      obtain ⟨ht, hrest⟩ := List.forall_mem_cons.mp h
      rw [text, tokens, List.count_append, List.count_append, ht, ih hs.2.1 hrest,
        List.countP_cons, hgap, Nat.zero_add, Nat.add_comm]

theorem count_equal_of_scan {line : String} {ts : List Token} (h : Token.scan line = .ok ts) :
    Line.equalSigns line = ts.countP fun t => t.kind.isEqual := by
  obtain ⟨hl, l, rfl, rfl, hs⟩ := scan_eq_ok_iff.mp h
  rw [Line.equalSigns, toList_eq_text_iff.mpr rfl]
  exact Layout.count_equal_text hs fun t ht => hl.count_equal ht

/-! ## The theorems -/

theorem Token.scan_eq_ok_iff_items {line : String} {ts : List Token} :
    Token.scan line = .ok ts ↔ (TokenStream.ofLine line).items = ts.map .ok := by
  rw [Token.scan, Fault.mapM_eq_ok_iff, List.map_id]

/-- The tokens are those of the line, and nothing else is in it but blanks. -/
structure LaidOut (line : String) (ts : List Token) : Prop where
  lexical : Lexical ts
  layout : ∃ l : Layout, l.tokens = ts ∧ l.line = line ∧ l.Spaced
  equalSigns : (ts.countP fun t => t.kind.isEqual) = line.toList.count '='

/--
**Reading loses nothing.** The stream of a line yields the tokens `ts` and no fault exactly if the
line is laid out with them:

1. each lexeme spells its token, where the first token may be a number with a sign in front, and a
   first token that is a sign by itself is in front of no number;
2. the line is the lexemes with blanks in front of, between and behind them, and between two words
   there are some;
3. there are as many tokens `=` as characters.
-/
theorem stream_yields_iff_laidOut (line : String) (ts : List Token) :
    (TokenStream.ofLine line).items = ts.map .ok ↔ LaidOut line ts := by
  rw [← Token.scan_eq_ok_iff_items]
  constructor
  · intro h
    obtain ⟨hl, hlayout⟩ := scan_eq_ok_iff.mp h
    exact ⟨hl, hlayout, (count_equal_of_scan h).symm⟩
  · intro h
    exact scan_eq_ok_iff.mpr ⟨h.lexical, h.layout⟩

/--
**Blanks do not matter.** If a line has tokens, then every line that these tokens are spaced out to
has the same tokens, lexemes and all. It therefore has the same outcome and leaves the same
variables.
-/
theorem spaced_out_tokens {line : String} {ts : List Token} {l : Layout}
    (h : Line.tokens line = .ok ts) (hl : l.tokens = ts) (hs : l.Spaced) :
    Line.tokens l.line = .ok ts ∧ ∀ b, Line.evaluate b l.line = Line.evaluate b line := by
  obtain ⟨hequals, hscan, hclash, hends⟩ := Line.tokens_eq_ok_iff.mp h
  obtain ⟨hlexical, -⟩ := scan_eq_ok_iff.mp hscan
  have hscan' : Token.scan l.line = .ok ts := scan_eq_ok_iff.mpr ⟨hlexical, l, hl, rfl, hs⟩
  -- the checks see tokens only, and these have all the `=` there are
  have hcount : Line.equalSigns l.line = Line.equalSigns line := by
    rw [count_equal_of_scan hscan', count_equal_of_scan hscan]
  have htokens : Line.tokens l.line = .ok ts := by
    refine Line.tokens_eq_ok_iff.mpr ⟨?_, hscan', hclash, ?_⟩
    · rw [hcount]
      exact hequals
    · rw [hcount]
      exact hends
  refine ⟨htokens, fun b => ?_⟩
  rw [Line.evaluate, Line.evaluate, htokens, h]

theorem signed_remainder_spaced_out :
    ∃ l : Layout, l.line = "\t- 7% \r3" ∧ l.Spaced ∧
      l.tokens = [⟨.number (-7), "- 7"⟩, ⟨.percent, "%"⟩, ⟨.number 3, "3"⟩] ∧
      Line.tokens "- 7 % 3 " = .ok l.tokens ∧ Line.tokens l.line = .ok l.tokens ∧
      ∀ b, Line.evaluate b l.line = Line.evaluate b "- 7 % 3 " := by
  have hopens : SignedNumeral [] '-' [' '] ['7'] " % 3 ".toList :=
    ⟨List.forall_mem_nil _, Or.inr rfl, List.forall_mem_singleton.mpr rfl, by simp,
      List.forall_mem_singleton.mpr rfl, rfl⟩
  have hscan : Token.scan "- 7 % 3 "
      = .ok [⟨.number (-7), "- 7"⟩, ⟨.percent, "%"⟩, ⟨.number 3, "3"⟩] := by
    rw [scan_numeral rfl hopens]
    rfl
  have h : Line.tokens "- 7 % 3 "
      = .ok [⟨.number (-7), "- 7"⟩, ⟨.percent, "%"⟩, ⟨.number 3, "3"⟩] := by
    rw [Line.tokens, hscan]
    rfl
  have hs : Layout.Spaced (.token ['\t'] ⟨.number (-7), "- 7"⟩ (.token [] ⟨.percent, "%"⟩
      (.token [' ', '\r'] ⟨.number 3, "3"⟩ (.last [])))) := by
    simp [Layout.Spaced, Blank, Layout.tokens, TokenKind.isWord]
  exact ⟨_, by decide, hs, rfl, h, spaced_out_tokens h rfl hs⟩

end LineCalc
