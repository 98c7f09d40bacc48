import LineCalc.Proofs.PieceRules

/-!
# Which lines have tokens

`WellSpelled` says of the characters of a line, without any tokens, that the line will have
some: which characters there may be, how large a number, what may not stand side by side,
and what a line without `=` may end in.

Each rule is one on the pieces of the line, and a piece is a place in the text. So a rule on
places holds exactly if the rule on pieces does, and the tokens are known from there.
-/

namespace LineCalc

/-! ## The rules, on characters -/

def Blank (gap : List Char) : Prop := ∀ c ∈ gap, c = ' ' ∨ c = '\t' ∨ c = '\r'

/-- A maximal block of ASCII letters and digits, between what comes before and after it. -/
structure IsRun (before run after : List Char) : Prop where
  ne_nil : run ≠ []
  alphanum : ∀ c ∈ run, c.isAlphanum = true
  left : ∀ c ∈ before.getLast?, c.isAlphanum = false
  right : ∀ c ∈ after.head?, c.isAlphanum = false

/-- A run of digits. -/
def IsNumeral (before run after : List Char) : Prop :=
  IsRun before run after ∧ ∀ c ∈ run, c.isDigit = true

/-- What the characters of a line have to be like for it to have tokens. -/
structure WellSpelled (cs : List Char) : Prop where
  equals : cs.count '=' ≤ 1
  characters : ∀ c ∈ cs, c.isAlphanum = true ∨ Blank [c] ∨
    c ∈ ['+', '-', '*', '/', '%', '(', ')', '=']
  /-- A number fits, and the sign that opens the line makes room for one more. -/
  range : ∀ before run after, cs = before ++ run ++ after → IsNumeral before run after →
    Nat.ofDigitChars 10 run 0 ≤ 2 ^ 63 - 1 ∨
      Nat.ofDigitChars 10 run 0 = 2 ^ 63 ∧
        ∃ gap gap', Blank gap ∧ Blank gap' ∧ before = gap ++ '-' :: gap'
  doubled : ∀ before gap after, ∀ c ∈ ['*', '/', '%'],
    cs = before ++ c :: gap ++ c :: after → ¬ Blank gap
  adjacent : ∀ before run gap run' after, cs = before ++ run ++ gap ++ run' ++ after →
    IsNumeral before run (gap ++ run' ++ after) → IsNumeral (before ++ run ++ gap) run' after →
      ¬ Blank gap
  ending : '=' ∉ cs → ∀ before c gap, cs = before ++ c :: gap → Blank gap → ¬ Blank [c] →
    c.isAlphanum = true ∨ c = ')'

theorem isBlank_iff {c : Char} : isBlank c = true ↔ c = ' ' ∨ c = '\t' ∨ c = '\r' := by
  simp [isBlank, or_assoc]

theorem blank_iff {gap : List Char} : Blank gap ↔ ∀ c ∈ gap, isBlank c = true := by
  simp only [Blank, isBlank_iff]

theorem blank_nil : Blank [] := List.forall_mem_nil _

theorem blank_append {xs ys : List Char} : Blank (xs ++ ys) ↔ Blank xs ∧ Blank ys :=
  List.forall_mem_append

theorem blank_singleton {c : Char} : Blank [c] ↔ isBlank c = true := by
  simp [blank_iff]

theorem endsInWord_eq_false_iff {cs : List Char} :
    endsInWord cs = false ↔ ∀ c ∈ cs.getLast?, c.isAlphanum = false := by
  unfold endsInWord
  cases cs.getLast? <;> simp

theorem startsInWord_eq_false_iff {cs : List Char} :
    startsInWord cs = false ↔ ∀ c ∈ cs.head?, c.isAlphanum = false := by
  unfold startsInWord
  cases cs.head? <;> simp

theorem isRun_iff {before run after : List Char} :
    IsRun before run after ↔
      (Piece.word run).Proper ∧ (Piece.word run).Bounded before after := by
  refine ⟨fun h => ?_, fun h => ?_⟩
  · obtain ⟨hne, ha, hl, hr⟩ := h
    exact ⟨⟨hne, ha⟩, endsInWord_eq_false_iff.mpr hl, startsInWord_eq_false_iff.mpr hr⟩
  · obtain ⟨⟨hne, ha⟩, hl, hr⟩ := h
    exact ⟨hne, ha, endsInWord_eq_false_iff.mp hl, startsInWord_eq_false_iff.mp hr⟩

/-! ## The rules, on pieces -/

theorem pieces_eq_singleton_mark_iff {c : Char} (hc : (Piece.mark c).Proper) {cs : List Char} :
    pieces cs = [.mark c] ↔ ∃ gap gap', Blank gap ∧ Blank gap' ∧ cs = gap ++ c :: gap' := by
  refine ⟨fun h => ?_, fun he => ?_⟩
  · obtain ⟨gap, gap', rfl, hg, -, -, hg'⟩ := exists_of_pieces_eq_cons h
    refine ⟨gap, gap', blank_iff.mpr hg, blank_iff.mpr (pieces_eq_nil_iff.mp hg'), ?_⟩
    rw [Piece.text, List.append_assoc, List.singleton_append]
  · obtain ⟨gap, gap', hg, hg', rfl⟩ := he
    rw [pieces_gap (blank_iff.mp hg), pieces_mark hc, pieces_eq_nil_iff.mpr (blank_iff.mp hg')]

theorem mark_mem_pieces_iff {c : Char} {cs : List Char} :
    .mark c ∈ pieces cs ↔ c ∈ cs ∧ (Piece.mark c).Proper := by
  rw [mem_pieces_iff]
  refine ⟨fun h => ?_, fun h => ?_⟩
  · obtain ⟨before, after, rfl, hp, -⟩ := h
    exact ⟨by simp [Piece.text], hp⟩
  · obtain ⟨hc, hp⟩ := h
    obtain ⟨before, after, rfl⟩ := List.append_of_mem hc
    exact ⟨before, after, by simp [Piece.text], hp, trivial⟩

/-- Every character that is no letter, digit or blank has to be a token by itself. -/
theorem marks_iff {cs : List Char} :
    (∀ c, .mark c ∈ pieces cs → (TokenKind.ofChar? c).isSome = true) ↔
      ∀ c ∈ cs, c.isAlphanum = true ∨ Blank [c] ∨
        c ∈ ['+', '-', '*', '/', '%', '(', ')', '='] := by
  simp only [mark_mem_pieces_iff, ofChar?_isSome_iff, blank_singleton]
  refine forall_congr' fun c => ⟨fun h hc => ?_, fun h ⟨hc, hp⟩ => ?_⟩
  · by_cases ha : c.isAlphanum = true
    · exact Or.inl ha
    · by_cases hb : isBlank c = true
      · exact Or.inr (Or.inl hb)
      · exact Or.inr (Or.inr (h ⟨hc, by simpa using hb, by simpa using ha⟩))
  · rcases h hc with ha | hb | hm
    · rw [hp.2] at ha
      cases ha
    · rw [hp.1] at hb
      cases hb
    · exact hm

/-- What stands in front of a number is a `-` alone if the pieces in front of it are. -/
theorem fits_pieces_iff {before digits : List Char} :
    Fits (pieces before) digits ↔
      Nat.ofDigitChars 10 digits 0 ≤ 2 ^ 63 - 1 ∨
        Nat.ofDigitChars 10 digits 0 = 2 ^ 63 ∧
          ∃ gap gap', Blank gap ∧ Blank gap' ∧ before = gap ++ '-' :: gap' := by
  rw [Fits, pieces_eq_singleton_mark_iff ⟨rfl, rfl⟩]

theorem numbers_iff {cs : List Char} :
    (∀ before digits after, pieces cs = before ++ .word digits :: after →
      (∀ c ∈ digits, c.isDigit = true) → Fits before digits) ↔
    ∀ before run after, cs = before ++ run ++ after → IsNumeral before run after →
      Fits (pieces before) run := by
  constructor
  · intro h before run after he hex
    subst he
    obtain ⟨hrun, hd⟩ := hex
    obtain ⟨hp, hb⟩ := isRun_iff.mp hrun
    exact h (pieces before) run (pieces after) (pieces_around hp hb) hd
  · intro h before digits after hps hd
    obtain ⟨front, back, hcs, hp, hb, rfl, -⟩ := exists_of_pieces_eq_append hps
    exact h front digits back hcs ⟨isRun_iff.mpr ⟨hp, hb⟩, hd⟩

theorem legible_pieces_iff {cs : List Char} :
    Legible (pieces cs) ↔
      (∀ c ∈ cs, c.isAlphanum = true ∨ Blank [c] ∨
        c ∈ ['+', '-', '*', '/', '%', '(', ')', '=']) ∧
      ∀ before run after, cs = before ++ run ++ after → IsNumeral before run after →
        Nat.ofDigitChars 10 run 0 ≤ 2 ^ 63 - 1 ∨
          Nat.ofDigitChars 10 run 0 = 2 ^ 63 ∧
            ∃ gap gap', Blank gap ∧ Blank gap' ∧ before = gap ++ '-' :: gap' := by
  rw [Legible, marks_iff, numbers_iff]
  simp only [fits_pieces_iff]

/-! ## Neighbours -/

theorem proper_of_doubled {c : Char} (h : c ∈ ['*', '/', '%']) : (Piece.mark c).Proper := by
  simp only [List.mem_cons, List.not_mem_nil, or_false] at h
  rcases h with rfl | rfl | rfl <;> exact ⟨rfl, rfl⟩

/-- Some two characters or two numbers of the text clash if some two of its pieces do. -/
theorem hasClash_pieces_iff {cs : List Char} :
    HasClash (pieces cs) ↔
      (∃ before gap after, ∃ c ∈ ['*', '/', '%'],
        cs = before ++ c :: gap ++ c :: after ∧ Blank gap) ∨
      ∃ before run gap run' after, cs = before ++ run ++ gap ++ run' ++ after ∧
        IsNumeral before run (gap ++ run' ++ after) ∧
        IsNumeral (before ++ run ++ gap) run' after ∧ Blank gap := by
  refine ⟨fun he => ?_, fun he => ?_⟩
  · obtain ⟨ps, p, q, qs, h, hclash⟩ := he
    obtain ⟨before, gap, after, rfl, hg, hp, hq, hpb, hqb⟩ :=
      pieces_eq_append_pair_iff.mp ⟨ps, qs, h⟩
    -- only like pieces clash
    cases p with
    | mark c =>
        cases q with
        | mark d =>
            obtain ⟨rfl, hc⟩ := hclash
            refine Or.inl ⟨before, gap, after, c, hc, ?_, blank_iff.mpr hg⟩
            simp [Piece.text]
        | word run' => exact hclash.elim
    | word run =>
        cases q with
        | mark d => exact hclash.elim
        | word run' =>
            obtain ⟨hd, hd'⟩ := hclash
            exact Or.inr ⟨before, run, gap, run', after, rfl, ⟨isRun_iff.mpr ⟨hp, hpb⟩, hd⟩,
              ⟨isRun_iff.mpr ⟨hq, hqb⟩, hd'⟩, blank_iff.mpr hg⟩
  · rcases he with ⟨before, gap, after, c, hc, rfl, hg⟩ |
      ⟨before, run, gap, run', after, rfl, ⟨hrun, hd⟩, ⟨hrun', hd'⟩, hg⟩
    · have hp := proper_of_doubled hc
      obtain ⟨ps, qs, hps⟩ := pieces_eq_append_pair_iff.mpr
        ⟨before, gap, after, rfl, blank_iff.mp hg, hp, hp, trivial, trivial⟩
      refine ⟨ps, .mark c, .mark c, qs, ?_, rfl, hc⟩
      rw [← hps]
      simp [Piece.text]
    · obtain ⟨hp, hpb⟩ := isRun_iff.mp hrun
      obtain ⟨hq, hqb⟩ := isRun_iff.mp hrun'
      obtain ⟨ps, qs, hps⟩ := pieces_eq_append_pair_iff.mpr
        ⟨before, gap, after, rfl, blank_iff.mp hg, hp, hq, hpb, hqb⟩
      exact ⟨ps, .word run, .word run', qs, hps, hd, hd'⟩

/-! ## The end of the line -/

/-- The last piece is the last character that is not blank, or the word that it ends. -/
theorem endsOpen_pieces_iff {cs : List Char} :
    (∃ p ∈ (pieces cs).getLast?, ¬ p.MayEnd) ↔
      ∃ before c gap, cs = before ++ c :: gap ∧ Blank gap ∧ ¬ Blank [c] ∧
        ¬ (c.isAlphanum = true ∨ c = ')') := by
  refine ⟨fun h => ?_, fun h => ?_⟩
  · obtain ⟨p, hp, hend⟩ := h
    obtain ⟨ps, hps⟩ := List.getLast?_eq_some_iff.mp hp
    obtain ⟨before, gap, rfl, hproper, -, -, hgap⟩ := exists_of_pieces_eq_append hps
    cases p with
    | word run => exact absurd trivial hend
    | mark c =>
        refine ⟨before, c, gap, ?_, blank_iff.mpr (pieces_eq_nil_iff.mp hgap), ?_, ?_⟩
        · rw [Piece.text, List.append_assoc, List.singleton_append]
        · rw [blank_singleton, hproper.1]
          simp
        · intro h
          rcases h with ha | rfl
          · rw [hproper.2] at ha
            cases ha
          · exact hend rfl
  · obtain ⟨before, c, gap, rfl, hg, hb, hc⟩ := h
    rw [blank_singleton, Bool.not_eq_true] at hb
    rw [not_or, Bool.not_eq_true] at hc
    have hproper : (Piece.mark c).Proper := ⟨hb, hc.1⟩
    have hps : pieces (before ++ [c] ++ gap) = pieces before ++ .mark c :: pieces gap :=
      pieces_around hproper trivial
    rw [pieces_eq_nil_iff.mpr (blank_iff.mp hg), List.append_assoc, List.singleton_append] at hps
    exact ⟨.mark c, by rw [hps]; simp, hc.2⟩

/-! ## The theorem -/

theorem wellSpelled_iff {cs : List Char} :
    WellSpelled cs ↔ cs.count '=' ≤ 1 ∧ Legible (pieces cs) ∧ ¬ HasClash (pieces cs) ∧
      (cs.count '=' = 0 → ¬ ∃ p ∈ (pieces cs).getLast?, ¬ p.MayEnd) := by
  rw [legible_pieces_iff, hasClash_pieces_iff, endsOpen_pieces_iff]
  refine ⟨fun he => ?_, fun he => ?_⟩
  · obtain ⟨hequals, hchars, hrange, hdoubled, hadjacent, hending⟩ := he
    refine ⟨hequals, ⟨hchars, hrange⟩, ?_, ?_⟩
    · intro hclash
      rcases hclash with ⟨before, gap, after, c, hc, hcs, hg⟩ |
        ⟨before, run, gap, run', after, hcs, h, h', hg⟩
      · exact hdoubled before gap after c hc hcs hg
      · exact hadjacent before run gap run' after hcs h h' hg
    · intro hzero hopen
      obtain ⟨before, c, gap, hcs, hg, hb, hc⟩ := hopen
      exact hc (hending (List.count_eq_zero.mp hzero) before c gap hcs hg hb)
  · obtain ⟨hequals, ⟨hchars, hrange⟩, hclash, hending⟩ := he
    refine ⟨hequals, hchars, hrange, ?_, ?_, ?_⟩
    · intro before gap after c hc hcs hg
      exact hclash (Or.inl ⟨before, gap, after, c, hc, hcs, hg⟩)
    · intro before run gap run' after hcs h h' hg
      exact hclash (Or.inr ⟨before, run, gap, run', after, hcs, h, h', hg⟩)
    · intro hno before c gap hcs hg hb
      by_contra hc
      exact hending (List.count_eq_zero.mpr hno) ⟨before, c, gap, hcs, hg, hb, hc⟩

theorem tokens_ok_iff {line : String} :
    (∃ ts, Line.tokens line = .ok ts) ↔ WellSpelled line.toList := by
  rw [wellSpelled_iff, ← scan_ok_iff]
  refine ⟨fun h => ?_, fun h => ?_⟩
  · obtain ⟨ts, hts⟩ := h
    obtain ⟨hequals, hscan, hclash, hends⟩ := Line.tokens_eq_ok_iff.mp hts
    obtain ⟨ps, hb, hclash_iff, hlast⟩ := become_of_scan hscan
    rw [hclash_iff, hlast, ← Line.hasClash_iff hb, ← Line.endsOpen_iff hb]
    refine ⟨hequals, ⟨ts, hscan⟩, by rw [hclash]; simp, fun hzero => ?_⟩
    rw [hends hzero]
    simp
  · obtain ⟨hequals, ⟨ts, hscan⟩, hclash, hends⟩ := h
    obtain ⟨ps, hb, hclash_iff, hlast⟩ := become_of_scan hscan
    rw [hclash_iff, ← Line.hasClash_iff hb, Bool.not_eq_true] at hclash
    rw [hlast, ← Line.endsOpen_iff hb, Bool.not_eq_true] at hends
    exact ⟨ts, Line.tokens_eq_ok_iff.mpr ⟨hequals, hscan, hclash, hends⟩⟩

/--
**The lines that have tokens.** For every line:

1. it has tokens exactly if its characters are well spelled;
2. if it has none, it is a faulty assignment exactly if it has several `=`;
3. and a faulty expression exactly if it is misspelt otherwise.
-/
theorem tokens_iff_wellSpelled (line : String) :
    ((∃ ts, Line.tokens line = .ok ts) ↔ WellSpelled line.toList) ∧
    (Line.tokens line = .error .assignment ↔ 2 ≤ line.toList.count '=') ∧
    (Line.tokens line = .error .expression ↔
      ¬ WellSpelled line.toList ∧ line.toList.count '=' ≤ 1) := by
  refine ⟨tokens_ok_iff, ⟨fun h => ?_, fun h => ?_⟩, ⟨fun h => ?_, fun h => ?_⟩⟩
  · rcases Line.tokens_eq_error h with ⟨hequals, -⟩ | ⟨-, hf⟩
    · exact hequals
    · cases hf
  · have hequals : 1 < Line.equalSigns line := h
    rw [Line.tokens, if_pos hequals]
  · rcases Line.tokens_eq_error h with ⟨-, hf⟩ | ⟨hequals, -⟩
    · cases hf
    · refine ⟨fun hw => ?_, hequals⟩
      obtain ⟨ts, hts⟩ := tokens_ok_iff.mpr hw
      rw [hts] at h
      cases h
  · obtain ⟨hw, hequals⟩ := h
    cases htokens : Line.tokens line with
    | ok ts => exact absurd (tokens_ok_iff.mp ⟨ts, htokens⟩) hw
    | error f =>
        rcases Line.tokens_eq_error htokens with ⟨htwo, -⟩ | ⟨-, hf⟩
        · have hone : Line.equalSigns line ≤ 1 := hequals
          omega
        · rw [hf]

end LineCalc
