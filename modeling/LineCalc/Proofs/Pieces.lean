import LineCalc.Token.Stream

/-!
# The pieces of a text

Whatever a line means, its text falls into words, which are the maximal runs of letters
and digits, single other characters, and blanks. `pieces` lists the words and the other
characters in order.

What makes pieces easy to work with is that they can be taken apart anywhere but inside a
word: `pieces_append`. So a piece of the list is a place in the text with nothing of its
word on either side (`pieces_around`), and conversely (`exists_of_pieces_eq_append`).
-/

namespace LineCalc

/-- A run of letters and digits, or any other character that is not blank. -/
inductive Piece where
  | word (run : List Char)
  | mark (c : Char)
  deriving DecidableEq, Repr

/-- The first character of the text is a letter or a digit. -/
def startsInWord (cs : List Char) : Bool := cs.head?.any Char.isAlphanum

/-- The last character of the text is a letter or a digit. -/
def endsInWord (cs : List Char) : Bool := cs.getLast?.any Char.isAlphanum

/-- The words and the other characters of a text, without the blanks. -/
def pieces : List Char → List Piece
  | [] => []
  | c :: cs =>
      if isBlank c then pieces cs
      else if c.isAlphanum then
        match startsInWord cs, pieces cs with
        | true, .word run :: ps => .word (c :: run) :: ps
        | _, ps => .word [c] :: ps
      else .mark c :: pieces cs

namespace Piece

def text : Piece → List Char
  | word run => run
  | mark c => [c]

/-- The text of a piece is one. -/
def Proper : Piece → Prop
  | word run => run ≠ [] ∧ ∀ c ∈ run, c.isAlphanum = true
  | mark c => isBlank c = false ∧ c.isAlphanum = false

/-- The piece does not go on in the text in front of it or behind it. -/
def Bounded (p : Piece) (before after : List Char) : Prop :=
  match p with
  | word _ => endsInWord before = false ∧ startsInWord after = false
  | mark _ => True

end Piece

/-! ## Where words start and end -/

theorem isAlphanum_of_isBlank {c : Char} (h : isBlank c = true) : c.isAlphanum = false := by
  simp only [isBlank, Bool.or_eq_true, decide_eq_true_eq] at h
  rcases h with (rfl | rfl) | rfl <;> decide

theorem isAlphanum_of_isDigit {c : Char} (h : c.isDigit = true) : c.isAlphanum = true := by
  rw [Char.isAlphanum, h, Bool.or_true]

/-- Letters are no digits. -/
theorem isDigit_eq_false_of_isAlpha {c : Char} (h : c.isAlpha = true) : c.isDigit = false := by
  rw [← Bool.not_eq_true, Char.isDigit_iff_toNat]
  intro hd
  have hcase : (decide (c.val ≥ 'A'.val ∧ c.val ≤ 'Z'.val) ||
      decide (c.val ≥ 'a'.val) && decide (c.val ≤ 'z'.val)) = true := h
  simp [UInt32.le_iff_toNat_le] at hcase hd
  omega

/-- A variable's name is a word. -/
theorem proper_of_isVariableName {name : String} (h : isVariableName name = true) :
    (Piece.word name.toList).Proper := by
  obtain ⟨hne, hletters⟩ := isVariableName_iff.mp h
  refine ⟨hne, fun c hc => ?_⟩
  rw [Char.isAlphanum, hletters c hc, Bool.true_or]

/-- It is no number: there is a letter in it. -/
theorem not_digits_of_isVariableName {name : String} (h : isVariableName name = true) :
    ¬ ∀ c ∈ name.toList, c.isDigit = true := by
  intro hdigits
  obtain ⟨hne, hletters⟩ := isVariableName_iff.mp h
  obtain ⟨c, hc⟩ := List.exists_mem_of_ne_nil _ hne
  have hdigit := hdigits c hc
  rw [isDigit_eq_false_of_isAlpha (hletters c hc)] at hdigit
  cases hdigit

@[simp] theorem startsInWord_cons (c : Char) (cs : List Char) :
    startsInWord (c :: cs) = c.isAlphanum := rfl

@[simp] theorem endsInWord_append_singleton (cs : List Char) (c : Char) :
    endsInWord (cs ++ [c]) = c.isAlphanum := by
  simp [endsInWord]

theorem endsInWord_append {xs ys : List Char} (h : ys ≠ []) :
    endsInWord (xs ++ ys) = endsInWord ys := by
  rw [endsInWord, List.getLast?_append, List.getLast?_eq_some_getLast h, Option.some_or,
    endsInWord, List.getLast?_eq_some_getLast h]

theorem endsInWord_cons {c : Char} {cs : List Char} (h : cs ≠ []) :
    endsInWord (c :: cs) = endsInWord cs := by
  show endsInWord ([c] ++ cs) = endsInWord cs
  rw [endsInWord_append h]

theorem startsInWord_append_eq_false {xs ys : List Char} (h : startsInWord (xs ++ ys) = false) :
    startsInWord xs = false := by
  cases xs with
  | nil => rfl
  | cons x xs => exact h

theorem endsInWord_of_isBlank {gap : List Char} (hg : ∀ c ∈ gap, isBlank c = true) :
    endsInWord gap = false := by
  cases h : gap.getLast? with
  | none => simp [endsInWord, h]
  | some c =>
      simp only [endsInWord, h, Option.any_some]
      exact isAlphanum_of_isBlank (hg c (List.mem_of_getLast? h))

/-! ## Pieces one by one -/

theorem pieces_blank {c : Char} (h : isBlank c = true) (cs : List Char) :
    pieces (c :: cs) = pieces cs := by
  rw [pieces, if_pos h]

theorem pieces_mark {c : Char} (h : (Piece.mark c).Proper) (cs : List Char) :
    pieces (c :: cs) = .mark c :: pieces cs := by
  rw [pieces, if_neg (by rw [h.1]; simp), if_neg (by rw [h.2]; simp)]

theorem isBlank_of_isAlphanum {c : Char} (h : c.isAlphanum = true) : isBlank c = false := by
  cases hb : isBlank c with
  | false => rfl
  | true => rw [isAlphanum_of_isBlank hb] at h; cases h

/-- A letter or digit with no other behind it is a word. -/
theorem pieces_letter {c : Char} (h : c.isAlphanum = true) {cs : List Char}
    (hs : startsInWord cs = false) : pieces (c :: cs) = .word [c] :: pieces cs := by
  rw [pieces, if_neg (by rw [isBlank_of_isAlphanum h]; simp), if_pos h, hs]

/-- A letter or digit joins the word behind it. -/
theorem pieces_join {c : Char} (h : c.isAlphanum = true) {cs run : List Char} {ps : List Piece}
    (hs : startsInWord cs = true) (hp : pieces cs = .word run :: ps) :
    pieces (c :: cs) = .word (c :: run) :: ps := by
  rw [pieces, if_neg (by rw [isBlank_of_isAlphanum h]; simp), if_pos h, hs, hp]

theorem pieces_of_startsInWord {cs : List Char} (h : startsInWord cs = true) :
    ∃ run ps, pieces cs = .word run :: ps := by
  induction cs with
  | nil => cases h
  | cons c cs ih =>
      cases hs : startsInWord cs with
      | false => exact ⟨_, _, pieces_letter h hs⟩
      | true =>
          obtain ⟨run, ps, hp⟩ := ih hs
          exact ⟨_, _, pieces_join h hs hp⟩

theorem pieces_gap {gap : List Char} (h : ∀ c ∈ gap, isBlank c = true) (cs : List Char) :
    pieces (gap ++ cs) = pieces cs := by
  induction gap with
  | nil => rfl
  | cons c gap ih =>
      rw [List.cons_append, pieces_blank (h c List.mem_cons_self),
        ih fun d hd => h d (List.mem_cons_of_mem _ hd)]

/-- Blanks have no pieces, and nothing else has none. -/
theorem pieces_eq_nil_iff {gap : List Char} : pieces gap = [] ↔ ∀ c ∈ gap, isBlank c = true := by
  induction gap with
  | nil => simp [pieces]
  | cons c gap ih =>
      rw [List.forall_mem_cons, ← ih]
      by_cases hb : isBlank c = true
      · rw [pieces_blank hb]
        exact ⟨fun h => ⟨hb, h⟩, And.right⟩
      · refine ⟨fun h => ?_, fun h => absurd h.1 hb⟩
        rw [pieces, if_neg hb] at h
        split at h
        · split at h <;> cases h
        · cases h

/-! ## Taking a text apart -/

/-- **A text may be cut anywhere but inside a word.** -/
theorem pieces_append (xs ys : List Char) (h : endsInWord xs = false ∨ startsInWord ys = false) :
    pieces (xs ++ ys) = pieces xs ++ pieces ys := by
  induction xs with
  | nil => rfl
  | cons c xs ih =>
      -- a text of one character ends in a word if that one is part of it, and a longer one if its
      -- rest does
      have ih : pieces (xs ++ ys) = pieces xs ++ pieces ys := by
        by_cases hx : xs = []
        · rw [hx]; rfl
        · exact ih (by rwa [endsInWord_cons hx] at h)
      rw [List.cons_append]
      by_cases hb : isBlank c = true
      · rw [pieces_blank hb, pieces_blank hb, ih]
      · rw [Bool.not_eq_true] at hb
        by_cases ha : c.isAlphanum = true
        · cases hs : startsInWord xs with
          | false =>
              -- `c` is the last of its word in `xs`, and so it is with `ys` behind
              have hs' : startsInWord (xs ++ ys) = false := by
                cases xs with
                | nil =>
                    rcases h with h | h
                    · rw [show endsInWord [c] = c.isAlphanum from rfl, ha] at h
                      cases h
                    · exact h
                | cons x xs => exact hs
              rw [pieces_letter ha hs', pieces_letter ha hs, ih, List.cons_append]
          | true =>
              obtain ⟨run, ps, hp⟩ := pieces_of_startsInWord hs
              have hs' : startsInWord (xs ++ ys) = true := by
                cases xs with
                | nil => cases hs
                | cons x xs => exact hs
              rw [pieces_join ha hs hp,
                pieces_join ha hs' (by rw [ih, hp, List.cons_append]), List.cons_append]
        · rw [Bool.not_eq_true] at ha
          rw [pieces_mark ⟨hb, ha⟩, pieces_mark ⟨hb, ha⟩, ih, List.cons_append]

/-- A run of letters and digits is one piece. -/
theorem pieces_run {run : List Char} (hr : run ≠ []) (ha : ∀ c ∈ run, c.isAlphanum = true) :
    pieces run = [.word run] := by
  induction run with
  | nil => exact absurd rfl hr
  | cons c run ih =>
      have hc := ha c List.mem_cons_self
      cases run with
      | nil => exact pieces_letter hc rfl
      | cons d run =>
          have ht : ∀ e ∈ d :: run, e.isAlphanum = true :=
            fun e he => ha e (List.mem_cons_of_mem _ he)
          exact pieces_join hc (ht d List.mem_cons_self) (ih (by simp) ht)

theorem pieces_text {p : Piece} (h : p.Proper) : pieces p.text = [p] := by
  cases p with
  | word run => exact pieces_run h.1 h.2
  | mark c => exact pieces_mark h []

/-- A piece of a text is a piece of the list, with the pieces in front of it and behind it. -/
theorem pieces_around {p : Piece} {before after : List Char} (hp : p.Proper)
    (hb : p.Bounded before after) :
    pieces (before ++ p.text ++ after) = pieces before ++ p :: pieces after := by
  cases p with
  | word run =>
      have hstart : startsInWord after = false := hb.2
      rw [pieces_append _ after (Or.inr hstart), pieces_append before _ (Or.inl hb.1),
        pieces_text hp, List.append_assoc, List.singleton_append]
  | mark c =>
      have hend : endsInWord (before ++ [c]) = false := by
        rw [endsInWord_append_singleton]; exact hp.2
      show pieces (before ++ [c] ++ after) = _
      rw [pieces_append _ after (Or.inl hend), pieces_append before [c] (Or.inr hp.2),
        pieces_mark hp, pieces, List.append_assoc, List.singleton_append]

/-- The first piece of a text, behind the blanks. -/
theorem exists_of_pieces_eq_cons {cs : List Char} {p : Piece} {ps : List Piece}
    (h : pieces cs = p :: ps) :
    ∃ gap after, cs = gap ++ p.text ++ after ∧ (∀ c ∈ gap, isBlank c = true) ∧ p.Proper ∧
      p.Bounded gap after ∧ pieces after = ps := by
  induction cs generalizing p ps with
  | nil => cases h
  | cons c cs ih =>
      by_cases hb : isBlank c = true
      · rw [pieces_blank hb] at h
        obtain ⟨gap, after, rfl, hg, hp, hbound, hps⟩ := ih h
        have hg' : ∀ d ∈ c :: gap, isBlank d = true := List.forall_mem_cons.mpr ⟨hb, hg⟩
        refine ⟨c :: gap, after, rfl, hg', hp, ?_, hps⟩
        cases p with
        | word run => exact ⟨endsInWord_of_isBlank hg', hbound.2⟩
        | mark d => trivial
      · rw [Bool.not_eq_true] at hb
        by_cases ha : c.isAlphanum = true
        · cases hs : startsInWord cs with
          | false =>
              rw [pieces_letter ha hs] at h
              cases h
              exact ⟨[], cs, rfl, by simp, ⟨by simp, by simpa using ha⟩, ⟨rfl, hs⟩, rfl⟩
          | true =>
              obtain ⟨run, qs, hq⟩ := pieces_of_startsInWord hs
              rw [pieces_join ha hs hq] at h
              cases h
              obtain ⟨gap, after, hcs, hg, hp, hbound, hps⟩ := ih hq
              -- nothing blank stands between `c` and the word it joins
              have hgap : gap = [] := by
                cases gap with
                | nil => rfl
                | cons d gap =>
                    rw [hcs, List.cons_append, List.cons_append, startsInWord_cons,
                      isAlphanum_of_isBlank (hg d List.mem_cons_self)] at hs
                    cases hs
              subst hgap
              refine ⟨[], after, by rw [hcs]; rfl, by simp, ⟨by simp, ?_⟩, ⟨rfl, hbound.2⟩, hps⟩
              exact List.forall_mem_cons.mpr ⟨ha, hp.2⟩
        · rw [Bool.not_eq_true] at ha
          rw [pieces_mark ⟨hb, ha⟩] at h
          cases h
          exact ⟨[], cs, rfl, by simp, ⟨hb, ha⟩, trivial, rfl⟩

/-- Two pieces with no more than blanks between them: what bounds the second is bounded by the
first, too. -/
theorem Piece.Bounded.behind {p q : Piece} {before gap after : List Char} (hp : p.Proper)
    (hq : q.Proper) (hpb : p.Bounded before (gap ++ q.text ++ after)) (hqb : q.Bounded gap after) :
    q.Bounded (before ++ p.text ++ gap) after := by
  cases q with
  | mark c => trivial
  | word run =>
      refine ⟨?_, hqb.2⟩
      by_cases hne : gap = []
      · subst hne
        cases p with
        | mark d =>
            rw [List.append_nil, Piece.text, endsInWord_append_singleton]
            exact hp.2
        | word run' =>
            -- `p` ends right here, so it is no word: a word would go on in `q`
            obtain ⟨d, run, rfl⟩ := List.exists_cons_of_ne_nil hq.1
            have hs : startsInWord ([] ++ (d :: run) ++ after) = false := hpb.2
            rw [List.nil_append, List.cons_append, startsInWord_cons,
              hq.2 d List.mem_cons_self] at hs
            cases hs
      · rw [endsInWord_append hne]
        exact hqb.1

/-- A piece is bounded by less text behind it, too. -/
theorem Piece.Bounded.of_append {p : Piece} {before gap after : List Char}
    (h : p.Bounded before (gap ++ after)) : p.Bounded before gap := by
  cases p with
  | mark c => trivial
  | word run => exact ⟨h.1, startsInWord_append_eq_false h.2⟩

/-- Every piece of the list stands somewhere in the text. -/
theorem exists_of_pieces_eq_append {p : Piece} {qs ps : List Piece} :
    ∀ {cs : List Char}, pieces cs = qs ++ p :: ps →
      ∃ before after, cs = before ++ p.text ++ after ∧ p.Proper ∧ p.Bounded before after ∧
        pieces before = qs ∧ pieces after = ps := by
  induction qs with
  | nil =>
      intro cs h
      obtain ⟨gap, after, hcs, hg, hp, hb, hps⟩ := exists_of_pieces_eq_cons h
      exact ⟨gap, after, hcs, hp, hb, pieces_eq_nil_iff.mpr hg, hps⟩
  | cons q qs ih =>
      intro cs h
      obtain ⟨gap, rest, rfl, hg, hq, hbq, hrest⟩ := exists_of_pieces_eq_cons h
      obtain ⟨before, after, rfl, hp, hbp, hbefore, hafter⟩ := ih hrest
      refine ⟨gap ++ q.text ++ before, after, by simp only [List.append_assoc], hp,
        hbq.behind hq hp hbp, ?_, hafter⟩
      rw [List.append_assoc] at hbq
      rw [pieces_around hq hbq.of_append, pieces_eq_nil_iff.mpr hg, hbefore, List.nil_append]

theorem mem_pieces_iff {p : Piece} {cs : List Char} :
    p ∈ pieces cs ↔
      ∃ before after, cs = before ++ p.text ++ after ∧ p.Proper ∧ p.Bounded before after := by
  refine ⟨fun h => ?_, fun he => ?_⟩
  · obtain ⟨qs, ps, hps⟩ := List.append_of_mem h
    obtain ⟨before, after, hcs, hp, hb, -⟩ := exists_of_pieces_eq_append hps
    exact ⟨before, after, hcs, hp, hb⟩
  · obtain ⟨before, after, rfl, hp, hb⟩ := he
    rw [pieces_around hp hb]
    simp

theorem proper_of_mem_pieces {p : Piece} {cs : List Char} (h : p ∈ pieces cs) : p.Proper := by
  obtain ⟨_, _, -, hp, -⟩ := mem_pieces_iff.mp h
  exact hp

/-- **Neighbours of the list are pieces of the text with no more than blanks between them.** -/
theorem pieces_eq_append_pair_iff {p q : Piece} {cs : List Char} :
    (∃ ps qs, pieces cs = ps ++ p :: q :: qs) ↔
      ∃ before gap after, cs = before ++ p.text ++ gap ++ q.text ++ after ∧
        (∀ c ∈ gap, isBlank c = true) ∧ p.Proper ∧ q.Proper ∧
        p.Bounded before (gap ++ q.text ++ after) ∧ q.Bounded (before ++ p.text ++ gap) after := by
  refine ⟨fun he => ?_, fun he => ?_⟩
  · obtain ⟨ps, qs, h⟩ := he
    obtain ⟨before, rest, rfl, hp, hpb, -, hrest⟩ := exists_of_pieces_eq_append h
    obtain ⟨gap, after, rfl, hg, hq, hqb, -⟩ := exists_of_pieces_eq_cons hrest
    exact ⟨before, gap, after, by simp only [List.append_assoc], hg, hp, hq, hpb,
      hpb.behind hp hq hqb⟩
  · obtain ⟨before, gap, after, rfl, hg, hp, hq, hpb, hqb⟩ := he
    rw [List.append_assoc] at hpb
    refine ⟨pieces before, pieces after, ?_⟩
    rw [pieces_around hq hqb, pieces_around hp hpb.of_append, pieces_eq_nil_iff.mpr hg,
      List.append_assoc, List.cons_append, List.nil_append]

end LineCalc
