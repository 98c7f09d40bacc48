import LineCalc.Line
import LineCalc.Proofs.Scanning
import Mathlib.Algebra.Group.Nat.Defs
import Mathlib.Data.List.Forall2

/-!
# The checks on a line, on pieces

Tokens are checked after they have been read, when a sign in front of the first number has
already become a part of it. On the pieces of the line the two are still apart. That makes
no difference to the checks: a sign clashes with nothing that the signed number does not
clash with, and both lines end in the same piece (`become_of_scan`).

It does make a difference to the range of the number, and there only: `Fits` looks at what
is in front of it.
-/

namespace LineCalc

/-! ## The range of a literal -/

/-- A literal of this magnitude fits, behind this sign or none. -/
theorem literal?_isSome_iff {negative : Bool} {digits : List Char} :
    (literal? negative digits).isSome = true ↔
      Nat.ofDigitChars 10 digits 0 ≤ 2 ^ 63 - 1 ∨
        Nat.ofDigitChars 10 digits 0 = 2 ^ 63 ∧ negative = true := by
  unfold literal?
  rw [Int64.toInt_minValue, Int64.toInt_maxValue]
  cases negative with
  | false =>
      simp only [Bool.false_eq_true, if_false, and_false, or_false]
      split <;> simp only [Option.isSome_some, Option.isSome_none, Bool.false_eq_true, true_iff,
        false_iff] <;> omega
  | true =>
      simp only [if_true, and_true]
      split <;> simp only [Option.isSome_some, Option.isSome_none, Bool.false_eq_true, true_iff,
        false_iff] <;> omega

/-! ## Pieces and the kinds of their tokens -/

namespace Piece

/-- The kind of the token that a piece ends up in. -/
def Becomes : Piece → TokenKind → Prop
  | word run, .number _ => ∀ c ∈ run, c.isDigit = true
  | word run, .identifier => ¬ ∀ c ∈ run, c.isDigit = true
  | word _, _ => False
  | mark c, k => TokenKind.ofChar? c = some k

/-- Two neighbours that no line may have. -/
def Clash : Piece → Piece → Prop
  | word run, word run' => (∀ c ∈ run, c.isDigit = true) ∧ ∀ c ∈ run', c.isDigit = true
  | mark c, mark d => c = d ∧ c ∈ ['*', '/', '%']
  | _, _ => False

/-- What the last piece of a line without `=` may be. -/
def MayEnd : Piece → Prop
  | word _ => True
  | mark c => c = ')'

end Piece

theorem ofChar?_isSome_iff {c : Char} :
    (TokenKind.ofChar? c).isSome = true ↔ c ∈ ['+', '-', '*', '/', '%', '(', ')', '='] := by
  unfold TokenKind.ofChar?
  split <;> simp_all

theorem wordKind?_becomes {run : List Char} {k : TokenKind} (h : wordKind? run = some k) :
    (Piece.word run).Becomes k := by
  unfold wordKind? at h
  split at h
  · cases h
  · split at h
    · rename_i hd
      obtain ⟨v, -, rfl⟩ := Option.map_eq_some_iff.mp h
      exact List.all_eq_true.mp hd
    · rename_i hd
      cases h
      exact fun hall => hd (List.all_eq_true.mpr hall)

theorem becomes_of_token? {p : Piece} {t : Token} (h : p.token? = some t) : p.Becomes t.kind := by
  cases p with
  | word run =>
      obtain ⟨k, hk, rfl⟩ := Option.map_eq_some_iff.mp h
      exact wordKind?_becomes hk
  | mark c =>
      obtain ⟨k, hk, rfl⟩ := Option.map_eq_some_iff.mp h
      exact hk

theorem isWord_of_becomes {run : List Char} {k : TokenKind} (h : (Piece.word run).Becomes k) :
    k.isWord = true := by
  cases k with
  | number | identifier => rfl
  | _ => exact h.elim

theorem isWord_of_ofChar? {c : Char} {k : TokenKind} (h : TokenKind.ofChar? c = some k) :
    k.isWord = false := by
  unfold TokenKind.ofChar? at h
  split at h <;> cases h <;> rfl

theorem TokenKind.clash_eq_false {k l : TokenKind} (h : k.isWord ≠ l.isWord) :
    k.clash l = false := by
  rw [← Bool.not_eq_true]
  intro hc
  -- what clashes is two words or two marks
  unfold clash at hc
  split at hc
  case h_5 => cases hc
  all_goals exact h rfl

/-- Kinds clash if the pieces they come from do. -/
theorem clash_iff {p q : Piece} {k l : TokenKind} (hp : p.Becomes k) (hq : q.Becomes l) :
    k.clash l = true ↔ p.Clash q := by
  cases p with
  | word run =>
      cases q with
      | word run' =>
          have hl := isWord_of_becomes hq
          cases k with
          | number v =>
              cases l with
              | number w => exact ⟨fun _ => ⟨hp, hq⟩, fun _ => rfl⟩
              | identifier => exact ⟨fun h => (by cases h), fun h => absurd h.2 hq⟩
              | _ => cases hl
          | identifier => exact ⟨fun h => (by cases h), fun h => absurd h.1 hp⟩
          | _ => exact hp.elim
      | mark d =>
          rw [TokenKind.clash_eq_false (by rw [isWord_of_becomes hp, isWord_of_ofChar? hq]; simp)]
          simp [Piece.Clash]
  | mark c =>
      cases q with
      | word run' =>
          rw [TokenKind.clash_eq_false (by rw [isWord_of_becomes hq, isWord_of_ofChar? hp]; simp)]
          simp [Piece.Clash]
      | mark d =>
          simp only [Piece.Becomes, TokenKind.ofChar?] at hp hq
          split at hp <;> cases hp <;> split at hq <;> cases hq <;>
            simp [TokenKind.clash, Piece.Clash]

theorem mayEnd_iff {p : Piece} {k : TokenKind} (h : p.Becomes k) :
    k.mayEnd = true ↔ p.MayEnd := by
  cases p with
  | word run =>
      have hw := isWord_of_becomes h
      simp only [Piece.MayEnd, iff_true]
      cases k with
      | number | identifier => rfl
      | _ => cases hw
  | mark c =>
      simp only [Piece.Becomes, TokenKind.ofChar?] at h
      split at h <;> cases h <;> simp [TokenKind.mayEnd, Piece.MayEnd]

/-! ## Tokens side by side -/

/-- Some two neighbours of the list clash. -/
def HasClash (ps : List Piece) : Prop :=
  ∃ before p q after, ps = before ++ p :: q :: after ∧ p.Clash q

theorem hasClash_cons_cons {p q : Piece} {ps : List Piece} :
    HasClash (p :: q :: ps) ↔ p.Clash q ∨ HasClash (q :: ps) := by
  refine ⟨fun he => ?_, fun he => ?_⟩
  · obtain ⟨before, p', q', after, h, hc⟩ := he
    cases before with
    | nil => cases h; exact Or.inl hc
    | cons r before => exact Or.inr ⟨before, p', q', after, (List.cons.inj h).2, hc⟩
  · rcases he with h | ⟨before, p', q', after, h, hc⟩
    · exact ⟨[], p, q, ps, rfl, h⟩
    · exact ⟨p :: before, p', q', after, by rw [h]; rfl, hc⟩

theorem not_hasClash_singleton (p : Piece) : ¬ HasClash [p] := by
  intro he
  obtain ⟨before, p', q', after, h, -⟩ := he
  have := congrArg List.length h
  simp only [List.length_append, List.length_cons, List.length_nil] at this
  omega

/-- Tokens and the pieces they come from, one by one. -/
abbrev Become (ps : List Piece) (ts : List Token) : Prop :=
  List.Forall₂ (fun p t => p.Becomes t.kind) ps ts

theorem Line.hasClash_iff {ps : List Piece} {ts : List Token} (h : Become ps ts) :
    Line.hasClash ts = true ↔ HasClash ps := by
  induction h with
  | nil =>
      refine ⟨fun hc => (by cases hc), fun ⟨before, p, q, after, hps, _⟩ => ?_⟩
      cases before <;> cases hps
  | @cons p t ps ts hp h ih =>
      cases h with
      | nil => exact ⟨fun hc => (by cases hc), fun hc => absurd hc (not_hasClash_singleton p)⟩
      | @cons q u ps ts hq h =>
          rw [hasClash_cons_cons, ← ih, ← clash_iff hp hq]
          simp [Line.hasClash]

theorem Line.endsOpen_iff {ps : List Piece} {ts : List Token} (h : Become ps ts) :
    Line.endsOpen ts = true ↔ ∃ p ∈ ps.getLast?, ¬ p.MayEnd := by
  induction h with
  | nil => simp [Line.endsOpen]
  | @cons p t ps ts hp h ih =>
      cases h with
      | nil =>
          simp [Line.endsOpen, ← mayEnd_iff hp]
      | @cons q u ps ts hq h =>
          simpa [Line.endsOpen, List.getLast?_cons_cons] using ih

/-! ## The pieces of a line that has tokens -/

theorem become_of_readAll {ps : List Piece} {ts : List Token} (h : readAll ps = .ok ts) :
    Become ps ts := by
  rw [readAll_eq_ok_iff] at h
  induction ps generalizing ts with
  | nil =>
      obtain rfl : ts = [] := List.map_eq_nil_iff.mp h.symm
      exact .nil
  | cons p ps ih =>
      cases ts with
      | nil => cases h
      | cons t ts =>
          obtain ⟨hp, h⟩ := List.cons.inj h
          exact .cons (becomes_of_token? hp) (ih h)

/-- The tokens of a line come from its pieces, but for a sign in front of the first number. It
changes neither which neighbours clash nor which piece is the last. -/
theorem become_of_scan {line : String} {ts : List Token} (h : Token.scan line = .ok ts) :
    ∃ ps, Become ps ts ∧ (HasClash (pieces line.toList) ↔ HasClash ps) ∧
      (pieces line.toList).getLast? = ps.getLast? := by
  by_cases ho : OpensSigned (pieces line.toList)
  · obtain ⟨s, digits, ps, hp, hs, hd⟩ := ho
    obtain ⟨gap, -, hscan⟩ := scan_signed hp hs hd
    rw [hscan] at h
    split at h
    · rename_i v _
      cases hr : readAll ps with
      | error f => rw [hr] at h; cases h
      | ok us =>
          rw [hr] at h
          cases h
          refine ⟨.word digits :: ps, .cons hd (become_of_readAll hr), ?_, ?_⟩
          · rw [hp, hasClash_cons_cons]
            simp [Piece.Clash]
          · rw [hp, List.getLast?_cons_cons]
    · cases h
  · rw [scan_unsigned ho] at h
    exact ⟨_, become_of_readAll h, Iff.rfl, rfl⟩

theorem readAll_ok_iff {ps : List Piece} :
    (∃ ts, readAll ps = .ok ts) ↔ ∀ p ∈ ps, p.token?.isSome = true := by
  induction ps with
  | nil => simp [readAll_nil]
  | cons p ps ih =>
      rw [List.forall_mem_cons, ← ih]
      cases hp : p.token? with
      | none => simp [readAll_cons_of_none hp]
      | some t =>
          rw [readAll_cons_of_some hp]
          cases hr : readAll ps <;> simp [Except.map]

theorem token?_word_isSome_iff {run : List Char} (hne : run ≠ []) :
    (Piece.word run).token?.isSome = true ↔
      ((∀ c ∈ run, c.isDigit = true) → Nat.ofDigitChars 10 run 0 ≤ 2 ^ 63 - 1) := by
  by_cases hd : ∀ c ∈ run, c.isDigit = true
  · rw [Piece.token?_digits hne hd, Option.isSome_map, literal?_isSome_iff]
    exact ⟨fun h _ => (by simpa using h), fun h => Or.inl (h hd)⟩
  · rw [Piece.token?_name hne hd]
    exact ⟨fun _ h => absurd h hd, fun _ => rfl⟩

/-- A number fits where it stands: behind these pieces. -/
def Fits (before : List Piece) (digits : List Char) : Prop :=
  Nat.ofDigitChars 10 digits 0 ≤ 2 ^ 63 - 1 ∨
    Nat.ofDigitChars 10 digits 0 = 2 ^ 63 ∧ before = [.mark '-']

/-- Every mark is a token, and every number fits. -/
def Legible (ps : List Piece) : Prop :=
  (∀ c, .mark c ∈ ps → (TokenKind.ofChar? c).isSome = true) ∧
    ∀ before digits after, ps = before ++ .word digits :: after →
      (∀ c ∈ digits, c.isDigit = true) → Fits before digits

theorem token?_mark_isSome {c : Char} :
    (Piece.mark c).token?.isSome = (TokenKind.ofChar? c).isSome := by
  rw [Piece.token?, Option.isSome_map]

/-- Away from the start of a line each piece is judged by itself. -/
theorem token?_isSome_iff {ps : List Piece} (hproper : ∀ p ∈ ps, p.Proper) :
    (∀ p ∈ ps, p.token?.isSome = true) ↔
      (∀ c, .mark c ∈ ps → (TokenKind.ofChar? c).isSome = true) ∧
        ∀ run, .word run ∈ ps → (∀ c ∈ run, c.isDigit = true) →
          Nat.ofDigitChars 10 run 0 ≤ 2 ^ 63 - 1 := by
  constructor
  · intro h
    refine ⟨fun c hc => ?_, fun run hr => ?_⟩
    · rw [← token?_mark_isSome]; exact h _ hc
    · exact (token?_word_isSome_iff (hproper _ hr).1).mp (h _ hr)
  · intro he p hp
    obtain ⟨hm, hw⟩ := he
    cases p with
    | mark c => rw [token?_mark_isSome]; exact hm c hp
    | word run => exact (token?_word_isSome_iff (hproper _ hp).1).mpr (hw run hp)

theorem legible_unsigned {ps : List Piece} (ho : ¬ OpensSigned ps)
    (hproper : ∀ p ∈ ps, p.Proper) :
    Legible ps ↔ ∀ p ∈ ps, p.token?.isSome = true := by
  rw [token?_isSome_iff hproper]
  refine and_congr_right fun _ => ⟨fun h run hr hd => ?_, fun h before digits after hps hd => ?_⟩
  · obtain ⟨before, after, hps⟩ := List.append_of_mem hr
    rcases h before run after hps hd with hle | ⟨-, rfl⟩
    · exact hle
    · exact absurd ⟨'-', run, after, hps, Or.inr rfl, hd⟩ ho
  · exact Or.inl (h digits (by rw [hps]; simp) hd)

theorem legible_signed {ps : List Piece} {s : Char} {digits : List Char} (hs : s = '+' ∨ s = '-')
    (hd : ∀ c ∈ digits, c.isDigit = true) (hproper : ∀ p ∈ ps, p.Proper) :
    Legible (.mark s :: .word digits :: ps) ↔
      (Nat.ofDigitChars 10 digits 0 ≤ 2 ^ 63 - 1 ∨
        Nat.ofDigitChars 10 digits 0 = 2 ^ 63 ∧ s = '-') ∧
      ∀ p ∈ ps, p.token?.isSome = true := by
  rw [token?_isSome_iff hproper]
  refine ⟨fun h => ?_, fun h => ?_⟩
  · obtain ⟨hm, hf⟩ := h
    refine ⟨?_, fun c hc => hm c (by simp [hc]), fun run hr hdr => ?_⟩
    · rcases hf [.mark s] digits ps rfl hd with hle | ⟨heq, hb⟩
      · exact Or.inl hle
      · cases hb
        exact Or.inr ⟨heq, rfl⟩
    · obtain ⟨before, after, hps⟩ := List.append_of_mem hr
      have hcut : Piece.mark s :: .word digits :: ps
          = .mark s :: .word digits :: before ++ .word run :: after := by rw [hps]; rfl
      rcases hf _ run after hcut hdr with hle | ⟨-, hb⟩
      · exact hle
      · cases hb
  · obtain ⟨hfirst, hm, hw⟩ := h
    refine ⟨fun c hc => ?_, fun before run after hps hdr => ?_⟩
    · rcases List.mem_cons.mp hc with hc | hc
      · cases hc
        rcases hs with rfl | rfl <;> rfl
      · rcases List.mem_cons.mp hc with hc | hc
        · cases hc
        · exact hm c hc
    · -- the number is the one behind the sign, or stands further on
      cases before with
      | nil => cases hps
      | cons q before =>
          have htail : .word digits :: ps = before ++ .word run :: after := (List.cons.inj hps).2
          have hq : Piece.mark s = q := (List.cons.inj hps).1
          cases before with
          | nil =>
              cases htail
              rcases hfirst with hle | ⟨heq, rfl⟩
              · exact Or.inl hle
              · exact Or.inr ⟨heq, by rw [← hq]⟩
          | cons q' before =>
              have hrest : ps = before ++ .word run :: after := (List.cons.inj htail).2
              have hmem : .word run ∈ ps := by rw [hrest]; simp
              exact Or.inl (hw run hmem hdr)

/-- **A line can be read to the end exactly if its pieces are legible.** -/
theorem scan_ok_iff (line : String) :
    (∃ ts, Token.scan line = .ok ts) ↔ Legible (pieces line.toList) := by
  have hproper : ∀ p ∈ pieces line.toList, p.Proper := fun _ => proper_of_mem_pieces
  by_cases ho : OpensSigned (pieces line.toList)
  · obtain ⟨s, digits, ps, hp, hs, hd⟩ := ho
    obtain ⟨gap, -, hscan⟩ := scan_signed hp hs hd
    rw [hp] at hproper ⊢
    rw [legible_signed hs hd fun p hm => hproper p (by simp [hm]), hscan, ← readAll_ok_iff]
    have hrange : (literal? (s = '-') digits).isSome = true ↔ _ := literal?_isSome_iff
    rw [decide_eq_true_eq] at hrange
    rw [← hrange]
    cases literal? (s = '-') digits with
    | none => simp
    | some v => cases readAll ps <;> simp [Except.map]
  · rw [scan_unsigned ho, readAll_ok_iff, legible_unsigned ho hproper]

/-! ## The tokens of a line -/

/-- The tokens of a line are those that are read from it, if they pass the checks. -/
theorem Line.tokens_eq_ok_iff {line : String} {ts : List Token} :
    Line.tokens line = .ok ts ↔
      Line.equalSigns line ≤ 1 ∧ Token.scan line = .ok ts ∧ Line.hasClash ts = false ∧
        (Line.equalSigns line = 0 → Line.endsOpen ts = false) := by
  rw [Line.tokens]
  by_cases hequals : 1 < Line.equalSigns line
  · rw [if_pos hequals]
    exact ⟨fun h => (by cases h), fun h => absurd h.1 (Nat.not_le_of_gt hequals)⟩
  · rw [if_neg hequals]
    have hle : Line.equalSigns line ≤ 1 := Nat.le_of_not_gt hequals
    cases hscan : Token.scan line with
    | error f => exact ⟨fun h => (by cases h), fun h => (by cases h.2.1)⟩
    | ok us =>
        dsimp only
        split
        · rename_i hrefused
          rw [Bool.or_eq_true, Bool.and_eq_true, decide_eq_true_eq] at hrefused
          refine ⟨fun h => (by cases h), fun ⟨_, hus, hclash, hends⟩ => ?_⟩
          cases hus
          rcases hrefused with hc | ⟨hzero, ho⟩
          · rw [hc] at hclash
            cases hclash
          · rw [hends hzero] at ho
            cases ho
        · rename_i hkept
          rw [Bool.or_eq_true, Bool.and_eq_true, decide_eq_true_eq, not_or, not_and,
            Bool.not_eq_true, Bool.not_eq_true] at hkept
          refine ⟨fun h => ?_, fun he => ?_⟩
          · cases h
            exact ⟨hle, rfl, hkept⟩
          · obtain ⟨_, hus, _⟩ := he
            cases hus
            rfl

/-- The `=` are counted before anything is read, and there is one fault that is found later. -/
theorem Line.tokens_eq_error {line : String} {f : Fault} (h : Line.tokens line = .error f) :
    2 ≤ Line.equalSigns line ∧ f = .assignment ∨ Line.equalSigns line ≤ 1 ∧ f = .expression := by
  rw [Line.tokens] at h
  by_cases hequals : 1 < Line.equalSigns line
  · rw [if_pos hequals] at h
    cases h
    exact Or.inl ⟨hequals, rfl⟩
  · rw [if_neg hequals] at h
    refine Or.inr ⟨Nat.le_of_not_gt hequals, ?_⟩
    cases hscan : Token.scan line with
    | error g =>
        rw [hscan] at h
        cases h
        exact scan_eq_error hscan
    | ok ts =>
        rw [hscan] at h
        dsimp only at h
        split at h <;> cases h
        rfl

end LineCalc
