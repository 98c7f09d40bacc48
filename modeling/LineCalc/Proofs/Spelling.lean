import LineCalc.Proofs.LineLanguage

/-!
# What a lexeme spells

A token keeps the text that it was read from, and the text determines the token. A number
is written in digits, a name in letters and digits with a letter among them, and everything
else has one character. `Spelled` says so without any reading; only the first number of a
line can be written in another way, with its sign in front.

The pieces of a text are read one by one, so `Piece.token?_eq_some_iff` is all there is to
reading: a piece makes a token exactly if its text spells that token.
-/

namespace LineCalc

/-- The character that writes a kind, for the kinds that one character writes. -/
def TokenKind.character? : TokenKind → Option Char
  | number _ | identifier => none
  | plus => some '+'
  | minus => some '-'
  | star => some '*'
  | slash => some '/'
  | percent => some '%'
  | leftParen => some '('
  | rightParen => some ')'
  | equal => some '='

namespace Token

/-- The lexeme writes what the token is. -/
inductive Spelled : Token → Prop
  | number {digits : List Char} {value : Int64} (hne : digits ≠ [])
      (hdigits : ∀ c ∈ digits, c.isDigit = true)
      (hvalue : value.toInt = Nat.ofDigitChars 10 digits 0) :
      Spelled ⟨.number value, String.ofList digits⟩
  | name {run : List Char} (hrun : ∀ c ∈ run, c.isAlphanum = true)
      (hletter : ∃ c ∈ run, c.isAlpha = true) : Spelled ⟨.identifier, String.ofList run⟩
  | mark {kind : TokenKind} {c : Char} (hc : kind.character? = some c) :
      Spelled ⟨kind, String.ofList [c]⟩

/-- The lexeme writes a number with a sign, perhaps with blanks between the sign and the digits. -/
inductive SignSpelled : Token → Prop
  | number {s : Char} {gap digits : List Char} {value : Int64} (hs : s = '+' ∨ s = '-')
      (hgap : Blank gap) (hne : digits ≠ []) (hdigits : ∀ c ∈ digits, c.isDigit = true)
      (hvalue : value.toInt = if s = '-' then -(Nat.ofDigitChars 10 digits 0 : Int)
        else Nat.ofDigitChars 10 digits 0) :
      SignSpelled ⟨.number value, String.ofList (s :: gap ++ digits)⟩

end Token

/-! ## Characters and digits -/

theorem TokenKind.ofChar?_eq_some_iff {c : Char} {k : TokenKind} :
    ofChar? c = some k ↔ k.character? = some c := by
  constructor
  · intro h
    unfold ofChar? at h
    split at h <;> cases h <;> rfl
  · intro h
    cases k <;> cases h <;> rfl

theorem TokenKind.isSign_iff {k : TokenKind} :
    k.isSign = true ↔ k.character? = some '+' ∨ k.character? = some '-' := by
  cases k <;> simp [isSign, character?]

theorem TokenKind.isWord_of_isSign {k : TokenKind} (h : k.isSign = true) : k.isWord = false := by
  cases k with
  | number | identifier => cases h
  | _ => rfl

/-- Letters and digits are all digits unless there is a letter among them. -/
theorem exists_isAlpha_iff {run : List Char} (hrun : ∀ c ∈ run, c.isAlphanum = true) :
    (∃ c ∈ run, c.isAlpha = true) ↔ ¬ ∀ c ∈ run, c.isDigit = true := by
  constructor
  · intro he hall
    obtain ⟨c, hc, hletter⟩ := he
    have hdigit := hall c hc
    rw [isDigit_eq_false_of_isAlpha hletter] at hdigit
    cases hdigit
  · intro hall
    by_contra hno
    refine hall fun c hc => ?_
    have ha := hrun c hc
    rw [Char.isAlphanum, Bool.or_eq_true] at ha
    rcases ha with hletter | hdigit
    · exact absurd ⟨c, hc, hletter⟩ hno
    · exact hdigit

/-- A literal is the number that its digits write, with its sign. -/
theorem literal?_eq_some_iff {negative : Bool} {digits : List Char} {v : Int64} :
    literal? negative digits = some v ↔
      v.toInt = if negative = true then -(Nat.ofDigitChars 10 digits 0 : Int)
        else Nat.ofDigitChars 10 digits 0 := by
  unfold literal?
  dsimp only
  generalize (if negative = true then -(Nat.ofDigitChars 10 digits 0 : Int)
    else Nat.ofDigitChars 10 digits 0) = m
  split
  · rename_i hfits
    have hm : (Int64.ofInt m).toInt = m := by
      rw [Int64.toInt_minValue, Int64.toInt_maxValue] at hfits
      exact Int64.toInt_ofInt_of_le (by omega) (by omega)
    rw [Option.some.injEq]
    constructor
    · intro h
      rw [← h, hm]
    · intro h
      rw [← h, Int64.ofInt_toInt]
  · rename_i hfits
    -- every value fits, so none is this number
    constructor
    · intro h
      cases h
    · intro h
      rw [← h] at hfits
      exact absurd ⟨Int64.minValue_le_toInt v, Int64.toInt_le v⟩ hfits

/-! ## Pieces and what they spell -/

namespace Token

variable {t : Token}

theorem Spelled.lexeme_ne_nil (h : t.Spelled) : t.lexeme.toList ≠ [] := by
  cases h with
  | number hne => rwa [String.toList_ofList]
  | name _ hletter =>
      obtain ⟨c, hc, -⟩ := hletter
      rw [String.toList_ofList]
      exact List.ne_nil_of_mem hc
  | mark => simp

/-- Words are the tokens that are written in letters and digits. -/
theorem Spelled.startsInWord (h : t.Spelled) :
    startsInWord t.lexeme.toList = t.kind.isWord := by
  cases h with
  | @number digits value hne hdigits =>
      obtain ⟨d, ds, rfl⟩ := List.exists_cons_of_ne_nil hne
      rw [String.toList_ofList, startsInWord_cons,
        isAlphanum_of_isDigit (hdigits d List.mem_cons_self)]
      rfl
  | @name run hrun hletter =>
      obtain ⟨c, hc, -⟩ := hletter
      obtain ⟨d, ds, rfl⟩ := List.exists_cons_of_ne_nil (List.ne_nil_of_mem hc)
      rw [String.toList_ofList, startsInWord_cons, hrun d List.mem_cons_self]
      rfl
  | @mark kind c hc =>
      rw [String.toList_ofList, startsInWord_cons]
      cases kind <;> cases hc <;> rfl

/-- An `=` is a token by itself. -/
theorem Spelled.count_equal (h : t.Spelled) :
    t.lexeme.toList.count '=' = if t.kind.isEqual = true then 1 else 0 := by
  cases h with
  | number hne hdigits =>
      rw [String.toList_ofList, List.count_eq_zero.mpr fun he => by cases hdigits '=' he]
      rfl
  | name hrun =>
      rw [String.toList_ofList, List.count_eq_zero.mpr fun he => by cases hrun '=' he]
      rfl
  | @mark kind c hc =>
      rw [String.toList_ofList]
      cases kind <;> cases hc <;> rfl

theorem SignSpelled.count_equal (h : t.SignSpelled) :
    t.lexeme.toList.count '=' = if t.kind.isEqual = true then 1 else 0 := by
  cases h with
  | @number s gap digits value hs hgap hne hdigits =>
      have hsign : s ≠ '=' := by rcases hs with rfl | rfl <;> decide
      have hno : '=' ∉ gap ++ digits := by
        intro he
        rcases List.mem_append.mp he with he | he
        · have hblank := blank_iff.mp hgap '=' he
          cases hblank
        · cases hdigits '=' he
      rw [String.toList_ofList, List.cons_append, List.count_cons_of_ne hsign,
        List.count_eq_zero.mpr hno]
      rfl

/-- A token that is no word may stand anywhere, and a word where no letter or digit follows. -/
theorem bounded_iff {p : Piece} (h : p.token? = some t) {before after : List Char}
    (hbefore : endsInWord before = false) :
    p.Bounded before after ↔ (t.kind.isWord = true → LineCalc.startsInWord after = false) := by
  have hp := becomes_of_token? h
  cases p with
  | word run =>
      have hword := isWord_of_becomes hp
      exact ⟨fun hb _ => hb.2, fun hafter => ⟨hbefore, hafter hword⟩⟩
  | mark c =>
      have hmark := isWord_of_ofChar? hp
      refine ⟨fun _ hword => ?_, fun _ => trivial⟩
      rw [hmark] at hword
      cases hword

end Token

/-- **A piece makes the token that its text spells.** -/
theorem Piece.token?_eq_some_iff {p : Piece} (hp : p.Proper) {t : Token} :
    p.token? = some t ↔ t.Spelled ∧ t.lexeme.toList = p.text := by
  constructor
  · intro h
    cases p with
    | word run =>
        by_cases hd : ∀ c ∈ run, c.isDigit = true
        · rw [token?_digits hp.1 hd] at h
          obtain ⟨v, hv, rfl⟩ := Option.map_eq_some_iff.mp h
          exact ⟨.number hp.1 hd (literal?_eq_some_iff.mp hv), String.toList_ofList⟩
        · rw [token?_name hp.1 hd] at h
          cases h
          exact ⟨.name hp.2 ((exists_isAlpha_iff hp.2).mpr hd), String.toList_ofList⟩
    | mark c =>
        obtain ⟨k, hk, rfl⟩ := Option.map_eq_some_iff.mp h
        exact ⟨.mark (TokenKind.ofChar?_eq_some_iff.mp hk), String.toList_ofList⟩
  · intro he
    obtain ⟨hspelled, htext⟩ := he
    cases hspelled with
    | @number digits v hne hdigits hvalue =>
        rw [String.toList_ofList] at htext
        cases p with
        | word run =>
            obtain rfl : digits = run := htext
            have hv : literal? false digits = some v := literal?_eq_some_iff.mpr hvalue
            rw [token?_digits hne hdigits, hv, Option.map_some]
        | mark c =>
            obtain rfl : digits = [c] := htext
            have ha := isAlphanum_of_isDigit (hdigits c List.mem_cons_self)
            rw [hp.2] at ha
            cases ha
    | @name run hrun hletter =>
        rw [String.toList_ofList] at htext
        cases p with
        | word run' =>
            obtain rfl : run = run' := htext
            exact token?_name hp.1 ((exists_isAlpha_iff hrun).mp hletter)
        | mark c =>
            obtain rfl : run = [c] := htext
            have ha := hrun c List.mem_cons_self
            rw [hp.2] at ha
            cases ha
    | @mark k c hc =>
        rw [String.toList_ofList] at htext
        have hk := TokenKind.ofChar?_eq_some_iff.mpr hc
        cases p with
        | word run =>
            obtain rfl : [c] = run := htext
            rw [ofChar?_of_isAlphanum (hp.2 c List.mem_cons_self)] at hk
            cases hk
        | mark d =>
            obtain rfl : c = d := (List.cons.inj htext).1
            rw [token?, hk, Option.map_some]

/-- What spells a token is a piece. -/
theorem Token.Spelled.exists_piece {t : Token} (h : t.Spelled) :
    ∃ p : Piece, p.Proper ∧ p.text = t.lexeme.toList ∧ p.token? = some t := by
  have hpiece : ∃ p : Piece, p.Proper ∧ t.lexeme.toList = p.text := by
    cases h with
    | @number digits v hne hdigits =>
        exact ⟨.word digits, ⟨hne, fun c hc => isAlphanum_of_isDigit (hdigits c hc)⟩,
          String.toList_ofList⟩
    | @name run hrun hletter =>
        obtain ⟨c, hc, -⟩ := hletter
        exact ⟨.word run, ⟨List.ne_nil_of_mem hc, hrun⟩, String.toList_ofList⟩
    | @mark k c hc =>
        refine ⟨.mark c, ?_, String.toList_ofList⟩
        cases k <;> cases hc <;> exact ⟨rfl, rfl⟩
  obtain ⟨p, hp, htext⟩ := hpiece
  exact ⟨p, hp, htext.symm, (Piece.token?_eq_some_iff hp).mpr ⟨h, htext⟩⟩

end LineCalc
