import LineCalc.Proofs.EncodedLines
import LineCalc.Proofs.Layout
import LineCalc.Proofs.LineLanguage
import Mathlib.Data.List.TakeWhile
import Mathlib.Logic.Function.Iterate

/-!
# Where reading a line stops

The tokens of a line are read from the left, so what stands further right should not matter to
them. It does in two ways: a word goes on as far as it can, and a sign that opens the line looks for
digits behind it. Where neither goes beyond, a text has a `Seam`, and what is in front of it is read
the same whether the rest is there or not (`Reads.append_right`).

There is a seam in front of every place that has a lexical fault. So the line in front of the first
one is read to its end, and the next token to be read is the fault. Nothing is read behind it.
-/

namespace LineCalc

namespace TokenStream

/-! ## Call by call -/

/-- The stream after the next call. At its end it stays as it is. -/
def advance (s : TokenStream) : TokenStream := (s.next?.map Prod.snd).getD s

/-- What the call yields that has `k` others before it. -/
def call (s : TokenStream) (k : Nat) : Option (Except Fault Token) :=
  (advance^[k] s).next?.map Prod.fst

/-- **Calls yield the items, and nothing behind the last of them,** however often they are made. -/
theorem call_eq (s : TokenStream) (k : Nat) : s.call k = s.items[k]? := by
  induction k generalizing s with
  | zero =>
      cases hs : s.next? with
      | none =>
          rw [items_of_next?_eq_none hs, call, Function.iterate_zero_apply, hs]
          rfl
      | some r =>
          rw [items_of_next?_eq_some hs, call, Function.iterate_zero_apply, hs]
          rfl
  | succ k ih =>
      have hstep : s.call (k + 1) = s.advance.call k := by
        rw [call, Function.iterate_succ_apply]
        rfl
      rw [hstep, ih]
      cases hs : s.next? with
      | none =>
          have hstays : s.advance = s := by
            rw [advance, hs]
            rfl
          rw [hstays, items_of_next?_eq_none hs]
          rfl
      | some r =>
          have hgoes : s.advance = r.2 := by
            rw [advance, hs]
            rfl
          rw [hgoes, items_of_next?_eq_some hs, List.getElem?_cons_succ]

/-- Every item takes a character at least. -/
theorem length_items_le (s : TokenStream) : s.items.length ≤ s.ahead.length := by
  induction hn : s.ahead.length using Nat.strongRecOn generalizing s with
  | ind n ih =>
      cases hs : s.next? with
      | none =>
          rw [items_of_next?_eq_none hs]
          exact Nat.zero_le n
      | some r =>
          have hshorter := next?_shorter hs
          rw [items_of_next?_eq_some hs, List.length_cons, ← hn]
          exact Nat.lt_of_le_of_lt (ih _ (hn ▸ hshorter) r.2 rfl) hshorter

/-- What is read is a token, or a fault and then there is nothing more. -/
theorem next?_cases {s s' : TokenStream} {item : Except Fault Token}
    (h : s.next? = some (item, s')) :
    (∃ t, item = .ok t) ∨ item = .error .expression ∧ s'.items = [] := by
  unfold next? at h
  split at h
  · cases h
  · split at h
    · cases h
      exact Or.inl ⟨_, rfl⟩
    · cases h
      exact Or.inr ⟨rfl, items_of_next?_eq_none rfl⟩

/-- Only the last item can be a fault. -/
theorem items_form (s : TokenStream) :
    ∃ ts : List Token, s.items = ts.map .ok ∨ s.items = ts.map .ok ++ [.error .expression] := by
  induction hn : s.ahead.length using Nat.strongRecOn generalizing s with
  | ind n ih =>
      cases hs : s.next? with
      | none => exact ⟨[], Or.inl (items_of_next?_eq_none hs)⟩
      | some r =>
          rw [items_of_next?_eq_some hs]
          rcases next?_cases hs with ⟨t, ht⟩ | ⟨hfault, hend⟩
          · obtain ⟨ts, hts⟩ := ih _ (hn ▸ next?_shorter hs) r.2 rfl
            rw [ht]
            exact ⟨t :: ts, hts.imp (congrArg (Except.ok t :: ·)) (congrArg (Except.ok t :: ·))⟩
          · rw [hfault, hend]
            exact ⟨[], Or.inr rfl⟩

theorem getElem?_tokens_ne (ts : List Token) (k : Nat) (f : Fault) :
    (ts.map Except.ok)[k]? ≠ some (Except.error f) := by
  intro h
  obtain ⟨t, -, ht⟩ := List.mem_map.mp (List.mem_of_getElem? h)
  cases ht

/-- **Nothing is read behind a fault,** and there is one fault only that reading can find. -/
theorem call_eq_error {s : TokenStream} {k : Nat} {f : Fault} (h : s.call k = some (.error f)) :
    f = .expression ∧ ∀ m, k < m → s.call m = none := by
  simp only [call_eq] at h ⊢
  obtain ⟨ts, hitems | hitems⟩ := s.items_form
  · rw [hitems] at h
    exact absurd h (getElem?_tokens_ne ts k f)
  · rw [hitems] at h ⊢
    -- the fault is none of the tokens, so it is behind them
    have hk : (ts.map .ok : List (Except Fault Token)).length ≤ k := by
      by_contra hlt
      rw [List.getElem?_append_left (by omega)] at h
      exact getElem?_tokens_ne ts k f h
    rw [List.getElem?_append_right hk, List.getElem?_singleton] at h
    split at h
    · rename_i hzero
      cases h
      refine ⟨rfl, fun m hm => List.getElem?_eq_none ?_⟩
      rw [List.length_append, List.length_singleton]
      omega
    · cases h

/-! ## Reading some tokens -/

/-- `ts` are the next tokens of a stream, and behind them it is at `s'`. -/
inductive Reads : TokenStream → List Token → TokenStream → Prop where
  | done {s : TokenStream} : Reads s [] s
  | token {s s' s'' : TokenStream} {t : Token} {ts : List Token} :
      s.next? = some (.ok t, s') → Reads s' ts s'' → Reads s (t :: ts) s''

namespace Reads

variable {s s' : TokenStream} {ts : List Token}

theorem items (h : Reads s ts s') : s.items = ts.map .ok ++ s'.items := by
  induction h with
  | done => rfl
  | token hnext _ ih =>
      rw [items_of_next?_eq_some hnext, ih]
      rfl

theorem advance (h : Reads s ts s') : TokenStream.advance^[ts.length] s = s' := by
  induction h with
  | done => rfl
  | token hnext _ ih =>
      rw [List.length_cons, Function.iterate_succ_apply, TokenStream.advance, hnext]
      exact ih

/-- A stream without a fault is read until only blanks are left. -/
theorem of_items (h : s.items = ts.map .ok) :
    ∃ gap opening, Reads s ts ⟨gap, opening⟩ ∧ Blank gap := by
  induction ts generalizing s with
  | nil =>
      refine ⟨s.ahead, s.opening, .done, blank_iff.mpr ?_⟩
      rcases dropWhile_isBlank_cases s.ahead with ⟨hp, -⟩ | ⟨c, cs, hd, -⟩
      · exact pieces_eq_nil_iff.mp hp
      · cases hnext : s.next? with
        | none =>
            unfold next? at hnext
            simp only [hd] at hnext
            split at hnext <;> cases hnext
        | some r =>
            rw [items_of_next?_eq_some hnext] at h
            cases h
  | cons t ts ih =>
      cases hnext : s.next? with
      | none =>
          rw [items_of_next?_eq_none hnext] at h
          cases h
      | some r =>
          rw [items_of_next?_eq_some hnext, List.map_cons, List.cons.injEq] at h
          obtain ⟨gap, opening, hreads, hgap⟩ := ih h.2
          rw [← Prod.eta r, h.1] at hnext
          exact ⟨gap, opening, .token hnext hreads, hgap⟩

end Reads

/-! ## What stands behind a seam -/

section

variable {xs ys : List Char}

/-- A word that does not reach over a seam ends where it did. -/
theorem splitWord_append (hne : xs ≠ []) (hseam : endsInWord xs = false ∨ startsInWord ys = false) :
    (xs ++ ys).takeWhile Char.isAlphanum = xs.takeWhile Char.isAlphanum ∧
      (xs ++ ys).dropWhile Char.isAlphanum = xs.dropWhile Char.isAlphanum ++ ys := by
  induction xs with
  | nil => exact absurd rfl hne
  | cons c xs ih =>
      by_cases hc : c.isAlphanum = true
      · rw [List.cons_append, List.takeWhile_cons_of_pos hc, List.takeWhile_cons_of_pos hc,
          List.dropWhile_cons_of_pos hc, List.dropWhile_cons_of_pos hc]
        by_cases hxs : xs = []
        · -- the last character is in the word, so what is behind it is not
          have hys : ys.head?.any Char.isAlphanum = false := by
            rcases hseam with hend | hstart
            · rw [hxs, endsInWord, List.getLast?_singleton, Option.any_some, hc] at hend
              cases hend
            · exact hstart
          have hnone : ∀ d ∈ [], Char.isAlphanum d = true := List.forall_mem_nil _
          rw [hxs]
          exact ⟨congrArg _ (takeWhile_append_eq hnone hys), dropWhile_append_eq hnone hys⟩
        · rw [endsInWord_cons hxs] at hseam
          obtain ⟨htake, hdrop⟩ := ih hxs hseam
          exact ⟨congrArg _ htake, hdrop⟩
      · rw [List.cons_append, List.takeWhile_cons_of_neg hc, List.takeWhile_cons_of_neg hc,
          List.dropWhile_cons_of_neg hc, List.dropWhile_cons_of_neg hc]
        exact ⟨rfl, rfl⟩

/-- Blanks end where they did if there is something else behind them. -/
theorem splitBlanks_append {c : Char} {cs : List Char} (h : xs.dropWhile isBlank = c :: cs)
    (ys : List Char) :
    (xs ++ ys).takeWhile isBlank = xs.takeWhile isBlank ∧
      (xs ++ ys).dropWhile isBlank = c :: (cs ++ ys) := by
  have hgap : ∀ d ∈ xs.takeWhile isBlank, isBlank d = true := fun _ => mem_takeWhile
  have hhead : (c :: (cs ++ ys)).head?.any isBlank = false := by
    have hc := head?_dropWhile_any isBlank xs
    rw [h] at hc
    exact hc
  have hsplit : xs ++ ys = xs.takeWhile isBlank ++ c :: (cs ++ ys) := by
    rw [← List.cons_append, ← h, ← List.append_assoc, List.takeWhile_append_dropWhile]
  rw [hsplit]
  exact ⟨takeWhile_append_eq hgap hhead, dropWhile_append_eq hgap hhead⟩

theorem endsInWord_suffix {zs : List Char} (h : zs <:+ xs) (hxs : endsInWord xs = false) :
    endsInWord zs = false := by
  obtain ⟨front, rfl⟩ := h
  by_cases hzs : zs = []
  · rw [hzs]
    rfl
  · rwa [endsInWord_append hzs] at hxs

end

/-- Nothing that is read in front of a seam depends on what is behind it: no word reaches over it,
and if only a sign is in front of it there are no digits behind it. -/
structure Seam (opening : Bool) (xs ys : List Char) : Prop where
  word : endsInWord xs = false ∨ startsInWord ys = false
  sign : opening = true → ∀ front s gap, xs = front ++ s :: gap → Blank front →
    s = '+' ∨ s = '-' → Blank gap → signedDigits? (gap ++ ys) = none

/-- Digits that continue a sign stay the same. -/
theorem signedDigits?_append_right {xs ys : List Char}
    (hword : endsInWord xs = false ∨ startsInWord ys = false)
    (hblank : Blank xs → signedDigits? (xs ++ ys) = none) :
    signedDigits? (xs ++ ys)
      = (signedDigits? xs).map fun (gap, digits, rest) => (gap, digits, rest ++ ys) := by
  cases hd : xs.dropWhile isBlank with
  | nil =>
      have hnone : signedDigits? xs = none := by
        simp [signedDigits?, hd]
      rw [hblank (blank_iff.mpr (List.dropWhile_eq_nil_iff.mp hd)), hnone]
      rfl
  | cons c cs =>
      have hsuffix : c :: cs <:+ xs := hd ▸ List.dropWhile_suffix isBlank
      obtain ⟨hgap, hrest⟩ := splitBlanks_append hd ys
      obtain ⟨htake, hdrop⟩ := splitWord_append (List.cons_ne_nil c cs)
        (hword.imp_left (endsInWord_suffix hsuffix))
      rw [List.cons_append] at htake hdrop
      simp only [signedDigits?, hgap, hrest, hd, htake, hdrop]
      split <;> rfl

/-- So does the token that starts with `c`. -/
theorem token?_append_right {opening : Bool} {c : Char} {cs ys : List Char}
    (h : Seam opening (c :: cs) ys) :
    token? opening c (cs ++ ys) = (token? opening c cs).map fun (t, rest) => (t, rest ++ ys) := by
  obtain ⟨htake, hdrop⟩ := splitWord_append (List.cons_ne_nil c cs) h.word
  have hsigned : (if opening && (c = '+' || c = '-') then signedDigits? (cs ++ ys) else none)
      = (if opening && (c = '+' || c = '-') then signedDigits? cs else none).map
        fun (gap, digits, rest) => (gap, digits, rest ++ ys) := by
    split
    · rename_i hopen
      simp only [Bool.and_eq_true, Bool.or_eq_true, decide_eq_true_eq] at hopen
      exact signedDigits?_append_right
        (h.word.imp_left (endsInWord_suffix (List.suffix_cons c cs)))
        (h.sign hopen.1 [] c cs rfl blank_nil hopen.2)
    · rfl
  rw [token?, token?, hsigned, ← List.cons_append, htake, hdrop]
  cases if opening && (c = '+' || c = '-') then signedDigits? cs else none with
  | some parts =>
      obtain ⟨gap, digits, rest⟩ := parts
      rw [Option.map_some]
      dsimp only
      cases literal? (c = '-') digits <;> rfl
  | none =>
      rw [Option.map_none]
      dsimp only
      cases TokenKind.ofChar? c with
      | some kind => rfl
      | none => cases wordKind? ((c :: cs).takeWhile Char.isAlphanum) <;> rfl

/-- What is left behind a token was there before. -/
theorem token?_suffix {opening : Bool} {c : Char} {cs rest : List Char} {t : Token}
    (h : token? opening c cs = some (t, rest)) : rest <:+ c :: cs := by
  unfold token? at h
  split at h
  · rename_i gap digits behind hsigned
    obtain ⟨v, -, hv⟩ := Option.map_eq_some_iff.mp h
    cases hv
    split at hsigned
    · unfold signedDigits? at hsigned
      dsimp only at hsigned
      split at hsigned
      · cases hsigned
        exact ((List.dropWhile_suffix _).trans (List.dropWhile_suffix _)).trans
          (List.suffix_cons c cs)
      · cases hsigned
    · cases hsigned
  · split at h
    · cases h
      exact List.suffix_cons c cs
    · obtain ⟨k, -, hk⟩ := Option.map_eq_some_iff.mp h
      cases hk
      exact List.dropWhile_suffix _

/-- The next token is the same, and behind it the seam is still ahead. -/
theorem next?_append_right {opening : Bool} {xs ys : List Char} {t : Token} {s : TokenStream}
    (h : Seam opening xs ys) (hnext : (⟨xs, opening⟩ : TokenStream).next? = some (.ok t, s)) :
    (⟨xs ++ ys, opening⟩ : TokenStream).next? = some (.ok t, ⟨s.ahead ++ ys, s.opening⟩) ∧
      Seam s.opening s.ahead ys := by
  unfold next? at hnext ⊢
  cases hd : xs.dropWhile isBlank with
  | nil =>
      simp only [hd] at hnext
      cases hnext
  | cons c cs =>
      have hsuffix : c :: cs <:+ xs := hd ▸ List.dropWhile_suffix isBlank
      have hseam : Seam opening (c :: cs) ys := by
        refine ⟨h.word.imp_left (endsInWord_suffix hsuffix),
          fun ho front s gap hcs hfront hs hgap => ?_⟩
        refine h.sign ho (xs.takeWhile isBlank ++ front) s gap ?_
          (blank_append.mpr ⟨blank_iff.mpr fun _ => mem_takeWhile, hfront⟩) hs hgap
        rw [List.append_assoc, ← hcs, ← hd, List.takeWhile_append_dropWhile]
      simp only [hd] at hnext
      simp only [(splitBlanks_append hd ys).2, token?_append_right hseam]
      cases ht : token? opening c cs with
      | none =>
          rw [ht] at hnext
          cases hnext
      | some r =>
          rw [ht] at hnext
          cases hnext
          exact ⟨rfl, h.word.imp_left (endsInWord_suffix ((token?_suffix ht).trans hsuffix)), nofun⟩

/-- **What stands behind a seam makes no difference to what is read in front of it.** -/
theorem Reads.append_right {s s' : TokenStream} {ys : List Char} {ts : List Token}
    (h : Reads s ts s') (hseam : Seam s.opening s.ahead ys) :
    Reads ⟨s.ahead ++ ys, s.opening⟩ ts ⟨s'.ahead ++ ys, s'.opening⟩ := by
  induction h with
  | done => exact .done
  | token hnext _ ih =>
      obtain ⟨hnext', hseam'⟩ := next?_append_right hseam hnext
      exact .token hnext' (ih hseam')

end TokenStream

/-! ## Faults -/

/-- A place in a line that no token can be read at: what is in front of it, the text that is at
fault, and what is behind. -/
inductive LexicalFault : List Char → List Char → List Char → Prop where
  /-- No token has this character. -/
  | character {before after : List Char} {c : Char} : c.isAlphanum = false → ¬ Blank [c] →
      c ∉ ['+', '-', '*', '/', '%', '(', ')', '='] → LexicalFault before [c] after
  /-- A number is too large, and it is not behind a sign that opens the line. -/
  | literal {before run after : List Char} : IsNumeral before run after →
      2 ^ 63 - 1 < Nat.ofDigitChars 10 run 0 →
      (∀ front s gap, before = front ++ s :: gap → Blank front → Blank gap → s ≠ '+' ∧ s ≠ '-') →
      LexicalFault before run after
  /-- A number is too large together with the sign that opens the line. -/
  | signed {front gap run after : List Char} {s : Char} : Blank front → s = '+' ∨ s = '-' →
      Blank gap → IsNumeral (front ++ s :: gap) run after →
      (if s = '-' then 2 ^ 63 else 2 ^ 63 - 1) < Nat.ofDigitChars 10 run 0 →
      LexicalFault front (s :: gap ++ run) after

/-- A number that is too large for its sign is none. -/
theorem literal?_eq_none {s : Char} {digits : List Char}
    (h : (if s = '-' then 2 ^ 63 else 2 ^ 63 - 1) < Nat.ofDigitChars 10 digits 0) :
    literal? (s = '-') digits = none := by
  rw [← Option.not_isSome_iff_eq_none, literal?_isSome_iff, decide_eq_true_eq]
  by_cases hs : s = '-'
  · rw [if_pos hs] at h
    omega
  · rw [if_neg hs] at h
    rintro (hle | ⟨-, hminus⟩)
    · omega
    · exact hs hminus

namespace LexicalFault

open TokenStream

variable {before bad after : List Char}

theorem ne_nil (h : LexicalFault before bad after) : bad ≠ [] := by
  cases h with
  | character => exact List.cons_ne_nil _ _
  | literal hrun => exact hrun.1.ne_nil
  | signed => exact List.cons_ne_nil _ _

/-- There is a seam in front of a fault. -/
theorem seam (h : LexicalFault before bad after) : Seam true before (bad ++ after) := by
  cases h with
  | character halnum hblank _ =>
      rename_i c _
      refine ⟨Or.inr halnum, fun _ front s gap _ _ _ hgap => ?_⟩
      have hhead : ([c] ++ after).head?.any isBlank = false := by
        rw [blank_singleton, Bool.not_eq_true] at hblank
        exact hblank
      have hrun : ([c] ++ after).takeWhile Char.isAlphanum = [] :=
        List.takeWhile_cons_of_neg (by simp [halnum])
      simp only [signedDigits?, dropWhile_append_eq (blank_iff.mp hgap) hhead, hrun]
      rfl
  | literal hrun _ hsign =>
      refine ⟨Or.inl (endsInWord_eq_false_iff.mpr hrun.1.left),
        fun _ front s gap hbefore hfront hs hgap => ?_⟩
      obtain ⟨hplus, hminus⟩ := hsign front s gap hbefore hfront hgap
      exact (hs.elim hplus hminus).elim
  | signed hfront =>
      have hblank := blank_iff.mp hfront
      refine ⟨Or.inl (endsInWord_of_isBlank hblank), fun _ front s gap hbefore _ hs _ => ?_⟩
      -- there are only blanks in front of the sign
      have hsign : isBlank s = true := hblank s (by simp [hbefore])
      rcases hs with rfl | rfl <;> cases hsign

/-- No token starts where the fault does. -/
theorem token?_eq_none {opening : Bool} {c : Char} {cs : List Char}
    (h : LexicalFault before bad after) (hopening : Blank before → opening = true)
    (hcs : bad ++ after = c :: cs) : isBlank c = false ∧ token? opening c cs = none := by
  cases h with
  | character halnum hblank hmark =>
      cases hcs
      rw [blank_singleton, Bool.not_eq_true] at hblank
      have hkind : TokenKind.ofChar? c = none := by
        rw [← Option.not_isSome_iff_eq_none, ofChar?_isSome_iff]
        exact hmark
      have hsign : ¬ (c = '+' ∨ c = '-') := by
        rintro (rfl | rfl) <;> cases hkind
      refine ⟨hblank, ?_⟩
      simp [token?, hsign, hkind, halnum, wordKind?]
  | literal hrun hlarge =>
      obtain ⟨d, run, rfl⟩ := List.exists_cons_of_ne_nil hrun.1.ne_nil
      cases hcs
      have halnum := hrun.1.alphanum c List.mem_cons_self
      have hkind : TokenKind.ofChar? c = none := ofChar?_of_isAlphanum halnum
      have hsign : ¬ (c = '+' ∨ c = '-') := by
        rintro (rfl | rfl) <;> cases halnum
      have hword : (c :: (run ++ after)).takeWhile Char.isAlphanum = c :: run :=
        takeWhile_append_eq hrun.1.alphanum (startsInWord_eq_false_iff.mpr hrun.1.right)
      have hnone : (Piece.word (c :: run)).token? = none := by
        rw [← Option.not_isSome_iff_eq_none, token?_word_isSome_iff hrun.1.ne_nil]
        exact fun h => absurd (h hrun.2) (by omega)
      refine ⟨isBlank_of_isAlphanum halnum, ?_⟩
      simpa [token?, hsign, hkind, hword, Piece.token?] using hnone
  | signed hfront hs hgap hrun hlarge =>
      have hsplit : ∀ s gap run, (s :: gap ++ run) ++ after = s :: (gap ++ (run ++ after)) :=
        fun s gap run => by simp
      have hsigned := signedDigits?_append (blank_iff.mp hgap) hrun.1.ne_nil hrun.2
        (startsInWord_eq_false_iff.mpr hrun.1.right)
      rw [hsplit] at hcs
      cases hcs
      refine ⟨by rcases hs with rfl | rfl <;> rfl, ?_⟩
      simp [token?, hopening hfront, hs, hsigned, literal?_eq_none hlarge]

/-- Whoever comes to a fault reads it, and nothing behind it. -/
theorem next?_eq {gap : List Char} {opening : Bool} (h : LexicalFault before bad after)
    (hgap : Blank gap) (hopening : Blank before → opening = true) :
    (⟨gap ++ (bad ++ after), opening⟩ : TokenStream).next?
      = some (.error .expression, ⟨[], false⟩) := by
  have hne : bad ++ after ≠ [] := List.append_ne_nil_of_left_ne_nil h.ne_nil after
  obtain ⟨c, cs, hcs⟩ := List.exists_cons_of_ne_nil hne
  obtain ⟨hc, htoken⟩ := h.token?_eq_none hopening hcs
  have hhead : (c :: cs).head?.any isBlank = false := hc
  rw [hcs]
  simp only [next?, dropWhile_append_eq (blank_iff.mp hgap) hhead, htoken]

/-- **If the line in front of a fault has none, it is read, and then the fault.** -/
theorem reads {ts : List Token} (h : LexicalFault before bad after)
    (hbefore : (⟨before, true⟩ : TokenStream).items = ts.map .ok) :
    ∃ gap opening, Blank gap ∧ Reads ⟨before ++ (bad ++ after), true⟩ ts
        ⟨gap ++ (bad ++ after), opening⟩ ∧
      (⟨gap ++ (bad ++ after), opening⟩ : TokenStream).items = [.error .expression] := by
  obtain ⟨gap, opening, hreads, hgap⟩ := Reads.of_items hbefore
  have hopening : Blank before → opening = true := by
    intro hblank
    cases hreads with
    | done => rfl
    | token hnext =>
        simp [next?, List.dropWhile_eq_nil_iff.mpr (blank_iff.mp hblank)] at hnext
  refine ⟨gap, opening, hgap, hreads.append_right h.seam, ?_⟩
  rw [items_of_next?_eq_some (h.next?_eq hgap hopening), items_of_next?_eq_none rfl]

end LexicalFault

/-! ## The first fault -/

/-- A line has a fault somewhere. -/
def HasFault (cs : List Char) : Prop :=
  ∃ before bad after, cs = before ++ (bad ++ after) ∧ LexicalFault before bad after

/-- No fault of a line is further left. -/
structure FirstFault (cs before bad after : List Char) : Prop where
  line : cs = before ++ (bad ++ after)
  fault : LexicalFault before bad after
  leftmost : ∀ before' bad' after', cs = before' ++ (bad' ++ after') →
    LexicalFault before' bad' after' → before.length ≤ before'.length

section

variable {cs before bad after : List Char}

theorem exists_firstFault (h : HasFault cs) :
    ∃ before bad after, FirstFault cs before bad after := by
  obtain ⟨before, bad, after, hcs, hfault⟩ := h
  induction hn : before.length using Nat.strongRecOn generalizing before bad after with
  | ind n ih =>
      by_cases hfirst : ∀ before' bad' after', cs = before' ++ (bad' ++ after') →
          LexicalFault before' bad' after' → before.length ≤ before'.length
      · exact ⟨before, bad, after, hcs, hfault, hfirst⟩
      · push Not at hfirst
        obtain ⟨before', bad', after', hcs', hfault', hshorter⟩ := hfirst
        exact ih _ (hn ▸ hshorter) before' bad' after' hcs' hfault' rfl

/-- A run ends where it did when the line goes on behind a seam. -/
theorem startsInWord_append_seam {front run ys : List Char} (hrun : IsRun front run after)
    (hseam : endsInWord (front ++ (run ++ after)) = false ∨ startsInWord ys = false) :
    ∀ c ∈ (after ++ ys).head?, c.isAlphanum = false := by
  cases after with
  | cons c after => exact hrun.right
  | nil =>
      -- the run is what stands in front of the seam, so none starts behind it
      refine startsInWord_eq_false_iff.mp (hseam.resolve_left ?_)
      have hends : endsInWord run = true := by
        rw [endsInWord, List.getLast?_eq_some_getLast hrun.ne_nil, Option.any_some]
        exact hrun.alphanum _ (List.getLast_mem _)
      rw [List.append_nil, endsInWord_append hrun.ne_nil, hends]
      exact Bool.noConfusion

/-- A fault stays one when the line goes on behind a seam. -/
theorem LexicalFault.append_right {opening : Bool} {ys : List Char}
    (h : LexicalFault before bad after)
    (hseam : TokenStream.Seam opening (before ++ (bad ++ after)) ys) :
    LexicalFault before bad (after ++ ys) := by
  cases h with
  | character halnum hblank hmark => exact .character halnum hblank hmark
  | literal hrun hlarge hsign =>
      obtain ⟨hrun, hdigits⟩ := hrun
      have hright := startsInWord_append_seam hrun hseam.word
      exact .literal ⟨⟨hrun.ne_nil, hrun.alphanum, hrun.left, hright⟩, hdigits⟩ hlarge hsign
  | signed hfront hs hgap hrun hlarge =>
      obtain ⟨hrun, hdigits⟩ := hrun
      have hword := hseam.word
      rw [← List.append_assoc, ← List.append_assoc, List.append_assoc _ _ after] at hword
      have hright := startsInWord_append_seam hrun hword
      exact .signed hfront hs hgap ⟨⟨hrun.ne_nil, hrun.alphanum, hrun.left, hright⟩, hdigits⟩ hlarge

/-- There is no fault in front of the first one. -/
theorem FirstFault.not_hasFault (h : FirstFault cs before bad after) : ¬ HasFault before := by
  rintro ⟨before', bad', after', rfl, hfault'⟩
  have hline : cs = before' ++ (bad' ++ (after' ++ (bad ++ after))) := by
    rw [h.line]
    simp
  have hle := h.leftmost _ _ _ hline (hfault'.append_right h.fault.seam)
  have hpos := List.length_pos_of_ne_nil hfault'.ne_nil
  simp only [List.length_append] at hle
  omega

/-- **A line without a fault is read to its end.** -/
theorem items_of_not_hasFault (h : ¬ HasFault cs) :
    ∃ ts : List Token, (⟨cs, true⟩ : TokenStream).items = ts.map .ok := by
  have hlegible : Legible (pieces cs) := by
    refine legible_pieces_iff.mpr ⟨fun c hc => ?_, fun before run after hcs hrun => ?_⟩
    · by_contra hno
      rw [not_or, not_or, Bool.not_eq_true] at hno
      obtain ⟨before, after, rfl⟩ := List.append_of_mem hc
      exact h ⟨before, [c], after, rfl, .character hno.1 hno.2.1 hno.2.2⟩
    · by_contra hno
      rw [not_or, not_and, Nat.not_le] at hno
      obtain ⟨hlarge, hminus⟩ := hno
      rw [List.append_assoc] at hcs
      by_cases hsign : ∀ front s gap, before = front ++ s :: gap → Blank front → Blank gap →
          s ≠ '+' ∧ s ≠ '-'
      · exact h ⟨before, run, after, hcs, .literal hrun hlarge hsign⟩
      · push Not at hsign
        obtain ⟨front, s, gap, rfl, hfront, hgap, hs⟩ := hsign
        refine h ⟨front, s :: gap ++ run, after, by rw [hcs]; simp, .signed hfront ?_ hgap hrun ?_⟩
        · by_cases hplus : s = '+'
          · exact Or.inl hplus
          · exact Or.inr (hs hplus)
        · split
          · rename_i hs
            have hne : Nat.ofDigitChars 10 run 0 ≠ 2 ^ 63 := fun heq =>
              hminus heq ⟨front, gap, hfront, hgap, by rw [hs]⟩
            omega
          · exact hlarge
  rw [← String.toList_ofList (l := cs)] at hlegible
  obtain ⟨ts, hts⟩ := (scan_ok_iff _).mpr hlegible
  have hitems := Token.scan_eq_ok_iff_items.mp hts
  rw [TokenStream.ofLine, String.toList_ofList] at hitems
  exact ⟨ts, hitems⟩

end

/-! ## The theorem -/

/-- What is read of a line that has its first fault at some place. -/
structure ReadUpTo (line : String) (before bad after : List Char) (ts : List Token) : Prop where
  /-- The line in front of the fault has these tokens, and no fault. -/
  front : (TokenStream.ofLine (String.ofList before)).items = ts.map .ok
  /-- The whole line has the same tokens and one fault. -/
  items : (TokenStream.ofLine line).items = ts.map .ok ++ [.error .expression]
  /-- When the fault is read there is nothing in front of its place but blanks. -/
  place : ∃ gap, Blank gap ∧
    (TokenStream.advance^[ts.length] (TokenStream.ofLine line)).ahead = gap ++ (bad ++ after)

theorem FirstFault.readUpTo {line : String} {before bad after : List Char}
    (h : FirstFault line.toList before bad after) : ∃ ts, ReadUpTo line before bad after ts := by
  obtain ⟨ts, hfront⟩ := items_of_not_hasFault h.not_hasFault
  obtain ⟨gap, opening, hgap, hreads, hfault⟩ := h.fault.reads hfront
  rw [← h.line] at hreads
  refine ⟨ts, ?_, hreads.items.trans (by rw [hfault]), gap, hgap, ?_⟩
  · rw [TokenStream.ofLine, String.toList_ofList]
    exact hfront
  · rw [TokenStream.ofLine, hreads.advance]

/-- How far a line is read, and what of it. -/
structure StopsAtFirstFault (line : String) : Prop where
  /-- Calls yield the items one by one, and nothing from then on. -/
  calls : ∀ k, (TokenStream.ofLine line).call k = (TokenStream.ofLine line).items[k]?
  /-- There are no more items than bytes. -/
  bytes : (TokenStream.ofLine line).items.length ≤ line.utf8ByteSize
  /-- A fault is a faulty expression, and no item is behind it. -/
  last : ∀ k f, (TokenStream.ofLine line).call k = some (.error f) →
    f = .expression ∧ ∀ m, k < m → (TokenStream.ofLine line).call m = none
  /-- Some item is a fault exactly if the line has one somewhere. -/
  fault : (∃ k f, (TokenStream.ofLine line).call k = some (.error f)) ↔ HasFault line.toList
  /-- It is the first one of the line. -/
  first : ∀ before bad after, FirstFault line.toList before bad after →
    ∃ ts, ReadUpTo line before bad after ts

/--
**Reading a line stops at the first fault in it.**

A stream yields at most as many items as its line has bytes, and then nothing, however often it is
called. At most the last item is a fault. It is one exactly if there is a fault somewhere in the
line, and then it is the first one: in front of it are the tokens of what is in front of that.
-/
theorem stream_stops_at_first_fault (line : String) : StopsAtFirstFault line := by
  have hbytes := Nat.le_trans (TokenStream.length_items_le (TokenStream.ofLine line))
    (Text.length_le_utf8ByteSize line)
  refine ⟨TokenStream.call_eq _, hbytes, fun k f => TokenStream.call_eq_error,
    ⟨fun h => ?_, fun h => ?_⟩, fun before bad after => FirstFault.readUpTo⟩
  · by_contra hno
    obtain ⟨k, f, hk⟩ := h
    obtain ⟨ts, hts⟩ := items_of_not_hasFault hno
    rw [TokenStream.call_eq, TokenStream.ofLine, hts] at hk
    exact TokenStream.getElem?_tokens_ne ts k f hk
  · obtain ⟨before, bad, after, h⟩ := exists_firstFault h
    obtain ⟨ts, hts⟩ := h.readUpTo
    refine ⟨ts.length, .expression, ?_⟩
    rw [TokenStream.call_eq, hts.items]
    simp

example : ((TokenStream.ofLine "+ 1 $ 2").items.map fun item => item.toOption.map Token.lexeme)
    = [some "+ 1", none] := by
  decide +kernel

end LineCalc
