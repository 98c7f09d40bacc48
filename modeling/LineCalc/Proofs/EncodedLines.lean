import LineCalc.Text.Lines

/-!
# Lines of encoded text

Bytes can be cut into lines before they are read as text, or afterwards. It comes to the same,
because a newline is encoded by one byte and this byte is no part of any other character. So a
text has the lines that its bytes have (`lines_encode`), and bytes encode a text exactly if each of
their lines does.

Bytes that encode no text therefore have a first line that does not (`exists_firstUnreadable`).
-/

namespace LineCalc.Text

/-! ## Decoding -/

/-- The bytes that encode some characters. -/
def encode (cs : List Char) : List UInt8 := cs.flatMap String.utf8EncodeChar

/-- A text is decoded from the bytes that encode it, and from no others. -/
theorem decode?_eq_some_iff {bytes : List UInt8} {s : String} :
    decode? bytes = some s ↔ bytes = encode s.toList := by
  have hencode : s.toByteArray = (encode s.toList).toByteArray := String.utf8Encode_toList.symm
  rw [← List.toByteArray_inj, ← hencode]
  unfold decode? String.fromUTF8?
  constructor
  · intro h
    split at h
    · cases h
      rfl
    · cases h
  · intro h
    rw [dif_pos (h ▸ s.isValidUTF8), Option.some.injEq]
    exact String.toByteArray_inj.mp h

theorem decode?_encode (cs : List Char) : decode? (encode cs) = some (String.ofList cs) := by
  rw [decode?_eq_some_iff, String.toList_ofList]

/-- A text is in the bytes that it is put into. -/
theorem toUTF8_of_decode? {bytes : List UInt8} {s : String} (h : decode? bytes = some s) :
    s.toUTF8.data.toList = bytes := by
  rw [decode?_eq_some_iff.mp h, String.toUTF8_eq_toByteArray, ← String.utf8Encode_toList]
  exact List.toList_data_toByteArray

/-- Every character has a byte of its own. -/
theorem length_le_utf8ByteSize (s : String) : s.toList.length ≤ s.utf8ByteSize := by
  have hbytes : s.utf8ByteSize = (encode s.toList).length := by
    rw [← String.size_toByteArray, ← String.utf8Encode_toList]
    exact List.size_toByteArray
  rw [hbytes]
  generalize s.toList = cs
  induction cs with
  | nil => exact Nat.le_refl _
  | cons c cs ih =>
      have hpos := Char.utf8Size_pos c
      have hcons : (encode (c :: cs)).length = c.utf8Size + (encode cs).length := by
        rw [encode, List.flatMap_cons, List.length_append, String.length_utf8EncodeChar]
        rfl
      rw [hcons, List.length_cons]
      omega

theorem isSome_decode?_append {a b : List UInt8} (ha : (decode? a).isSome = true)
    (hb : (decode? b).isSome = true) : (decode? (a ++ b)).isSome = true := by
  obtain ⟨s, hs⟩ := Option.isSome_iff_exists.mp ha
  obtain ⟨t, ht⟩ := Option.isSome_iff_exists.mp hb
  have happend : a ++ b = encode (s.toList ++ t.toList) := by
    rw [decode?_eq_some_iff.mp hs, decode?_eq_some_iff.mp ht]
    exact List.flatMap_append.symm
  rw [happend, decode?_encode]
  rfl

/-! ## Cutting -/

section

variable {α : Type} [DecidableEq α] {newline : α}

/-- What has no newline is the start of a line. -/
theorem lines_append_of_not_mem {l xs : List α} (hne : l ≠ []) (h : newline ∉ l) :
    lines newline (l ++ xs) =
      match lines newline xs with
      | [] => [l]
      | line :: rest => (l ++ line) :: rest := by
  induction l with
  | nil => exact absurd rfl hne
  | cons x l ih =>
      have hx : x ≠ newline := fun he => h (he ▸ List.mem_cons_self)
      have hl : newline ∉ l := fun hm => h (List.mem_cons_of_mem x hm)
      rw [List.cons_append, lines, if_neg hx]
      cases l with
      | nil => rfl
      | cons y l =>
          rw [ih (by simp) hl]
          cases lines newline xs <;> rfl

/-- There is a first line, and it ends where a newline comes or nothing. -/
theorem exists_first_line (newline : α) (xs : List α) :
    ∃ line behind, xs = line ++ behind ∧ newline ∉ line ∧
      (behind = [] ∨ behind.head? = some newline) := by
  induction xs with
  | nil => exact ⟨[], [], rfl, List.not_mem_nil, Or.inl rfl⟩
  | cons x xs ih =>
      by_cases hx : x = newline
      · exact ⟨[], x :: xs, rfl, List.not_mem_nil, Or.inr (congrArg some hx)⟩
      · obtain ⟨line, behind, rfl, hline, hbehind⟩ := ih
        refine ⟨x :: line, behind, rfl, fun hmem => ?_, hbehind⟩
        rcases List.mem_cons.mp hmem with he | hmem
        · exact hx he.symm
        · exact hline hmem

theorem lines_append_of_ends {l xs : List α} (hne : l ≠ []) (h : newline ∉ l)
    (hxs : xs = [] ∨ xs.head? = some newline) :
    ∃ rest, lines newline (l ++ xs) = l :: rest := by
  rw [lines_append_of_not_mem hne h]
  rcases hxs with rfl | hhead
  · exact ⟨[], rfl⟩
  · obtain ⟨ys, rfl⟩ := List.head?_eq_some_iff.mp hhead
    have hlines : lines newline (newline :: ys) = [] :: lines newline ys := by
      rw [lines, if_pos rfl]
    refine ⟨lines newline ys, ?_⟩
    rw [hlines]
    show (l ++ []) :: lines newline ys = l :: lines newline ys
    rw [List.append_nil]

end

theorem encode_newline : String.utf8EncodeChar '\n' = [0x0A] := by decide

theorem newline_not_mem_encode {c : Char} (h : c ≠ '\n') : 0x0A ∉ String.utf8EncodeChar c := by
  have hten : c.val.toNat ≠ 10 := fun he => h (Char.ext (UInt32.toNat_inj.mp he))
  have hbyte : ∀ n, (0x0A : UInt8) = UInt8.ofNat n → n % 256 = 10 := fun n hn =>
    (UInt8.toNat_ofNat'.symm.trans (congrArg UInt8.toNat hn).symm)
  intro hmem
  unfold String.utf8EncodeChar at hmem
  dsimp only at hmem
  -- the one byte of an ASCII character is its code, and all bytes of others are 128 at least
  split at hmem
  · have := hbyte _ (List.mem_singleton.mp hmem)
    omega
  · have hlarge : ∃ n, (0x0A : UInt8) = UInt8.ofNat n ∧ 128 ≤ n % 256 := by
      split at hmem
      · simp only [List.mem_cons, List.not_mem_nil, or_false] at hmem
        rcases hmem with he | he <;> exact ⟨_, he, by omega⟩
      · split at hmem
        · simp only [List.mem_cons, List.not_mem_nil, or_false] at hmem
          rcases hmem with he | he | he <;> exact ⟨_, he, by omega⟩
        · simp only [List.mem_cons, List.not_mem_nil, or_false] at hmem
          rcases hmem with he | he | he | he <;> exact ⟨_, he, by omega⟩
    obtain ⟨n, hn, hle⟩ := hlarge
    have := hbyte n hn
    omega

/-- **A text has the lines that its bytes have.** -/
theorem lines_encode (cs : List Char) :
    lines 0x0A (encode cs) = (lines '\n' cs).map encode := by
  induction cs with
  | nil => rfl
  | cons c cs ih =>
      have hcons : encode (c :: cs) = String.utf8EncodeChar c ++ encode cs := List.flatMap_cons
      rw [hcons]
      by_cases hc : c = '\n'
      · subst hc
        rw [encode_newline, List.singleton_append, lines, if_pos rfl, lines, if_pos rfl, ih]
        rfl
      · rw [lines_append_of_not_mem String.utf8EncodeChar_ne_nil (newline_not_mem_encode hc), ih,
          lines, if_neg hc]
        cases lines '\n' cs with
        | nil => simp [encode]
        | cons line rest => simp [encode]

/-- The lines of a text can be read. -/
theorem isSome_of_mem_decodedLines {bytes : List UInt8} (h : (decode? bytes).isSome = true)
    {item : Option String} (hitem : item ∈ decodedLines bytes) : item.isSome = true := by
  obtain ⟨s, hs⟩ := Option.isSome_iff_exists.mp h
  rw [decodedLines, decode?_eq_some_iff.mp hs, lines_encode, List.map_map] at hitem
  obtain ⟨line, -, rfl⟩ := List.mem_map.mp hitem
  rw [Function.comp_apply, decode?_encode]
  rfl

/-! ## Bytes that encode no text -/

/-- The bytes are `before`, which is some whole lines of text, and `line`, which is no text, and
what comes behind it. -/
structure FirstUnreadable (bytes before line behind : List UInt8) : Prop where
  split : bytes = before ++ line ++ behind
  lines : before = [] ∨ before.getLast? = some 0x0A
  readable : (decode? before).isSome = true
  isLine : 0x0A ∉ line
  ends : behind = [] ∨ behind.head? = some 0x0A
  unreadable : decode? line = none

theorem FirstUnreadable.decodedLines {bytes before line behind : List UInt8}
    (h : FirstUnreadable bytes before line behind) :
    ∃ rest, decodedLines bytes = decodedLines before ++ none :: rest := by
  have hne : line ≠ [] := by
    intro he
    have hun := h.unreadable
    subst he
    cases hun.symm.trans (decode?_encode [])
  obtain ⟨rest, hrest⟩ := lines_append_of_ends hne h.isLine h.ends
  have hfirst : Text.decodedLines (line ++ behind) = none :: rest.map decode? := by
    rw [Text.decodedLines, hrest, List.map_cons, h.unreadable]
  refine ⟨rest.map decode?, ?_⟩
  rw [h.split, List.append_assoc, decodedLines_append h.lines, hfirst]

/-- **Bytes that encode no text have a first line that encodes none.** -/
theorem exists_firstUnreadable {bytes : List UInt8} (h : decode? bytes = none) :
    ∃ before line behind, FirstUnreadable bytes before line behind := by
  obtain ⟨line, behind, hcut, hline, hends⟩ := exists_first_line 0x0A bytes
  cases hfirst : decode? line with
  | none => exact ⟨[], line, behind, hcut, Or.inl rfl, rfl, hline, hends, hfirst⟩
  | some s =>
      -- the first line is text, so it is not all there is, and what is behind it is none
      have hreadable : (decode? line).isSome = true := by rw [hfirst]; rfl
      rcases hends with rfl | hhead
      · rw [hcut, List.append_nil, hfirst] at h
        cases h
      · obtain ⟨rest, rfl⟩ := List.head?_eq_some_iff.mp hhead
        have hwhole : bytes = (line ++ [0x0A]) ++ rest := by
          rw [hcut, List.append_assoc, List.singleton_append]
        have hstart : (decode? (line ++ [0x0A])).isSome = true :=
          isSome_decode?_append hreadable (by decide)
        have hrest : decode? rest = none := by
          rw [← Option.not_isSome_iff_eq_none]
          intro hsome
          have hall := isSome_decode?_append hstart hsome
          rw [← hwhole, h] at hall
          cases hall
        have hshorter : rest.length < bytes.length := by
          rw [hcut, List.length_append, List.length_cons]
          omega
        obtain ⟨before, line', behind, hu⟩ := exists_firstUnreadable hrest
        refine ⟨line ++ [0x0A] ++ before, line', behind, ?_, Or.inr ?_,
          isSome_decode?_append hstart hu.readable, hu.isLine, hu.ends, hu.unreadable⟩
        · rw [hwhole, hu.split]
          simp only [List.append_assoc]
        · rcases hu.lines with rfl | hlast
          · rw [List.append_nil, List.getLast?_concat]
          · rw [List.getLast?_append, hlast]
            rfl
termination_by bytes.length

end LineCalc.Text
