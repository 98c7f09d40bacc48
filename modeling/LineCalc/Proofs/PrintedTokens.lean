import LineCalc.Proofs.Decimal
import LineCalc.Token.Listing
import Mathlib.Logic.Function.Basic

/-!
# Printed tokens can be read back

What is listed of a token has its kind, its lexeme and its value next to each other, and the lexeme
may be any text at all: it may have spaces in it, quotation marks, or what looks like the rest of a
listing. Nevertheless no two tokens are listed alike.

In JSON each part says itself where it ends. This is `SelfDelimiting`: whatever text stands behind
a part, there is one way only to tell the two apart. A string ends at the first quotation mark that
is not escaped, and no escape starts with one; a value ends at the brace behind it. What is put
together from such parts is self-delimiting again, up to the array of a line.

The plain listing is not. There it is the label at one end and the value at the other that have no
space in them, and the lexeme is what is left.
-/

namespace LineCalc

/-! ## Texts that say where they end -/

/-- Whatever stands behind the text of a value, the value can be told, and what stands behind it. -/
def SelfDelimiting {α : Type} (write : α → List Char) : Prop :=
  ∀ ⦃x y rest rest'⦄, write x ++ rest = write y ++ rest' → x = y ∧ rest = rest'

/-- Texts that do not have a character in them end where it comes. -/
theorem append_stop_inj {stop : Char} {xs ys rest rest' : List Char} (hx : stop ∉ xs)
    (hy : stop ∉ ys) (h : xs ++ stop :: rest = ys ++ stop :: rest') : xs = ys ∧ rest = rest' := by
  induction xs generalizing ys with
  | nil =>
      cases ys with
      | nil => exact ⟨rfl, (List.cons.inj h).2⟩
      | cons y ys => exact absurd ((List.cons.inj h).1 ▸ List.mem_cons_self) hy
  | cons x xs ih =>
      cases ys with
      | nil => exact absurd ((List.cons.inj h).1 ▸ List.mem_cons_self) hx
      | cons y ys =>
          obtain ⟨rfl, hrest⟩ := List.cons.inj h
          obtain ⟨rfl, hback⟩ := ih (fun hm => hx (List.mem_cons_of_mem _ hm))
            (fun hm => hy (List.mem_cons_of_mem _ hm)) hrest
          exact ⟨rfl, hback⟩

namespace SelfDelimiting

variable {α : Type} {write : α → List Char}

theorem injective (h : SelfDelimiting write) : Function.Injective write := fun _ _ heq =>
  (h (congrArg (· ++ []) heq)).1

/-- What can be read off the front of any text that starts with it is self-delimiting. -/
theorem of_read {read : List Char → Option (α × List Char)}
    (h : ∀ x rest, read (write x ++ rest) = some (x, rest)) : SelfDelimiting write := by
  intro x y rest rest' heq
  have hread := h x rest
  rw [heq, h y rest', Option.some.injEq, Prod.mk.injEq] at hread
  exact ⟨hread.1.symm, hread.2.symm⟩

/-- So are several in a row with a stop behind them that none of them starts with. -/
theorem row (h : SelfDelimiting write) {stop : Char}
    (hstop : ∀ x, ∃ c ∈ (write x).head?, c ≠ stop) :
    SelfDelimiting fun xs : List α => xs.flatMap write ++ [stop] := by
  have hends : ∀ x (xs : List α) rest rest',
      stop :: rest ≠ (x :: xs).flatMap write ++ [stop] ++ rest' := by
    intro x xs rest rest' heq
    obtain ⟨c, hc, hne⟩ := hstop x
    obtain ⟨cs, hcs⟩ := List.head?_eq_some_iff.mp hc
    rw [List.flatMap_cons, hcs] at heq
    exact hne (List.cons.inj heq).1.symm
  intro xs ys rest rest' heq
  dsimp only at heq
  induction xs generalizing ys with
  | nil =>
      cases ys with
      | nil => exact ⟨rfl, (List.cons.inj heq).2⟩
      | cons y ys => exact absurd heq (hends y ys rest rest')
  | cons x xs ih =>
      cases ys with
      | nil => exact absurd heq.symm (hends x xs rest' rest)
      | cons y ys =>
          simp only [List.flatMap_cons, List.append_assoc] at heq
          obtain ⟨rfl, hback⟩ := h heq
          simp only [← List.append_assoc] at hback
          obtain ⟨rfl, hrest⟩ := ih hback
          exact ⟨rfl, hrest⟩

end SelfDelimiting

/-! ## Strings -/

namespace Text.JsonString

/-- The digit that a hexadecimal digit writes. -/
def hexValue (c : Char) : Nat := if c.isDigit then c.toNat - 48 else c.toNat - 87

/-- The character that the text behind a backslash stands for, and what is behind that. -/
def escaped? : List Char → Option (Char × List Char)
  | '"' :: rest => some ('"', rest)
  | '\\' :: rest => some ('\\', rest)
  | 'b' :: rest => some ('\x08', rest)
  | 'f' :: rest => some ('\x0c', rest)
  | 'n' :: rest => some ('\n', rest)
  | 'r' :: rest => some ('\r', rest)
  | 't' :: rest => some ('\t', rest)
  | 'u' :: '0' :: '0' :: high :: low :: rest =>
      some (Char.ofNat (hexValue high * 16 + hexValue low), rest)
  | _ => none

/-- The character that a text starts with, escaped or not, and what is behind it. -/
def unescape? : List Char → Option (Char × List Char)
  | [] => none
  | c :: rest => if c = '\\' then escaped? rest else some (c, rest)

theorem unescape?_escape (c : Char) (rest : List Char) :
    unescape? (escape c ++ rest) = some (c, rest) := by
  unfold escape
  split
  case h_8 =>
    rename_i hbackslash _ _ _ _ _
    split
    · -- the code is below 32, and its two digits are read back
      have hdigit : ∀ n < 16, hexValue (Nat.digitChar n) = n := by decide
      have hcode : hexValue (Nat.digitChar (c.toNat / 16)) * 16
          + hexValue (Nat.digitChar (c.toNat % 16)) = c.toNat := by
        rw [hdigit _ (by omega), hdigit _ (by omega)]
        omega
      simp only [List.cons_append, List.nil_append, unescape?, if_true, escaped?, hcode,
        Char.ofNat_toNat]
    · rw [List.singleton_append, unescape?, if_neg hbackslash]
  all_goals rfl

theorem selfDelimiting_escape : SelfDelimiting escape := .of_read unescape?_escape

/-- What a character is escaped to does not start like the end of the string. -/
theorem head?_escape (c : Char) : ∃ d ∈ (escape c).head?, d ≠ '"' := by
  unfold escape
  split
  case h_8 =>
    rename_i hquote _ _ _ _ _ _
    split
    · exact ⟨'\\', rfl, by decide⟩
    · exact ⟨c, rfl, hquote⟩
  all_goals exact ⟨'\\', rfl, by decide⟩

theorem toList_encode (s : String) :
    (encode s).toList = '"' :: (s.toList.flatMap escape ++ ['"']) := String.toList_ofList

/-- **A string in JSON ends where it says,** and is one string's only. -/
theorem selfDelimiting_encode : SelfDelimiting fun s => (encode s).toList := by
  intro s t rest rest' h
  simp only [toList_encode, List.cons_append] at h
  obtain ⟨hst, hrest⟩ := selfDelimiting_escape.row head?_escape (List.cons.inj h).2
  exact ⟨String.toList_inj.mp hst, hrest⟩

/-- A newline is escaped, like every control character. -/
theorem newline_not_mem_escape (c : Char) : '\n' ∉ escape c := by
  unfold escape
  split
  case h_8 =>
    rename_i hnewline _ _
    split
    · have hdigit : ∀ n < 16, '\n' ≠ Nat.digitChar n := by decide
      have hhigh := hdigit (c.toNat / 16) (by omega)
      have hlow := hdigit (c.toNat % 16) (by omega)
      simp [hhigh, hlow]
    · simpa using Ne.symm hnewline
  all_goals decide

theorem newline_not_mem_encode (s : String) : '\n' ∉ (encode s).toList := by
  simp [toList_encode, newline_not_mem_escape]

end Text.JsonString

/-! ## Kinds -/

namespace TokenKind

/-- A kind is its label, and its value if it is a number. -/
theorem eq_of_label_eq {k l : TokenKind} (hlabel : k.label = l.label)
    (hvalue : ∀ v w, k = number v → l = number w → v = w) : k = l := by
  rw [← alike_iff_label_eq] at hlabel
  cases k with
  | number v =>
      cases l with
      | number w => rw [hvalue v w rfl rfl]
      | _ => cases hlabel
  | _ => cases l <;> first | rfl | cases hlabel

/-- Labels are made of capital letters and `_`. -/
theorem not_mem_label (k : TokenKind) {c : Char} (hupper : c.isUpper = false) (hne : c ≠ '_') :
    c ∉ k.label.toList := by
  have hall : (k.label.toList.all fun d => d.isUpper || d = '_') = true := by
    cases k with
    | number v => exact (by decide : ("NUMBER".toList.all fun d => d.isUpper || d = '_') = true)
    | _ => decide
  intro hc
  have hc := List.all_eq_true.mp hall c hc
  rw [hupper, Bool.false_or, decide_eq_true_eq] at hc
  exact hne hc

/-- Only numbers are objects in JSON. -/
theorem json_cases (k : TokenKind) :
    (∃ v, k = number v ∧ k.json.toList =
      '{' :: ("\"NUMBER\":".toList ++ ((decimal v).toList ++ ['}']))) ∨
    ((∀ v, k ≠ number v) ∧ k.json = Text.JsonString.encode k.label) := by
  cases k with
  | number v =>
      have hlabel : Text.JsonString.encode (number v).label = "\"NUMBER\"" := by
        change Text.JsonString.encode "NUMBER" = _
        decide
      refine Or.inl ⟨v, rfl, ?_⟩
      simp only [json, hlabel, String.toList_append, List.append_assoc]
      rfl
  | _ => exact Or.inr ⟨fun v h => (by cases h), rfl⟩

theorem selfDelimiting_json : SelfDelimiting fun k : TokenKind => k.json.toList := by
  intro k l rest rest' h
  dsimp only at h
  rcases json_cases k with ⟨v, rfl, hk⟩ | ⟨hk, hkjson⟩ <;>
    rcases json_cases l with ⟨w, rfl, hl⟩ | ⟨hl, hljson⟩
  · rw [hk, hl] at h
    simp only [List.cons_append, List.append_assoc, List.cons.injEq, true_and,
      List.append_cancel_left_eq] at h
    have hbrace : ∀ v, '}' ∉ (decimal v).toList := fun v =>
      not_mem_decimal v (by decide) (by decide)
    obtain ⟨hvalue, hrest⟩ := append_stop_inj (hbrace v) (hbrace w) h
    exact ⟨congrArg number (decimal_injective (String.toList_inj.mp hvalue)), hrest⟩
  · -- an object starts with a brace, and a string with a quotation mark
    rw [hk, hljson, Text.JsonString.toList_encode] at h
    cases (List.cons.inj h).1
  · rw [hl, hkjson, Text.JsonString.toList_encode] at h
    cases (List.cons.inj h).1
  · rw [hkjson, hljson] at h
    obtain ⟨hlabel, hrest⟩ := Text.JsonString.selfDelimiting_encode h
    exact ⟨eq_of_label_eq hlabel fun v _ hv => absurd hv (hk v), hrest⟩

theorem newline_not_mem_json (k : TokenKind) : '\n' ∉ k.json.toList := by
  rcases json_cases k with ⟨v, rfl, hk⟩ | ⟨-, hk⟩
  · rw [hk]
    simp [not_mem_decimal]
  · rw [hk]
    exact Text.JsonString.newline_not_mem_encode _

end TokenKind

/-! ## Tokens -/

namespace Token

theorem eq_of_parts {t u : Token} (hkind : t.kind = u.kind) (hlexeme : t.lexeme = u.lexeme) :
    t = u := by
  cases t
  cases u
  rw [mk.injEq]
  exact ⟨hkind, hlexeme⟩

theorem toList_json (t : Token) : t.json.toList =
    '{' :: "\"token_type\":".toList ++ (t.kind.json.toList ++ (",\"lexeme\":".toList ++
      ((Text.JsonString.encode t.lexeme).toList ++ ['}']))) := by
  have hjson : t.json = "\x7b\"token_type\":" ++ t.kind.json ++ ",\"lexeme\":" ++
      Text.JsonString.encode t.lexeme ++ "\x7d" := rfl
  simp only [hjson, String.toList_append, List.append_assoc]
  rfl

theorem selfDelimiting_json : SelfDelimiting fun t : Token => t.json.toList := by
  intro t u rest rest' h
  simp only [toList_json, List.append_assoc, List.append_cancel_left_eq] at h
  obtain ⟨hkind, h⟩ := TokenKind.selfDelimiting_json h
  obtain ⟨hlexeme, h⟩ := Text.JsonString.selfDelimiting_encode (List.append_cancel_left h)
  exact ⟨eq_of_parts hkind hlexeme, List.append_cancel_left h⟩

/-- Behind the first token of an array each has a comma in front. -/
theorem toList_jsonArray_cons (t : Token) (ts : List Token) : (jsonArray (t :: ts)).toList =
    '[' :: (t.json.toList ++ ((ts.flatMap fun u => ',' :: u.json.toList) ++ [']'])) := by
  have hjoin : (String.intercalate "," ((t :: ts).map json)).toList
      = t.json.toList ++ ts.flatMap fun u => ',' :: u.json.toList := by
    induction ts generalizing t with
    | nil => simp
    | cons u ts ih =>
        have hcut := ih u
        rw [List.map_cons] at hcut
        rw [List.map_cons, List.map_cons, String.intercalate_cons_cons, String.toList_append,
          String.toList_append, hcut, List.flatMap_cons, List.append_assoc]
        rfl
  rw [jsonArray, String.toList_append, String.toList_append, hjoin, List.append_assoc,
    List.append_assoc]
  rfl

/-- **The tokens of a line are told by their array.** -/
theorem selfDelimiting_jsonArray : SelfDelimiting fun ts => (jsonArray ts).toList := by
  have hcomma : SelfDelimiting fun t : Token => ',' :: t.json.toList := fun t u rest rest' h =>
    selfDelimiting_json (List.cons.inj h).2
  have hrow : SelfDelimiting fun ts : List Token =>
      (ts.flatMap fun t => ',' :: t.json.toList) ++ [']'] :=
    hcomma.row fun t => ⟨',', rfl, by decide⟩
  have hnil : (jsonArray []).toList = ['[', ']'] := by decide
  intro ts us rest rest' h
  dsimp only at h
  cases ts with
  | nil =>
      cases us with
      | nil => exact ⟨rfl, List.append_cancel_left h⟩
      | cons u us =>
          rw [hnil, toList_jsonArray_cons, toList_json] at h
          cases (List.cons.inj (List.cons.inj h).2).1
  | cons t ts =>
      cases us with
      | nil =>
          rw [hnil, toList_jsonArray_cons, toList_json] at h
          cases (List.cons.inj (List.cons.inj h).2).1
      | cons u us =>
          rw [toList_jsonArray_cons, toList_jsonArray_cons] at h
          have hinner := (List.cons.inj h).2
          simp only [List.append_eq, List.append_assoc] at hinner
          obtain ⟨rfl, hback⟩ := selfDelimiting_json hinner
          rw [← List.append_assoc, ← List.append_assoc] at hback
          obtain ⟨rfl, hrest⟩ := hrow hback
          exact ⟨rfl, hrest⟩

/-- What stands last in the plain listing of a token. -/
def shownValue (t : Token) : String :=
  match t.number? with
  | some value => decimal value
  | none => "null"

theorem toList_describe (t : Token) : t.describe.toList =
    t.kind.label.toList ++ ' ' :: (t.lexeme.toList ++ ' ' :: t.shownValue.toList) := by
  have hdescribe : t.describe = t.kind.label ++ " " ++ t.lexeme ++ " " ++ t.shownValue := rfl
  simp only [hdescribe, String.toList_append, List.append_assoc]
  rfl

/-- A value is made of letters and digits, and a sign. -/
theorem not_mem_shownValue (t : Token) {c : Char} (hne : c ≠ '-') (halnum : c.isAlphanum = false) :
    c ∉ t.shownValue.toList := by
  unfold shownValue
  split
  · exact not_mem_decimal _ hne (Bool.or_eq_false_iff.mp halnum).2
  · have hnull : "null".toList.all Char.isAlphanum = true := by decide
    exact fun hc => Bool.false_ne_true (halnum.symm.trans (List.all_eq_true.mp hnull c hc))

/-- **A token is told by its listing,** although its lexeme may be any text. -/
theorem describe_injective : Function.Injective describe := by
  intro t u h
  have hlist := congrArg String.toList h
  rw [toList_describe, toList_describe] at hlist
  -- the first space ends the label, and the last one the lexeme
  have hlabel : ∀ k : TokenKind, ' ' ∉ k.label.toList := fun k =>
    k.not_mem_label (by decide) (by decide)
  have hvalue : ∀ t : Token, ' ' ∉ t.shownValue.toList.reverse := fun t ht =>
    t.not_mem_shownValue (by decide) (by decide) (List.mem_reverse.mp ht)
  obtain ⟨hlabels, hback⟩ := append_stop_inj (hlabel _) (hlabel _) hlist
  have hmirror := congrArg List.reverse hback
  simp only [List.reverse_append, List.reverse_cons, List.append_assoc, List.singleton_append]
    at hmirror
  obtain ⟨hvalues, hlexemes⟩ := append_stop_inj (hvalue t) (hvalue u) hmirror
  have hshown := String.toList_inj.mp (List.reverse_inj.mp hvalues)
  have hkind : t.kind = u.kind := by
    refine TokenKind.eq_of_label_eq (String.toList_inj.mp hlabels) fun v w hv hw => ?_
    unfold shownValue number? at hshown
    rw [hv, hw] at hshown
    exact decimal_injective hshown
  exact eq_of_parts hkind (String.toList_inj.mp (List.reverse_inj.mp hlexemes))

/-- **Each of the two listings determines what it lists,** whatever the lexemes: the plain one the
token, with its kind, its lexeme and its value, and the array the whole list. So arrays can be read
back, and what reads them back can refuse every other text. -/
theorem printed_tokens_determine_tokens :
    Function.Injective describe ∧ Function.Injective jsonArray ∧
    ∃ decode : String → Option (List Token),
      ∀ text ts, decode text = some ts ↔ jsonArray ts = text := by
  have harray : Function.Injective jsonArray := fun ts us h =>
    selfDelimiting_jsonArray.injective (congrArg String.toList h)
  exact ⟨describe_injective, harray, Function.partialInv jsonArray,
    fun text ts => harray.isPartialInv ts text⟩

/-! ## Listings stay on their lines -/

/-- A listing has a newline in it only if the lexeme has. -/
theorem newline_not_mem_describe {t : Token} (h : '\n' ∉ t.lexeme.toList) :
    '\n' ∉ t.describe.toList := by
  have hlabel := t.kind.not_mem_label (c := '\n') (by decide) (by decide)
  have hvalue := t.not_mem_shownValue (c := '\n') (by decide) (by decide)
  rw [toList_describe]
  simp [hlabel, h, hvalue]

theorem newline_not_mem_json (t : Token) : '\n' ∉ t.json.toList := by
  rw [toList_json]
  simp [TokenKind.newline_not_mem_json, Text.JsonString.newline_not_mem_encode]

/-- An array has no newline in it, whatever the lexemes. -/
theorem newline_not_mem_jsonArray (ts : List Token) : '\n' ∉ (jsonArray ts).toList := by
  cases ts with
  | nil => decide
  | cons t ts =>
      rw [toList_jsonArray_cons]
      simp [newline_not_mem_json]

end Token

end LineCalc
