import LineCalc.Expression

/-!
# The grammar of expressions, as trees

    expression = term    { ("+" | "-") term }
    term       = primary { ("*" | "/" | "%") primary }
    primary    = NUMBER | "(" expression ")" | "-" primary | "+" primary

A tree is a way to read a token list by these rules, and says nothing about how to find
one. Terms and expressions have the same shape, a first operand and then links of an
operator and an operand, so one constructor serves both and the precedence tells them
apart.

A tree has kinds, the token kinds from left to right; a value, computed from the leaves
up; and a nesting, how many groups and signs enclose its deepest number. The value is
defined on unbounded integers: each operation is exact and then wrapped to 64 bits.

The main statement is `Tree.unique`: a phrase is determined by its tokens, even inside a
longer list, as long as what follows it could not have continued it.
-/

namespace LineCalc

/-! ## Operators -/

/-- How strongly an operator binds. -/
inductive Precedence where
  | multiplicative
  | additive
  deriving DecidableEq, Repr

namespace Operator

/-- The token that stands for an operator. -/
def kind : Operator → TokenKind
  | add => .plus
  | sub => .minus
  | mul => .star
  | div => .slash
  | rem => .percent

/-- The chains that an operator makes. -/
def precedence : Operator → Precedence
  | add | sub => .additive
  | mul | div | rem => .multiplicative

/-- The operation on unbounded integers. Quotients are truncated toward zero. -/
def exact : Operator → Int → Int → Int
  | add, a, b => a + b
  | sub, a, b => a - b
  | mul, a, b => a * b
  | div, a, b => a.tdiv b
  | rem, a, b => a.tmod b

/-- The operations that have no value at zero. -/
def divides : Operator → Bool
  | div | rem => true
  | add | sub | mul => false

/-- The exact operation, wrapped to 64 bits. -/
def wrapped (op : Operator) (left right : Int64) : Except Fault Int64 :=
  if op.divides && right = 0 then .error .divisionByZero
  else .ok (Int64.ofInt (op.exact left.toInt right.toInt))

private theorem div_eq_ofInt (a b : Int64) : a / b = Int64.ofInt (a.toInt.tdiv b.toInt) :=
  ((Int64.ofInt_eq_iff_bmod_eq_toInt _ _).mpr (Int64.toInt_div a b).symm).symm

private theorem rem_eq_ofInt (a b : Int64) : a % b = Int64.ofInt (a.toInt.tmod b.toInt) := by
  rw [← Int64.toInt_mod, Int64.ofInt_toInt]

/-- Operators compute what they compute on unbounded integers, wrapped. -/
theorem apply_eq_wrapped (op : Operator) (left right : Int64) :
    op.apply left right = op.wrapped left right := by
  cases op with
  | add => simp [apply, wrapped, divides, exact]
  | sub => simp [apply, wrapped, divides, exact]
  | mul => simp [apply, wrapped, divides, exact]
  | div => simp [apply, wrapped, divides, exact, div_eq_ofInt]
  | rem => simp [apply, wrapped, divides, exact, rem_eq_ofInt]

end Operator

namespace Precedence

/-- The operators that a chain may have, as its reader finds them. -/
def operator? : Precedence → TokenKind → Option Operator
  | multiplicative => Operator.multiplicative?
  | additive => Operator.additive?

theorem operator?_eq_some_iff {p : Precedence} {k : TokenKind} {op : Operator} :
    p.operator? k = some op ↔ k = op.kind ∧ op.precedence = p := by
  cases p <;> cases k <;> cases op <;>
    simp [operator?, Operator.multiplicative?, Operator.additive?, Operator.kind,
      Operator.precedence]

end Precedence

theorem Operator.kind_injective {op op' : Operator} (h : op.kind = op'.kind) : op = op' := by
  cases op <;> cases op' <;> simp_all [Operator.kind]

/-! ## Trees -/

/-- The three rules of the grammar. -/
inductive Level where
  | primary
  | chain (p : Precedence)
  deriving DecidableEq, Repr

namespace Level

abbrev term : Level := chain .multiplicative

abbrev expression : Level := chain .additive

end Level

/-- What the operators of a chain join: primaries in a term, terms in an expression. -/
def Precedence.operand : Precedence → Level
  | multiplicative => .primary
  | additive => .term

/-- The parts of the grammar: a rule, or the repeated part of a chain. -/
inductive Phrase where
  | whole (l : Level)
  | links (p : Precedence)
  deriving DecidableEq, Repr

/-- The ways to read a phrase. -/
inductive Tree : Phrase → Type where
  | number (value : Int64) : Tree (.whole .primary)
  | group (inner : Tree (.whole .expression)) : Tree (.whole .primary)
  | minus (operand : Tree (.whole .primary)) : Tree (.whole .primary)
  | plus (operand : Tree (.whole .primary)) : Tree (.whole .primary)
  /-- An operand, and what the braces of the rule repeat. -/
  | chain {p : Precedence} (first : Tree (.whole p.operand)) (more : Tree (.links p)) :
      Tree (.whole (.chain p))
  | done {p : Precedence} : Tree (.links p)
  | link {p : Precedence} (op : Operator) (hop : op.precedence = p)
      (right : Tree (.whole p.operand)) (more : Tree (.links p)) : Tree (.links p)

/-- What a phrase means: a value, or what becomes of the value on its left. -/
def Phrase.Meaning : Phrase → Type
  | .whole _ => Except Fault Int64
  | .links _ => Int64 → Except Fault Int64

namespace Tree

variable {ph : Phrase} {p : Precedence}

/-- The token kinds of a tree, from left to right. -/
def kinds {ph : Phrase} : Tree ph → List TokenKind
  | number value => [.number value]
  | group inner => .leftParen :: (inner.kinds ++ [.rightParen])
  | minus operand => .minus :: operand.kinds
  | plus operand => .plus :: operand.kinds
  | chain first more => first.kinds ++ more.kinds
  | done => []
  | link op _ right more => op.kind :: (right.kinds ++ more.kinds)

/-- The value of a tree, from the leaves up. Links pass the value on their left from one operator
to the next, so chains associate to the left. -/
def value {ph : Phrase} : Tree ph → ph.Meaning
  | number value => .ok value
  | group inner => inner.value
  | minus operand => operand.value.map fun v => Int64.ofInt (-v.toInt)
  | plus operand => operand.value
  | chain first more => first.value.bind more.value
  | done => fun left => .ok left
  | link op _ right more => fun left =>
      right.value.bind fun r => (op.wrapped left r).bind more.value

/-- How many groups and signs enclose the deepest number. -/
def nesting {ph : Phrase} : Tree ph → Nat
  | number _ => 0
  | group inner => inner.nesting + 1
  | minus operand => operand.nesting + 1
  | plus operand => operand.nesting + 1
  | chain first more => max first.nesting more.nesting
  | done => 0
  | link _ _ right more => max right.nesting more.nesting

end Tree

/-! ## What cannot continue a phrase -/

/-- The operators that would make a phrase longer: its own and those that bind more strongly. -/
def Level.continuedBy : Level → TokenKind → Bool
  | primary, _ => false
  | chain .multiplicative, k => (Operator.multiplicative? k).isSome
  | chain .additive, k => (Operator.multiplicative? k).isSome || (Operator.additive? k).isSome

/-- A phrase of this level ends in front of these tokens. -/
def Level.EndsAt (l : Level) (after : List TokenKind) : Prop :=
  ∀ k ∈ after.head?, l.continuedBy k = false

/-- Links go on for as long as their chain does. -/
def Phrase.EndsAt : Phrase → List TokenKind → Prop
  | whole l => l.EndsAt
  | links p => (Level.chain p).EndsAt

namespace Level

variable {p : Precedence} {after : List TokenKind}

theorem endsAt_nil (l : Level) : l.EndsAt [] := by simp [EndsAt]

theorem endsAt_primary (after : List TokenKind) : primary.EndsAt after := by
  intro k _; rfl

theorem endsAt_rightParen (l : Level) (after : List TokenKind) :
    l.EndsAt (.rightParen :: after) := by
  intro k hk
  cases hk
  cases l with
  | primary => rfl
  | chain p => cases p <;> rfl

theorem EndsAt.operand (h : (chain p).EndsAt after) : p.operand.EndsAt after := by
  cases p with
  | multiplicative => exact endsAt_primary after
  | additive =>
      intro k hk
      have hc := h k hk
      simp only [continuedBy, Bool.or_eq_false_iff] at hc
      exact hc.1

/-- An operand ends in front of the operators of its own chain. -/
theorem endsAt_operator {op : Operator} (hop : op.precedence = p) (after : List TokenKind) :
    p.operand.EndsAt (op.kind :: after) := by
  subst hop
  intro k hk
  cases hk
  cases op <;> rfl

/-- A chain does not end in front of one of its operators. -/
theorem not_endsAt_operator {op : Operator} (hop : op.precedence = p) (after : List TokenKind) :
    ¬ (chain p).EndsAt (op.kind :: after) := by
  subst hop
  intro h
  have hc := h op.kind rfl
  cases op <;> simp [continuedBy, Operator.kind, Operator.precedence, Operator.multiplicative?,
    Operator.additive?] at hc

end Level

namespace Tree

/-- An operand ends in front of the links behind it. -/
theorem endsAt_links {p : Precedence} (more : Tree (.links p)) {after : List TokenKind}
    (h : (Level.chain p).EndsAt after) : p.operand.EndsAt (more.kinds ++ after) := by
  cases more with
  | done => exact h.operand
  | link op hop right more => exact Level.endsAt_operator hop _

/-! ## A phrase is determined by its tokens -/

/-- **Trees are unambiguous.** Two trees of a phrase that read the same tokens, and both end where
nothing continues them, are the same tree and leave the same rest. -/
theorem unique {ph : Phrase} (t : Tree ph) :
    ∀ (t' : Tree ph) (s s' : List TokenKind), ph.EndsAt s → ph.EndsAt s' →
      t.kinds ++ s = t'.kinds ++ s' → t = t' ∧ s = s' := by
  induction t with
  | number value =>
      intro t' s s' _ _ h
      cases t' <;> simp_all [kinds]
  | group inner ih =>
      intro t' s s' _ _ h
      cases t' with
      | group inner' =>
          simp only [kinds, List.cons_append, List.append_assoc, List.cons.injEq, true_and,
            List.nil_append] at h
          obtain ⟨hi, hs⟩ := ih inner' _ _ (Level.endsAt_rightParen _ s)
            (Level.endsAt_rightParen _ s') h
          exact ⟨by rw [hi], (List.cons.inj hs).2⟩
      | number | minus | plus => simp [kinds] at h
  | minus operand ih =>
      intro t' s s' hs hs' h
      cases t' with
      | minus operand' =>
          obtain ⟨ho, hr⟩ := ih operand' s s' hs hs' (List.cons.inj h).2
          exact ⟨by rw [ho], hr⟩
      | number | group | plus => simp [kinds] at h
  | plus operand ih =>
      intro t' s s' hs hs' h
      cases t' with
      | plus operand' =>
          obtain ⟨ho, hr⟩ := ih operand' s s' hs hs' (List.cons.inj h).2
          exact ⟨by rw [ho], hr⟩
      | number | group | minus => simp [kinds] at h
  | chain first more ihFirst ihMore =>
      intro t' s s' hs hs' h
      cases t' with
      | chain first' more' =>
          simp only [kinds, List.append_assoc] at h
          -- either first operand ends in front of links, so both end at the same place
          obtain ⟨hf, hm⟩ := ihFirst first' _ _ (endsAt_links more hs) (endsAt_links more' hs') h
          obtain ⟨hl, hr⟩ := ihMore more' s s' hs hs' hm
          exact ⟨by rw [hf, hl], hr⟩
  | done =>
      intro t' s s' hs hs' h
      cases t' with
      | done => exact ⟨rfl, h⟩
      | link op hop right more =>
          -- the rest of the first tree would start with an operator that continues it
          subst h
          exact absurd hs (Level.not_endsAt_operator hop _)
  | link op hop right more ihRight ihMore =>
      intro t' s s' hs hs' h
      cases t' with
      | done =>
          subst h
          exact absurd hs' (Level.not_endsAt_operator hop _)
      | link op' hop' right' more' =>
          simp only [kinds, List.cons_append, List.append_assoc, List.cons.injEq] at h
          obtain rfl := Operator.kind_injective h.1
          obtain ⟨hr, hm⟩ := ihRight right' _ _ (endsAt_links more hs) (endsAt_links more' hs') h.2
          obtain ⟨hl, hs⟩ := ihMore more' s s' hs hs' hm
          exact ⟨by rw [hr, hl], hs⟩

end Tree

end LineCalc
