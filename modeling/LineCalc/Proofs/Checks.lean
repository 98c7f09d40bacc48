import LineCalc.Line
import LineCalc.Proofs.Substitution
import Mathlib.Data.List.Chain

/-!
# The checks refuse nothing that has a value

A line is refused for two neighbours that clash, or for what it ends in, before anything
looks at what it means. An expression could have had neither: among the tokens of a tree
no neighbours clash, and the last of them ends an operand. Names are no way around this,
since a name can only become a number.

A phrase is put together from others, so each fact is about a tree beside other tokens:
clashes with a list behind the tree, its end with a list in front of it.
-/

namespace LineCalc

/-- No two neighbours clash. -/
def ClashFree (kinds : List TokenKind) : Prop := kinds.IsChain fun k l => k.clash l = false

namespace TokenKind

def isNumber : TokenKind → Bool
  | number _ => true
  | _ => false

/-- The kinds that an operand may begin with. -/
def beginsOperand : TokenKind → Bool
  | number _ | leftParen | plus | minus => true
  | _ => false

theorem clash_of_beginsOperand (op : Operator) {k : TokenKind} (h : k.beginsOperand = true) :
    op.kind.clash k = false := by
  cases k with
  | number | leftParen | plus | minus => cases op <;> rfl
  | _ => cases h

theorem clash_number {v : Int64} {k : TokenKind} (h : k.isNumber = false) :
    (number v).clash k = false := by
  cases k with
  | number => cases h
  | _ => rfl

end TokenKind

namespace Phrase

/-- The kinds that a phrase, or what is behind it if it is empty, may begin with. -/
def mayBegin : Phrase → TokenKind → Bool
  | whole _, k => k.beginsOperand
  | links _, k => !k.isNumber

/-- Operands may stand anywhere, and links behind what could have been the end. -/
def MayFollow : Phrase → List TokenKind → Prop
  | whole _, _ => True
  | links _, before => ∀ k ∈ before.getLast?, k.mayEnd = true

end Phrase

namespace Tree

/-! ## Neighbours in a tree -/

/-- **No neighbours of a tree clash**, and nothing behind it clashes with its end. -/
theorem clashFree {ph : Phrase} (t : Tree ph) :
    ∀ after : List TokenKind, ClashFree after → (∀ k ∈ after.head?, k.isNumber = false) →
      ClashFree (t.kinds ++ after) ∧ ∀ k ∈ (t.kinds ++ after).head?, ph.mayBegin k = true := by
  induction t with
  | number v =>
      intro after hfree hnext
      refine ⟨hfree.cons fun k hk => TokenKind.clash_number (hnext k hk), fun k hk => ?_⟩
      cases hk
      rfl
  | group inner ih =>
      intro after hfree _
      have hclose : ClashFree (.rightParen :: after) := hfree.cons fun _ _ => rfl
      obtain ⟨hinner, -⟩ := ih (.rightParen :: after) hclose fun k hk => by cases hk; rfl
      have heq : (group inner).kinds ++ after
          = .leftParen :: (inner.kinds ++ .rightParen :: after) := by
        simp only [kinds, List.cons_append, List.append_assoc, List.nil_append]
      rw [heq]
      refine ⟨hinner.cons fun _ _ => rfl, fun k hk => ?_⟩
      cases hk
      rfl
  | minus operand ih | plus operand ih =>
      intro after hfree hnext
      obtain ⟨hoperand, -⟩ := ih after hfree hnext
      refine ⟨hoperand.cons fun _ _ => rfl, fun k hk => ?_⟩
      cases hk
      rfl
  | chain first more ihFirst ihMore =>
      intro after hfree hnext
      obtain ⟨hmore, hbegin⟩ := ihMore after hfree hnext
      rw [kinds, List.append_assoc]
      exact ihFirst _ hmore fun k hk => by simpa [Phrase.mayBegin] using hbegin k hk
  | done =>
      intro after hfree hnext
      refine ⟨hfree, fun k hk => ?_⟩
      rw [Phrase.mayBegin, hnext k hk]
      rfl
  | link op hop right more ihRight ihMore =>
      intro after hfree hnext
      obtain ⟨hmore, hbegin⟩ := ihMore after hfree hnext
      obtain ⟨hright, hoperand⟩ :=
        ihRight _ hmore fun k hk => by simpa [Phrase.mayBegin] using hbegin k hk
      rw [kinds, List.cons_append, List.append_assoc]
      -- an operator clashes with nothing that begins its right operand
      refine ⟨hright.cons fun k hk => TokenKind.clash_of_beginsOperand op (hoperand k hk),
        fun k hk => ?_⟩
      cases hk
      cases op <;> rfl

/-! ## The end of a tree -/

/-- **A tree ends in what a line may end in**, if nothing in front of it says otherwise. -/
theorem mayEnd {ph : Phrase} (t : Tree ph) :
    ∀ before : List TokenKind, ph.MayFollow before →
      ∀ k ∈ (before ++ t.kinds).getLast?, k.mayEnd = true := by
  induction t with
  | number v =>
      intro before _ k hk
      rw [kinds, List.getLast?_concat] at hk
      cases hk
      rfl
  | group inner ih =>
      intro before _ k hk
      have heq : before ++ (group inner).kinds
          = (before ++ .leftParen :: inner.kinds) ++ [.rightParen] := by
        simp only [kinds, List.append_assoc, List.cons_append]
      rw [heq, List.getLast?_concat] at hk
      cases hk
      rfl
  | minus operand ih | plus operand ih =>
      intro before _ k hk
      rw [kinds, List.append_cons] at hk
      exact ih _ trivial k hk
  | chain first more ihFirst ihMore =>
      intro before _ k hk
      rw [kinds, ← List.append_assoc] at hk
      exact ihMore _ (ihFirst before trivial) k hk
  | done =>
      intro before hb k hk
      rw [kinds, List.append_nil] at hk
      exact hb k hk
  | link op hop right more ihRight ihMore =>
      intro before _ k hk
      rw [kinds, List.append_cons, ← List.append_assoc] at hk
      exact ihMore _ (ihRight _ trivial) k hk

end Tree

/-! ## The checks on token lists -/

theorem Line.hasClash_eq_false_iff {tokens : List Token} :
    Line.hasClash tokens = false ↔ ClashFree (tokens.map Token.kind) := by
  induction tokens with
  | nil => exact ⟨fun _ => .nil, fun _ => rfl⟩
  | cons t tokens ih =>
      cases tokens with
      | nil => exact ⟨fun _ => .singleton _, fun _ => rfl⟩
      | cons u tokens =>
          have hstep : Line.hasClash (t :: u :: tokens)
              = (t.kind.clash u.kind || Line.hasClash (u :: tokens)) := rfl
          rw [hstep, Bool.or_eq_false_iff, ih]
          simp only [ClashFree, List.map_cons, List.isChain_cons_cons]

/-- A name and an `=` clash with nothing that is behind them. -/
theorem Line.hasClash_assignment {target sign : Token} {rhs : List Token}
    (ht : target.kind = .identifier) (hs : sign.kind = .equal) (h : Line.hasClash rhs = false) :
    Line.hasClash (target :: sign :: rhs) = false := by
  rw [Line.hasClash_eq_false_iff] at h ⊢
  rw [List.map_cons, List.map_cons, ht, hs]
  have hsign : ClashFree (.equal :: rhs.map Token.kind) := h.cons fun _ _ => rfl
  refine hsign.cons fun k hk => ?_
  cases hk
  rfl

theorem Line.endsOpen_eq_false_iff {tokens : List Token} :
    Line.endsOpen tokens = false ↔
      ∀ k ∈ (tokens.map Token.kind).getLast?, k.mayEnd = true := by
  rw [Line.endsOpen, List.getLast?_map]
  cases tokens.getLast? <;> simp

section

variable {b : Bindings}

/-- Neighbours that clash are no names, so they still clash among the values. -/
theorem Token.clash_valued {t u : Token} (h : (t.valued b).kind.clash (u.valued b).kind = false) :
    t.kind.clash u.kind = false := by
  rw [← Bool.not_eq_true]
  intro hc
  have ht : t.kind ≠ .identifier := by
    intro ht
    rw [ht] at hc
    cases hc
  have hu : u.kind ≠ .identifier := by
    intro hu
    rw [hu] at hc
    cases hk : t.kind <;> rw [hk] at hc <;> cases hc
  rw [Token.kind_valued ht, Token.kind_valued hu, hc] at h
  cases h

theorem Token.mayEnd_valued {t : Token} (h : (t.valued b).kind.mayEnd = true) :
    t.kind.mayEnd = true := by
  by_cases ht : t.kind = .identifier
  · rw [ht]
    rfl
  · rwa [Token.kind_valued ht] at h

/-- **A line whose tokens come to a value passes the checks.** -/
theorem passes_of_evaluate {tokens : List Token} {v : Int64}
    (h : evaluate (tokens.map (Token.valued b)) = .ok v) :
    Line.hasClash tokens = false ∧ Line.endsOpen tokens = false := by
  obtain ⟨d, -, -⟩ := evaluate_eq_ok_iff.mp h
  have hfree := (d.tree.clashFree [] .nil (by simp)).1
  have hend := d.tree.mayEnd [] trivial
  rw [List.append_nil, d.kinds_eq, List.map_map] at hfree
  rw [List.nil_append, d.kinds_eq, List.map_map] at hend
  constructor
  · rw [Line.hasClash_eq_false_iff, ClashFree, List.isChain_map]
    exact ((List.isChain_map _).mp hfree).imp fun _ _ => Token.clash_valued
  · rw [Line.endsOpen_eq_false_iff]
    simp only [List.getLast?_map, Option.mem_def, Option.map_eq_some_iff] at hend ⊢
    intro k he
    obtain ⟨t, ht, rfl⟩ := he
    exact Token.mayEnd_valued (hend _ ⟨t, ht, rfl⟩)

end

end LineCalc
