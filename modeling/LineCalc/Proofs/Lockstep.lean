import LineCalc.Proofs.Grammar

/-!
# Token lists that are read in lockstep

Two token lists may differ and be read the same way nevertheless, with the same decisions, values
and faults. It takes a relation of lists that every step of reading keeps. Where related lists go
on, their next tokens are of the same kind; or there is a group in the first, a number in the
second, and the group is read to the value of that number (`Continues`). `Lockstep` says that this
is so wherever they go on, and then they have the same value or the same fault
(`Lockstep.evaluate_eq`).

A relation may say how many levels of nesting are left. What a group or a sign encloses is read
with one less, and behind it there are as many as before.

The texts of tokens are the simplest thing that related lists may differ in
(`evaluate_of_kinds`).
-/

namespace LineCalc

/-- Relations of token lists, one for each number of levels that may be left. -/
abbrev ListRelation := Nat → List Token → List Token → Prop

/-- The kinds that take a level for what is behind them. A sign between two operands takes none,
but no kind tells it from the other signs. -/
def TokenKind.nests : TokenKind → Bool
  | leftParen | plus | minus => true
  | _ => false

/-- How two lists may go on that are to be read in lockstep. -/
inductive Continues (R : ListRelation) (levels : Nat) : List Token → List Token → Prop where
  | nil : Continues R levels [] []
  | same {t u : Token} {ts us : List Token} (kind : t.kind = u.kind) (tail : R levels ts us)
      (inside : ∀ n, levels = n + 1 → t.kind.nests = true → R n ts us) :
      Continues R levels (t :: ts) (u :: us)
  | group {t u : Token} {ts us rest : List Token} {v : Int64} (ht : t.kind = .leftParen)
      (hu : u.kind = .number v)
      (hread : (Production.primary levels).read (t :: ts) = ⟨.ok v, rest⟩)
      (hrest : R levels rest us) : Continues R levels (t :: ts) (u :: us)

/-- A relation that reading keeps. -/
structure Lockstep (R : ListRelation) : Prop where
  continues : ∀ {levels ts us}, R levels ts us → Continues R levels ts us
  /-- Levels that are left over do no harm. -/
  mono : ∀ {levels ts us}, R levels ts us → R (levels + 1) ts us

/-- The same outcome; and if it is a value, what has not been read is still related. -/
structure Reading.Related (R : List Token → List Token → Prop) (r r' : Reading) : Prop where
  outcome : r.outcome = r'.outcome
  rest : ∀ v, r.outcome = .ok v → R r.rest r'.rest

theorem Reading.Related.of_error {R : List Token → List Token → Prop} {r r' : Reading} {f : Fault}
    (h : r.outcome = .error f) (h' : r'.outcome = .error f) : r.Related R r' where
  outcome := h.trans h'.symm
  rest v hv := by
    rw [h] at hv
    cases hv

theorem Reading.Related.mono {R S : List Token → List Token → Prop} {r r' : Reading}
    (hRS : ∀ ts us, R ts us → S ts us) (h : r.Related R r') : r.Related S r' :=
  ⟨h.outcome, fun v hv => hRS _ _ (h.rest v hv)⟩

/-- Related lists are the same to the production. -/
def Production.Keeps (p : Production) (R : List Token → List Token → Prop) : Prop :=
  ∀ ts us, R ts us → (p.read ts).Related R (p.read us)

theorem Precedence.operator?_leftParen (p : Precedence) : p.operator? .leftParen = none := by
  cases p <;> rfl

theorem Precedence.operator?_number (p : Precedence) (v : Int64) :
    p.operator? (.number v) = none := by
  cases p <;> rfl

namespace Lockstep

open Production

variable {R : ListRelation} {levels : Nat} {inner : Production} {p : Precedence}

/-! ## One lemma for each way to build a production -/

theorem follow_related (hR : Lockstep R) (h : inner.Keeps (R levels)) (left : Int64) :
    ∀ ts us : List Token, R levels ts us →
      (follow inner p.operator? left ts).Related (R levels) (follow inner p.operator? left us) := by
  intro ts
  fun_induction follow inner p.operator? left ts with
  | case1 left =>
      intro us hr
      cases hR.continues hr with
      | nil =>
          rw [follow]
          exact ⟨rfl, fun _ _ => hr⟩
  | case2 left t ts hnone =>
      intro us hr
      cases hR.continues hr with
      | same hk tail inside =>
          rw [hk] at hnone
          rw [follow, hnone]
          exact ⟨rfl, fun _ _ => hr⟩
      | group ht hu hread hrest =>
          rw [follow, hu, p.operator?_number]
          exact ⟨rfl, fun _ _ => hr⟩
  | case3 left t ts op hop r f hf =>
      intro us hr
      cases hR.continues hr with
      | same hk tail inside =>
          have hf' : Except.bind _ (op.apply left) = .error f := (h _ _ tail).outcome ▸ hf
          rw [hk] at hop
          rw [follow, hop]
          simp only [hf']
          exact .of_error rfl rfl
      | group ht hu hread hrest =>
          rw [ht, p.operator?_leftParen] at hop
          cases hop
  | case4 left t ts op hop r v hv ih =>
      intro us hr
      cases hR.continues hr with
      | same hk tail inside =>
          have hrel := h _ _ tail
          have hv' : Except.bind _ (op.apply left) = .ok v := hrel.outcome ▸ hv
          -- the operand has a value, as the operator has accepted it
          obtain ⟨x, hx⟩ : ∃ x, r.outcome = .ok x := by
            cases ho : r.outcome with
            | ok x => exact ⟨x, rfl⟩
            | error f => rw [ho] at hv; cases hv
          rw [hk] at hop
          rw [follow, hop]
          simp only [hv']
          exact ih _ (hrel.rest x hx)
      | group ht hu hread hrest =>
          rw [ht, p.operator?_leftParen] at hop
          cases hop

theorem chain_keeps (hR : Lockstep R) (h : inner.Keeps (R levels)) :
    (chain p.operator? inner).Keeps (R levels) := by
  intro ts us hr
  show (readChain p.operator? inner ts).Related (R levels) (readChain p.operator? inner us)
  have hrel := h ts us hr
  unfold readChain
  cases hf : (inner.read ts).outcome with
  | error f =>
      have hf' : (inner.read us).outcome = .error f := by rw [← hrel.outcome, hf]
      simp only [hf, hf']
      exact .of_error rfl rfl
  | ok left =>
      have hf' : (inner.read us).outcome = .ok left := by rw [← hrel.outcome, hf]
      simp only [hf, hf']
      exact follow_related hR h left _ _ (hrel.rest left hf)

theorem expressionOf_keeps (hR : Lockstep R) (h : inner.Keeps (R levels)) :
    (expressionOf inner).Keeps (R levels) :=
  chain_keeps (p := .additive) hR (chain_keeps (p := .multiplicative) hR h)

theorem closeGroup_related (hR : Lockstep R) {r r' : Reading} (h : r.Related (R levels) r') :
    (closeGroup r).Related (R levels) (closeGroup r') := by
  obtain ⟨outcome, rest⟩ := r
  obtain ⟨outcome', rest'⟩ := r'
  obtain ⟨ho, hrest⟩ := h
  obtain rfl : outcome = outcome' := ho
  cases outcome with
  | error f => exact .of_error rfl rfl
  | ok v =>
      cases hR.continues (hrest v rfl) with
      | nil => exact .of_error rfl rfl
      | @same t u _ _ hk tail inside =>
          obtain ⟨k, lexeme⟩ := t
          obtain ⟨k', lexeme'⟩ := u
          obtain rfl : k = k' := hk
          cases k with
          | rightParen => exact ⟨rfl, fun _ _ => tail⟩
          | _ => exact .of_error rfl rfl
      | @group t u _ _ _ _ ht hu hread hrest =>
          -- neither a parenthesis that opens nor a number closes a group
          obtain ⟨k, lexeme⟩ := t
          obtain ⟨k', lexeme'⟩ := u
          obtain rfl : k = .leftParen := ht
          obtain rfl : k' = .number _ := hu
          exact .of_error rfl rfl

/-- What is enclosed is read with one level less. Behind it there is that level again. -/
theorem primary_keeps_succ (hR : Lockstep R) (h : (primary levels).Keeps (R levels)) :
    (primary (levels + 1)).Keeps (R (levels + 1)) := by
  intro ts us hr
  have hmono : ∀ ts us, R levels ts us → R (levels + 1) ts us := fun _ _ => hR.mono
  cases hR.continues hr with
  | nil => exact .of_error rfl rfl
  | @same t u ts us hk tail inside =>
      show (readOperand (primary levels) (t :: ts)).Related _
        (readOperand (primary levels) (u :: us))
      have hinside := inside levels rfl
      rw [readOperand, readOperand, ← hk]
      cases hkind : t.kind with
      | number v => exact ⟨rfl, fun _ _ => tail⟩
      | leftParen =>
          have hr' : R levels ts us := hinside (by rw [hkind]; rfl)
          exact (closeGroup_related hR (expressionOf_keeps hR h _ _ hr')).mono hmono
      | minus =>
          have hrel := h _ _ (hinside (by rw [hkind]; rfl))
          refine ⟨congrArg (·.map fun v => -v) hrel.outcome, fun v hv => ?_⟩
          cases ho : ((primary levels).read ts).outcome with
          | error f => simp only [ho] at hv; cases hv
          | ok x => exact hR.mono (hrel.rest x ho)
      | plus => exact (h _ _ (hinside (by rw [hkind]; rfl))).mono hmono
      | _ => exact .of_error rfl rfl
  | @group t u ts us rest v ht hu hread hrest =>
      rw [hread]
      have hnumber : (primary (levels + 1)).read (u :: us) = ⟨.ok v, us⟩ := by
        show readOperand (primary levels) (u :: us) = _
        rw [readOperand, hu]
      rw [hnumber]
      exact ⟨rfl, fun _ _ => hrest⟩

theorem primary_keeps (hR : Lockstep R) : ∀ levels, (primary levels).Keeps (R levels)
  | 0 => fun _ _ _ => .of_error rfl rfl
  | levels + 1 => primary_keeps_succ hR (primary_keeps hR levels)

/-- **What is read in lockstep has one value, or one fault.** -/
theorem evaluate_eq (hR : Lockstep R) {ts us : List Token} (h : R (maxNesting + 1) ts us) :
    evaluate ts = evaluate us := by
  have hrel := expressionOf_keeps hR (primary_keeps hR (maxNesting + 1)) ts us h
  change ((expression (maxNesting + 1)).read ts).Related _
    ((expression (maxNesting + 1)).read us) at hrel
  unfold evaluate
  generalize (expression (maxNesting + 1)).read ts = r at hrel ⊢
  generalize (expression (maxNesting + 1)).read us = r' at hrel ⊢
  obtain ⟨outcome, rest⟩ := r
  obtain ⟨outcome', rest'⟩ := r'
  obtain ⟨ho, hrest⟩ := hrel
  obtain rfl : outcome = outcome' := ho
  cases outcome with
  | error f => rfl
  | ok v =>
      -- either nothing is left of both lists or something of both
      cases hR.continues (hrest v rfl) <;> rfl

end Lockstep

/-! ## The texts of tokens -/

/-- Lists of the same kinds go on with tokens of the same kind, whatever is left. -/
theorem lockstep_kinds : Lockstep fun _ ts us => ts.map Token.kind = us.map Token.kind where
  continues := by
    intro levels ts us h
    cases ts with
    | nil =>
        obtain rfl : us = [] := List.map_eq_nil_iff.mp h.symm
        exact .nil
    | cons t ts =>
        obtain ⟨u, us, rfl, hu, hus⟩ := List.map_eq_cons_iff.mp h.symm
        exact .same hu.symm hus.symm fun _ _ _ => hus.symm
  mono h := h

/-- **The texts of tokens have no say in their value.** -/
theorem evaluate_of_kinds {ts us : List Token} (h : ts.map Token.kind = us.map Token.kind) :
    evaluate ts = evaluate us :=
  lockstep_kinds.evaluate_eq h

end LineCalc
