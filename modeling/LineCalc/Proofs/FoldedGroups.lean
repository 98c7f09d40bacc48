import LineCalc.Proofs.Evaluation
import LineCalc.Proofs.Lockstep
import LineCalc.Proofs.NamesRead

/-!
# A group stands for its value

A group in the middle of a line is as good as a number: if its inside has a value by itself, the
number may take the place of the group, and the line has the value or the fault that it had. What
stands around it may be anything, also misspelt, or a zero divisor before it or behind.

The reason is that the inside ends at its closing parenthesis as it would at the end of a line, so
that the group is read to the value of the inside (`Tree.readAs`) while the number is read to the
same. Everywhere else the lists are the same. That is lockstep, as long as there are levels left,
and there are if the signs and opening parentheses of the whole line are no more than the limit:
each takes one level at most, and gives it back to what is behind it.

It is this that makes an assigned variable mean the expression that was assigned to it, in
parentheses.
-/

namespace LineCalc

/-- How many tokens might take a level. -/
def levelsTaken (tokens : List Token) : Nat := tokens.countP fun t => t.kind.nests

@[simp] theorem levelsTaken_cons (t : Token) (ts : List Token) :
    levelsTaken (t :: ts) = levelsTaken ts + if t.kind.nests then 1 else 0 :=
  List.countP_cons

@[simp] theorem levelsTaken_append (ts us : List Token) :
    levelsTaken (ts ++ us) = levelsTaken ts + levelsTaken us :=
  List.countP_append

/-- Each level of a tree is taken by a token of its own. -/
theorem Tree.nesting_le_countP {ph : Phrase} (t : Tree ph) :
    t.nesting ≤ t.kinds.countP TokenKind.nests := by
  induction t with
  | number value => exact Nat.zero_le _
  | group inner ih =>
      simp only [nesting, kinds, List.countP_cons, List.countP_append, TokenKind.nests, if_true]
      omega
  | minus operand ih | plus operand ih =>
      simp only [nesting, kinds, List.countP_cons, TokenKind.nests, if_true]
      omega
  | chain first more ihFirst ihMore =>
      simp only [nesting, kinds, List.countP_append]
      omega
  | done => exact Nat.zero_le _
  | link op hop right more ihRight ihMore =>
      simp only [nesting, kinds, List.countP_cons, List.countP_append]
      omega

theorem Derivation.nesting_le_levelsTaken {tokens : List Token} (d : Derivation tokens) :
    d.tree.nesting ≤ levelsTaken tokens := by
  have h := d.tree.nesting_le_countP
  rw [d.kinds_eq, List.countP_map] at h
  exact h

/-! ## Folding -/

/-- Some groups of the first list are numbers in the second, namely their values. -/
inductive Folds : List Token → List Token → Prop where
  | nil : Folds [] []
  | cons (t : Token) {ts us : List Token} (tail : Folds ts us) : Folds (t :: ts) (t :: us)
  | group {opening closing number : Token} {inner ts us : List Token} {v : Int64}
      (ho : opening.kind = .leftParen) (hc : closing.kind = .rightParen)
      (hn : number.kind = .number v) (hv : evaluate inner = .ok v) (tail : Folds ts us) :
      Folds (opening :: (inner ++ closing :: ts)) (number :: us)

namespace Folds

variable {ts us : List Token}

theorem refl : ∀ ts : List Token, Folds ts ts
  | [] => nil
  | t :: ts => cons t (refl ts)

theorem append_left (before : List Token) (h : Folds ts us) :
    Folds (before ++ ts) (before ++ us) := by
  induction before with
  | nil => exact h
  | cons t before ih => exact ih.cons t

end Folds

/-- Whatever stands behind it, a group is read to the value of its inside. -/
theorem read_group {opening closing : Token} {inner rest : List Token} {v : Int64} {levels : Nat}
    (ho : opening.kind = .leftParen) (hc : closing.kind = .rightParen)
    (hv : evaluate inner = .ok v) (hlevels : levelsTaken inner + 1 < levels) :
    (Production.primary levels).read (opening :: (inner ++ closing :: rest)) = ⟨.ok v, rest⟩ := by
  obtain ⟨d, -, hval⟩ := evaluate_eq_ok_iff.mp hv
  have hkinds : (opening :: (inner ++ [closing])).map Token.kind = (Tree.group d.tree).kinds := by
    rw [List.map_cons, List.map_append, List.map_singleton, ho, hc, Tree.kinds, d.kinds_eq]
  have hnest : (Tree.group d.tree).nesting < levels :=
    Nat.lt_of_le_of_lt (Nat.succ_le_succ d.nesting_le_levelsTaken) hlevels
  have hread : ((Production.primary levels).read (opening :: (inner ++ [closing]) ++ rest)).Gives
      d.tree.value rest :=
    (Tree.group d.tree).readAs hkinds hnest (Level.endsAt_primary _)
  rw [hval, List.cons_append, List.append_assoc, List.singleton_append] at hread
  exact hread

/-- Lists are folded in lockstep for as long as there are levels for all that might take one. -/
theorem lockstep_folds : Lockstep fun levels ts us => Folds ts us ∧ levelsTaken ts < levels where
  continues := by
    intro levels ts us h
    obtain ⟨hfolds, hlevels⟩ := h
    cases hfolds with
    | nil => exact .nil
    | cons t tail =>
        rw [levelsTaken_cons] at hlevels
        refine .same rfl ⟨tail, by omega⟩ fun n hn ht => ⟨tail, ?_⟩
        rw [ht, if_pos rfl] at hlevels
        omega
    | group ho hc hn hv tail =>
        rw [levelsTaken_cons, levelsTaken_append, levelsTaken_cons, ho, TokenKind.nests,
          if_pos rfl] at hlevels
        exact .group ho hn (read_group ho hc hv (by omega)) ⟨tail, by omega⟩
  mono h := ⟨h.1, Nat.lt_succ_of_lt h.2⟩

theorem Folds.evaluate_eq {ts us : List Token} (h : Folds ts us)
    (hlevels : levelsTaken ts ≤ maxNesting) : evaluate ts = evaluate us :=
  lockstep_folds.evaluate_eq ⟨h, Nat.lt_succ_of_le hlevels⟩

/-! ## Variables -/

theorem Token.nests_kind_valued (b : Bindings) (t : Token) :
    (t.valued b).kind.nests = t.kind.nests := by
  unfold valued
  split
  · rename_i v h
    obtain ⟨name, hname, -⟩ := Option.bind_eq_some_iff.mp h
    rw [(name?_eq_some_iff.mp hname).1]
    rfl
  · rfl

/-- A name takes no level, and no more does its value. -/
theorem levelsTaken_valued (b : Bindings) (tokens : List Token) :
    levelsTaken (tokens.map (Token.valued b)) = levelsTaken tokens := by
  unfold levelsTaken
  rw [List.countP_map]
  exact List.countP_congr fun t _ => by simp only [Function.comp, Token.nests_kind_valued]

namespace Statement

variable {b : Bindings} {misspelt : Fault}

theorem levelsTaken_of_resolve {tokens us : List Token}
    (h : tokens.mapM (resolve b misspelt) = .ok us) : levelsTaken us = levelsTaken tokens := by
  obtain ⟨-, rfl⟩ := mapM_resolve_eq_ok_iff.mp h
  exact levelsTaken_valued b tokens

/-- A variable may take the place of a group that has its value. -/
theorem valueOf_group {before inner behind : List Token} {opening closing : Token} {name : String}
    {v : Int64} (ho : opening.kind = .leftParen) (hc : closing.kind = .rightParen)
    (hname : isVariableName name = true) (hb : b.get? name = some v)
    (hv : valueOf b misspelt inner = .ok v)
    (hlevels : levelsTaken (before ++ opening :: (inner ++ closing :: behind)) ≤ maxNesting) :
    valueOf b misspelt (before ++ opening :: (inner ++ closing :: behind))
      = valueOf b misspelt (before ++ ⟨.identifier, name⟩ :: behind) := by
  have hopening : resolve b misspelt opening = .ok opening :=
    resolve_of_name?_eq_none (by rw [Token.name?, ho])
  have hclosing : resolve b misspelt closing = .ok closing :=
    resolve_of_name?_eq_none (by rw [Token.name?, hc])
  have hvariable : resolve b misspelt ⟨.identifier, name⟩ = .ok ⟨.number v, name⟩ := by
    simp only [resolve, Token.name?, hname, Bindings.get, hb]
    rfl
  unfold valueOf at hv ⊢
  cases hinner : inner.mapM (resolve b misspelt) with
  | error f => rw [hinner] at hv; cases hv
  | ok is =>
      rw [hinner] at hv
      simp only [List.mapM_append, List.mapM_cons, hopening, hclosing, hvariable, hinner]
      -- a faulty name before the group is the leftmost of both lines, and so is one behind it
      cases hbefore : before.mapM (resolve b misspelt) with
      | error f => rfl
      | ok us =>
          cases hbehind : behind.mapM (resolve b misspelt) with
          | error f => rfl
          | ok ws =>
              have hfolds : Folds (us ++ opening :: (is ++ closing :: ws))
                  (us ++ ⟨.number v, name⟩ :: ws) :=
                (Folds.group ho hc rfl hv (Folds.refl ws)).append_left us
              refine hfolds.evaluate_eq ?_
              simp only [levelsTaken_append, levelsTaken_cons] at hlevels ⊢
              rw [levelsTaken_of_resolve hbefore, levelsTaken_of_resolve hinner,
                levelsTaken_of_resolve hbehind]
              exact hlevels

/-- What was assigned is what its right-hand side has as its value still, unless this mentions the
assigned name. -/
theorem valueOf_of_assigned {after : Bindings} {name : String} {sign : Token}
    {inner : List Token} {v : Int64}
    (hrun : run b (⟨.identifier, name⟩ :: sign :: inner) = (.ok ⟨.assignment, v⟩, after))
    (hnew : name ∉ namesIn inner) (misspelt : Fault) :
    isVariableName name = true ∧ after.get? name = some v ∧
      valueOf after misspelt inner = .ok v := by
  rcases run_cases b (⟨.identifier, name⟩ :: sign :: inner) with
    ⟨f, hf⟩ | ⟨w, hw, hform, -⟩ | ⟨target, w, hw, ha⟩
  · rw [hf] at hrun
    cases hrun
  · rw [hw] at hrun
    exact absurd (Evaluation.mk.inj (Except.ok.inj (Prod.mk.inj hrun).1)).1 hform
  · rw [hw] at hrun
    cases hrun
    obtain ⟨sign', rhs, heq, hname, -, -, hv⟩ := assigned_eq_ok_iff.mp ha
    cases heq
    refine ⟨hname, ?_, ?_⟩
    · rw [Bindings.get?_define, if_pos rfl]
    · have hsame : ∀ other ∈ namesIn inner, (b.define name v).get? other = b.get? other := by
        intro other hother
        rw [Bindings.get?_define, if_neg]
        rintro rfl
        exact hnew hother
      rw [valueOf_congr hsame]
      exact valueOf_eq_ok_congr.mp hv

end Statement

/-! ## The theorem -/

/--
**A group stands for its value.** Around parentheses that open and close a group, in front of it and
behind it, there may be any tokens at all, as long as no more than 255 tokens of the whole list are
opening parentheses or signs. Then:

1. if the inside has the value `v`, a number `v` may take the place of the group: the list has the
   same value, or the same fault;
2. if the inside has been assigned to a variable, and does not mention it, the variable may take the
   place of the group, with the same outcome.
-/
theorem group_stands_for_its_value {opening closing : Token} (ho : opening.kind = .leftParen)
    (hc : closing.kind = .rightParen) :
    (∀ (before inner behind : List Token) (number : Token) (v : Int64),
      evaluate inner = .ok v → number.kind = .number v →
      levelsTaken (before ++ opening :: (inner ++ closing :: behind)) ≤ 255 →
      evaluate (before ++ opening :: (inner ++ closing :: behind))
        = evaluate (before ++ number :: behind)) ∧
    (∀ (b after : Bindings) (name : String) (sign : Token) (v : Int64)
      (before inner behind : List Token) (misspelt : Fault),
      Statement.run b (⟨.identifier, name⟩ :: sign :: inner) = (.ok ⟨.assignment, v⟩, after) →
      name ∉ namesIn inner →
      levelsTaken (before ++ opening :: (inner ++ closing :: behind)) ≤ 255 →
      Statement.valueOf after misspelt (before ++ opening :: (inner ++ closing :: behind))
        = Statement.valueOf after misspelt (before ++ ⟨.identifier, name⟩ :: behind)) := by
  refine ⟨?_, ?_⟩
  · intro before inner behind number v hv hn hlevels
    have hfolds : Folds (before ++ opening :: (inner ++ closing :: behind))
        (before ++ number :: behind) :=
      (Folds.group ho hc hn hv (Folds.refl behind)).append_left before
    exact hfolds.evaluate_eq hlevels
  · intro b after name sign v before inner behind misspelt hrun hnew hlevels
    obtain ⟨hname, hget, hv⟩ := Statement.valueOf_of_assigned hrun hnew misspelt
    exact Statement.valueOf_group ho hc hname hget hv hlevels

/-- A factor in front of a sum, with a zero divisor and a stray parenthesis behind it; and the same
factor in front of a variable that has been assigned the sum. -/
theorem factor_of_sum :
    evaluate [⟨.number 2, "2"⟩, ⟨.star, "*"⟩, ⟨.leftParen, "("⟩, ⟨.number 1, "1"⟩, ⟨.plus, "+"⟩,
        ⟨.number 2, "2"⟩, ⟨.rightParen, ")"⟩, ⟨.slash, "/"⟩, ⟨.number 0, "0"⟩, ⟨.rightParen, ")"⟩]
      = evaluate [⟨.number 2, "2"⟩, ⟨.star, "*"⟩, ⟨.number 3, "3"⟩, ⟨.slash, "/"⟩,
        ⟨.number 0, "0"⟩, ⟨.rightParen, ")"⟩] ∧
    Statement.valueOf (Statement.run ∅ [⟨.identifier, "x"⟩, ⟨.equal, "="⟩, ⟨.number 1, "1"⟩,
          ⟨.plus, "+"⟩, ⟨.number 2, "2"⟩]).2 .identifier
        [⟨.number 2, "2"⟩, ⟨.star, "*"⟩, ⟨.leftParen, "("⟩, ⟨.number 1, "1"⟩, ⟨.plus, "+"⟩,
          ⟨.number 2, "2"⟩, ⟨.rightParen, ")"⟩]
      = Statement.valueOf (Statement.run ∅ [⟨.identifier, "x"⟩, ⟨.equal, "="⟩, ⟨.number 1, "1"⟩,
          ⟨.plus, "+"⟩, ⟨.number 2, "2"⟩]).2 .identifier
        [⟨.number 2, "2"⟩, ⟨.star, "*"⟩, ⟨.identifier, "x"⟩] := by
  obtain ⟨hgroup, hvariable⟩ := @group_stands_for_its_value ⟨.leftParen, "("⟩ ⟨.rightParen, ")"⟩
    rfl rfl
  refine ⟨?_, ?_⟩
  · exact hgroup [⟨.number 2, "2"⟩, ⟨.star, "*"⟩] [⟨.number 1, "1"⟩, ⟨.plus, "+"⟩, ⟨.number 2, "2"⟩]
      [⟨.slash, "/"⟩, ⟨.number 0, "0"⟩, ⟨.rightParen, ")"⟩] ⟨.number 3, "3"⟩ 3
      (by decide +kernel) rfl (by decide)
  · exact hvariable ∅ _ "x" ⟨.equal, "="⟩ 3 [⟨.number 2, "2"⟩, ⟨.star, "*"⟩]
      [⟨.number 1, "1"⟩, ⟨.plus, "+"⟩, ⟨.number 2, "2"⟩] [] .identifier
      (Prod.ext (by decide +kernel) rfl) (by decide) (by decide)

end LineCalc
