import LineCalc.Proofs.Evaluation
import Mathlib.Order.MinMax

/-!
# Where a zero divisor is reported

An operator is applied as soon as its right operand has been read, so a zero divisor is reported
before anything behind it has been looked at. What has been read by then is a tree that breaks off
right behind a divisor, a `Cut`: some of its groups are open, and nothing else is missing, since a
chain may end behind any operand. Closed with as many `)` it is a tree again (`Cut.close`).

Two inductions tie cuts to readings. A reading that has a fault and meets no misspelling has come
to a cut whose divisor is zero (`evaluate_fault`, along the reading), and tokens that begin with
such a cut are read up to its divisor and no further (`Cut.Reached.divides`, along the cut). The
tokens behind the cut appear in neither.
-/

namespace LineCalc

theorem Operator.precedence_of_divides {op : Operator} (h : op.divides = true) :
    op.precedence = .multiplicative := by
  cases op with
  | div | rem => rfl
  | add | sub | mul => cases h

theorem Operator.divides_iff {op : Operator} :
    op.divides = true ↔ op.kind = .slash ∨ op.kind = .percent := by
  cases op <;> simp [divides, kind]

/-- An operation fails in one way. -/
theorem Operator.apply_eq_error_iff {op : Operator} {left right : Int64} {f : Fault} :
    op.apply left right = .error f ↔ op.divides = true ∧ right = 0 ∧ f = .divisionByZero := by
  rw [apply_eq_wrapped, wrapped]
  by_cases hd : op.divides = true <;> by_cases hr : right = 0 <;> simp [hd, hr, eq_comm]

/-- The kinds end in a `/` or `%` and those of `last`. -/
def EndsInDivisor (kinds last : List TokenKind) : Prop :=
  ∃ (front : List TokenKind) (op : Operator), op.divides = true ∧ kinds = front ++ op.kind :: last

theorem EndsInDivisor.prepend {kinds last : List TokenKind} (more : List TokenKind)
    (h : EndsInDivisor kinds last) : EndsInDivisor (more ++ kinds) last := by
  obtain ⟨front, op, hop, rfl⟩ := h
  exact ⟨more ++ front, op, hop, by rw [List.append_assoc]⟩

/-! ## Trees that break off behind a divisor -/

/-- A tree as far as the right operand of a `/` or `%`, and nothing behind it. -/
inductive Cut : Phrase → Type where
  /-- The divisor where the tree breaks off. -/
  | here (op : Operator) (hop : op.divides = true) (last : Tree (.whole .primary)) :
      Cut (.links .multiplicative)
  | within {p : Precedence} (op : Operator) (hop : op.precedence = p)
      (operand : Cut (.whole p.operand)) : Cut (.links p)
  | behind {p : Precedence} (op : Operator) (hop : op.precedence = p)
      (operand : Tree (.whole p.operand)) (links : Cut (.links p)) : Cut (.links p)
  | first {p : Precedence} (operand : Cut (.whole p.operand)) : Cut (.whole (.chain p))
  | chain {p : Precedence} (operand : Tree (.whole p.operand)) (links : Cut (.links p)) :
      Cut (.whole (.chain p))
  | group (inner : Cut (.whole .expression)) : Cut (.whole .primary)
  | minus (operand : Cut (.whole .primary)) : Cut (.whole .primary)
  | plus (operand : Cut (.whole .primary)) : Cut (.whole .primary)

namespace Cut

/-- The token kinds of a cut, up to the last one of its divisor. -/
def kinds {ph : Phrase} : Cut ph → List TokenKind
  | here op _ last => op.kind :: last.kinds
  | within op _ operand => op.kind :: operand.kinds
  | behind op _ operand links => op.kind :: (operand.kinds ++ links.kinds)
  | first operand => operand.kinds
  | chain operand links => operand.kinds ++ links.kinds
  | group inner => .leftParen :: inner.kinds
  | minus operand => .minus :: operand.kinds
  | plus operand => .plus :: operand.kinds

/-- The operand behind which the tree breaks off. -/
def divisor {ph : Phrase} : Cut ph → Tree (.whole .primary)
  | here _ _ last => last
  | within _ _ operand => operand.divisor
  | behind _ _ _ links => links.divisor
  | first operand => operand.divisor
  | chain _ links => links.divisor
  | group inner => inner.divisor
  | minus operand => operand.divisor
  | plus operand => operand.divisor

/-- How many groups enclose the divisor, all of them open. -/
def openGroups {ph : Phrase} : Cut ph → Nat
  | here _ _ _ => 0
  | within _ _ operand => operand.openGroups
  | behind _ _ _ links => links.openGroups
  | first operand => operand.openGroups
  | chain _ links => links.openGroups
  | group inner => inner.openGroups + 1
  | minus operand => operand.openGroups
  | plus operand => operand.openGroups

/-- The tree with its groups closed and its chains ended. -/
def close {ph : Phrase} : Cut ph → Tree ph
  | here op hop last => .link op (Operator.precedence_of_divides hop) last .done
  | within op hop operand => .link op hop operand.close .done
  | behind op hop operand links => .link op hop operand links.close
  | first operand => .chain operand.close .done
  | chain operand links => .chain operand links.close
  | group inner => .group inner.close
  | minus operand => .minus operand.close
  | plus operand => .plus operand.close

variable {ph : Phrase} {p : Precedence}

theorem kinds_close (c : Cut ph) :
    c.close.kinds = c.kinds ++ List.replicate c.openGroups .rightParen := by
  induction c with
  | here op hop last =>
      show op.kind :: (last.kinds ++ []) = op.kind :: last.kinds ++ []
      rw [List.append_nil, List.append_nil]
  | within op hop operand ih => simp [close, kinds, openGroups, Tree.kinds, ih]
  | behind op hop operand links ih => simp [close, kinds, openGroups, Tree.kinds, ih]
  | first operand ih => simp [close, kinds, openGroups, Tree.kinds, ih]
  | chain operand links ih => simp [close, kinds, openGroups, Tree.kinds, ih]
  | group inner ih =>
      simp only [close, kinds, openGroups, Tree.kinds, ih, List.replicate_succ', List.cons_append,
        List.append_assoc]
  | minus operand ih | plus operand ih => simp [close, kinds, openGroups, Tree.kinds, ih]

/-- A cut ends in a `/` or `%` and its divisor. -/
theorem endsInDivisor (c : Cut ph) : EndsInDivisor c.kinds c.divisor.kinds := by
  induction c with
  | here op hop last => exact ⟨[], op, hop, rfl⟩
  | within op hop operand ih => exact ih.prepend [op.kind]
  | behind op hop operand links ih => exact ih.prepend (op.kind :: operand.kinds)
  | first operand ih => exact ih
  | chain operand links ih => exact ih.prepend operand.kinds
  | group inner ih => exact ih.prepend [.leftParen]
  | minus operand ih => exact ih.prepend [.minus]
  | plus operand ih => exact ih.prepend [.plus]

/-- An operand ends in front of links, broken off or not. -/
theorem endsAt_of_prefix (c : Cut (.links p)) {tokens : List Token}
    (h : c.kinds <+: tokens.map Token.kind) : p.operand.EndsAt (tokens.map Token.kind) := by
  obtain ⟨after, hk⟩ := h
  rw [← hk]
  cases c with
  | here op hop last => exact Level.endsAt_operator (Operator.precedence_of_divides hop) _
  | within op hop operand => exact Level.endsAt_operator hop _
  | behind op hop operand links => exact Level.endsAt_operator hop _

/-- The tokens begin with this cut, its divisor is zero, and there are levels enough to read as far
as that. -/
structure Reached (c : Cut ph) (levels : Nat) (tokens : List Token) : Prop where
  kinds : c.kinds <+: tokens.map Token.kind
  nesting : c.close.nesting < levels
  zero : c.divisor.value = .ok 0

end Cut

/-! ## What begins with a cut is read up to its divisor -/

/-- Tokens that begin with some kinds, taken apart. -/
theorem exists_of_kinds_prefix {front back : List TokenKind} {tokens : List Token}
    (h : front ++ back <+: tokens.map Token.kind) :
    ∃ used rest, tokens = used ++ rest ∧ used.map Token.kind = front ∧
      back <+: rest.map Token.kind := by
  obtain ⟨after, hk⟩ := h
  rw [List.append_assoc] at hk
  obtain ⟨used, rest, rfl, hused, hrest⟩ := List.map_eq_append_iff.mp hk.symm
  exact ⟨used, rest, rfl, hused, after, hrest.symm⟩

theorem exists_of_kinds_cons_prefix {k : TokenKind} {back : List TokenKind} {tokens : List Token}
    (h : k :: back <+: tokens.map Token.kind) :
    ∃ t rest, tokens = t :: rest ∧ t.kind = k ∧ back <+: rest.map Token.kind := by
  obtain ⟨used, rest, rfl, hused, hrest⟩ := exists_of_kinds_prefix (show [k] ++ back <+: _ from h)
  obtain ⟨t, rfl, ht⟩ := List.map_eq_singleton_iff.mp hused
  exact ⟨t, rest, rfl, ht, hrest⟩

/-- Reading the phrase comes to a zero divisor; if it is links, whatever is on their left. -/
def Phrase.Divides (levels : Nat) : Phrase → List Token → Prop
  | whole l, tokens => ((l.production levels).read tokens).outcome = .error .divisionByZero
  | links p, tokens => ∀ left,
      (Production.follow (p.operand.production levels) p.operator? left tokens).outcome
        = .error .divisionByZero

section

variable {operand : Production} {operator? : TokenKind → Option Operator} {f : Fault}

theorem readChain_of_error {tokens : List Token} (h : (operand.read tokens).outcome = .error f) :
    (Production.readChain operator? operand tokens).outcome = .error f := by
  simp only [Production.readChain, h]

theorem follow_of_error {op : Operator} {left : Int64} {t : Token} {tokens : List Token}
    (hop : operator? t.kind = some op)
    (h : (operand.read tokens).outcome.bind (op.apply left) = .error f) :
    (Production.follow operand operator? left (t :: tokens)).outcome = .error f := by
  rw [Production.follow]
  simp only [hop, h]

theorem closeGroup_of_error {r : Reading} (h : r.outcome = .error f) :
    (Production.closeGroup r).outcome = .error f := by
  obtain ⟨outcome, rest⟩ := r
  obtain rfl : outcome = .error f := h
  rfl

theorem Reading.Gives.divides {r : Reading} {value : Except Fault Int64} {rest : List Token}
    (h : r.Gives value rest) (hv : ∀ v, value ≠ .ok v) : r.outcome = .error .divisionByZero := by
  cases value with
  | ok v => exact absurd rfl (hv v)
  | error _ => exact h

theorem bind_ne_ok {x : Except Fault Int64} {g : Int64 → Except Fault Int64}
    (hg : ∀ y v, g y ≠ .ok v) : ∀ v, x.bind g ≠ .ok v := by
  intro v
  cases x with
  | error _ => exact nofun
  | ok y => exact hg y v

end

/-- **A cut with a zero divisor is as far as reading goes,** whatever is behind it. -/
theorem Cut.Reached.divides {ph : Phrase} {c : Cut ph} :
    ∀ {levels : Nat} {tokens : List Token}, c.Reached levels tokens →
      ph.Divides levels tokens := by
  induction c with
  | here op hop last =>
      intro levels tokens h left
      obtain ⟨t, tail, rfl, ht, hk⟩ := exists_of_kinds_cons_prefix h.kinds
      obtain ⟨used, rest, rfl, hused, -⟩ :=
        exists_of_kinds_prefix (show last.kinds ++ [] <+: _ by rwa [List.append_nil])
      have hn : last.nesting < levels := Nat.lt_of_le_of_lt (Nat.le_max_left ..) h.nesting
      have hread : ((Production.primary levels).read (used ++ rest)).Gives last.value rest :=
        last.readAs hused hn (Level.endsAt_primary _)
      rw [show last.value = .ok 0 from h.zero] at hread
      have hsome : Precedence.multiplicative.operator? t.kind = some op :=
        Precedence.operator?_eq_some_iff.mpr ⟨ht, Operator.precedence_of_divides hop⟩
      refine follow_of_error hsome ?_
      show ((Production.primary levels).read (used ++ rest)).outcome.bind _ = _
      rw [show (Production.primary levels).read (used ++ rest) = ⟨.ok 0, rest⟩ from hread]
      exact Operator.apply_eq_error_iff.mpr ⟨hop, rfl, rfl⟩
  | within op hop operand ih =>
      intro levels tokens h left
      obtain ⟨t, tail, rfl, ht, hk⟩ := exists_of_kinds_cons_prefix h.kinds
      have hn : operand.close.nesting < levels :=
        Nat.lt_of_le_of_lt (Nat.le_max_left ..) h.nesting
      refine follow_of_error (Precedence.operator?_eq_some_iff.mpr ⟨ht, hop⟩) ?_
      rw [ih ⟨hk, hn, h.zero⟩]
      rfl
  | behind op hop operand links ih =>
      intro levels tokens h left
      obtain ⟨t, tail, rfl, ht, hk⟩ := exists_of_kinds_cons_prefix h.kinds
      obtain ⟨used, rest, rfl, hused, hrest⟩ := exists_of_kinds_prefix hk
      obtain ⟨hno, hnl⟩ := Nat.max_lt.mp h.nesting
      -- the operand may itself have no value: that is a zero divisor, too
      have hends := links.endsAt_of_prefix hrest
      have hlinks : Phrase.ReadAs levels (.links _) (fun _ => .error .divisionByZero) rest [] :=
        ih ⟨hrest, hnl, h.zero⟩
      exact (follow_of_readAs ht hop (operand.readAs hused hno hends) hlinks left).divides
        (bind_ne_ok fun _ => bind_ne_ok fun _ _ => nofun)
  | first operand ih =>
      intro levels tokens h
      have hn : operand.close.nesting < levels :=
        Nat.lt_of_le_of_lt (Nat.le_max_left ..) h.nesting
      rw [Phrase.Divides, Level.production_chain]
      exact readChain_of_error (ih ⟨h.kinds, hn, h.zero⟩)
  | chain operand links ih =>
      intro levels tokens h
      obtain ⟨used, rest, rfl, hused, hrest⟩ := exists_of_kinds_prefix h.kinds
      obtain ⟨hno, hnl⟩ := Nat.max_lt.mp h.nesting
      have hends := links.endsAt_of_prefix hrest
      have hlinks : Phrase.ReadAs levels (.links _) (fun _ => .error .divisionByZero) rest [] :=
        ih ⟨hrest, hnl, h.zero⟩
      exact (readChain_of_readAs (operand.readAs hused hno hends) hlinks).divides
        (bind_ne_ok fun _ _ => nofun)
  | group inner ih =>
      intro levels tokens h
      obtain ⟨t, tail, rfl, ht, hk⟩ := exists_of_kinds_cons_prefix h.kinds
      obtain ⟨levels, rfl⟩ := Nat.exists_eq_succ_of_ne_zero (Nat.ne_zero_of_lt h.nesting)
      have hinner : ((Production.expression levels).read tail).outcome = .error .divisionByZero :=
        ih ⟨hk, Nat.lt_of_succ_lt_succ h.nesting, h.zero⟩
      show (Production.readOperand (Production.primary levels) (t :: tail)).outcome = _
      rw [Production.readOperand, ht]
      exact closeGroup_of_error hinner
  | minus operand ih =>
      intro levels tokens h
      obtain ⟨t, tail, rfl, ht, hk⟩ := exists_of_kinds_cons_prefix h.kinds
      obtain ⟨levels, rfl⟩ := Nat.exists_eq_succ_of_ne_zero (Nat.ne_zero_of_lt h.nesting)
      have hoperand : ((Production.primary levels).read tail).outcome = .error .divisionByZero :=
        ih ⟨hk, Nat.lt_of_succ_lt_succ h.nesting, h.zero⟩
      show (Production.readOperand (Production.primary levels) (t :: tail)).outcome = _
      rw [Production.readOperand, ht]
      simp only [hoperand]
      rfl
  | plus operand ih =>
      intro levels tokens h
      obtain ⟨t, tail, rfl, ht, hk⟩ := exists_of_kinds_cons_prefix h.kinds
      obtain ⟨levels, rfl⟩ := Nat.exists_eq_succ_of_ne_zero (Nat.ne_zero_of_lt h.nesting)
      have hoperand : ((Production.primary levels).read tail).outcome = .error .divisionByZero :=
        ih ⟨hk, Nat.lt_of_succ_lt_succ h.nesting, h.zero⟩
      show (Production.readOperand (Production.primary levels) (t :: tail)).outcome = _
      rw [Production.readOperand, ht]
      exact hoperand

/-! ## Where a reading ends that fails -/

/-- What can be wrong with a phrase: there is a misspelling, or a cut with a zero divisor is
reached. -/
def Phrase.Faulty (levels : Nat) (ph : Phrase) (tokens : List Token) (f : Fault) : Prop :=
  f = .expression ∨ f = .divisionByZero ∧ ∃ c : Cut ph, c.Reached levels tokens

/-- Whatever the production of this level fails on is one of these. -/
def Level.FindsFaults (l : Level) (levels : Nat) : Prop :=
  ∀ tokens f, ((l.production levels).read tokens).outcome = .error f →
    (Phrase.whole l).Faulty levels tokens f

/-- A cut of a part is a cut of the whole. -/
theorem Phrase.Faulty.imp {levels levels' : Nat} {ph ph' : Phrase} {tokens tokens' : List Token}
    {f : Fault} (h : ph.Faulty levels tokens f)
    (hc : ∀ c : Cut ph, c.Reached levels tokens → ∃ c' : Cut ph', c'.Reached levels' tokens') :
    ph'.Faulty levels' tokens' f := by
  rcases h with h | ⟨h, c, hreached⟩
  · exact Or.inl h
  · exact Or.inr ⟨h, hc c hreached⟩

/-- The tokens of a tree, and some kinds that begin what is behind it. -/
theorem Tree.Spans.kinds_begin {ph : Phrase} {t : Tree ph} {tokens rest : List Token}
    (h : t.Spans tokens rest) {back : List TokenKind} (hb : back <+: rest.map Token.kind) :
    t.kinds ++ back <+: tokens.map Token.kind := by
  obtain ⟨used, rfl, hk⟩ := h
  rw [List.map_append, hk]
  exact (List.prefix_append_right_inj _).mpr hb

theorem follow_finds_faults {p : Precedence} {levels : Nat} (hfind : p.operand.FindsTrees levels)
    (hfault : p.operand.FindsFaults levels) (left : Int64) (tokens : List Token) {f : Fault} :
    (Production.follow (p.operand.production levels) p.operator? left tokens).outcome = .error f →
      (Phrase.links p).Faulty levels tokens f := by
  fun_induction Production.follow (p.operand.production levels) p.operator? left tokens with
  | case1 | case2 =>
      intro h
      cases h
  | case3 left t tokens op hop r g hg =>
      intro h
      obtain rfl : g = f := Except.error.inj h
      obtain ⟨hk, hprec⟩ := Precedence.operator?_eq_some_iff.mp hop
      cases hr : r.outcome with
      | error e =>
          -- the right operand has a fault
          rw [hr] at hg
          obtain rfl : e = g := Except.error.inj hg
          refine (hfault tokens e hr).imp fun c hc => ⟨.within op hprec c, ?_, ?_, hc.zero⟩
          · rw [List.map_cons, hk]
            exact List.cons_prefix_cons.mpr ⟨rfl, hc.kinds⟩
          · exact Nat.max_lt.mpr ⟨hc.nesting, Nat.zero_lt_of_lt hc.nesting⟩
      | ok x =>
          -- it has a value, and the operator does not accept it
          rw [hr] at hg
          obtain ⟨hdivides, rfl, rfl⟩ := Operator.apply_eq_error_iff.mp hg
          obtain rfl : p = .multiplicative :=
            hprec.symm.trans (Operator.precedence_of_divides hdivides)
          obtain ⟨last, hspan, -, hnest, hval⟩ := hfind tokens 0 r.rest (by rw [← hr])
          refine Or.inr ⟨rfl, .here op hdivides last, ?_, ?_, hval⟩
          · rw [List.map_cons, hk]
            have hlast := hspan.kinds_begin List.nil_prefix
            rw [List.append_nil] at hlast
            exact List.cons_prefix_cons.mpr ⟨rfl, hlast⟩
          · exact Nat.max_lt.mpr ⟨hnest, Nat.zero_lt_of_lt hnest⟩
  | case4 left t tokens op hop r v hv ih =>
      intro h
      obtain ⟨hk, hprec⟩ := Precedence.operator?_eq_some_iff.mp hop
      cases hr : r.outcome with
      | error e => rw [hr] at hv; cases hv
      | ok x =>
          obtain ⟨operand, hspan, -, hnest, -⟩ := hfind tokens x r.rest (by rw [← hr])
          refine (ih h).imp fun c hc => ⟨.behind op hprec operand c, ?_, ?_, hc.zero⟩
          · rw [List.map_cons, hk]
            exact List.cons_prefix_cons.mpr ⟨rfl, hspan.kinds_begin hc.kinds⟩
          · exact Nat.max_lt.mpr ⟨hnest, hc.nesting⟩

theorem chain_finds_faults {p : Precedence} {levels : Nat} (hfind : p.operand.FindsTrees levels)
    (hfault : p.operand.FindsFaults levels) : (Level.chain p).FindsFaults levels := by
  intro tokens f h
  rw [Level.production_chain] at h
  simp only [Production.chain, Production.readChain] at h
  split at h
  · rename_i e he
    obtain rfl : e = f := Except.error.inj h
    refine (hfault tokens e he).imp fun c hc => ⟨.first c, hc.kinds, ?_, hc.zero⟩
    exact Nat.max_lt.mpr ⟨hc.nesting, Nat.zero_lt_of_lt hc.nesting⟩
  · rename_i left hleft
    obtain ⟨operand, hspan, -, hnest, -⟩ := hfind tokens left
      ((p.operand.production levels).read tokens).rest (by rw [← hleft])
    refine (follow_finds_faults hfind hfault left _ h).imp fun c hc =>
      ⟨.chain operand c, hspan.kinds_begin hc.kinds, ?_, hc.zero⟩
    exact Nat.max_lt.mpr ⟨hnest, hc.nesting⟩

theorem expression_finds_faults {levels : Nat} (hfind : Level.primary.FindsTrees levels)
    (hfault : Level.primary.FindsFaults levels) : Level.expression.FindsFaults levels :=
  chain_finds_faults (p := .additive) (chain_finds (p := .multiplicative) hfind)
    (chain_finds_faults (p := .multiplicative) hfind hfault)

/-- A group that is not closed is misspelt, whatever its inside. -/
theorem closeGroup_eq_error {r : Reading} {f : Fault}
    (h : (Production.closeGroup r).outcome = .error f) :
    f = .expression ∨ r.outcome = .error f := by
  unfold Production.closeGroup at h
  split at h
  · cases h
  · exact Or.inl (Except.error.inj h).symm
  · exact Or.inr h

theorem primary_finds_faults (levels : Nat) : Level.primary.FindsFaults levels := by
  induction levels with
  | zero =>
      intro tokens f h
      exact Or.inl (Except.error.inj h).symm
  | succ levels ih =>
      intro tokens f h
      change (Production.readOperand (Production.primary levels) tokens).outcome = _ at h
      cases tokens with
      | nil => exact Or.inl (Except.error.inj h).symm
      | cons t tokens =>
          -- a cut inside is one with the token that opens the group, or with the sign
          have hopened {ph : Phrase} {c : Cut ph} (hc : c.Reached levels tokens) {k : TokenKind}
              (hk : t.kind = k) : k :: c.kinds <+: (t :: tokens).map Token.kind := by
            rw [List.map_cons, hk]
            exact List.cons_prefix_cons.mpr ⟨rfl, hc.kinds⟩
          rw [Production.readOperand] at h
          split at h
          · cases h
          · rename_i hk
            rcases closeGroup_eq_error h with rfl | hinner
            · exact Or.inl rfl
            · have hexpr := expression_finds_faults (primary_finds levels) ih
              exact (hexpr tokens f hinner).imp fun c hc =>
                ⟨.group c, hopened hc hk, Nat.succ_lt_succ hc.nesting, hc.zero⟩
          · rename_i hk
            dsimp only at h
            cases hr : ((Production.primary levels).read tokens).outcome with
            | ok x => rw [hr] at h; cases h
            | error e =>
                rw [hr] at h
                cases h
                exact (ih tokens f hr).imp fun c hc =>
                  ⟨.minus c, hopened hc hk, Nat.succ_lt_succ hc.nesting, hc.zero⟩
          · rename_i hk
            exact (ih tokens f h).imp fun c hc =>
              ⟨.plus c, hopened hc hk, Nat.succ_lt_succ hc.nesting, hc.zero⟩
          · exact Or.inl (Except.error.inj h).symm

/-! ## Every `/` and `%` of a tree is in front of a divisor -/

theorem append_eq_append_cons {ks ks' front back : List TokenKind} {k : TokenKind}
    (h : ks ++ ks' = front ++ k :: back) :
    (∃ mid, ks = front ++ k :: mid ∧ back = mid ++ ks') ∨
      ∃ mid, front = ks ++ mid ∧ ks' = mid ++ k :: back := by
  rcases List.append_eq_append_iff.mp h with ⟨mid, rfl, hk⟩ | ⟨mid, rfl, hk⟩
  · exact Or.inr ⟨mid, rfl, hk⟩
  · cases mid with
    | nil =>
        refine Or.inr ⟨[], by rw [List.append_nil, List.append_nil], hk.symm⟩
    | cons k' mid =>
        obtain ⟨rfl, rfl⟩ := List.cons.inj hk
        exact Or.inl ⟨mid, rfl, rfl⟩

theorem cons_eq_append_cons {ks front back : List TokenKind} {k k' : TokenKind} (hne : k ≠ k')
    (h : k' :: ks = front ++ k :: back) :
    ∃ mid, front = k' :: mid ∧ ks = mid ++ k :: back := by
  rcases List.cons_eq_append_iff.mp h with ⟨-, hk⟩ | ⟨mid, hfront, hk⟩
  · exact absurd (List.cons.inj hk).1 hne
  · exact ⟨mid, hfront, hk⟩

/-- The cut is made in this tree, behind the divisor of the operator between `front` and `back`. -/
structure Cut.Cuts {ph : Phrase} (c : Cut ph) (t : Tree ph) (op : Operator)
    (front back : List TokenKind) : Prop where
  kinds : c.kinds = front ++ op.kind :: c.divisor.kinds
  divisor : c.divisor.kinds <+: back
  nesting : c.close.nesting ≤ t.nesting

/-- **A tree can be cut off behind each of its divisors.** -/
theorem Tree.exists_cut {ph : Phrase} {op : Operator} (hop : op.divides = true) (t : Tree ph) :
    ∀ {front back : List TokenKind}, t.kinds = front ++ op.kind :: back →
      ∃ c : Cut ph, c.Cuts t op front back := by
  have hne : ∀ k : TokenKind, k ≠ .slash → k ≠ .percent → op.kind ≠ k := by
    rintro k hs hp rfl
    exact (Operator.divides_iff.mp hop).elim hs hp
  induction t with
  | number v =>
      intro front back h
      obtain ⟨mid, -, hk⟩ := cons_eq_append_cons (hne (.number v) nofun nofun) h
      cases mid <;> cases hk
  | group inner ih =>
      intro front back h
      obtain ⟨front, rfl, hk⟩ := cons_eq_append_cons (hne .leftParen nofun nofun) h
      rcases append_eq_append_cons hk with ⟨mid, hinner, rfl⟩ | ⟨mid, -, hclose⟩
      · obtain ⟨c, hc⟩ := ih hinner
        exact ⟨.group c, congrArg (TokenKind.leftParen :: ·) hc.kinds,
          hc.divisor.trans (List.prefix_append _ _), Nat.succ_le_succ hc.nesting⟩
      · -- what closes the group is no operator
        obtain ⟨mid, rfl, hk⟩ := cons_eq_append_cons (hne .rightParen nofun nofun) hclose
        cases mid <;> cases hk
  | minus operand ih =>
      intro front back h
      obtain ⟨front, rfl, hk⟩ := cons_eq_append_cons (hne .minus nofun nofun) h
      obtain ⟨c, hc⟩ := ih hk
      exact ⟨.minus c, congrArg (TokenKind.minus :: ·) hc.kinds, hc.divisor,
        Nat.succ_le_succ hc.nesting⟩
  | plus operand ih =>
      intro front back h
      obtain ⟨front, rfl, hk⟩ := cons_eq_append_cons (hne .plus nofun nofun) h
      obtain ⟨c, hc⟩ := ih hk
      exact ⟨.plus c, congrArg (TokenKind.plus :: ·) hc.kinds, hc.divisor,
        Nat.succ_le_succ hc.nesting⟩
  | chain operand links ihOperand ihLinks =>
      intro front back h
      rcases append_eq_append_cons h with ⟨mid, hk, rfl⟩ | ⟨mid, rfl, hk⟩
      · obtain ⟨c, hc⟩ := ihOperand hk
        exact ⟨.first c, hc.kinds, hc.divisor.trans (List.prefix_append _ _),
          max_le_max hc.nesting (Nat.zero_le _)⟩
      · obtain ⟨c, hc⟩ := ihLinks hk
        refine ⟨.chain operand c, ?_, hc.divisor, max_le_max le_rfl hc.nesting⟩
        rw [Cut.kinds, hc.kinds, List.append_assoc]
        rfl
  | done =>
      intro front back h
      cases front <;> cases h
  | link op' hop' operand links ihOperand ihLinks =>
      intro front back h
      rcases List.cons_eq_append_iff.mp h with ⟨rfl, hk⟩ | ⟨front, rfl, hk⟩
      · -- the operator of this link
        obtain ⟨hkind, rfl⟩ := List.cons.inj hk
        obtain rfl := Operator.kind_injective hkind
        obtain rfl := (Operator.precedence_of_divides hop).symm.trans hop'
        exact ⟨.here op hop operand, rfl, List.prefix_append _ _,
          max_le_max le_rfl (Nat.zero_le _)⟩
      · rcases append_eq_append_cons hk with ⟨mid, hmid, rfl⟩ | ⟨mid, rfl, hmid⟩
        · obtain ⟨c, hc⟩ := ihOperand hmid
          exact ⟨.within op' hop' c, congrArg (op'.kind :: ·) hc.kinds,
            hc.divisor.trans (List.prefix_append _ _), max_le_max hc.nesting (Nat.zero_le _)⟩
        · obtain ⟨c, hc⟩ := ihLinks hmid
          refine ⟨.behind op' hop' operand c, ?_, hc.divisor, max_le_max le_rfl hc.nesting⟩
          rw [Cut.kinds, hc.kinds, ← List.append_assoc]
          rfl

/-! ## Operands by themselves -/

/-- An operand as an expression. -/
def Tree.alone (t : Tree (.whole .primary)) : Tree (.whole .expression) :=
  .chain (.chain t .done) .done

theorem Tree.kinds_alone (t : Tree (.whole .primary)) : t.alone.kinds = t.kinds := by
  show (t.kinds ++ []) ++ [] = t.kinds
  rw [List.append_nil, List.append_nil]

theorem Tree.nesting_alone (t : Tree (.whole .primary)) : t.alone.nesting = t.nesting := by
  show max (max t.nesting 0) 0 = t.nesting
  rw [Nat.max_zero, Nat.max_zero]

theorem Tree.value_alone (t : Tree (.whole .primary)) : t.alone.value = t.value := by
  show (t.value.bind Except.ok).bind Except.ok = t.value
  cases t.value <;> rfl

/-- **An operand by itself evaluates to the value of its tree.** -/
theorem evaluate_operand {t : Tree (.whole .primary)} {tokens : List Token} {v : Int64}
    (h : t.kinds = tokens.map Token.kind) :
    evaluate tokens = .ok v ↔ t.nesting ≤ maxNesting ∧ t.value = .ok v := by
  have hk : t.alone.kinds = tokens.map Token.kind := by rw [t.kinds_alone, h]
  rw [evaluate_eq_ok_iff, ← t.nesting_alone, ← t.value_alone]
  refine ⟨fun he => ?_, fun hv => ⟨⟨t.alone, hk⟩, hv⟩⟩
  obtain ⟨d, hd⟩ := he
  obtain rfl : d = ⟨t.alone, hk⟩ := d.unique _
  exact hd

/-! ## The theorem -/

/-- Somewhere in the list there is a `/` or `%` with an operand behind it that is zero, and nothing
is wrong up to there: closed with enough `)` it is an expression that does not nest too deep. -/
def ReachesZeroDivisor (tokens : List Token) : Prop :=
  ∃ (front : List Token) (t : Token) (divisor rest : List Token),
    tokens = front ++ t :: divisor ++ rest ∧ (t.kind = .slash ∨ t.kind = .percent) ∧
    (∃ operand : Tree (.whole .primary),
      operand.kinds = divisor.map Token.kind ∧ operand.value = .ok 0) ∧
    ∃ (k : Nat) (d : Derivation (front ++ t :: divisor ++ List.replicate k ⟨.rightParen, ")"⟩)),
      d.tree.nesting ≤ 255

theorem exists_reached {tokens : List Token} (h : ReachesZeroDivisor tokens) :
    ∃ c : Cut (.whole .expression), c.Reached (maxNesting + 1) tokens := by
  obtain ⟨front, t, divisor, rest, rfl, ht, ⟨operand, hoperand, hzero⟩, k, d, hn⟩ := h
  obtain ⟨op, hop⟩ : ∃ op : Operator, op.kind = t.kind := by
    rcases ht with ht | ht
    · exact ⟨.div, ht.symm⟩
    · exact ⟨.rem, ht.symm⟩
  have hdivides : op.divides = true := Operator.divides_iff.mpr (by rwa [hop])
  have hk : d.tree.kinds = front.map Token.kind
      ++ op.kind :: (operand.kinds ++ List.replicate k .rightParen) := by
    rw [d.kinds_eq, hop, hoperand]
    simp
  obtain ⟨c, hc⟩ := d.tree.exists_cut hdivides hk
  -- an operand ends where it ends, so the cut is behind this one
  obtain ⟨after, hafter⟩ := hc.divisor
  obtain ⟨hsame, -⟩ := c.divisor.unique operand after _ (Level.endsAt_primary _)
    (Level.endsAt_primary _) hafter
  refine ⟨c, ?_, Nat.lt_succ_of_le (Nat.le_trans hc.nesting hn), ?_⟩
  · rw [hc.kinds, hsame, hop, hoperand, List.map_append, List.map_append, List.map_cons]
    exact List.prefix_append _ _
  · rw [hsame]
    exact hzero

theorem Cut.Reached.reachesZeroDivisor {c : Cut (.whole .expression)} {tokens : List Token}
    (h : c.Reached (maxNesting + 1) tokens) : ReachesZeroDivisor tokens := by
  have hn : c.close.nesting ≤ maxNesting := Nat.le_of_lt_succ h.nesting
  obtain ⟨front, op, hop, hk⟩ := c.endsInDivisor
  have hkinds := h.kinds
  rw [hk] at hkinds
  obtain ⟨front, tail, rfl, hfront, htail⟩ := exists_of_kinds_prefix hkinds
  obtain ⟨t, tail, rfl, ht, htail⟩ := exists_of_kinds_cons_prefix htail
  obtain ⟨divisor, rest, rfl, hdivisor, -⟩ :=
    exists_of_kinds_prefix (show c.divisor.kinds ++ [] <+: _ by rwa [List.append_nil])
  refine ⟨front, t, divisor, rest, by simp, ?_, ⟨c.divisor, hdivisor.symm, h.zero⟩, c.openGroups,
    ⟨c.close, ?_⟩, hn⟩
  · rw [ht]
    exact Operator.divides_iff.mp hop
  · simp [c.kinds_close, hk, hfront, ht, hdivisor]

/-- Why a list has no value. -/
theorem evaluate_fault {tokens : List Token} {f : Fault} (h : evaluate tokens = .error f) :
    (Phrase.whole .expression).Faulty (maxNesting + 1) tokens f := by
  have hfaults := expression_finds_faults (primary_finds _) (primary_finds_faults (maxNesting + 1))
  unfold evaluate at h
  split at h
  · cases h
  · exact Or.inl (Except.error.inj h).symm
  · rename_i e rest hread
    obtain rfl : e = f := Except.error.inj h
    exact hfaults tokens e (congrArg Reading.outcome hread)

theorem Cut.Reached.evaluate {c : Cut (.whole .expression)} {tokens : List Token}
    (h : c.Reached (maxNesting + 1) tokens) : evaluate tokens = .error .divisionByZero :=
  evaluate_of_error h.divides

theorem evaluate_eq_divisionByZero_iff {tokens : List Token} :
    evaluate tokens = .error .divisionByZero ↔ ReachesZeroDivisor tokens := by
  refine ⟨fun h => ?_, fun h => ?_⟩
  · rcases evaluate_fault h with hf | ⟨-, c, hc⟩
    · cases hf
    · exact hc.reachesZeroDivisor
  · obtain ⟨c, hc⟩ := exists_reached h
    exact hc.evaluate

/-- What is behind a zero divisor makes no difference. -/
theorem ReachesZeroDivisor.append {tokens : List Token} (h : ReachesZeroDivisor tokens)
    (more : List Token) : ReachesZeroDivisor (tokens ++ more) := by
  obtain ⟨front, t, divisor, rest, rfl, hdivides⟩ := h
  exact ⟨front, t, divisor, rest ++ more, by rw [List.append_assoc], hdivides⟩

/--
**Zero divisors are reported exactly where they are reached.** For every token list:

1. it has a value, or it is misspelt or nested too deep, or the fault is a zero divisor;
2. the fault is a zero divisor exactly if there is a `/` or `%` with a zero operand behind it, and
   up to there the list is the front of an expression whose numbers lie under at most 255 groups
   and signs;
3. then it is a zero divisor whatever is added behind the list;
4. a list that has no value and no such front is misspelt or nested too deep;
5. by itself, an operand evaluates to `v` exactly if `v` is its value and its numbers lie under at
   most 255 groups and signs.
-/
theorem zero_divisor_iff_reached (tokens : List Token) :
    ((∃ v, evaluate tokens = .ok v) ∨ evaluate tokens = .error .expression ∨
      evaluate tokens = .error .divisionByZero) ∧
    (evaluate tokens = .error .divisionByZero ↔ ReachesZeroDivisor tokens) ∧
    (evaluate tokens = .error .divisionByZero →
      ∀ more, evaluate (tokens ++ more) = .error .divisionByZero) ∧
    ((∀ v, evaluate tokens ≠ .ok v) → ¬ ReachesZeroDivisor tokens →
      evaluate tokens = .error .expression) ∧
    (∀ (operand : Tree (.whole .primary)) (divisor : List Token) (v : Int64),
      operand.kinds = divisor.map Token.kind →
        (evaluate divisor = .ok v ↔ operand.nesting ≤ 255 ∧ operand.value = .ok v)) := by
  have hfaults : (∃ v, evaluate tokens = .ok v) ∨ evaluate tokens = .error .expression ∨
      evaluate tokens = .error .divisionByZero := by
    cases h : evaluate tokens with
    | ok v => exact Or.inl ⟨v, rfl⟩
    | error f =>
        rcases evaluate_fault h with rfl | ⟨rfl, -⟩
        · exact Or.inr (Or.inl rfl)
        · exact Or.inr (Or.inr rfl)
  refine ⟨hfaults, evaluate_eq_divisionByZero_iff, fun h more => ?_, fun hno hreach => ?_,
    fun _ _ _ => evaluate_operand⟩
  · exact evaluate_eq_divisionByZero_iff.mpr ((evaluate_eq_divisionByZero_iff.mp h).append more)
  · rcases hfaults with ⟨v, hv⟩ | h | h
    · exact absurd hv (hno v)
    · exact h
    · exact absurd (evaluate_eq_divisionByZero_iff.mp h) hreach

end LineCalc
