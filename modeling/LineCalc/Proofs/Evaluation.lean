import LineCalc.Proofs.Grammar

/-!
# Evaluation follows the grammar

`evaluate` reads and computes in one pass. Against the trees of the grammar this comes
apart into two statements about the production of each level.

**It finds trees.** A production that succeeds has read the tokens of a tree, which nests
no deeper than the levels it was given and has the value it returned; and it has stopped
where nothing could continue that tree.

**It misses none.** In front of the tokens of a tree it reads exactly those, and returns
the value of the tree, or the zero divisor that the value fails on.

Both are inductions over what the other side offers: the first over the levels and, within
a level, over the links that `follow` takes; the second over the tree.
-/

namespace LineCalc

/-- The production that reads the phrases of a level. -/
def Level.production (levels : Nat) : Level → Production
  | primary => Production.primary levels
  | chain .multiplicative => Production.term levels
  | chain .additive => Production.expression levels

theorem Level.production_chain (levels : Nat) (p : Precedence) :
    (chain p).production levels
      = Production.chain p.operator? (p.operand.production levels) := by
  cases p <;> rfl

/-! ## Tokens that a tree spans -/

/-- The tree's tokens come first, and `rest` behind them. -/
def Tree.Spans {ph : Phrase} (t : Tree ph) (tokens rest : List Token) : Prop :=
  ∃ used, tokens = used ++ rest ∧ used.map Token.kind = t.kinds

namespace Tree.Spans

variable {p : Precedence} {tokens mid rest : List Token} {t : Token}

theorem number {value : Int64} (h : t.kind = .number value) :
    (Tree.number value).Spans (t :: tokens) tokens :=
  ⟨[t], rfl, by simp [kinds, h]⟩

theorem group {inner : Tree (.whole .expression)} {close : Token} (ht : t.kind = .leftParen)
    (h : inner.Spans tokens (close :: rest)) (hc : close.kind = .rightParen) :
    (Tree.group inner).Spans (t :: tokens) rest := by
  obtain ⟨used, rfl, hu⟩ := h
  exact ⟨t :: (used ++ [close]), by simp, by simp [kinds, ht, hu, hc]⟩

theorem minus {operand : Tree (.whole .primary)} (ht : t.kind = .minus)
    (h : operand.Spans tokens rest) : (Tree.minus operand).Spans (t :: tokens) rest := by
  obtain ⟨used, rfl, hu⟩ := h
  exact ⟨t :: used, rfl, by simp [kinds, ht, hu]⟩

theorem plus {operand : Tree (.whole .primary)} (ht : t.kind = .plus)
    (h : operand.Spans tokens rest) : (Tree.plus operand).Spans (t :: tokens) rest := by
  obtain ⟨used, rfl, hu⟩ := h
  exact ⟨t :: used, rfl, by simp [kinds, ht, hu]⟩

theorem chain {first : Tree (.whole p.operand)} {more : Tree (.links p)}
    (hf : first.Spans tokens mid) (hm : more.Spans mid rest) :
    (Tree.chain first more).Spans tokens rest := by
  obtain ⟨used, rfl, hu⟩ := hf
  obtain ⟨used', rfl, hu'⟩ := hm
  exact ⟨used ++ used', by simp, by simp [kinds, hu, hu']⟩

theorem done : (Tree.done : Tree (.links p)).Spans rest rest := ⟨[], rfl, rfl⟩

theorem link {op : Operator} {hop : op.precedence = p} {right : Tree (.whole p.operand)}
    {more : Tree (.links p)} (ht : t.kind = op.kind) (hr : right.Spans tokens mid)
    (hm : more.Spans mid rest) : (Tree.link op hop right more).Spans (t :: tokens) rest := by
  obtain ⟨used, rfl, hu⟩ := hr
  obtain ⟨used', rfl, hu'⟩ := hm
  exact ⟨t :: (used ++ used'), by simp, by simp [kinds, ht, hu, hu']⟩

end Tree.Spans

/-! ## What a production finds is a tree -/

/-- Whatever the production of this level reads is a tree with the value it returns. -/
def Level.FindsTrees (l : Level) (levels : Nat) : Prop :=
  ∀ tokens v rest, (l.production levels).read tokens = ⟨.ok v, rest⟩ →
    ∃ t : Tree (.whole l), t.Spans tokens rest ∧ l.EndsAt (rest.map Token.kind)
      ∧ t.nesting < levels ∧ t.value = .ok v

/-- A chain ends where its last operand does, if no operator of its own follows. -/
theorem Level.endsAt_chain {p : Precedence} {rest : List Token}
    (h : p.operand.EndsAt (rest.map Token.kind))
    (hop : ∀ t ∈ rest.head?, p.operator? t.kind = none) :
    (chain p).EndsAt (rest.map Token.kind) := by
  intro k hk
  rw [List.head?_map] at hk
  obtain ⟨t, ht, rfl⟩ := Option.map_eq_some_iff.mp hk
  have hn := hop t ht
  cases p with
  | multiplicative => simpa [continuedBy, Precedence.operator?] using hn
  | additive =>
      have hc : Level.term.continuedBy t.kind = false := h t.kind (by simpa using ⟨t, ht, rfl⟩)
      simp only [continuedBy] at hc ⊢
      rw [hc, Bool.false_or]
      simpa [Precedence.operator?] using hn

/-- `follow` reads the links of a chain. -/
theorem follow_finds {p : Precedence} {levels : Nat} (hfind : p.operand.FindsTrees levels)
    (hl : 0 < levels) (left : Int64) (tokens : List Token) :
    ∀ {v : Int64} {rest : List Token},
      (Production.follow (p.operand.production levels) p.operator? left tokens) = ⟨.ok v, rest⟩ →
      p.operand.EndsAt (tokens.map Token.kind) →
      ∃ more : Tree (.links p), more.Spans tokens rest
        ∧ (Level.chain p).EndsAt (rest.map Token.kind)
        ∧ more.nesting < levels ∧ more.value left = .ok v := by
  -- one link of the tree for each operator that `follow` takes
  fun_induction Production.follow (p.operand.production levels) p.operator? left tokens with
  | case1 left =>
      intro v rest h hends
      cases h
      exact ⟨.done, .done, Level.endsAt_nil _, hl, rfl⟩
  | case2 left t tokens hnone =>
      intro v rest h hends
      cases h
      refine ⟨.done, .done, Level.endsAt_chain hends ?_, hl, rfl⟩
      intro u hu
      cases hu
      exact hnone
  | case3 => intro v rest h; cases h
  | case4 left t tokens op hop r value hvalue =>
      rename_i ih
      intro v rest h _
      obtain ⟨hk, hprec⟩ := Precedence.operator?_eq_some_iff.mp hop
      -- the operand had a value, and the operator accepted it
      obtain ⟨x, hx, happly⟩ : ∃ x, r.outcome = .ok x ∧ op.apply left x = .ok value := by
        cases hr : r.outcome with
        | error f => rw [hr] at hvalue; cases hvalue
        | ok x => rw [hr] at hvalue; exact ⟨x, rfl, hvalue⟩
      obtain ⟨right, hspan, hend, hnest, hval⟩ := hfind tokens x r.rest (by rw [← hx])
      obtain ⟨more, hspan', hend', hnest', hval'⟩ := ih h hend
      refine ⟨.link op hprec right more, .link hk hspan hspan', hend', ?_, ?_⟩
      · exact Nat.max_lt.mpr ⟨hnest, hnest'⟩
      · rw [Operator.apply_eq_wrapped] at happly
        simp only [Tree.value, hval, Except.bind, happly, hval']

theorem chain_finds {p : Precedence} {levels : Nat} (hfind : p.operand.FindsTrees levels) :
    (Level.chain p).FindsTrees levels := by
  intro tokens v rest h
  rw [Level.production_chain] at h
  simp only [Production.chain, Production.readChain] at h
  split at h
  · cases h
  · rename_i left hleft
    obtain ⟨first, hspan, hend, hnest, hval⟩ := hfind tokens left
      ((p.operand.production levels).read tokens).rest (by rw [← hleft])
    obtain ⟨more, hspan', hend', hnest', hval'⟩ :=
      follow_finds hfind (Nat.zero_lt_of_lt hnest) left _ h hend
    refine ⟨.chain first more, .chain hspan hspan', hend', Nat.max_lt.mpr ⟨hnest, hnest'⟩, ?_⟩
    show first.value.bind more.value = .ok v
    rw [hval]
    exact hval'

theorem expression_finds {levels : Nat} (h : Level.primary.FindsTrees levels) :
    Level.expression.FindsTrees levels :=
  chain_finds (p := .additive) (chain_finds (p := .multiplicative) h)

/-- What closes a group has read its inside and the parenthesis behind it. -/
theorem closeGroup_eq_ok {r : Reading} {v : Int64} {rest : List Token}
    (h : Production.closeGroup r = ⟨.ok v, rest⟩) :
    ∃ close : Token, close.kind = .rightParen ∧ r = ⟨.ok v, close :: rest⟩ := by
  unfold Production.closeGroup at h
  split at h
  · rename_i lexeme _
    cases h
    exact ⟨⟨.rightParen, lexeme⟩, rfl, rfl⟩
  · cases h
  · cases h

theorem primary_finds (levels : Nat) : Level.primary.FindsTrees levels := by
  -- what a group or a sign encloses is read with one level less
  induction levels with
  | zero => intro tokens v rest h; cases h
  | succ levels ih =>
      intro tokens v rest h
      change Production.readOperand (Production.primary levels) tokens = _ at h
      cases tokens with
      | nil => cases h
      | cons t tokens =>
          rw [Production.readOperand] at h
          split at h
          · -- a number
            rename_i value hk
            cases h
            exact ⟨.number v, .number hk, Level.endsAt_primary _, Nat.succ_pos _, rfl⟩
          · -- a group
            rename_i hk
            obtain ⟨close, hclose, hr⟩ := closeGroup_eq_ok h
            obtain ⟨inner, hspan, _, hnest, hval⟩ := expression_finds ih tokens v _ hr
            exact ⟨.group inner, .group hk hspan hclose, Level.endsAt_primary _,
              Nat.succ_lt_succ hnest, hval⟩
          · -- a sign that negates
            rename_i hk
            obtain ⟨hout, hrest⟩ := Reading.mk.inj h
            cases hx : ((Production.primary levels).read tokens).outcome with
            | error f => rw [hx] at hout; cases hout
            | ok x =>
                obtain ⟨operand, hspan, _, hnest, hval⟩ := ih tokens x rest
                  (by rw [← hx, ← hrest]; rfl)
                refine ⟨.minus operand, .minus hk hspan, Level.endsAt_primary _,
                  Nat.succ_lt_succ hnest, ?_⟩
                rw [hx] at hout
                cases hout
                show operand.value.map _ = .ok _
                rw [hval, Except.map, Int64.ofInt_neg, Int64.ofInt_toInt]
          · -- a sign that does not
            rename_i hk
            obtain ⟨operand, hspan, _, hnest, hval⟩ := ih tokens v rest h
            exact ⟨.plus operand, .plus hk hspan, Level.endsAt_primary _,
              Nat.succ_lt_succ hnest, hval⟩
          · cases h

/-! ## What a production makes of a tree -/

/-- A reading has this value and leaves this rest; or it fails on a zero divisor, wherever it
stopped, if there is no value. -/
def Reading.Gives (r : Reading) : Except Fault Int64 → List Token → Prop
  | .ok v, rest => r = ⟨.ok v, rest⟩
  | .error _, _ => r.outcome = .error .divisionByZero

/-- What it is to read a phrase: its production gives its value, or `follow` does, from any value
on the left. -/
def Phrase.ReadAs (levels : Nat) : (ph : Phrase) → ph.Meaning → List Token → List Token → Prop
  | whole l, value, tokens, rest => ((l.production levels).read tokens).Gives value rest
  | links p, value, tokens, rest => ∀ left,
      (Production.follow (p.operand.production levels) p.operator? left tokens).Gives
        (value left) rest

/-- An operand has been read: the chain goes on from its value, or stops at its fault. -/
theorem follow_of_readAs {p : Precedence} {levels : Nat} {right : Except Fault Int64}
    {value : Int64 → Except Fault Int64} {op : Operator} {t : Token} {tokens mid rest : List Token}
    (ht : t.kind = op.kind) (hop : op.precedence = p)
    (hr : ((p.operand.production levels).read tokens).Gives right mid)
    (hm : Phrase.ReadAs levels (.links p) value mid rest) (left : Int64) :
    (Production.follow (p.operand.production levels) p.operator? left (t :: tokens)).Gives
      (right.bind fun r => (op.wrapped left r).bind value) rest := by
  have hsome : p.operator? t.kind = some op := Precedence.operator?_eq_some_iff.mpr ⟨ht, hop⟩
  rw [Production.follow]
  simp only [hsome]
  cases right with
  | error f =>
      simp only [Reading.Gives] at hr
      simp only [hr, Except.bind, Reading.Gives]
  | ok r =>
      simp only [Reading.Gives] at hr
      simp only [hr, Except.bind, Operator.apply_eq_wrapped]
      cases hw : op.wrapped left r with
      | error f =>
          -- an operation that fails fails on a zero divisor
          unfold Operator.wrapped at hw
          split at hw
          · cases hw; rfl
          · cases hw
      | ok v => exact hm v

/-- The first operand has been read: the chain goes on from its value, or stops at its fault. -/
theorem readChain_of_readAs {p : Precedence} {levels : Nat} {first : Except Fault Int64}
    {value : Int64 → Except Fault Int64} {tokens mid rest : List Token}
    (hf : ((p.operand.production levels).read tokens).Gives first mid)
    (hm : Phrase.ReadAs levels (.links p) value mid rest) :
    (((Level.chain p).production levels).read tokens).Gives (first.bind value) rest := by
  rw [Level.production_chain]
  show (Production.readChain p.operator? (p.operand.production levels) tokens).Gives _ _
  cases first with
  | error f =>
      simp only [Reading.Gives] at hf
      simp only [Production.readChain, hf, Except.bind, Reading.Gives]
  | ok v =>
      simp only [Reading.Gives] at hf
      simp only [Production.readChain, hf, Except.bind]
      exact hm v

/-- No operator follows: the chain has the value it had. -/
theorem follow_of_endsAt {p : Precedence} {operand : Production} {rest : List Token}
    (h : (Level.chain p).EndsAt (rest.map Token.kind)) (left : Int64) :
    Production.follow operand p.operator? left rest = ⟨.ok left, rest⟩ := by
  cases rest with
  | nil => rw [Production.follow]
  | cons t rest =>
      have hnone : p.operator? t.kind = none := by
        cases hop : p.operator? t.kind with
        | none => rfl
        | some op =>
            obtain ⟨hk, hprec⟩ := Precedence.operator?_eq_some_iff.mp hop
            rw [List.map_cons, hk] at h
            exact absurd h (Level.not_endsAt_operator hprec _)
      rw [Production.follow]
      simp only [hnone]

theorem gives_closeGroup {r : Reading} {value : Except Fault Int64} {close : Token}
    {rest : List Token} (hc : close.kind = .rightParen) (h : r.Gives value (close :: rest)) :
    (Production.closeGroup r).Gives value rest := by
  obtain ⟨kind, lexeme⟩ := close
  obtain rfl : kind = .rightParen := hc
  cases value with
  | ok v =>
      simp only [Reading.Gives] at h
      subst h
      rfl
  | error f =>
      obtain ⟨outcome, left⟩ := r
      obtain rfl : outcome = .error .divisionByZero := h
      rfl

theorem gives_negated {r : Reading} {value : Except Fault Int64} {rest : List Token}
    (h : r.Gives value rest) :
    Reading.Gives ⟨r.outcome.map fun v => -v, r.rest⟩
      (value.map fun v => Int64.ofInt (-v.toInt)) rest := by
  cases value with
  | ok v =>
      simp only [Reading.Gives] at h
      subst h
      simp [Except.map, Reading.Gives]
  | error f =>
      simp only [Reading.Gives] at h
      simp [Except.map, Reading.Gives, h]

/-- **Trees are read.** In front of the tokens of a tree, with room for its nesting and nothing
behind them that continues it, its phrase is read to the end and gives its value. -/
theorem Tree.readAs {ph : Phrase} (t : Tree ph) :
    ∀ {levels : Nat} {tokens rest : List Token}, tokens.map Token.kind = t.kinds →
      t.nesting < levels → ph.EndsAt (rest.map Token.kind) →
      ph.ReadAs levels t.value (tokens ++ rest) rest := by
  induction t with
  | number value =>
      intro levels tokens rest hk hn _
      obtain ⟨t, rfl, ht⟩ := List.map_eq_singleton_iff.mp hk
      obtain ⟨levels, rfl⟩ := Nat.exists_eq_succ_of_ne_zero (Nat.ne_of_gt hn)
      show Production.readOperand _ (t :: rest) = _
      rw [Production.readOperand, ht]
  | group inner ih =>
      intro levels tokens rest hk hn _
      obtain ⟨t, used, rfl, ht, hk⟩ := List.map_eq_cons_iff.mp hk
      obtain ⟨used, closing, rfl, hused, hcl⟩ := List.map_eq_append_iff.mp hk
      -- whatever comes behind the group, its inside ends at the parenthesis
      obtain ⟨close, rfl, hclose⟩ := List.map_eq_singleton_iff.mp hcl
      obtain ⟨levels, rfl⟩ := Nat.exists_eq_succ_of_ne_zero (Nat.ne_zero_of_lt hn)
      have hi : ((Production.expression levels).read (used ++ close :: rest)).Gives inner.value
          (close :: rest) :=
        ih hused (Nat.lt_of_succ_lt_succ hn) (by
          rw [List.map_cons, hclose]
          exact Level.endsAt_rightParen _ _)
      show (Production.readOperand (Production.primary levels)
        (t :: (used ++ [close]) ++ rest)).Gives inner.value rest
      rw [List.cons_append, List.append_assoc, List.singleton_append, Production.readOperand, ht]
      exact gives_closeGroup hclose hi
  | minus operand ih =>
      intro levels tokens rest hk hn hends
      obtain ⟨t, used, rfl, ht, hused⟩ := List.map_eq_cons_iff.mp hk
      obtain ⟨levels, rfl⟩ := Nat.exists_eq_succ_of_ne_zero (Nat.ne_zero_of_lt hn)
      have ho : ((Production.primary levels).read (used ++ rest)).Gives operand.value rest :=
        ih hused (Nat.lt_of_succ_lt_succ hn) hends
      show (Production.readOperand (Production.primary levels) (t :: used ++ rest)).Gives
        (operand.value.map _) rest
      rw [List.cons_append, Production.readOperand, ht]
      exact gives_negated ho
  | plus operand ih =>
      intro levels tokens rest hk hn hends
      obtain ⟨t, used, rfl, ht, hused⟩ := List.map_eq_cons_iff.mp hk
      obtain ⟨levels, rfl⟩ := Nat.exists_eq_succ_of_ne_zero (Nat.ne_zero_of_lt hn)
      have ho : ((Production.primary levels).read (used ++ rest)).Gives operand.value rest :=
        ih hused (Nat.lt_of_succ_lt_succ hn) hends
      show (Production.readOperand (Production.primary levels) (t :: used ++ rest)).Gives
        operand.value rest
      rw [List.cons_append, Production.readOperand, ht]
      exact ho
  | chain first more ihFirst ihMore =>
      intro levels tokens rest hk hn hends
      obtain ⟨used, linked, rfl, hf, hm⟩ := List.map_eq_append_iff.mp hk
      -- operands side by side have the same levels: only the deeper one counts
      obtain ⟨hnf, hnm⟩ := Nat.max_lt.mp hn
      rw [List.append_assoc]
      refine readChain_of_readAs (ihFirst hf hnf ?_) (ihMore hm hnm hends)
      rw [List.map_append, hm]
      exact endsAt_links more hends
  | done =>
      intro levels tokens rest hk _ hends left
      obtain rfl := List.map_eq_nil_iff.mp hk
      rw [List.nil_append]
      exact follow_of_endsAt hends left
  | link op hop right more ihRight ihMore =>
      intro levels tokens rest hk hn hends left
      obtain ⟨t, used, rfl, ht, hk⟩ := List.map_eq_cons_iff.mp hk
      obtain ⟨used, linked, rfl, hr, hm⟩ := List.map_eq_append_iff.mp hk
      obtain ⟨hnr, hnm⟩ := Nat.max_lt.mp hn
      rw [List.cons_append, List.append_assoc]
      refine follow_of_readAs ht hop (ihRight hr hnr ?_) (ihMore hm hnm hends) left
      rw [List.map_append, hm]
      exact endsAt_links more hends

/-! ## Evaluating a whole list -/

/-- A way to read a whole token list as an expression. -/
structure Derivation (tokens : List Token) where
  tree : Tree (.whole .expression)
  kinds_eq : tree.kinds = tokens.map Token.kind

/-- There is one way at most. -/
theorem Derivation.unique {tokens : List Token} (d e : Derivation tokens) : d = e := by
  obtain ⟨t, ht⟩ := d
  obtain ⟨u, hu⟩ := e
  obtain ⟨rfl, -⟩ := t.unique u [] [] (Level.endsAt_nil _) (Level.endsAt_nil _)
    (by rw [ht, hu])
  rfl

/-- The reading that `evaluate` looks at. -/
def readWhole (tokens : List Token) : Reading :=
  (Production.expression (maxNesting + 1)).read tokens

theorem readWhole_gives {tokens : List Token} (d : Derivation tokens)
    (hn : d.tree.nesting ≤ maxNesting) : (readWhole tokens).Gives d.tree.value [] := by
  have h : (readWhole (tokens ++ [])).Gives d.tree.value [] :=
    d.tree.readAs d.kinds_eq.symm (Nat.lt_succ_of_le hn) (Level.endsAt_nil _)
  rw [List.append_nil] at h
  exact h

theorem evaluate_eq_ok {tokens : List Token} {v : Int64} :
    evaluate tokens = .ok v ↔ readWhole tokens = ⟨.ok v, []⟩ := by
  unfold evaluate readWhole
  split
  · rename_i value h
    rw [h]
    simp
  · rename_i h
    rw [h]
    simp
  · rename_i h
    rw [h]
    simp

/-- A list has a value exactly if it is an expression that nests no deeper than is allowed and has
that value. -/
theorem evaluate_eq_ok_iff {tokens : List Token} {v : Int64} :
    evaluate tokens = .ok v ↔
      ∃ d : Derivation tokens, d.tree.nesting ≤ maxNesting ∧ d.tree.value = .ok v := by
  rw [evaluate_eq_ok]
  refine ⟨fun h => ?_, fun he => ?_⟩
  · obtain ⟨t, ⟨used, hused, hk⟩, _, hn, hv⟩ :=
      expression_finds (primary_finds (maxNesting + 1)) tokens v [] h
    rw [List.append_nil] at hused
    exact ⟨⟨t, by rw [← hk, hused]⟩, Nat.le_of_lt_succ hn, hv⟩
  · obtain ⟨d, hn, hv⟩ := he
    have h := readWhole_gives d hn
    rw [hv] at h
    exact h

/-- A number by itself is an expression, and has its own value. -/
theorem evaluate_number {t : Token} {v : Int64} (ht : t.kind = .number v) :
    evaluate [t] = .ok v := by
  have hd : (Tree.chain (.chain (.number v) .done) .done : Tree (.whole .expression)).kinds
      = [t].map Token.kind := by
    rw [List.map_singleton, ht]
    rfl
  exact evaluate_eq_ok_iff.mpr ⟨⟨_, hd⟩, Nat.zero_le _, rfl⟩

/-- A reading that has a fault is a fault of the whole list, wherever it stopped. -/
theorem evaluate_of_error {tokens : List Token} {f : Fault}
    (h : (readWhole tokens).outcome = .error f) : evaluate tokens = .error f := by
  unfold readWhole at h
  unfold evaluate
  generalize (Production.expression (maxNesting + 1)).read tokens = r at h ⊢
  obtain ⟨outcome, rest⟩ := r
  obtain rfl : outcome = .error f := h
  rfl

theorem evaluate_eq_divisionByZero {tokens : List Token} (d : Derivation tokens)
    (hn : d.tree.nesting ≤ maxNesting) {f : Fault} (hv : d.tree.value = .error f) :
    evaluate tokens = .error .divisionByZero := by
  have h := readWhole_gives d hn
  rw [hv] at h
  exact evaluate_of_error h

theorem evaluate_fails_iff {tokens : List Token} :
    (∃ f, evaluate tokens = .error f) ↔ ∀ v, evaluate tokens ≠ .ok v := by
  cases evaluate tokens <;> simp

/-! ## Tokens that no expression has -/

/-- Operators, parentheses and numbers are all that trees are made of. -/
def TokenKind.isArithmetic : TokenKind → Bool
  | identifier | equal => false
  | _ => true

theorem Tree.isArithmetic_of_mem {ph : Phrase} (t : Tree ph) :
    ∀ k ∈ t.kinds, k.isArithmetic = true := by
  induction t with
  | number value => intro k hk; rw [List.mem_singleton.mp hk]; rfl
  | group inner ih =>
      intro k hk
      simp only [kinds, List.mem_cons, List.mem_append, List.not_mem_nil, or_false] at hk
      rcases hk with rfl | hk | rfl
      · rfl
      · exact ih k hk
      · rfl
  | minus operand ih | plus operand ih =>
      intro k hk
      rcases List.mem_cons.mp hk with rfl | hk
      · rfl
      · exact ih k hk
  | chain first more ihFirst ihMore =>
      intro k hk
      rcases List.mem_append.mp hk with hk | hk
      · exact ihFirst k hk
      · exact ihMore k hk
  | done => intro k hk; cases hk
  | link op hop right more ihRight ihMore =>
      intro k hk
      rcases List.mem_cons.mp hk with rfl | hk
      · cases op <;> rfl
      · rcases List.mem_append.mp hk with hk | hk
        · exact ihRight k hk
        · exact ihMore k hk

theorem isArithmetic_of_evaluate_eq_ok {tokens : List Token} {v : Int64}
    (h : evaluate tokens = .ok v) : ∀ t ∈ tokens, t.kind.isArithmetic = true := by
  intro t ht
  obtain ⟨d, -, -⟩ := evaluate_eq_ok_iff.mp h
  refine d.tree.isArithmetic_of_mem t.kind ?_
  rw [d.kinds_eq]
  exact List.mem_map_of_mem ht

/-! ## Sums of expressions -/

namespace Tree

variable {p : Precedence}

private theorem bind_eq_ok {x : Except Fault Int64} {f : Int64 → Except Fault Int64} {v : Int64}
    (h : Except.bind x f = .ok v) : ∃ y, x = .ok y ∧ f y = .ok v := by
  cases x with
  | error e => cases h
  | ok y => exact ⟨y, rfl, h⟩

/-- Links, and more links behind them. -/
def append : Tree (.links p) → Tree (.links p) → Tree (.links p)
  | done, n => n
  | link op hop right more, n => link op hop right (more.append n)

theorem kinds_append : ∀ m n : Tree (.links p), (m.append n).kinds = m.kinds ++ n.kinds
  | done, n => by simp only [append, kinds, List.nil_append]
  | link op hop right more, n => by
      simp only [append, kinds, kinds_append more n, List.cons_append, List.append_assoc]

theorem nesting_append : ∀ m n : Tree (.links p),
    (m.append n).nesting = max m.nesting n.nesting
  | done, n => by simp only [append, nesting, Nat.zero_max]
  | link op hop right more, n => by
      simp only [append, nesting, nesting_append more n, Nat.max_assoc]

theorem value_append : ∀ {m n : Tree (.links p)} {left x : Int64},
    m.value left = .ok x → (m.append n).value left = n.value x
  | done, n, left, x, h => by
      cases h
      rw [append]
  | link op hop right more, n, left, x, h => by
      rw [append]
      obtain ⟨r, hr, h⟩ := bind_eq_ok h
      obtain ⟨y, hy, h⟩ := bind_eq_ok h
      show Except.bind right.value _ = _
      rw [hr]
      show Except.bind (op.wrapped left r) _ = _
      rw [hy]
      exact value_append h

/-- A chain of sums is as much larger as what it starts from. -/
theorem value_add (a : Int64) : ∀ {m : Tree (.links .additive)} {x y : Int64},
    m.value x = .ok y → m.value (a + x) = .ok (a + y)
  | done, x, y, h => by
      cases h
      rfl
  | link op hop right more, x, y, h => by
      obtain ⟨r, hr, h⟩ := bind_eq_ok h
      obtain ⟨z, hz, h⟩ := bind_eq_ok h
      have hz' : op.wrapped (a + x) r = .ok (a + z) := by
        rw [← Operator.apply_eq_wrapped] at hz ⊢
        -- products are no links of a sum
        cases op with
        | add => cases hz; rw [Operator.apply, Int64.add_assoc]
        | sub => cases hz; simp only [Operator.apply, Int64.sub_eq_add_neg, Int64.add_assoc]
        | mul | div | rem => cases hop
      show Except.bind right.value _ = _
      rw [hr]
      show Except.bind (op.wrapped (a + x) r) _ = _
      rw [hz']
      exact value_add a h

end Tree

/-- Two expressions with a `+` between them make one, which nests as deep as the deeper of them. -/
theorem Derivation.add {left right : List Token} {t : Token} (ht : t.kind = .plus)
    (d : Derivation left) (e : Derivation right) :
    ∃ s : Derivation (left ++ t :: right),
      s.tree.nesting = max d.tree.nesting e.tree.nesting ∧
      ∀ v w, d.tree.value = .ok v → e.tree.value = .ok w → s.tree.value = .ok (v + w) := by
  obtain ⟨dt, hd⟩ := d
  obtain ⟨et, he⟩ := e
  cases dt with
  | chain f m =>
    cases et with
    | chain g n =>
      refine ⟨⟨.chain f (m.append (.link .add rfl g n)), ?_⟩, ?_, ?_⟩
      · simp only [Tree.kinds, Tree.kinds_append, List.map_append, List.map_cons, ← hd, ← he, ht,
          Operator.kind, List.append_assoc]
      · simp only [Tree.nesting, Tree.nesting_append, Nat.max_assoc]
      · intro v w hv hw
        obtain ⟨x, hx, hmx⟩ := Tree.bind_eq_ok hv
        obtain ⟨y, hy, hny⟩ := Tree.bind_eq_ok hw
        show Except.bind f.value _ = _
        rw [hx]
        show (m.append _).value x = _
        rw [Tree.value_append hmx]
        show Except.bind g.value _ = _
        rw [hy]
        -- the links of the second sum go on from `v + y` where they had gone on from `y`
        show Except.bind (Operator.add.wrapped v y) _ = _
        rw [← Operator.apply_eq_wrapped]
        exact Tree.value_add v hny

theorem evaluate_add {left right : List Token} {t : Token} {v w : Int64} (ht : t.kind = .plus)
    (hv : evaluate left = .ok v) (hw : evaluate right = .ok w) :
    evaluate (left ++ t :: right) = .ok (v + w) := by
  obtain ⟨d, hd, hdv⟩ := evaluate_eq_ok_iff.mp hv
  obtain ⟨e, he, hew⟩ := evaluate_eq_ok_iff.mp hw
  obtain ⟨s, hs, hval⟩ := Derivation.add ht d e
  exact evaluate_eq_ok_iff.mpr ⟨s, by rw [hs]; exact Nat.max_le.mpr ⟨hd, he⟩, hval v w hdv hew⟩

/-! ## The theorem -/

/--
**Evaluation against the grammar.** For every token list:

1. it is an expression in one way at most;
2. it has the value `v` exactly if it is an expression of value `v` whose numbers lie under at most
   255 groups and signs;
3. if it is such an expression and has no value, the fault is a zero divisor;
4. if it is no expression, or one that nests deeper, it is at fault;
5. so it is with an identifier or an `=` anywhere;
6. two lists with values make one with a `+` between them: what stands side by side does not add up
   towards the limit.
-/
theorem evaluate_follows_grammar (tokens : List Token) :
    (∀ d e : Derivation tokens, d = e) ∧
    (∀ v, evaluate tokens = .ok v ↔
      ∃ d : Derivation tokens, d.tree.nesting ≤ 255 ∧ d.tree.value = .ok v) ∧
    (∀ d : Derivation tokens, d.tree.nesting ≤ 255 → (∀ v, d.tree.value ≠ .ok v) →
      evaluate tokens = .error .divisionByZero) ∧
    ((∀ d : Derivation tokens, 255 < d.tree.nesting) → ∃ f, evaluate tokens = .error f) ∧
    ((∃ t ∈ tokens, t.kind = .identifier ∨ t.kind = .equal) →
      ∃ f, evaluate tokens = .error f) ∧
    (∀ left t right v w, tokens = left ++ t :: right → t.kind = .plus →
      evaluate left = .ok v → evaluate right = .ok w → evaluate tokens = .ok (v + w)) := by
  refine ⟨Derivation.unique, fun v => evaluate_eq_ok_iff, ?_, ?_, ?_, ?_⟩
  · intro d hn hv
    cases h : d.tree.value with
    | error f => exact evaluate_eq_divisionByZero d hn h
    | ok v => exact absurd h (hv v)
  · intro hdeep
    refine evaluate_fails_iff.mpr fun v hv => ?_
    obtain ⟨d, hn, -⟩ := evaluate_eq_ok_iff.mp hv
    exact Nat.not_lt_of_le hn (hdeep d)
  · intro he
    obtain ⟨t, ht, hk⟩ := he
    refine evaluate_fails_iff.mpr fun v hv => ?_
    have ha := isArithmetic_of_evaluate_eq_ok hv t ht
    rcases hk with hk | hk <;> rw [hk] at ha <;> cases ha
  · intro left t right v w htokens ht hv hw
    rw [htokens]
    exact evaluate_add ht hv hw

end LineCalc
