import LineCalc.Proofs.Walks

/-!
# What can be relied on when a phrase is walked through

A walk through a phrase reports where it has come, and whatever it reports can be relied on:

* it comes to an end, from every place of every list and at every depth;
* success or failure, the depth is as it was and the cursor no further back;
* each step back has undone a step that took a token;
* where it succeeds it has gone forward, and what it says of the phrase is a matter of the tokens
  it has passed: others may stand behind them, unless they go on with the phrase, and further
  out the same phrase is read in the same way.

The last of these is where the trees come in. A walk succeeds from `p` to `q` exactly if the tokens
between are those of a tree with the value, the tree has room at this depth, and what stands at `q`
does not continue it (`Level.readsTo_iff`). Neither the rest of the list nor the depth occurs
anywhere else on the right.
-/

namespace LineCalc

/-- From place `p` and at depth `d` a phrase is read up to place `q`, and has this value, however
many calls that takes. -/
def Level.ReadsTo (l : Level) (tokens : List Token) (p d : Nat) (value : Int64) (q : Nat) : Prop :=
  ∃ calls w, l.walk calls (.start tokens p d) = some (.ok value, w) ∧ w.cursor.position = q

/-- A phrase has at least one token. -/
theorem Tree.kinds_ne_nil {l : Level} : (t : Tree (.whole l)) → t.kinds ≠ []
  | number _ | group _ | minus _ | plus _ => by simp [kinds]
  | chain first _ => by simp [kinds, first.kinds_ne_nil]

/-- Whatever a production reads is a tree. -/
theorem Level.findsTrees (l : Level) (levels : Nat) : l.FindsTrees levels := by
  cases l with
  | primary => exact primary_finds levels
  | chain p =>
      cases p with
      | multiplicative => exact chain_finds (p := .multiplicative) (primary_finds levels)
      | additive => exact expression_finds (primary_finds levels)

/-- Wherever a walk comes that sets out from place `p`, its cursor is in the same list. -/
theorem Walk.Reaches.items_start {tokens rest : List Token} {p d : Nat} {w : Walk}
    (h : (Walk.start tokens p d).Reaches rest w) : w.cursor.items = tokens :=
  h.items.trans (Cursor.items_place tokens p)

/-- In terms of productions: what is left is the list from `q` on. -/
theorem Level.readsTo_iff_read {l : Level} {tokens : List Token} {p d q : Nat} {value : Int64} :
    l.ReadsTo tokens p d value q ↔ q ≤ tokens.length ∧
      (l.production (maxNesting - d + 1)).read (tokens.drop p) = ⟨.ok value, tokens.drop q⟩ := by
  constructor
  · intro h
    obtain ⟨calls, w, hwalk, rfl⟩ := h
    obtain ⟨houtcome, hreach⟩ := walk_reads hwalk
    have hitems := hreach.items_start
    have hrest := hreach.ahead
    rw [Cursor.ahead_eq, hitems] at hrest
    rw [houtcome, hrest, ← hitems]
    exact ⟨w.cursor.position_le, by rw [hitems]; rfl⟩
  · intro h
    obtain ⟨hq, hread⟩ := h
    obtain ⟨outcome, w, hwalk⟩ := l.exists_walk (w := .start tokens p d) (Nat.le_refl _)
    obtain ⟨houtcome, hreach⟩ := walk_reads hwalk
    change outcome = ((l.production (maxNesting - d + 1)).read (tokens.drop p)).outcome at houtcome
    have hrest : w.cursor.ahead
        = ((l.production (maxNesting - d + 1)).read (tokens.drop p)).rest := hreach.ahead
    rw [hread] at houtcome hrest
    refine ⟨_, w, by rw [hwalk, houtcome], ?_⟩
    have hlength := w.cursor.position_add_length
    rw [hreach.items_start, hrest, List.length_drop] at hlength
    omega

/-- The tokens between two places, and those behind them. -/
theorem drop_eq_between_append {tokens : List Token} {p q : Nat} (hp : p ≤ q)
    (hq : q ≤ tokens.length) :
    tokens.drop p = (tokens.take q).drop p ++ tokens.drop q := by
  have hp' : p ≤ (tokens.take q).length := by rw [List.length_take_of_le hq]; exact hp
  rw [← List.drop_append_of_le_length hp', List.take_append_drop]

/-- **A phrase is read from `p` to `q` exactly if a tree stands there**, with this value, with room
at this depth, and in front of tokens that do not continue it. -/
theorem Level.readsTo_iff {l : Level} {tokens : List Token} {p d q : Nat} {value : Int64} :
    l.ReadsTo tokens p d value q ↔ p < q ∧ q ≤ tokens.length ∧
      l.EndsAt ((tokens.drop q).map Token.kind) ∧
      ∃ t : Tree (.whole l), t.kinds = ((tokens.take q).drop p).map Token.kind ∧
        t.nesting ≤ maxNesting - d ∧ t.value = .ok value := by
  rw [readsTo_iff_read]
  constructor
  · intro h
    obtain ⟨hq, hread⟩ := h
    obtain ⟨t, ⟨used, hused, hkinds⟩, hends, hnest, hvalue⟩ := l.findsTrees _ _ _ _ hread
    have hsome : used ≠ [] := by
      intro hnil
      exact t.kinds_ne_nil (by rw [← hkinds, hnil, List.map_nil])
    have hpq : p < q := by
      have hlength := congrArg List.length hused
      rw [List.length_append, List.length_drop, List.length_drop] at hlength
      have hpos := List.length_pos_iff.mpr hsome
      omega
    rw [drop_eq_between_append (Nat.le_of_lt hpq) hq] at hused
    obtain rfl := List.append_cancel_right hused
    exact ⟨hpq, hq, hends, t, hkinds.symm, Nat.le_of_lt_succ hnest, hvalue⟩
  · intro h
    obtain ⟨hpq, hq, hends, t, hkinds, hnest, hvalue⟩ := h
    refine ⟨hq, ?_⟩
    have hread : ((l.production (maxNesting - d + 1)).read
        ((tokens.take q).drop p ++ tokens.drop q)).Gives t.value (tokens.drop q) :=
      t.readAs hkinds.symm (Nat.lt_succ_of_le hnest) hends
    rw [hvalue, ← drop_eq_between_append (Nat.le_of_lt hpq) hq] at hread
    exact hread

namespace Level.ReadsTo

variable {l : Level} {tokens : List Token} {p d q : Nat} {value : Int64}

/-- What stands behind a phrase can be exchanged for anything that does not continue it. -/
theorem replace_rest (h : l.ReadsTo tokens p d value q) {others : List Token}
    (hends : l.EndsAt (others.map Token.kind)) :
    l.ReadsTo (tokens.take q ++ others) p d value q := by
  obtain ⟨hpq, hq, -, t, hkinds, hnest, hvalue⟩ := readsTo_iff.mp h
  have hlength : (tokens.take q).length = q := List.length_take_of_le hq
  refine readsTo_iff.mpr ⟨hpq, ?_, ?_, t, ?_, hnest, hvalue⟩
  · rw [List.length_append, hlength]
    exact Nat.le_add_right q _
  · rwa [List.drop_left' hlength]
  · rw [List.take_left' hlength, hkinds]

/-- Further out there is more room, and nothing else changes. -/
theorem further_out (h : l.ReadsTo tokens p d value q) {d' : Nat} (hd : d' ≤ d) :
    l.ReadsTo tokens p d' value q := by
  obtain ⟨hpq, hq, hends, t, hkinds, hnest, hvalue⟩ := readsTo_iff.mp h
  exact readsTo_iff.mpr ⟨hpq, hq, hends, t, hkinds,
    Nat.le_trans hnest (Nat.sub_le_sub_left hd maxNesting), hvalue⟩

end Level.ReadsTo

/--
**What can be relied on.** For an operand, a term or an expression, any token list, any place `p` in
it and any depth `d`:

1. the walk comes to an end: it needs no more than four open calls for each token ahead, and four
   more;
2. whenever it does, its outcome and the tokens ahead of it are those of the production with the
   levels that are left. Whatever the outcome is, the depth is `d` again, the place is between `p`
   and the end of the list, and every step back has come right after a step that took a token;
3. if it succeeds, at place `q`, then `q` lies behind `p`; it succeeds at `q` with the same value
   whatever tokens, if any, stand there instead, as long as the first of them does not continue the
   phrase; and so it does from every smaller depth.

An operand is continued by nothing, a term by `*`, `/` and `%`, an expression by `+` and `-` as
well. Nothing is asked of the depth: at 255 and beyond no group and no sign is entered.
-/
theorem phrase_walks_keep_contract (l : Level) (tokens : List Token) (p d : Nat)
    (hp : p ≤ tokens.length) :
    (∀ calls, 4 * (tokens.length - p + 1) ≤ calls →
      ∃ outcome w, l.walk calls (.start tokens p d) = some (outcome, w)) ∧
    (∀ calls outcome w, l.walk calls (.start tokens p d) = some (outcome, w) →
      ⟨outcome, w.cursor.ahead⟩ = (l.production (255 - d + 1)).read (tokens.drop p) ∧
      w.cursor.items = tokens ∧ w.depth = d ∧
      p ≤ w.cursor.position ∧ w.cursor.position ≤ tokens.length ∧ PutsBackTaken w.moves) ∧
    (∀ value q, l.ReadsTo tokens p d value q →
      p < q ∧ q ≤ tokens.length ∧
      (∀ others : List Token, l.EndsAt (others.map Token.kind) →
        l.ReadsTo (tokens.take q ++ others) p d value q) ∧
      ∀ d' ≤ d, l.ReadsTo tokens p d' value q) := by
  refine ⟨fun calls hcalls => ?_, fun calls outcome w hwalk => ?_, fun value q h => ?_⟩
  · rw [← List.length_drop] at hcalls
    exact l.exists_walk hcalls
  · obtain ⟨rfl, hreach⟩ := Level.walk_reads hwalk
    have hitems := hreach.items_start
    have hforward : p ≤ w.cursor.position := by
      have hle := hreach.position_le ((l.production _).rest_suffix _)
      rwa [Walk.start, Cursor.position_place hp] at hle
    have hinside : w.cursor.position ≤ tokens.length := by
      rw [← hitems]
      exact w.cursor.position_le
    have hback : PutsBackTaken w.moves := by
      obtain ⟨made, hmade, hback⟩ := hreach.moves
      rw [hmade]
      exact hback.append .nil
    exact ⟨by rw [hreach.ahead]; rfl, hitems, hreach.depth, hforward, hinside, hback⟩
  · obtain ⟨hpq, hq, -⟩ := Level.readsTo_iff.mp h
    exact ⟨hpq, hq, fun others => h.replace_rest, fun d' => h.further_out⟩

/-- A group between a sign and a factor, at depth 254: with room for itself it is read to its end,
whatever stands there, and at depth 0 as well. As a term it goes on, fails on the identifier, and
comes back to depth 254. -/
theorem group_at_limit :
    Level.primary.ReadsTo [⟨.minus, "-"⟩, ⟨.leftParen, "("⟩, ⟨.number 7, "7"⟩, ⟨.minus, "-"⟩,
      ⟨.number 3, "3"⟩, ⟨.rightParen, ")"⟩, ⟨.star, "*"⟩, ⟨.identifier, "x"⟩] 1 254 4 6 ∧
    Level.primary.ReadsTo [⟨.minus, "-"⟩, ⟨.leftParen, "("⟩, ⟨.number 7, "7"⟩, ⟨.minus, "-"⟩,
      ⟨.number 3, "3"⟩, ⟨.rightParen, ")"⟩, ⟨.number 5, "5"⟩] 1 254 4 6 ∧
    Level.primary.ReadsTo [⟨.minus, "-"⟩, ⟨.leftParen, "("⟩, ⟨.number 7, "7"⟩, ⟨.minus, "-"⟩,
      ⟨.number 3, "3"⟩, ⟨.rightParen, ")"⟩, ⟨.star, "*"⟩, ⟨.identifier, "x"⟩] 1 0 4 6 ∧
    ∃ w, Level.term.walk 32 (.start [⟨.minus, "-"⟩, ⟨.leftParen, "("⟩, ⟨.number 7, "7"⟩,
        ⟨.minus, "-"⟩, ⟨.number 3, "3"⟩, ⟨.rightParen, ")"⟩, ⟨.star, "*"⟩, ⟨.identifier, "x"⟩]
        1 254) = some (.error .expression, w) ∧ w.depth = 254 := by
  have hplace : 1 ≤ 8 := by decide
  let difference : Tree (.whole .expression) :=
    .chain (.chain (.number 7) .done) (.link .sub rfl (.chain (.number 3) .done) .done)
  have hread : Level.primary.ReadsTo [⟨.minus, "-"⟩, ⟨.leftParen, "("⟩, ⟨.number 7, "7"⟩,
      ⟨.minus, "-"⟩, ⟨.number 3, "3"⟩, ⟨.rightParen, ")"⟩, ⟨.star, "*"⟩, ⟨.identifier, "x"⟩]
      1 254 4 6 :=
    Level.readsTo_iff.mpr ⟨by decide, by decide, Level.endsAt_primary _, .group difference, rfl,
      by decide, rfl⟩
  have hcontract (l : Level) := phrase_walks_keep_contract l [⟨.minus, "-"⟩, ⟨.leftParen, "("⟩,
    ⟨.number 7, "7"⟩, ⟨.minus, "-"⟩, ⟨.number 3, "3"⟩, ⟨.rightParen, ")"⟩, ⟨.star, "*"⟩,
    ⟨.identifier, "x"⟩] 1 254 hplace
  obtain ⟨-, -, hreads⟩ := hcontract .primary
  obtain ⟨-, -, hothers, hdepths⟩ := hreads 4 6 hread
  refine ⟨hread, hothers [⟨.number 5, "5"⟩] (Level.endsAt_primary _), hdepths 0 (by decide), ?_⟩
  obtain ⟨hends, hwhenever, -⟩ := hcontract .term
  obtain ⟨outcome, w, hwalk⟩ := hends 32 (by decide)
  obtain ⟨hreading, -, hdepth, -⟩ := hwhenever 32 outcome w hwalk
  have houtcome : outcome = .error .expression := by
    refine (congrArg Reading.outcome hreading).trans ?_
    cbv
  exact ⟨w, by rw [hwalk, houtcome], hdepth⟩

end LineCalc
