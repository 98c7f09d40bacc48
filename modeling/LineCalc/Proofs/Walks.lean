import LineCalc.Cursor
import LineCalc.Proofs.Evaluation

/-!
# Reading a phrase as a walk

A `Production` carries no cursor and no depth: what it has not reached is the rest it returns, and
the levels that are left are an argument. Here the same phrases are read by a walk, which has both
as state. A walk moves one cursor over the whole list, forward a token at a time and back by one
where a token turns out not to belong to the phrase, and counts the groups and signs that it is
inside, up on the way in and down on the way out.

Nothing in a walk gets smaller from call to call, so its recursion is cut off from outside: a walk
is given a number of calls that may be open at one time, and has no result if it needs more. A walk
that never came to an end would have none, however many calls it were given.

**Walks read what productions read** (`walks_read`). With four calls for each token ahead, and four
more, a walk comes to an end; and whenever it does, its outcome and the tokens ahead of it are those
of the production with the levels that its depth leaves. `Walk.Reaches` is what a walk keeps on the
way, whether it succeeds or fails: the list, the depth, and that every step back undoes a step that
took a token.
-/

namespace LineCalc

/-! ## Places in a list -/

namespace Cursor

variable {α : Type}

/-- The place that has `p` items behind it, or all of them if there are fewer. -/
def place (xs : List α) (p : Nat) : Cursor α := ⟨(xs.take p).reverse, xs.drop p⟩

@[simp] theorem items_place (xs : List α) (p : Nat) : (place xs p).items = xs := by
  simp [place, items]

theorem position_place {xs : List α} {p : Nat} (h : p ≤ xs.length) :
    (place xs p).position = p := by
  simp [place, position, h]

/-- What lies ahead is the list from the cursor's position on. -/
theorem ahead_eq (c : Cursor α) : c.ahead = c.items.drop c.position := by
  obtain ⟨taken, ahead⟩ := c
  simp [items, position]

theorem position_add_length (c : Cursor α) : c.position + c.ahead.length = c.items.length := by
  obtain ⟨taken, ahead⟩ := c
  simp [items, position]

end Cursor

/-! ## Walks -/

/-- A move of a cursor. -/
inductive Move where
  /-- One step forward, and the token it took; at the end there is none, and no step. -/
  | get (found : Option Token)
  /-- One step back. -/
  | putBack

/-- A walk over a token list, on its way through a phrase. -/
structure Walk where
  cursor : Cursor Token
  /-- How many groups and signs have been entered and not been left. -/
  depth : Nat
  /-- The moves of the cursor so far, latest first. They are kept for the record: nothing reads
  them. -/
  moves : List Move

namespace Walk

/-- A walk that sets out from place `p` of a list, at depth `d`. -/
def start (tokens : List Token) (p d : Nat) : Walk := ⟨.place tokens p, d, []⟩

/-- The next token, if there is one, and the walk behind it. -/
def get (w : Walk) : Option Token × Walk :=
  (w.cursor.get.1, ⟨w.cursor.get.2, w.depth, .get w.cursor.get.1 :: w.moves⟩)

/-- One step back. -/
def putBack (w : Walk) : Walk := ⟨w.cursor.putBack, w.depth, .putBack :: w.moves⟩

/-- Into a group, or behind a sign. -/
def enter (w : Walk) : Walk := { w with depth := w.depth + 1 }

/-- Out of it again. -/
def leave (w : Walk) : Walk := { w with depth := w.depth - 1 }

end Walk

-- A level stands for the production it names: a group passes `expression` on to be walked inside,
-- a sign passes `primary`.
mutual

/-- Walk through a phrase, with at most `calls` calls open at one time. -/
def Level.walk : (calls : Nat) → Level → Walk → Option (Except Fault Int64 × Walk)
  | 0, _, _ => none
  | calls + 1, .primary, w =>
      match w.get with
      | (none, w) => some (.error .expression, w)
      | (some t, w) =>
          match t.kind with
          | .number value => some (.ok value, w)
          | .leftParen => do
              let (outcome, w) ← Level.expression.walkInside calls w
              match outcome with
              | .error fault => some (.error fault, w)
              | .ok value =>
                  match w.get with
                  | (some ⟨.rightParen, _⟩, w) => some (.ok value, w)
                  | (_, w) => some (.error .expression, w)
          | .minus => do
              let (outcome, w) ← Level.primary.walkInside calls w
              some (outcome.map fun value => -value, w)
          | .plus => Level.primary.walkInside calls w
          | _ => some (.error .expression, w)
  | calls + 1, .chain p, w => do
      let (outcome, w) ← p.operand.walk calls w
      match outcome with
      | .error fault => some (.error fault, w)
      | .ok left => p.walkLinks calls left w

/-- Go on with a chain whose value so far is `left`. A token that is no operator of the chain is
put back. -/
def Precedence.walkLinks :
    (calls : Nat) → Precedence → Int64 → Walk → Option (Except Fault Int64 × Walk)
  | 0, _, _, _ => none
  | calls + 1, p, left, w =>
      match w.get with
      | (none, w) => some (.ok left, w)
      | (some t, w) =>
          match p.operator? t.kind with
          | none => some (.ok left, w.putBack)
          | some op => do
              let (outcome, w) ← p.operand.walk calls w
              match outcome.bind (op.apply left) with
              | .error fault => some (.error fault, w)
              | .ok value => p.walkLinks calls value w

/-- Walk through a phrase one level further in, unless that is too deep. -/
def Level.walkInside : (calls : Nat) → Level → Walk → Option (Except Fault Int64 × Walk)
  | 0, _, _ => none
  | calls + 1, l, w =>
      if w.depth < maxNesting then do
        let (outcome, w) ← l.walk calls w.enter
        some (outcome, w.leave)
      else some (.error .expression, w)

end

/-! ## Steps back -/

/-- Every step back, in a record with the latest move first, comes right after a step that took a
token. -/
def PutsBackTaken (moves : List Move) : Prop :=
  ∀ later earlier, moves = later ++ .putBack :: earlier →
    ∃ t before, earlier = .get (some t) :: before

namespace PutsBackTaken

theorem nil : PutsBackTaken [] := by
  intro later earlier h
  simp at h

theorem get (found : Option Token) : PutsBackTaken [.get found] := by
  intro later earlier h
  cases later <;> simp at h

theorem putBack (t : Token) : PutsBackTaken [.putBack, .get (some t)] := by
  intro later earlier h
  cases later with
  | nil => exact ⟨t, [], (List.cons.inj h).2.symm⟩
  | cons m later =>
      -- the step back is the latest move, and the only one
      have h' := (List.cons.inj h).2
      cases later <;> simp at h'

theorem append {later earlier : List Move} (hl : PutsBackTaken later)
    (he : PutsBackTaken earlier) : PutsBackTaken (later ++ earlier) := by
  intro front back h
  rcases List.append_eq_append_iff.mp h with ⟨mid, -, hmid⟩ | ⟨mid, hmid, hback⟩
  · exact he mid back hmid
  · cases mid with
    | nil => exact he [] back (by simpa using hback.symm)
    | cons m mid =>
        obtain ⟨rfl, rfl⟩ := List.cons.inj hback
        obtain ⟨t, before, rfl⟩ := hl front mid hmid
        exact ⟨t, before ++ earlier, rfl⟩

end PutsBackTaken

/-! ## What a walk keeps -/

namespace Walk

variable {w w' w'' : Walk} {t : Token} {tokens mid rest : List Token}

/-- Where a walk has come: the list and the depth are as they were, `rest` lies ahead, and the steps
back on the way have undone steps of that way. -/
structure Reaches (w : Walk) (rest : List Token) (w' : Walk) : Prop where
  items : w'.cursor.items = w.cursor.items
  ahead : w'.cursor.ahead = rest
  depth : w'.depth = w.depth
  moves : ∃ made, w'.moves = made ++ w.moves ∧ PutsBackTaken made

theorem Reaches.trans (h : w.Reaches mid w') (h' : w'.Reaches rest w'') : w.Reaches rest w'' where
  items := h'.items.trans h.items
  ahead := h'.ahead
  depth := h'.depth.trans h.depth
  moves := by
    obtain ⟨made, hm, hb⟩ := h.moves
    obtain ⟨made', hm', hb'⟩ := h'.moves
    exact ⟨made' ++ made, by rw [hm', hm, List.append_assoc], hb'.append hb⟩

/-- Entering and leaving cancel. -/
theorem Reaches.inside (h : w.enter.Reaches rest w') : w.Reaches rest w'.leave where
  items := h.items
  ahead := h.ahead
  depth := by
    have hd : w'.depth = w.depth + 1 := h.depth
    simp [leave, hd]
  moves := h.moves

/-- A walk that has less ahead of it is further on. -/
theorem Reaches.position_le (h : w.Reaches rest w') (hrest : rest <:+ w.cursor.ahead) :
    w.cursor.position ≤ w'.cursor.position := by
  have hlength : w'.cursor.position + rest.length = w.cursor.items.length := by
    rw [← h.ahead, ← h.items]
    exact w'.cursor.position_add_length
  have hlength' := w.cursor.position_add_length
  have hle := hrest.length_le
  omega

/-- At the end a walk finds nothing, and stays. -/
theorem get_of_nil (h : w.cursor.ahead = []) :
    ∃ w', w.get = (none, w') ∧ w.Reaches [] w' := by
  obtain ⟨⟨taken, ahead⟩, depth, moves⟩ := w
  obtain rfl : ahead = [] := h
  exact ⟨_, rfl, rfl, rfl, rfl, [.get none], rfl, .get none⟩

/-- In front of a token it takes the token, and comes back by putting it back. -/
theorem get_of_cons (h : w.cursor.ahead = t :: rest) :
    ∃ w', w.get = (some t, w') ∧ w.Reaches rest w' ∧ w.Reaches (t :: rest) w'.putBack := by
  have htake : w.cursor.get.1 = some t := by rw [Cursor.get, h]
  have hmore : w.cursor.isExhausted = false := by rw [Cursor.isExhausted, h]; rfl
  have hget : w.get = (some t, ⟨w.cursor.get.2, w.depth, .get (some t) :: w.moves⟩) := by
    rw [get, htake]
  refine ⟨_, hget, ⟨w.cursor.items_get, ?_, rfl, [.get (some t)], rfl, .get _⟩, ⟨?_, ?_, rfl,
    [.putBack, .get (some t)], rfl, .putBack t⟩⟩
  · show w.cursor.get.2.ahead = rest
    rw [Cursor.get, h]
  · show w.cursor.get.2.putBack.items = w.cursor.items
    rw [Cursor.putBack_get hmore]
  · show w.cursor.get.2.putBack.ahead = t :: rest
    rw [Cursor.putBack_get hmore, h]

/-! ## Where a walk ends -/

/-- The walk ends with the outcome of this reading, and where the reading stopped. If it has no
result, something was missing that would have been enough. -/
def Ends (w : Walk) (r : Reading) (enough : Prop) :
    Option (Except Fault Int64 × Walk) → Prop
  | none => ¬ enough
  | some (outcome, w') => outcome = r.outcome ∧ w.Reaches r.rest w'

variable {r r' : Reading} {enough enough' : Prop} {result : Option (Except Fault Int64 × Walk)}

theorem Ends.intro {outcome : Except Fault Int64} (h : w.Reaches rest w') :
    w.Ends ⟨outcome, rest⟩ enough (some (outcome, w')) := ⟨rfl, h⟩

/-- What goes on from where a walk has come ends where the walk as a whole does. -/
theorem Ends.of_reaches (h : w.Reaches mid w') (he : w'.Ends r enough result) :
    w.Ends r enough result := by
  cases result with
  | none => exact he
  | some x => exact ⟨he.1, h.trans he.2⟩

theorem Ends.imp (h : w.Ends r enough result) (henough : enough' → enough) :
    w.Ends r enough' result := by
  cases result with
  | none => exact fun h' => h (henough h')
  | some x => exact h

/-- A walk in two parts: the second goes on from wherever the first has ended. -/
theorem Ends.bind {next : Except Fault Int64 × Walk → Option (Except Fault Int64 × Walk)}
    (h : w.Ends r enough result) (henough : enough' → enough)
    (hnext : ∀ w', w.Reaches r.rest w' → w.Ends r' enough' (next (r.outcome, w'))) :
    w.Ends r' enough' (result >>= next) := by
  cases result with
  | none => exact fun h' => h (henough h')
  | some x =>
      obtain ⟨outcome, w'⟩ := x
      obtain ⟨rfl, hreach⟩ := h
      exact hnext w' hreach

/-- A walk further in, on the way out. -/
theorem Ends.inside (h : w.enter.Ends r enough result) :
    w.Ends r enough (result >>= fun x => some (x.1, x.2.leave)) := by
  cases result with
  | none => exact h
  | some x => exact ⟨h.1, h.2.inside⟩

/-- How many levels a phrase may take here, its own among them. -/
def levels (w : Walk) : Nat := maxNesting - w.depth + 1

theorem Reaches.levels_eq (h : w.Reaches rest w') : w'.levels = w.levels := by
  rw [levels, levels, h.depth]

end Walk

open Walk

/-! ## Walks against productions -/

/-- How many calls a phrase takes beside those for the tokens ahead: its own, and those of the
levels below it. -/
def Level.height : Level → Nat
  | primary => 1
  | chain .multiplicative => 2
  | chain .additive => 3

theorem Precedence.height_operand (p : Precedence) :
    p.operand.height + 1 = (Level.chain p).height := by
  cases p <;> rfl

theorem Level.height_pos (l : Level) : 0 < l.height := by
  cases l with
  | primary => decide
  | chain p => cases p <;> decide

theorem Level.height_le (l : Level) : l.height ≤ 3 := by
  cases l with
  | primary => decide
  | chain p => cases p <;> decide

/-- Walks with this many calls read what productions read. Each phrase has its own measure of what
is enough; what they share is four calls for each token ahead. -/
structure WalksRead (calls : Nat) : Prop where
  phrase : ∀ (l : Level) (w : Walk), w.Ends ((l.production w.levels).read w.cursor.ahead)
    (4 * w.cursor.ahead.length + l.height ≤ calls) (l.walk calls w)
  links : ∀ (p : Precedence) (left : Int64) (w : Walk),
    w.Ends (Production.follow (p.operand.production w.levels) p.operator? left w.cursor.ahead)
      (4 * w.cursor.ahead.length + 1 ≤ calls) (p.walkLinks calls left w)
  inside : ∀ (l : Level) (w : Walk), w.Ends ((l.production (w.levels - 1)).read w.cursor.ahead)
    (4 * w.cursor.ahead.length + 4 ≤ calls) (l.walkInside calls w)

variable {calls : Nat} {w w' : Walk} {rest : List Token}

namespace WalksRead

/-! A part of a walk is walked from where the walk has come, and counts as a part of the whole. -/

theorem phrase_from (h : WalksRead calls) (l : Level) (hreach : w.Reaches rest w') :
    w.Ends ((l.production w.levels).read rest) (4 * rest.length + l.height ≤ calls)
      (l.walk calls w') := by
  have hp := h.phrase l w'
  rw [hreach.levels_eq, hreach.ahead] at hp
  exact .of_reaches hreach hp

theorem links_from (h : WalksRead calls) (p : Precedence) (left : Int64)
    (hreach : w.Reaches rest w') :
    w.Ends (Production.follow (p.operand.production w.levels) p.operator? left rest)
      (4 * rest.length + 1 ≤ calls) (p.walkLinks calls left w') := by
  have hl := h.links p left w'
  rw [hreach.levels_eq, hreach.ahead] at hl
  exact .of_reaches hreach hl

theorem inside_from (h : WalksRead calls) (l : Level) (hreach : w.Reaches rest w') :
    w.Ends ((l.production (w.levels - 1)).read rest) (4 * rest.length + 4 ≤ calls)
      (l.walkInside calls w') := by
  have hi := h.inside l w'
  rw [hreach.levels_eq, hreach.ahead] at hi
  exact .of_reaches hreach hi

end WalksRead

/-- Closing a group takes one more token, if there is one, whatever it is. -/
theorem closeGroup_ends {enough : Prop} {r : Reading} (hreach : w.Reaches r.rest w') :
    w.Ends (Production.closeGroup r) enough
      (match r.outcome with
        | .error fault => some (.error fault, w')
        | .ok value =>
            match w'.get with
            | (some ⟨.rightParen, _⟩, w'') => some (.ok value, w'')
            | (_, w'') => some (.error .expression, w'')) := by
  obtain ⟨outcome, rest⟩ := r
  cases outcome with
  | error fault => exact .intro hreach
  | ok value =>
      cases rest with
      | nil =>
          obtain ⟨w'', hget, hreach'⟩ := get_of_nil hreach.ahead
          rw [hget]
          exact .intro (hreach.trans hreach')
      | cons t rest =>
          obtain ⟨w'', hget, hreach', -⟩ := get_of_cons hreach.ahead
          rw [hget]
          obtain ⟨kind, lexeme⟩ := t
          cases kind <;> exact .intro (hreach.trans hreach')

/-- An operand is read alike if its inside is. -/
theorem primary_ends (h : WalksRead calls) (w : Walk) :
    w.Ends ((Level.primary.production w.levels).read w.cursor.ahead)
      (4 * w.cursor.ahead.length + 1 ≤ calls + 1) (Level.primary.walk (calls + 1) w) := by
  rw [Level.walk]
  show w.Ends (Production.readOperand (Production.primary (w.levels - 1)) w.cursor.ahead) _ _
  cases hahead : w.cursor.ahead with
  | nil =>
      obtain ⟨w', hget, hreach⟩ := get_of_nil hahead
      rw [hget]
      exact .intro hreach
  | cons t tokens =>
      obtain ⟨w', hget, hreach, -⟩ := get_of_cons hahead
      -- the inside has one token less ahead of it, which pays for four calls
      have henough : 4 * (t :: tokens).length + 1 ≤ calls + 1 → 4 * tokens.length + 4 ≤ calls := by
        rw [List.length_cons]
        omega
      rw [hget, Production.readOperand]
      dsimp only
      cases hk : t.kind with
      | number value => exact .intro hreach
      | leftParen =>
          exact .bind (h.inside_from .expression hreach) henough fun w'' => closeGroup_ends
      | minus => exact .bind (h.inside_from .primary hreach) henough fun w'' => .intro
      | plus => exact (h.inside_from .primary hreach).imp henough
      | identifier | star | slash | percent | rightParen | equal => exact .intro hreach

/-- A chain is read alike if its operands and links are. -/
theorem chain_ends (h : WalksRead calls) (p : Precedence) (w : Walk) :
    w.Ends (((Level.chain p).production w.levels).read w.cursor.ahead)
      (4 * w.cursor.ahead.length + (Level.chain p).height ≤ calls + 1)
      ((Level.chain p).walk (calls + 1) w) := by
  rw [Level.production_chain, Level.walk, ← p.height_operand]
  refine .bind (h.phrase p.operand w) (by omega) fun w' hreach => ?_
  simp only [Production.chain, Production.readChain]
  cases ((p.operand.production w.levels).read w.cursor.ahead).outcome with
  | error fault => exact .intro hreach
  | ok left =>
      refine (h.links_from p left hreach).imp fun henough => ?_
      have hle := ((p.operand.production w.levels).rest_suffix w.cursor.ahead).length_le
      have hpos := p.operand.height_pos
      omega

/-- Links are read alike if operands are, and further links. -/
theorem links_end (h : WalksRead calls) (p : Precedence) (left : Int64) (w : Walk) :
    w.Ends (Production.follow (p.operand.production w.levels) p.operator? left w.cursor.ahead)
      (4 * w.cursor.ahead.length + 1 ≤ calls + 1) (p.walkLinks (calls + 1) left w) := by
  rw [Precedence.walkLinks]
  cases hahead : w.cursor.ahead with
  | nil =>
      obtain ⟨w', hget, hreach⟩ := get_of_nil hahead
      rw [hget, Production.follow]
      exact .intro hreach
  | cons t tokens =>
      obtain ⟨w', hget, hreach, hback⟩ := get_of_cons hahead
      rw [hget, Production.follow]
      dsimp only
      cases p.operator? t.kind with
      | none => exact .intro hback
      | some op =>
          refine .bind (h.phrase_from p.operand hreach) (fun henough => ?_) fun w'' hreach' => ?_
          · have hheight := p.operand.height_le
            rw [List.length_cons] at henough
            omega
          · dsimp only
            cases ((p.operand.production w.levels).read tokens).outcome.bind (op.apply left) with
            | error fault => exact .intro hreach'
            | ok value =>
                refine (h.links_from p value hreach').imp fun henough => ?_
                have hle := ((p.operand.production w.levels).rest_suffix tokens).length_le
                rw [List.length_cons] at henough
                omega

/-- Without levels nothing is read. -/
theorem Level.production_zero (l : Level) (tokens : List Token) :
    (l.production 0).read tokens = ⟨.error .expression, tokens⟩ := by
  cases l with
  | primary => rfl
  | chain p => cases p <;> rfl

/-- One level further in, a phrase is read with one level less. -/
theorem inside_ends (h : WalksRead calls) (l : Level) (w : Walk) :
    w.Ends ((l.production (w.levels - 1)).read w.cursor.ahead)
      (4 * w.cursor.ahead.length + 4 ≤ calls + 1) (l.walkInside (calls + 1) w) := by
  rw [Level.walkInside, levels, Nat.add_sub_cancel]
  by_cases hdepth : w.depth < maxNesting
  · rw [if_pos hdepth]
    have hlevels : w.enter.levels = maxNesting - w.depth := by
      show maxNesting - (w.depth + 1) + 1 = maxNesting - w.depth
      omega
    have hp := h.phrase l w.enter
    rw [hlevels] at hp
    refine hp.inside.imp fun henough => ?_
    have hheight := l.height_le
    show 4 * w.cursor.ahead.length + l.height ≤ calls
    omega
  · rw [if_neg hdepth, Nat.sub_eq_zero_of_le (Nat.not_lt.mp hdepth), l.production_zero]
    exact .intro ⟨rfl, rfl, rfl, [], rfl, .nil⟩

/-- **Walks read what productions read**, with any number of calls. -/
theorem walks_read (calls : Nat) : WalksRead calls := by
  -- a call hands on one call less than it has
  induction calls with
  | zero =>
      refine ⟨fun l w => ?_, fun p left w => ?_, fun l w => ?_⟩
      · have hpos := l.height_pos
        rw [Level.walk]
        exact fun h => by omega
      · rw [Precedence.walkLinks]
        exact fun h => by omega
      · rw [Level.walkInside]
        exact fun h => by omega
  | succ calls ih =>
      refine ⟨fun l w => ?_, links_end ih, inside_ends ih⟩
      cases l with
      | primary => exact primary_ends ih w
      | chain p => exact chain_ends ih p w

namespace Level

variable {l : Level}

/-- A walk that has a result has that of the production. -/
theorem walk_reads {outcome : Except Fault Int64} (h : l.walk calls w = some (outcome, w')) :
    outcome = ((l.production w.levels).read w.cursor.ahead).outcome ∧
      w.Reaches ((l.production w.levels).read w.cursor.ahead).rest w' := by
  have hends := (walks_read calls).phrase l w
  rwa [h] at hends

/-- With enough calls it has one. -/
theorem exists_walk (l : Level) (h : 4 * (w.cursor.ahead.length + 1) ≤ calls) :
    ∃ outcome w', l.walk calls w = some (outcome, w') := by
  have hends := (walks_read calls).phrase l w
  cases hwalk : l.walk calls w with
  | none =>
      rw [hwalk] at hends
      have hheight := l.height_le
      exact absurd (by omega) hends
  | some x => exact ⟨x.1, x.2, rfl⟩

end Level

/-- So evaluation is a walk through an expression, which has to be the whole list. -/
theorem evaluate_eq_walk {tokens : List Token} (h : 4 * (tokens.length + 1) ≤ calls) :
    ∃ outcome w, Level.expression.walk calls (.start tokens 0 0) = some (outcome, w) ∧
      evaluate tokens =
        outcome.bind fun v => if w.cursor.isExhausted then .ok v else .error .expression := by
  obtain ⟨outcome, w, hwalk⟩ := Level.expression.exists_walk (w := .start tokens 0 0) h
  obtain ⟨houtcome, hreach⟩ := Level.walk_reads hwalk
  change outcome = (readWhole tokens).outcome at houtcome
  have hrest : w.cursor.ahead = (readWhole tokens).rest := hreach.ahead
  refine ⟨outcome, w, hwalk, ?_⟩
  rw [houtcome, Cursor.isExhausted, hrest, evaluate, ← readWhole]
  obtain ⟨outcome, rest⟩ := readWhole tokens
  cases outcome with
  | error fault => rfl
  | ok value => cases rest <;> rfl

end LineCalc
