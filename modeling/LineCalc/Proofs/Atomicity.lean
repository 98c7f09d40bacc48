import LineCalc.Proofs.Runs
import LineCalc.Proofs.Substitution

/-!
# A line has its effect entirely or not at all

The only way for the variables to change is an assignment that succeeds, and then one
name changes. `Atomic` says so of the tokens of a line: a fault leaves the variables as
they were, an expression or a lookup too, and an assignment is a name, an `=` and an
expression that had its value before the name was written.

Everything above the statement keeps this. A line whose text is refused has no tokens and
changes nothing; showing or holding back a value has no say in the variables. Hence a line
that assigns nothing can be repeated at will.
-/

namespace LineCalc

/-- The tokens are an assignment of the value `v`. What follows the `=` has this value with the
variables as they were, and afterwards the assigned name has it too and no other name differs. -/
def Assigns (b : Bindings) (tokens : List Token) (v : Int64) (after : Bindings) : Prop :=
  ∃ (name : String) (sign : Token) (rhs : List Token),
    tokens = ⟨.identifier, name⟩ :: sign :: rhs ∧ sign.kind = .equal ∧
    rhs ≠ [] ∧ (∀ t ∈ rhs, t.kind ≠ .equal) ∧
    name.toList ≠ [] ∧ (∀ c ∈ name.toList, c.isAlpha = true) ∧
    evaluate (rhs.map (Token.valued b)) = .ok v ∧
    after.get? name = some v ∧ ∀ other, other ≠ name → after.get? other = b.get? other

/-- What may have become of some tokens and of the variables. -/
structure Atomic (b : Bindings) (tokens : List Token) (outcome : Except Fault Evaluation)
    (after : Bindings) : Prop where
  /-- A fault changes nothing. -/
  fault : ∀ f, outcome = .error f → after = b
  /-- Nor does a value that is not assigned. -/
  value : ∀ e, outcome = .ok e → e.statement ≠ .assignment → after = b
  assignment : ∀ v, outcome = .ok ⟨.assignment, v⟩ → Assigns b tokens v after

/-- What may have become of a line: the same for its tokens, and nothing if it has none. -/
def AtomicLine (b : Bindings) (line : String) (outcome : Except Fault Evaluation)
    (after : Bindings) : Prop :=
  match Line.tokens line with
  | .ok tokens => Atomic b tokens outcome after
  | .error f => outcome = .error f ∧ after = b

theorem assigns_of_assigned {b : Bindings} {tokens : List Token} {name : String} {v : Int64}
    (h : Statement.assigned b tokens = .ok (name, v)) :
    Assigns b tokens v (b.define name v) := by
  obtain ⟨sign, rhs, htokens, hname, hsign, hrhs, hv⟩ := Statement.assigned_eq_ok_iff.mp h
  obtain ⟨hne, hletters⟩ := isVariableName_iff.mp hname
  obtain ⟨-, hval⟩ := Statement.valueOf_eq_ok_iff.mp hv
  refine ⟨name, sign, rhs, htokens, hsign, hrhs, ?_, hne, hletters, hval, ?_, ?_⟩
  · exact Statement.kind_ne_equal_of_evaluate_valued hval
  · rw [Bindings.get?_define, if_pos rfl]
  · intro other ho
    rw [Bindings.get?_define, if_neg (Ne.symm ho)]

theorem atomic_run (b : Bindings) (tokens : List Token) :
    Atomic b tokens (Statement.run b tokens).1 (Statement.run b tokens).2 := by
  rcases Statement.run_cases b tokens with ⟨f, h⟩ | ⟨v, h, hs, -⟩ | ⟨name, v, h, ha⟩
  · rw [h]
    exact ⟨fun _ _ => rfl, fun _ _ _ => rfl, fun v hv => by cases hv⟩
  · rw [h]
    refine ⟨fun _ _ => rfl, fun _ _ _ => rfl, fun w hw => ?_⟩
    exact absurd (congrArg Evaluation.statement (Except.ok.inj hw)) hs
  · rw [h]
    refine ⟨fun f hf => (by cases hf), fun e he hs => ?_, fun w hw => ?_⟩
    · cases he
      exact absurd rfl hs
    · cases hw
      exact assigns_of_assigned ha

theorem atomicLine_evaluate (b : Bindings) (line : String) :
    AtomicLine b line (Line.evaluate b line).1 (Line.evaluate b line).2 := by
  unfold AtomicLine Line.evaluate
  cases Line.tokens line with
  | ok tokens => exact atomic_run b tokens
  | error f => exact ⟨rfl, rfl⟩

/-- A line changes the variables only if it is an assignment that succeeds. -/
theorem AtomicLine.unchanged {b after : Bindings} {line : String}
    {outcome : Except Fault Evaluation} (h : AtomicLine b line outcome after)
    (hn : ∀ v, outcome ≠ .ok ⟨.assignment, v⟩) : after = b := by
  unfold AtomicLine at h
  split at h
  · cases outcome with
    | error f => exact h.fault f rfl
    | ok e =>
        obtain ⟨form, v⟩ := e
        exact h.value ⟨form, v⟩ rfl fun hform => hn v (by rw [show form = .assignment from hform])
  · exact h.2

/-! ## The theorem -/

/--
**Statements are atomic.** For all variables:

1. whatever the tokens, running them is atomic;
2. so is evaluating a line, which changes nothing if its text is refused, and processing a line or
   giving it to a calculator does the same: the answer is the outcome, with or without the values
   of assignments;
3. a line that is no successful assignment may be repeated any number of times: every outcome and
   every answer is that of the first time, and the variables stay as they are.
-/
theorem statements_are_atomic (b : Bindings) :
    (∀ tokens, Atomic b tokens (Statement.run b tokens).1 (Statement.run b tokens).2) ∧
    (∀ line, AtomicLine b line (Line.evaluate b line).1 (Line.evaluate b line).2 ∧
      Line.process b line
        = ((Line.evaluate b line).1.map (Evaluation.shown false), (Line.evaluate b line).2) ∧
      ∀ echo, (⟨b, echo⟩ : Calculator).answer line
        = ((Line.evaluate b line).1.map (Evaluation.shown echo),
          ⟨(Line.evaluate b line).2, echo⟩)) ∧
    (∀ line, (∀ v, (Line.evaluate b line).1 ≠ .ok ⟨.assignment, v⟩) → ∀ n,
      Line.evaluateAll b (List.replicate n line)
        = (List.replicate n (Line.evaluate b line).1, b) ∧
      ∀ echo, (⟨b, echo⟩ : Calculator).answers (List.replicate n line)
        = (List.replicate n ((⟨b, echo⟩ : Calculator).answer line).1, ⟨b, echo⟩)) := by
  refine ⟨atomic_run b, fun line => ⟨atomicLine_evaluate b line, rfl, fun _ => rfl⟩, ?_⟩
  intro line hn n
  -- every repetition starts from the variables of the first
  have hb := (atomicLine_evaluate b line).unchanged hn
  have hall := Line.evaluateAll_replicate hb n
  refine ⟨hall, fun echo => ?_⟩
  rw [Calculator.answers_eq]
  simp only [hall, List.map_replicate]
  rfl

end LineCalc
