/-!
# Faults: why a line has no value

Reading a line goes wrong in one of five ways, and each has one message. A fault
belongs to its own line: the variables keep their values and the next line starts
afresh.
-/

namespace LineCalc

/-- Why a line has no value. -/
inductive Fault where
  /-- Several `=` in one line, nothing after the `=`, or a misspelt name after it. -/
  | assignment
  /-- A name that is not made of letters, where a variable is written or read. -/
  | identifier
  /-- Characters or tokens that make no expression, or one nested too deeply. -/
  | expression
  /-- A variable that nothing has been assigned to. -/
  | unknownVariable
  /-- A quotient or remainder by zero. -/
  | divisionByZero
  deriving DecidableEq, Repr

/-- What the user is told. -/
def Fault.message : Fault → String
  | .assignment => "Invalid assignment"
  | .identifier => "Invalid identifier"
  | .expression => "Invalid expression"
  | .unknownVariable => "Unknown variable"
  | .divisionByZero => "Division by zero"

/-- What is done one by one has no fault exactly if nothing that is done has one. -/
theorem Fault.mapM_eq_ok_iff {α β : Type} {f : α → Except Fault β} {xs : List α} {ys : List β} :
    xs.mapM f = .ok ys ↔ xs.map f = ys.map .ok := by
  induction xs generalizing ys with
  | nil => cases ys <;> simp [pure, Except.pure]
  | cons x xs ih =>
      rw [List.mapM_cons, List.map_cons]
      cases hx : f x with
      | error e => cases ys <;> simp [bind, Except.bind]
      | ok y =>
          cases hxs : xs.mapM f with
          | error e =>
              refine ⟨fun h => (by cases h), fun h => ?_⟩
              cases ys with
              | nil => cases h
              | cons z zs =>
                  rw [ih.mpr (List.cons.inj h).2] at hxs
                  cases hxs
          | ok zs =>
              rw [ih.mp hxs]
              refine ⟨fun h => ?_, fun h => ?_⟩
              · cases h
                rfl
              · obtain rfl : y :: zs = ys := (List.map_inj_right fun _ _ => Except.ok.inj).mp h
                rfl

/-- Where something has a fault and nothing before it has, what comes behind it does not matter. -/
theorem Fault.mapM_eq_error {α β : Type} {f : α → Except Fault β} {before after : List α} {x : α}
    {e : Fault} (hbefore : ∀ y ∈ before, ∃ z, f y = .ok z) (hx : f x = .error e) :
    (before ++ x :: after).mapM f = .error e := by
  induction before with
  | nil =>
      rw [List.nil_append, List.mapM_cons, hx]
      rfl
  | cons y before ih =>
      obtain ⟨⟨z, hz⟩, hbefore⟩ := List.forall_mem_cons.mp hbefore
      rw [List.cons_append, List.mapM_cons, hz, ih hbefore]
      rfl

/-- If there is a fault, something is the first to have it. -/
theorem Fault.exists_of_mapM_eq_error {α β : Type} {f : α → Except Fault β} {xs : List α}
    {e : Fault} (h : xs.mapM f = .error e) :
    ∃ before x after, xs = before ++ x :: after ∧ (∀ y ∈ before, ∃ z, f y = .ok z) ∧
      f x = .error e := by
  induction xs with
  | nil => cases h
  | cons x xs ih =>
      rw [List.mapM_cons] at h
      cases hx : f x with
      | error e' =>
          rw [hx] at h
          cases h
          exact ⟨[], x, xs, rfl, nofun, hx⟩
      | ok z =>
          cases hxs : xs.mapM f with
          | error e' =>
              rw [hx, hxs] at h
              cases h
              obtain ⟨before, y, after, rfl, hbefore, hy⟩ := ih hxs
              exact ⟨x :: before, y, after, rfl, List.forall_mem_cons.mpr ⟨⟨z, hx⟩, hbefore⟩, hy⟩
          | ok ys =>
              rw [hx, hxs] at h
              cases h

/-- A part of every result can be taken as each of them is made. -/
theorem Fault.map_mapM {α β γ : Type} {f : α → Except Fault β} {g : β → γ} (xs : List α) :
    (xs.mapM f).map (List.map g) = xs.mapM fun x => (f x).map g := by
  induction xs with
  | nil => rfl
  | cons x xs ih =>
      rw [List.mapM_cons, List.mapM_cons, ← ih]
      cases f x with
      | error e => rfl
      | ok y => cases xs.mapM f <;> rfl

end LineCalc
