import LineCalc.Proofs.Lockstep
import LineCalc.Proofs.Renaming
import LineCalc.Proofs.Runs
import LineCalc.Proofs.Substitution

/-!
# Sessions under other names

What a variable is called is of no consequence. If all lines of a session are renamed, every
answer is the one that it was, and the variables afterwards are the renamed variables.

A statement uses a name in two ways only, to find a value and to write one, and both go by
equality of names, which a renaming keeps. Behind that, names are gone: the tokens that are
evaluated have different texts, but the same kinds (`evaluate_of_kinds`).
-/

namespace LineCalc

/-- The second bindings are the first with every name replaced, and nothing more. -/
structure Renames (r : Renaming) (b b' : Bindings) : Prop where
  letters : ∀ n v, b.get? n = some v → isVariableName n = true
  get?_eq_some_iff : ∀ n v, b'.get? n = some v ↔ ∃ m, b.get? m = some v ∧ r.name m = n

namespace Renames

variable {r : Renaming} {b b' : Bindings}

theorem empty : Renames r ∅ ∅ where
  letters := by simp
  get?_eq_some_iff := by simp

/-- A variable has its value under its new name. -/
theorem get?_name (h : Renames r b b') {n : String} (hn : isVariableName n = true) :
    b'.get? (r.name n) = b.get? n := by
  refine Option.ext fun v => ?_
  rw [h.get?_eq_some_iff]
  constructor
  · rintro ⟨m, hm, hname⟩
    obtain rfl : m = n := r.injective m n (h.letters m v hm) hn hname
    exact hm
  · intro hv
    exact ⟨n, hv, rfl⟩

theorem define (h : Renames r b b') {n : String} (hn : isVariableName n = true) (v : Int64) :
    Renames r (b.define n v) (b'.define (r.name n) v) where
  letters := by
    intro m w hm
    rw [Bindings.get?_define] at hm
    by_cases hmn : n = m
    · rwa [← hmn]
    · rw [if_neg hmn] at hm
      exact h.letters m w hm
  get?_eq_some_iff := by
    intro other w
    rw [Bindings.get?_define]
    by_cases hother : r.name n = other
    · subst hother
      rw [if_pos rfl]
      constructor
      · intro hw
        exact ⟨n, by rw [Bindings.get?_define, if_pos rfl, hw], rfl⟩
      · rintro ⟨m, hm, hname⟩
        rw [Bindings.get?_define] at hm
        by_cases hmn : n = m
        · rwa [if_pos hmn] at hm
        · rw [if_neg hmn] at hm
          exact absurd (r.injective m n (h.letters m w hm) hn hname).symm hmn
    · rw [if_neg hother, h.get?_eq_some_iff]
      refine exists_congr fun m => and_congr_left fun hname => ?_
      have hmn : n ≠ m := by
        rintro rfl
        exact hother hname
      rw [Bindings.get?_define, if_neg hmn]

/-! ## Statements -/

/-- A renamed line has the form that the line has. -/
theorem ofTokens_eq (r : Renaming) (ts : List Token) :
    Statement.ofTokens (ts.map r.token) = Statement.ofTokens ts := by
  unfold Statement.ofTokens
  rw [List.any_map]
  simp only [Function.comp_def, Renaming.kind_token]
  split
  · rfl
  · rcases ts with _ | ⟨⟨kind, lexeme⟩, _ | ⟨u, ts⟩⟩
    · rfl
    · cases kind <;> rfl
    · cases kind <;> rfl

section

variable (h : Renames r b b')
include h

theorem kind_resolve (misspelt : Fault) (t : Token) :
    (Statement.resolve b' misspelt (r.token t)).map Token.kind
      = (Statement.resolve b misspelt t).map Token.kind := by
  unfold Statement.resolve
  rw [Renaming.name?_token]
  cases ht : t.name? with
  | none => exact congrArg Except.ok (Renaming.kind_token t)
  | some n =>
      simp only [Option.map_some, Renaming.isVariableName_word]
      by_cases hn : isVariableName n = true
      · rw [if_pos hn, if_pos hn, Renaming.word_of_letters hn, Bindings.get, Bindings.get,
          h.get?_name hn]
        cases b.get? n <;> rfl
      · rw [if_neg hn, if_neg hn]

theorem kinds_resolve (misspelt : Fault) (ts : List Token) :
    ((ts.map r.token).mapM (Statement.resolve b' misspelt)).map (List.map Token.kind)
      = (ts.mapM (Statement.resolve b misspelt)).map (List.map Token.kind) := by
  calc ((ts.map r.token).mapM (Statement.resolve b' misspelt)).map (List.map Token.kind)
      = ts.mapM fun t => (Statement.resolve b' misspelt (r.token t)).map Token.kind := by
        rw [Fault.map_mapM, List.mapM_map]
        rfl
    _ = ts.mapM fun t => (Statement.resolve b misspelt t).map Token.kind := by
        simp only [h.kind_resolve]
    _ = (ts.mapM (Statement.resolve b misspelt)).map (List.map Token.kind) :=
        (Fault.map_mapM ts).symm

/-- The value of a renamed expression. -/
theorem valueOf_eq (misspelt : Fault) (ts : List Token) :
    Statement.valueOf b' misspelt (ts.map r.token) = Statement.valueOf b misspelt ts := by
  have hkinds := h.kinds_resolve misspelt ts
  unfold Statement.valueOf
  generalize (ts.map r.token).mapM (Statement.resolve b' misspelt) = renamed at hkinds ⊢
  generalize ts.mapM (Statement.resolve b misspelt) = resolved at hkinds ⊢
  rcases renamed with f | us' <;> rcases resolved with g | us
  · cases hkinds
    rfl
  · cases hkinds
  · cases hkinds
  · exact evaluate_of_kinds (Except.ok.inj hkinds)

/-- A renamed assignment is to the renamed variable. -/
theorem assigned_eq (ts : List Token) :
    Statement.assigned b' (ts.map r.token)
      = (Statement.assigned b ts).map fun (n, v) => (r.name n, v) := by
  rcases ts with _ | ⟨target, tail⟩
  · rfl
  have htarget : (r.token target).name?.filter isVariableName
      = (target.name?.filter isVariableName).map r.name := by
    rw [Renaming.name?_token]
    rcases target.name? with _ | n
    · rfl
    · by_cases hn : isVariableName n = true
      · simp [Option.filter, hn, Renaming.word_of_letters hn, r.letters n hn]
      · simp [Option.filter, hn]
  unfold Statement.assigned
  simp only [List.map_cons, htarget]
  rcases target.name?.filter isVariableName with _ | n
  · rfl
  rcases tail with _ | ⟨sign, rhs⟩
  · rfl
  simp only [List.map_cons, Option.map_some, Renaming.kind_token, List.isEmpty_map, h.valueOf_eq]
  split
  · rfl
  · split
    · rfl
    · rcases Statement.valueOf b .assignment rhs with f | v
      · rfl
      · rfl

/-- **What a renamed statement does.** -/
theorem run (ts : List Token) :
    (Statement.run b' (ts.map r.token)).1 = (Statement.run b ts).1 ∧
      Renames r (Statement.run b ts).2 (Statement.run b' (ts.map r.token)).2 := by
  have hform : Statement.ofTokens (ts.map r.token) = Statement.ofTokens ts :=
    ofTokens_eq r ts
  by_cases hs : Statement.ofTokens ts = .assignment
  · rw [Statement.run_of_assignment hs, Statement.run_of_assignment (hform.trans hs),
      h.assigned_eq]
    cases ha : Statement.assigned b ts with
    | error f => exact ⟨rfl, h⟩
    | ok found =>
        obtain ⟨n, v⟩ := found
        obtain ⟨-, -, -, hn, -⟩ := Statement.assigned_eq_ok_iff.mp ha
        exact ⟨rfl, h.define hn v⟩
  · have hs' : Statement.ofTokens (ts.map r.token) ≠ .assignment := by rwa [hform]
    rw [Statement.run_of_ne_assignment hs, Statement.run_of_ne_assignment hs', hform,
      h.valueOf_eq]
    exact ⟨rfl, h⟩

/-! ## Lines -/

/-- **What a renamed line does.** -/
theorem evaluate (s : String) :
    (Line.evaluate b' (r.line s)).1 = (Line.evaluate b s).1 ∧
      Renames r (Line.evaluate b s).2 (Line.evaluate b' (r.line s)).2 := by
  unfold Line.evaluate
  rw [Renaming.tokens_line]
  rcases Line.tokens s with f | ts
  · exact ⟨rfl, h⟩
  · exact h.run ts

end

/-- Any number of renamed lines. -/
theorem evaluateAll (h : Renames r b b') (lines : List String) :
    (Line.evaluateAll b' (lines.map r.line)).1 = (Line.evaluateAll b lines).1 ∧
      Renames r (Line.evaluateAll b lines).2 (Line.evaluateAll b' (lines.map r.line)).2 := by
  induction lines generalizing b b' with
  | nil => exact ⟨rfl, h⟩
  | cons s lines ih =>
      obtain ⟨houtcome, hafter⟩ := h.evaluate s
      obtain ⟨houtcomes, hend⟩ := ih hafter
      refine ⟨?_, hend⟩
      rw [List.map_cons, Line.evaluateAll, Line.evaluateAll]
      simp only [houtcome, houtcomes]

end Renames

/-! ## The theorem -/

/--
**A session goes the same way under other names.**

For every renaming, all lines whatsoever and either print policy, a new calculator that is given
the renamed lines

1. gives the same answers, line by line, values and faults alike;
2. and has, after each line, the variables that one given the lines themselves has, every one
   under its new name and no others.
-/
theorem renamed_session (r : Renaming) (lines : List String) (echo : Bool) :
    ((Calculator.new echo).answers (lines.map r.line)).1
        = ((Calculator.new echo).answers lines).1 ∧
      ∀ n, Renames r ((Calculator.new echo).answers (lines.take n)).2.bindings
        ((Calculator.new echo).answers ((lines.map r.line).take n)).2.bindings := by
  have hempty : Renames r (Calculator.new echo).bindings (Calculator.new echo).bindings :=
    Renames.empty
  refine ⟨?_, fun n => ?_⟩
  · obtain ⟨houtcomes, -⟩ := hempty.evaluateAll lines
    rw [Calculator.answers_eq, Calculator.answers_eq, houtcomes]
  · obtain ⟨-, hafter⟩ := hempty.evaluateAll (lines.take n)
    rw [Calculator.answers_eq, Calculator.answers_eq, ← List.map_take]
    exact hafter

/-- Every name with the same letters in front. -/
def Renaming.behind (front : String) (h : isVariableName front = true) : Renaming where
  name n := front ++ n
  letters := by
    intro n hn
    obtain ⟨hne, hletters⟩ := isVariableName_iff.mp hn
    refine isVariableName_iff.mpr ⟨?_, ?_⟩
    · rw [String.toList_append]
      exact List.append_ne_nil_of_right_ne_nil _ hne
    · rw [String.toList_append]
      exact List.forall_mem_append.mpr ⟨(isVariableName_iff.mp h).2, hletters⟩
  injective := by
    intro m n _ _ hmn
    have hlists := congrArg String.toList hmn
    rw [String.toList_append, String.toList_append] at hlists
    exact String.toList_inj.mp (List.append_cancel_left hlists)

/-- Names that are three letters longer. -/
def Renaming.net : Renaming := behind "net" (by decide +kernel)

/-- `z1` is no name, so it stays and is refused as it was. -/
theorem difference_under_longer_names :
    ((Calculator.new false).answers
      ["netx = 5", "nety = netx - 7", "z1 = nety", "netx * nety"]).1
      = [.ok none, .ok none, .error .identifier, .ok (some (-10))] := by
  have hlines : ["x = 5", "y = x - 7", "z1 = y", "x * y"].map Renaming.net.line
      = ["netx = 5", "nety = netx - 7", "z1 = nety", "netx * nety"] := by decide +kernel
  obtain ⟨hanswers, -⟩ := renamed_session Renaming.net ["x = 5", "y = x - 7", "z1 = y", "x * y"]
    false
  rw [← hlines, hanswers]
  decide +kernel

end LineCalc
