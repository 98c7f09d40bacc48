import LineCalc.Proofs.Runs
import LineCalc.Proofs.Substitution
import Mathlib.Data.List.Basic

/-!
# A line depends on the names that it reads

Of all the variables a line looks at those whose names are among its tokens, and not even at
all of these: the name that it assigns to is written and not read, unless it stands behind the
`=` as well. Where two bindings agree on the names that a line reads, the line has the same
outcome and writes the same value, or nothing (`Statement.outcome_congr`).

`write?` is what makes this a statement about one line and not about two. The variables after
a line are the old ones with this one write, so two lines that neither read nor write what the
other one writes may change places.
-/

namespace LineCalc

/-- The bindings after a write, or without one. -/
def Bindings.write (b : Bindings) : Option (String × Int64) → Bindings
  | none => b
  | some (name, v) => b.define name v

theorem Bindings.get?_write_of_ne {b : Bindings} {w : Option (String × Int64)} {name : String}
    (h : ∀ v, w ≠ some (name, v)) : (b.write w).get? name = b.get? name := by
  rcases w with _ | ⟨other, v⟩
  · rfl
  · have hother : other ≠ name := by
      rintro rfl
      exact h v rfl
    rw [write, get?_define, if_neg hother]

/-- Writes to different names may change places. -/
theorem Bindings.write_comm {b : Bindings} {w w' : Option (String × Int64)}
    (h : ∀ name v v', w = some (name, v) → w' ≠ some (name, v')) :
    (b.write w).write w' = (b.write w').write w := by
  rcases w with _ | ⟨name, v⟩
  · rfl
  rcases w' with _ | ⟨name', v'⟩
  · rfl
  have hne : name ≠ name' := by
    rintro rfl
    exact h name v v' rfl rfl
  refine ext fun other => ?_
  simp only [write, get?_define]
  by_cases hother : name' = other
  · subst hother
    rw [if_pos rfl, if_neg hne, if_pos rfl]
  · rw [if_neg hother, if_neg hother]

/-- The names among some tokens, from left to right. -/
def namesIn (ts : List Token) : List String := ts.filterMap Token.name?

namespace Statement

/-- The name on the left of an assignment. -/
def target? (ts : List Token) : Option String :=
  if ofTokens ts = .assignment then ts.head?.bind Token.name? else none

/-- The tokens behind the first `=`. -/
def behindEqual (ts : List Token) : List Token := (ts.dropWhile fun t => !t.kind.isEqual).tail

/-- The name and the value of an assignment that succeeds. -/
def write? (b : Bindings) (ts : List Token) : Option (String × Int64) :=
  if ofTokens ts = .assignment then (assigned b ts).toOption else none

/-- The name is among the tokens, and not only as the one that is assigned to. -/
def Reads (ts : List Token) (name : String) : Prop :=
  name ∈ namesIn ts ∧ (target? ts = some name → name ∈ namesIn (behindEqual ts))

variable {b b' : Bindings} {misspelt : Fault} {ts : List Token}

theorem run_snd (b : Bindings) (ts : List Token) : (run b ts).2 = b.write (write? b ts) := by
  by_cases hform : ofTokens ts = .assignment
  · rw [run_of_assignment hform, write?, if_pos hform]
    rcases assigned b ts with f | ⟨name, v⟩
    · rfl
    · rfl
  · rw [run_of_ne_assignment hform, write?, if_neg hform]
    rfl

/-- What is written is the value of an assignment, to its target. -/
theorem write?_eq_some_iff {name : String} {v : Int64} :
    write? b ts = some (name, v) ↔
      (run b ts).1 = .ok ⟨.assignment, v⟩ ∧ target? ts = some name := by
  unfold write?
  by_cases hform : ofTokens ts = .assignment
  · rw [if_pos hform, run_of_assignment hform]
    cases ha : assigned b ts with
    | error f =>
        refine ⟨fun h => ?_, fun h => ?_⟩
        · cases h
        · cases h.1
    | ok found =>
        obtain ⟨target, value⟩ := found
        have htarget : target? ts = some target := by
          obtain ⟨sign, rhs, rfl, -⟩ := assigned_eq_ok_iff.mp ha
          rw [target?, if_pos hform]
          rfl
        rw [htarget]
        refine ⟨fun h => ?_, fun h => ?_⟩
        · cases h
          exact ⟨rfl, rfl⟩
        · obtain ⟨houtcome, hname⟩ := h
          cases houtcome
          cases hname
          rfl
  · rw [if_neg hform, target?, if_neg hform]
    refine ⟨fun h => ?_, fun h => ?_⟩
    · cases h
    · cases h.2

/-- The target is itself among the names. -/
theorem mem_namesIn_of_target? {name : String} (h : target? ts = some name) :
    name ∈ namesIn ts := by
  unfold target? at h
  by_cases hform : ofTokens ts = .assignment
  · rw [if_pos hform] at h
    obtain ⟨t, ht, hname⟩ := Option.bind_eq_some_iff.mp h
    exact List.mem_filterMap.mpr ⟨t, List.mem_of_mem_head? ht, hname⟩
  · rw [if_neg hform] at h
    cases h

/-! ## Agreement is enough -/

theorem resolve_congr {t : Token}
    (h : ∀ name, t.name? = some name → b.get? name = b'.get? name) :
    resolve b misspelt t = resolve b' misspelt t := by
  unfold resolve
  cases hname : t.name? with
  | none => rfl
  | some name =>
      simp only [Bindings.get, h name hname]

theorem valueOf_congr (h : ∀ name ∈ namesIn ts, b.get? name = b'.get? name) :
    valueOf b misspelt ts = valueOf b' misspelt ts := by
  have hresolve : ts.mapM (resolve b misspelt) = ts.mapM (resolve b' misspelt) := by
    induction ts with
    | nil => rfl
    | cons t ts ih =>
        have ht : resolve b misspelt t = resolve b' misspelt t :=
          resolve_congr fun name hname => h name (List.mem_filterMap.mpr ⟨t, by simp, hname⟩)
        have hts : ∀ name ∈ namesIn ts, b.get? name = b'.get? name := by
          intro name hname
          obtain ⟨u, hu, hun⟩ := List.mem_filterMap.mp hname
          exact h name (List.mem_filterMap.mpr ⟨u, List.mem_cons_of_mem t hu, hun⟩)
        rw [List.mapM_cons, List.mapM_cons, ht, ih hts]
  rw [valueOf, valueOf, hresolve]

/-- Nothing in front of the `=` is looked up. -/
theorem assigned_congr (h : ∀ name ∈ namesIn (behindEqual ts), b.get? name = b'.get? name) :
    assigned b ts = assigned b' ts := by
  unfold assigned
  rcases ts with _ | ⟨target, tail⟩
  · rfl
  dsimp only
  cases hname : target.name?.filter isVariableName with
  | none => rfl
  | some name =>
      rcases tail with _ | ⟨sign, rhs⟩
      · rfl
      by_cases hsign : sign.kind.isEqual = true
      · -- the first token is a name, so the second is the first `=`
        have htarget : target.kind.isEqual = false := by
          obtain ⟨ht, -⟩ := Option.filter_eq_some_iff.mp hname
          rw [(Token.name?_eq_some_iff.mp ht).1]
          rfl
        have hrhs : behindEqual (target :: sign :: rhs) = rhs := by
          simp [behindEqual, htarget, hsign]
        rw [hrhs] at h
        simp only [valueOf_congr h]
      · rw [Bool.not_eq_true] at hsign
        simp only [hsign, Bool.not_false, if_true]

/-- **Bindings that agree on what is read are the same to a statement.** -/
theorem outcome_congr (h : ∀ name, Reads ts name → b.get? name = b'.get? name) :
    (run b ts).1 = (run b' ts).1 ∧ write? b ts = write? b' ts := by
  unfold write?
  by_cases hform : ofTokens ts = .assignment
  · have hassigned : assigned b ts = assigned b' ts := by
      refine assigned_congr fun name hname => h name ⟨?_, fun _ => hname⟩
      obtain ⟨t, ht, htn⟩ := List.mem_filterMap.mp hname
      have hmem : t ∈ ts := (List.dropWhile_suffix _).subset (List.mem_of_mem_tail ht)
      exact List.mem_filterMap.mpr ⟨t, hmem, htn⟩
    rw [run_of_assignment hform, run_of_assignment hform, hassigned]
    refine ⟨?_, rfl⟩
    rcases assigned b' ts with f | ⟨name, v⟩
    · rfl
    · rfl
  · have hvalue : ∀ name ∈ namesIn ts, b.get? name = b'.get? name := by
      refine fun name hname => h name ⟨hname, fun htarget => ?_⟩
      rw [target?, if_neg hform] at htarget
      cases htarget
    rw [run_of_ne_assignment hform, run_of_ne_assignment hform, valueOf_congr hvalue,
      if_neg hform, if_neg hform]
    exact ⟨rfl, rfl⟩

end Statement

namespace Line

/-- The tokens of a line, where it has some. -/
def tokenList (line : String) : List Token := (tokens line).toOption.getD []

def names (line : String) : List String := namesIn (tokenList line)

/-- The name that a line assigns to, if it is an assignment. -/
def target? (line : String) : Option String := Statement.target? (tokenList line)

/-- The names that a line reads: those among its tokens, and the one that it assigns to only if it
stands behind the `=` as well. -/
def Reads (line name : String) : Prop := Statement.Reads (tokenList line) name

/-- What the line writes. -/
def write? (b : Bindings) (line : String) : Option (String × Int64) :=
  Statement.write? b (tokenList line)

variable {b b' : Bindings} {line : String}

theorem evaluate_snd (b : Bindings) (line : String) :
    (evaluate b line).2 = b.write (write? b line) := by
  unfold evaluate write? tokenList
  cases tokens line with
  | error f => rfl
  | ok ts => exact Statement.run_snd b ts

theorem write?_eq_some_iff {name : String} {v : Int64} :
    write? b line = some (name, v) ↔
      (evaluate b line).1 = .ok ⟨.assignment, v⟩ ∧ target? line = some name := by
  unfold evaluate write? target? tokenList
  cases tokens line with
  | error f =>
      refine ⟨fun h => ?_, fun h => ?_⟩
      · cases h
      · cases h.1
  | ok ts => exact Statement.write?_eq_some_iff

/-- Two such bindings are the same to a line as well: without tokens it has a fault of its own. -/
theorem outcome_congr (h : ∀ name, Reads line name → b.get? name = b'.get? name) :
    (evaluate b line).1 = (evaluate b' line).1 ∧ write? b line = write? b' line := by
  obtain ⟨hrun, hwrite⟩ := Statement.outcome_congr h
  refine ⟨?_, hwrite⟩
  unfold tokenList at hrun
  unfold evaluate
  cases htokens : tokens line with
  | error f => rfl
  | ok ts =>
      rw [htokens] at hrun
      exact hrun

/-- What a line assigns to is not among the names of the other one. -/
def Independent (line line' : String) : Prop :=
  (∀ name, target? line = some name → name ∉ names line') ∧
    ∀ name, target? line' = some name → name ∉ names line

theorem Independent.symm {line' : String} (h : Independent line line') :
    Independent line' line := ⟨h.2, h.1⟩

/-- To a line that is independent of it, a line might as well not have been there. -/
theorem Independent.outcome_eq {line' : String} (h : Independent line line') (b : Bindings) :
    (evaluate (evaluate b line').2 line).1 = (evaluate b line).1 ∧
      write? (evaluate b line').2 line = write? b line := by
  refine outcome_congr fun name hname => ?_
  rw [evaluate_snd]
  refine Bindings.get?_write_of_ne fun v hv => ?_
  exact h.2 name (write?_eq_some_iff.mp hv).2 hname.1

theorem Independent.write_ne {line' : String} (h : Independent line line') {name : String}
    {v v' : Int64} (hw : write? b line = some (name, v)) : write? b line' ≠ some (name, v') := by
  intro hw'
  have htarget := (write?_eq_some_iff.mp hw).2
  have htarget' := (write?_eq_some_iff.mp hw').2
  exact h.1 name htarget (Statement.mem_namesIn_of_target? htarget')

end Line

/-! ## The theorem -/

/--
**A line depends on the names that it reads.**

1. Whatever the line, any two bindings that agree on the names that it reads give it the same
   outcome, and it makes the same one write to both of them, or none: it writes the value of an
   assignment to the name on its left.
2. Whatever the bindings, two lines neither of which assigns to a name in the other may be entered
   in either order: each has the same outcome, and the variables are the same afterwards.
-/
theorem line_depends_on_names_read :
    (∀ (b b' : Bindings) (line : String),
      (∀ name, Line.Reads line name → b.get? name = b'.get? name) →
      ∃ outcome write, Line.evaluate b line = (outcome, b.write write) ∧
        Line.evaluate b' line = (outcome, b'.write write) ∧
        ∀ name v, write = some (name, v) ↔
          outcome = .ok ⟨.assignment, v⟩ ∧ Line.target? line = some name) ∧
    ∀ (b : Bindings) (line line' : String), Line.Independent line line' →
      ∃ outcome outcome' after,
        Line.evaluateAll b [line, line'] = ([outcome, outcome'], after) ∧
        Line.evaluateAll b [line', line] = ([outcome', outcome], after) := by
  refine ⟨fun b b' line h => ?_, fun b line line' h => ?_⟩
  · obtain ⟨houtcome, hwrite⟩ := Line.outcome_congr h
    refine ⟨(Line.evaluate b line).1, Line.write? b line, ?_, ?_, ?_⟩
    · rw [← Line.evaluate_snd]
    · rw [houtcome, hwrite, ← Line.evaluate_snd]
    · exact fun name v => Line.write?_eq_some_iff
  · obtain ⟨hfirst, hwrite⟩ := h.outcome_eq b
    obtain ⟨hsecond, hwrite'⟩ := h.symm.outcome_eq b
    have hafter : (Line.evaluate (Line.evaluate b line).2 line').2
        = (Line.evaluate (Line.evaluate b line').2 line).2 := by
      calc (Line.evaluate (Line.evaluate b line).2 line').2
          = (b.write (Line.write? b line)).write (Line.write? b line') := by
            rw [Line.evaluate_snd _ line', hwrite', Line.evaluate_snd]
        _ = (b.write (Line.write? b line')).write (Line.write? b line) :=
            Bindings.write_comm fun name v v' hw => h.write_ne hw
        _ = (Line.evaluate (Line.evaluate b line').2 line).2 := by
            rw [Line.evaluate_snd _ line, hwrite, Line.evaluate_snd]
    refine ⟨(Line.evaluate b line).1, (Line.evaluate b line').1,
      (Line.evaluate (Line.evaluate b line).2 line').2, ?_, ?_⟩
    · rw [← hsecond]
      rfl
    · rw [← hfirst, hafter]
      rfl

/-- Whether `x` has a value does not matter to a line that assigns to it; and that line and one that
counts `y` down may change places. -/
theorem product_before_or_after_difference :
    (Line.evaluate (Bindings.ofList [("a", 6), ("x", 1)]) "x = a * 2"
        = (.ok ⟨.assignment, 12⟩, (Bindings.ofList [("a", 6), ("x", 1)]).define "x" 12) ∧
      Line.evaluate (Bindings.ofList [("a", 6)]) "x = a * 2"
        = (.ok ⟨.assignment, 12⟩, (Bindings.ofList [("a", 6)]).define "x" 12)) ∧
    ∃ after, Line.evaluateAll (Bindings.ofList [("a", 6), ("y", 10)]) ["x = a * 2", "y = y - a"]
        = ([.ok ⟨.assignment, 12⟩, .ok ⟨.assignment, 4⟩], after) ∧
      Line.evaluateAll (Bindings.ofList [("a", 6), ("y", 10)]) ["y = y - a", "x = a * 2"]
        = ([.ok ⟨.assignment, 4⟩, .ok ⟨.assignment, 12⟩], after) := by
  have hnames : Line.names "x = a * 2" = ["x", "a"] := by decide +kernel
  have htarget : Line.target? "x = a * 2" = some "x" := by decide +kernel
  have hnames' : Line.names "y = y - a" = ["y", "y", "a"] := by decide +kernel
  have htarget' : Line.target? "y = y - a" = some "y" := by decide +kernel
  constructor
  · have hreads : ∀ name, Line.Reads "x = a * 2" name →
        (Bindings.ofList [("a", 6), ("x", 1)]).get? name
          = (Bindings.ofList [("a", 6)]).get? name := by
      intro name hname
      have hmem : name ∈ Line.names "x = a * 2" := hname.1
      have hcases : name = "x" ∨ name = "a" := by simpa [hnames] using hmem
      rcases hcases with rfl | rfl
      · -- it is assigned to and stands nowhere else
        exact absurd (hname.2 htarget) (by decide +kernel)
      · decide +kernel
    obtain ⟨outcome, write, h, h', hwrite⟩ := line_depends_on_names_read.1 _ _ _ hreads
    have houtcome : (Line.evaluate (Bindings.ofList [("a", 6)]) "x = a * 2").1
        = .ok ⟨.assignment, 12⟩ := by decide +kernel
    rw [h'] at houtcome
    cases houtcome
    obtain rfl : write = some ("x", 12) := (hwrite "x" 12).mpr ⟨rfl, htarget⟩
    exact ⟨h, h'⟩
  · have hindependent : Line.Independent "x = a * 2" "y = y - a" := by
      rw [Line.Independent, hnames, htarget, hnames', htarget']
      simp
    obtain ⟨outcome, outcome', after, h, h'⟩ :=
      line_depends_on_names_read.2 (Bindings.ofList [("a", 6), ("y", 10)]) _ _ hindependent
    have houtcomes : (Line.evaluateAll (Bindings.ofList [("a", 6), ("y", 10)])
        ["x = a * 2", "y = y - a"]).1 = [.ok ⟨.assignment, 12⟩, .ok ⟨.assignment, 4⟩] := by
      decide +kernel
    rw [h] at houtcomes
    cases houtcomes
    exact ⟨after, h, h'⟩

end LineCalc
