import LineCalc.Proofs.Evaluation
import LineCalc.Statement

/-!
# Names replaced by their values

`Statement.resolve` replaces one name and may refuse it; a line is evaluated once all of
its names have been replaced. For a line that comes to a value the order and the reasons
of refusal do not matter: every name in it is made of letters and has a value, and the
line means what `Token.valued` makes of it, a plain map.
-/

namespace LineCalc

/-- A token as its value, if it is a name that has one, and as it stands otherwise. -/
def Token.valued (b : Bindings) (t : Token) : Token :=
  match t.name?.bind b.get? with
  | some value => ⟨.number value, t.lexeme⟩
  | none => t

/-- If the token is a name, it is made of letters and has a value. -/
def Token.Known (b : Bindings) (t : Token) : Prop :=
  ∀ name, t.name? = some name → isVariableName name = true ∧ (b.get? name).isSome = true

namespace Token

variable {b : Bindings} {t : Token}

theorem name?_eq_some_iff {name : String} :
    t.name? = some name ↔ t.kind = .identifier ∧ t.lexeme = name := by
  obtain ⟨kind, lexeme⟩ := t
  cases kind <;> simp [name?]

/-- Only names are replaced. -/
theorem valued_of_name?_eq_none (h : t.name? = none) : t.valued b = t := by
  rw [valued, h, Option.bind_none]

theorem valued_of_get? {name : String} {value : Int64} (h : t.name? = some name)
    (hv : b.get? name = some value) : t.valued b = ⟨.number value, t.lexeme⟩ := by
  rw [valued, h, Option.bind_some, hv]

/-- What is no name keeps its kind. -/
theorem kind_valued (h : t.kind ≠ .identifier) : (t.valued b).kind = t.kind := by
  have hn : t.name? = none := by
    cases hn : t.name? with
    | none => rfl
    | some name => exact absurd (name?_eq_some_iff.mp hn).1 h
  rw [valued_of_name?_eq_none hn]

end Token

theorem TokenKind.isEqual_iff {k : TokenKind} : k.isEqual = true ↔ k = .equal := by
  cases k <;> simp [isEqual]

namespace Statement

variable {b : Bindings} {misspelt : Fault}

theorem resolve_eq_ok_iff {t u : Token} :
    resolve b misspelt t = .ok u ↔ t.Known b ∧ u = t.valued b := by
  unfold resolve
  split
  · rename_i h
    rw [Token.valued_of_name?_eq_none h, Except.ok.injEq, eq_comm]
    exact ⟨fun hu => ⟨fun name hn => (by rw [h] at hn; cases hn), hu⟩, And.right⟩
  · rename_i name h
    split
    · rename_i hname
      unfold Bindings.get
      cases hv : b.get? name with
      | none =>
          refine ⟨fun hu => (by cases hu), fun ⟨hk, _⟩ => ?_⟩
          have hs := (hk name h).2
          rw [hv] at hs
          cases hs
      | some value =>
          rw [Token.valued_of_get? h hv]
          refine ⟨fun hu => ?_, fun he => ?_⟩
          · cases hu
            refine ⟨fun other ho => ?_, rfl⟩
            obtain rfl : name = other := Option.some.inj (h.symm.trans ho)
            exact ⟨hname, by rw [hv]; rfl⟩
          · obtain ⟨_, rfl⟩ := he
            rfl
    · rename_i hname
      exact ⟨fun hu => (by cases hu), fun ⟨hk, _⟩ => absurd (hk name h).1 hname⟩

theorem resolve_of_name?_eq_none {t : Token} (h : t.name? = none) :
    resolve b misspelt t = .ok t := by
  rw [resolve, h]

theorem mapM_resolve_eq_ok_iff {tokens us : List Token} :
    tokens.mapM (resolve b misspelt) = .ok us ↔
      (∀ t ∈ tokens, t.Known b) ∧ us = tokens.map (Token.valued b) := by
  rw [Fault.mapM_eq_ok_iff]
  induction tokens generalizing us with
  | nil => simp [eq_comm]
  | cons t tokens ih =>
      cases us with
      | nil => simp
      | cons u us =>
          rw [List.map_cons, List.map_cons, List.cons.injEq, resolve_eq_ok_iff, ih,
            List.forall_mem_cons, List.map_cons, List.cons.injEq]
          exact and_and_and_comm

/-- An expression has a value exactly if its names have values and it has that value with them. -/
theorem valueOf_eq_ok_iff {tokens : List Token} {v : Int64} :
    valueOf b misspelt tokens = .ok v ↔
      (∀ t ∈ tokens, t.Known b) ∧ evaluate (tokens.map (Token.valued b)) = .ok v := by
  unfold valueOf
  cases h : tokens.mapM (resolve b misspelt) with
  | error f =>
      refine ⟨fun hv => (by cases hv), fun ⟨hk, _⟩ => ?_⟩
      rw [mapM_resolve_eq_ok_iff.mpr ⟨hk, rfl⟩] at h
      cases h
  | ok us =>
      obtain ⟨hk, rfl⟩ := mapM_resolve_eq_ok_iff.mp h
      exact ⟨fun hv => ⟨hk, hv⟩, And.right⟩

/-- Which names are refused, and how, is the same whatever they would be reported as. -/
theorem valueOf_eq_ok_congr {misspelt' : Fault} {tokens : List Token} {v : Int64} :
    valueOf b misspelt tokens = .ok v ↔ valueOf b misspelt' tokens = .ok v := by
  rw [valueOf_eq_ok_iff, valueOf_eq_ok_iff]

/-- A name by itself has its value. -/
theorem valueOf_name (b : Bindings) (misspelt : Fault) (name : String) :
    valueOf b misspelt [⟨.identifier, name⟩] =
      if isVariableName name then b.get name else .error misspelt := by
  have hresolve : resolve b misspelt ⟨.identifier, name⟩ =
      if isVariableName name then (b.get name).map fun v => ⟨.number v, name⟩
      else .error misspelt := rfl
  rw [valueOf, List.mapM_cons, hresolve]
  split
  · cases b.get name with
    | error f => rfl
    | ok v => exact evaluate_number rfl
  · rfl

/-- An expression with a value has no `=` in it. -/
theorem kind_ne_equal_of_evaluate_valued {tokens : List Token} {v : Int64}
    (h : evaluate (tokens.map (Token.valued b)) = .ok v) : ∀ t ∈ tokens, t.kind ≠ .equal := by
  intro t ht hk
  have ha := isArithmetic_of_evaluate_eq_ok h (t.valued b) (List.mem_map_of_mem ht)
  rw [Token.kind_valued (by rw [hk]; intro h; cases h), hk] at ha
  cases ha

/-! ## What a statement can do -/

theorem filter_name? {name : String} (hname : isVariableName name = true) :
    (Token.name? ⟨.identifier, name⟩).filter isVariableName = some name :=
  Option.filter_eq_some_iff.mpr ⟨rfl, hname⟩

/-- There is no name on the left, and nothing else matters. -/
theorem assigned_of_not_name {t : Token} {rest : List Token}
    (h : t.name?.filter isVariableName = none) : assigned b (t :: rest) = .error .identifier := by
  simp only [assigned, h]

/-- There is a name on the left, so the next token decides. -/
theorem assigned_of_name {t : Token} {name : String}
    (h : t.name?.filter isVariableName = some name) (sign : Token) (rhs : List Token) :
    assigned b (t :: sign :: rhs) =
      if !sign.kind.isEqual then .error .expression
      else if rhs.isEmpty then .error .assignment
      else (valueOf b .assignment rhs).map fun v => (name, v) := by
  simp only [assigned, h]

/-- An assignment succeeds in one way: a name, an `=`, and behind it something with a value. -/
theorem assigned_eq_ok_iff {tokens : List Token} {name : String} {v : Int64} :
    assigned b tokens = .ok (name, v) ↔
      ∃ (sign : Token) (rhs : List Token),
        tokens = ⟨.identifier, name⟩ :: sign :: rhs ∧ isVariableName name = true ∧
        sign.kind = .equal ∧ rhs ≠ [] ∧ valueOf b .assignment rhs = .ok v := by
  refine ⟨fun h => ?_, fun hex => ?_⟩
  · unfold assigned at h
    split at h
    · cases h
    · rename_i target tokens
      split at h
      · cases h
      · cases h
      · rename_i found sign rhs hname
        obtain ⟨ht, hletters⟩ := Option.filter_eq_some_iff.mp hname
        obtain ⟨hk, hlex⟩ := Token.name?_eq_some_iff.mp ht
        split at h
        · cases h
        · rename_i hsign
          split at h
          · cases h
          · rename_i hrhs
            cases hv : valueOf b .assignment rhs with
            | error f => rw [hv] at h; cases h
            | ok x =>
                rw [hv] at h
                cases h
                refine ⟨sign, rhs, ?_, hletters, ?_, ?_, hv⟩
                · rw [← hk, ← hlex]
                · exact TokenKind.isEqual_iff.mp (by simpa using hsign)
                · simpa using hrhs
  · obtain ⟨sign, rhs, rfl, hname, hsign, hrhs, hv⟩ := hex
    have he : rhs.isEmpty = false := by simpa using hrhs
    simp only [assigned, filter_name? hname, hsign, TokenKind.isEqual, he, hv]
    rfl

theorem ofTokens_eq_assignment_iff {tokens : List Token} :
    ofTokens tokens = .assignment ↔ ∃ t ∈ tokens, t.kind = .equal := by
  unfold ofTokens
  split
  · rename_i h
    rw [List.any_eq_true] at h
    obtain ⟨t, ht, hk⟩ := h
    exact ⟨fun _ => ⟨t, ht, TokenKind.isEqual_iff.mp hk⟩, fun _ => rfl⟩
  · rename_i h
    refine ⟨fun hs => ?_, fun ⟨t, ht, hk⟩ => absurd ?_ h⟩
    · split at hs <;> cases hs
    · exact List.any_eq_true.mpr ⟨t, ht, TokenKind.isEqual_iff.mpr hk⟩

theorem run_of_assignment {tokens : List Token} (h : ofTokens tokens = .assignment) :
    run b tokens = match assigned b tokens with
      | .ok (name, value) => (.ok ⟨.assignment, value⟩, b.define name value)
      | .error fault => (.error fault, b) := by
  unfold run
  split
  · rfl
  · rename_i hne
    exact absurd h hne

theorem run_of_ne_assignment {tokens : List Token} (h : ofTokens tokens ≠ .assignment) :
    run b tokens =
      ((valueOf b .identifier tokens).map fun value => ⟨ofTokens tokens, value⟩, b) := by
  unfold run
  split
  · rename_i heq
    exact absurd heq h
  · rfl

theorem run_lookup (b : Bindings) (name : String) :
    run b [⟨.identifier, name⟩] =
      ((if isVariableName name then b.get name else .error .identifier).map fun v => ⟨.lookup, v⟩,
        b) := by
  rw [← valueOf_name b .identifier name]
  rfl

/-- **What a statement can do.** It fails; or it has a value and the variables are as they were; or
it is an assignment, and the one variable on its left has its value. -/
theorem run_cases (b : Bindings) (tokens : List Token) :
    (∃ f, run b tokens = (.error f, b)) ∨
    (∃ v, run b tokens = (.ok ⟨ofTokens tokens, v⟩, b) ∧ ofTokens tokens ≠ .assignment ∧
      valueOf b .identifier tokens = .ok v) ∨
    (∃ name v, run b tokens = (.ok ⟨.assignment, v⟩, b.define name v) ∧
      assigned b tokens = .ok (name, v)) := by
  by_cases hs : ofTokens tokens = .assignment
  · rw [run_of_assignment hs]
    cases ha : assigned b tokens with
    | error f => exact Or.inl ⟨f, rfl⟩
    | ok nv => exact Or.inr (Or.inr ⟨nv.1, nv.2, rfl, rfl⟩)
  · rw [run_of_ne_assignment hs]
    cases hv : valueOf b .identifier tokens with
    | error f => exact Or.inl ⟨f, rfl⟩
    | ok v => exact Or.inr (Or.inl ⟨v, rfl, hs, rfl⟩)

end Statement

end LineCalc
