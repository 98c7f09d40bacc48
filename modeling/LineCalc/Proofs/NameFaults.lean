import LineCalc.Proofs.Substitution

/-!
# Which fault a statement is reported for

A statement may have many faults, and one is reported. Names decide first: the leftmost one that
is misspelt or has no value, even if a zero divisor stands in front of it or the line is no
expression at all. What is evaluated has values for all of its names.

In an assignment the left-hand side and the `=` come before the names behind it. The name on the
left is not looked up, and a misspelt name is another fault on the right than on the left.
`Verdict` lists these rules in order, each with the conditions that rule out those above it. So one
applies at most, and one always does (`first_fault_decides`).

It makes no difference if some names are looked at out of turn: one that is the whole line, or the
first operand behind the `=` (`declare`).
-/

namespace LineCalc

/-- The fault that a name is reported for. A name that is not made of letters is misspelt, even if
it should have a value. -/
inductive Token.Blamed (b : Bindings) (misspelt : Fault) (t : Token) : Fault → Prop where
  | misspelt {name : String} (ht : t.name? = some name) (hname : isVariableName name = false) :
      t.Blamed b misspelt misspelt
  | unknown {name : String} (ht : t.name? = some name) (hname : isVariableName name = true)
      (hb : b.get? name = none) : t.Blamed b misspelt .unknownVariable

namespace Statement

variable {b : Bindings} {misspelt : Fault} {ts : List Token}

/-- The fault of the leftmost name that has one. -/
def Blames (b : Bindings) (misspelt : Fault) (ts : List Token) (f : Fault) : Prop :=
  ∃ before t after, ts = before ++ t :: after ∧ (∀ u ∈ before, u.Known b) ∧ t.Blamed b misspelt f

theorem resolve_eq_error_iff {t : Token} {f : Fault} :
    resolve b misspelt t = .error f ↔ t.Blamed b misspelt f := by
  refine ⟨fun h => ?_, fun h => ?_⟩
  · unfold resolve at h
    split at h
    · cases h
    · rename_i name ht
      split at h
      · rename_i hname
        unfold Bindings.get at h
        cases hb : b.get? name with
        | none => rw [hb] at h; cases h; exact .unknown ht hname hb
        | some v => rw [hb] at h; cases h
      · rename_i hname
        cases h
        exact .misspelt ht (Bool.eq_false_iff.mpr hname)
  · cases h with
    | misspelt ht hname => simp only [resolve, ht, hname]; rfl
    | unknown ht hname hb => simp only [resolve, ht, hname, Bindings.get, hb]; rfl

theorem exists_resolve_iff {t : Token} : (∃ u, resolve b misspelt t = .ok u) ↔ t.Known b := by
  refine ⟨fun h => ?_, fun h => ⟨t.valued b, resolve_eq_ok_iff.mpr ⟨h, rfl⟩⟩⟩
  obtain ⟨u, hu⟩ := h
  exact (resolve_eq_ok_iff.mp hu).1

/-- A faulty name is reported, and the tokens are not evaluated. -/
theorem Blames.valueOf_eq {f : Fault} (h : Blames b misspelt ts f) :
    valueOf b misspelt ts = .error f := by
  obtain ⟨before, t, after, rfl, hbefore, ht⟩ := h
  have hmapM : (before ++ t :: after).mapM (resolve b misspelt) = .error f :=
    Fault.mapM_eq_error (fun u hu => exists_resolve_iff.mpr (hbefore u hu))
      (resolve_eq_error_iff.mpr ht)
  rw [valueOf, hmapM]
  rfl

theorem valueOf_of_known (h : ∀ t ∈ ts, t.Known b) :
    valueOf b misspelt ts = evaluate (ts.map (Token.valued b)) := by
  rw [valueOf, mapM_resolve_eq_ok_iff.mpr ⟨h, rfl⟩]
  rfl

/-- Either all names have values or one is the first that has a fault. -/
theorem known_or_blames (b : Bindings) (misspelt : Fault) (ts : List Token) :
    (∀ t ∈ ts, t.Known b) ∨ ∃ f, Blames b misspelt ts f := by
  cases h : ts.mapM (resolve b misspelt) with
  | ok us => exact Or.inl (mapM_resolve_eq_ok_iff.mp h).1
  | error f =>
      obtain ⟨before, t, after, rfl, hbefore, ht⟩ := Fault.exists_of_mapM_eq_error h
      exact Or.inr ⟨f, before, t, after, rfl,
        fun u hu => exists_resolve_iff.mp (hbefore u hu), resolve_eq_error_iff.mp ht⟩

/-! ## The rules -/

/-- The outcome of a statement and the variables after it, by the rule that applies. -/
inductive Verdict (b : Bindings) : List Token → Except Fault Evaluation × Bindings → Prop where
  /-- No `=`, and a faulty name. -/
  | name {ts : List Token} {f : Fault} (hno : ∀ t ∈ ts, t.kind ≠ .equal)
      (hf : Blames b .identifier ts f) : Verdict b ts (.error f, b)
  /-- No `=`, and no faulty name. -/
  | value {ts : List Token} (hno : ∀ t ∈ ts, t.kind ≠ .equal) (hk : ∀ t ∈ ts, t.Known b) :
      Verdict b ts
        ((evaluate (ts.map (Token.valued b))).map fun v => ⟨ofTokens ts, v⟩, b)
  /-- An `=`, and the first token is nothing that can be assigned to. -/
  | target {ts : List Token} (hsome : ∃ t ∈ ts, t.kind = .equal)
      (htarget : ∀ name rest, ts = ⟨.identifier, name⟩ :: rest → isVariableName name = false) :
      Verdict b ts (.error .identifier, b)
  /-- An `=`, but not where it has to be. -/
  | sign {name : String} {t : Token} {rest : List Token} (hname : isVariableName name = true)
      (ht : t.kind ≠ .equal) (hsome : ∃ u ∈ rest, u.kind = .equal) :
      Verdict b (⟨.identifier, name⟩ :: t :: rest) (.error .expression, b)
  /-- An `=`, and nothing behind it. -/
  | nothing {name : String} {sign : Token} (hname : isVariableName name = true)
      (hsign : sign.kind = .equal) : Verdict b [⟨.identifier, name⟩, sign] (.error .assignment, b)
  /-- An `=`, and a faulty name behind it. -/
  | operand {name : String} {sign : Token} {rhs : List Token} {f : Fault}
      (hname : isVariableName name = true) (hsign : sign.kind = .equal)
      (hf : Blames b .assignment rhs f) :
      Verdict b (⟨.identifier, name⟩ :: sign :: rhs) (.error f, b)
  /-- An `=`, no faulty name behind it, but no value either. -/
  | faulty {name : String} {sign : Token} {rhs : List Token} {f : Fault}
      (hname : isVariableName name = true) (hsign : sign.kind = .equal) (hrhs : rhs ≠ [])
      (hk : ∀ t ∈ rhs, t.Known b) (hv : evaluate (rhs.map (Token.valued b)) = .error f) :
      Verdict b (⟨.identifier, name⟩ :: sign :: rhs) (.error f, b)
  /-- An `=`, and a value behind it. -/
  | assigned {name : String} {sign : Token} {rhs : List Token} {v : Int64}
      (hname : isVariableName name = true) (hsign : sign.kind = .equal) (hrhs : rhs ≠ [])
      (hk : ∀ t ∈ rhs, t.Known b) (hv : evaluate (rhs.map (Token.valued b)) = .ok v) :
      Verdict b (⟨.identifier, name⟩ :: sign :: rhs) (.ok ⟨.assignment, v⟩, b.define name v)

/-- No rule fails to apply. -/
theorem exists_verdict (b : Bindings) (ts : List Token) : ∃ r, Verdict b ts r := by
  by_cases hsome : ∃ t ∈ ts, t.kind = .equal
  · by_cases htarget : ∃ name rest, ts = ⟨.identifier, name⟩ :: rest ∧ isVariableName name = true
    · obtain ⟨name, rest, rfl, hname⟩ := htarget
      obtain ⟨u, hu, hequal⟩ := hsome
      have hu : u ∈ rest := (List.mem_cons.mp hu).resolve_left (by rintro rfl; cases hequal)
      obtain ⟨t, rhs, rfl⟩ := List.exists_cons_of_ne_nil (List.ne_nil_of_mem hu)
      by_cases hsign : t.kind = .equal
      · by_cases hrhs : rhs = []
        · subst hrhs
          exact ⟨_, .nothing hname hsign⟩
        · rcases known_or_blames b .assignment rhs with hk | ⟨f, hf⟩
          · cases hv : evaluate (rhs.map (Token.valued b)) with
            | error f => exact ⟨_, .faulty hname hsign hrhs hk hv⟩
            | ok v => exact ⟨_, .assigned hname hsign hrhs hk hv⟩
          · exact ⟨_, .operand hname hsign hf⟩
      · have hu : u ∈ rhs := (List.mem_cons.mp hu).resolve_left (by rintro rfl; exact hsign hequal)
        exact ⟨_, .sign hname hsign ⟨u, hu, hequal⟩⟩
    · refine ⟨_, .target hsome fun name rest hts => Bool.eq_false_iff.mpr fun hname => ?_⟩
      exact htarget ⟨name, rest, hts, hname⟩
  · have hno : ∀ t ∈ ts, t.kind ≠ .equal := fun t ht hk => hsome ⟨t, ht, hk⟩
    rcases known_or_blames b .identifier ts with hk | ⟨f, hf⟩
    · exact ⟨_, .value hno hk⟩
    · exact ⟨_, .name hno hf⟩

/-! ## What runs is the verdict -/

theorem ofTokens_ne_assignment (hno : ∀ t ∈ ts, t.kind ≠ .equal) : ofTokens ts ≠ .assignment := by
  intro h
  obtain ⟨t, ht, hk⟩ := ofTokens_eq_assignment_iff.mp h
  exact hno t ht hk

/-- What is behind the name and the `=` decides. -/
theorem run_of_sign {name : String} {sign : Token} {rhs : List Token}
    (hname : isVariableName name = true) (hsign : sign.kind = .equal) (hrhs : rhs ≠ []) :
    run b (⟨.identifier, name⟩ :: sign :: rhs) =
      match valueOf b .assignment rhs with
      | .ok value => (.ok ⟨.assignment, value⟩, b.define name value)
      | .error fault => (.error fault, b) := by
  have hform : ofTokens (⟨.identifier, name⟩ :: sign :: rhs) = .assignment :=
    ofTokens_eq_assignment_iff.mpr ⟨sign, by simp, hsign⟩
  have hempty : rhs.isEmpty = false := by simpa using hrhs
  rw [run_of_assignment hform, assigned_of_name (filter_name? hname), hsign, hempty]
  cases valueOf b .assignment rhs <;> rfl

theorem Verdict.run_eq {r : Except Fault Evaluation × Bindings} (h : Verdict b ts r) :
    run b ts = r := by
  cases h with
  | name hno hf =>
      rw [run_of_ne_assignment (ofTokens_ne_assignment hno), hf.valueOf_eq]
      rfl
  | value hno hk =>
      rw [run_of_ne_assignment (ofTokens_ne_assignment hno), valueOf_of_known hk]
  | target hsome htarget =>
      rw [run_of_assignment (ofTokens_eq_assignment_iff.mpr hsome)]
      obtain ⟨u, hu, -⟩ := hsome
      obtain ⟨t, rest, rfl⟩ := List.exists_cons_of_ne_nil (List.ne_nil_of_mem hu)
      have hnone : t.name?.filter isVariableName = none := by
        refine Option.filter_eq_none_iff.mpr fun name hname => ?_
        obtain ⟨hk, hlexeme⟩ := Token.name?_eq_some_iff.mp hname
        rw [htarget name rest (by rw [← hk, ← hlexeme])]
        exact Bool.false_ne_true
      rw [assigned_of_not_name hnone]
  | @sign name t rest hname ht hsome =>
      obtain ⟨u, hu, hequal⟩ := hsome
      have hform : ofTokens (⟨.identifier, name⟩ :: t :: rest) = .assignment :=
        ofTokens_eq_assignment_iff.mpr
          ⟨u, List.mem_cons_of_mem _ (List.mem_cons_of_mem _ hu), hequal⟩
      have hsign : t.kind.isEqual = false :=
        Bool.eq_false_iff.mpr fun h => ht (TokenKind.isEqual_iff.mp h)
      rw [run_of_assignment hform, assigned_of_name (filter_name? hname), hsign]
      rfl
  | @nothing name sign hname hsign =>
      have hform : ofTokens [⟨.identifier, name⟩, sign] = .assignment :=
        ofTokens_eq_assignment_iff.mpr ⟨sign, by simp, hsign⟩
      rw [run_of_assignment hform, assigned_of_name (filter_name? hname), hsign]
      rfl
  | operand hname hsign hf =>
      obtain ⟨before, t, after, rfl, -⟩ := id hf
      rw [run_of_sign hname hsign (by simp), hf.valueOf_eq]
  | faulty hname hsign hrhs hk hv =>
      rw [run_of_sign hname hsign hrhs, valueOf_of_known hk, hv]
  | assigned hname hsign hrhs hk hv =>
      rw [run_of_sign hname hsign hrhs, valueOf_of_known hk, hv]

/-- There is one verdict, and it is what runs. -/
theorem run_eq_iff_verdict (r : Except Fault Evaluation × Bindings) :
    run b ts = r ↔ Verdict b ts r := by
  refine ⟨fun h => ?_, Verdict.run_eq⟩
  obtain ⟨r', hr'⟩ := exists_verdict b ts
  rw [← h, hr'.run_eq]
  exact hr'

/-! ## Names looked at out of turn -/

/-- A lookup or an assignment, with a name that is the whole line looked up as it is, and the first
operand behind the `=` looked at ahead of the others. -/
def declare (b : Bindings) (tokens : List Token) : Except Fault Int64 × Bindings :=
  match tokens with
  | [] => (.error .expression, b)
  | target :: tokens =>
      match target.name?.filter isVariableName, tokens with
      | none, _ => (.error .identifier, b)
      | some name, [] => (b.get name, b)
      | some name, sign :: rhs =>
          if !sign.kind.isEqual then (.error .expression, b)
          else
            match rhs with
            | [] => (.error .assignment, b)
            | first :: _ =>
                match (resolve b .assignment first).bind fun _ => valueOf b .assignment rhs with
                | .ok value => (.ok value, b.define name value)
                | .error fault => (.error fault, b)

/-- The first operand is the first to be replaced in any case. -/
theorem bind_valueOf (first : Token) (rest : List Token) :
    ((resolve b misspelt first).bind fun _ => valueOf b misspelt (first :: rest))
      = valueOf b misspelt (first :: rest) := by
  cases h : resolve b misspelt first with
  | ok u => rfl
  | error f =>
      rw [valueOf, List.mapM_cons, h]
      rfl

theorem declare_eq_run (h : ofTokens ts ≠ .expression) :
    declare b ts = ((run b ts).1.map Evaluation.value, (run b ts).2) := by
  match ts with
  | [] => exact absurd rfl h
  | [⟨kind, name⟩] =>
      cases kind with
      | identifier =>
          rw [run_lookup]
          by_cases hname : isVariableName name = true
          · simp only [declare, filter_name? hname, hname, if_true]
            cases b.get name <;> rfl
          · have hnone : (Token.name? ⟨.identifier, name⟩).filter isVariableName = none :=
              Option.filter_eq_none_iff.mpr fun other hother => by cases hother; exact hname
            simp only [declare, hnone, if_neg hname]
            rfl
      | equal => rfl
      | _ => exact absurd rfl h
  | target :: sign :: rhs =>
      -- two tokens are no lookup
      have hform : ofTokens (target :: sign :: rhs) = .assignment := by
        unfold ofTokens at h ⊢
        by_cases hany : ((target :: sign :: rhs).any fun t => t.kind.isEqual) = true
        · exact if_pos hany
        · rw [if_neg hany] at h
          split at h
          · rename_i heq
            cases heq
          · exact absurd rfl h
      rw [run_of_assignment hform]
      cases hname : target.name?.filter isVariableName with
      | none =>
          simp only [declare, hname, assigned_of_not_name hname]
          rfl
      | some name =>
          simp only [declare, hname, assigned_of_name hname]
          cases sign.kind.isEqual with
          | false => rfl
          | true =>
              cases rhs with
              | nil => rfl
              | cons first rest =>
                  simp only [bind_valueOf, Bool.not_true, Bool.false_eq_true, if_false,
                    List.isEmpty_cons]
                  cases valueOf b .assignment (first :: rest) <;> rfl

end Statement

/-! ## The theorem -/

/--
**Which fault a statement is reported for.** For all variables, whatever names have values, and all
token lists:

1. there is exactly one outcome that the rules of `Verdict` allow, and the statement has it;
2. so it is with a single name, which is misspelt, or has no value, or has one;
3. looking up a single name by itself, and looking at the first operand behind an `=` ahead of the
   others, has no other outcome, and leaves no other variables.
-/
theorem first_fault_decides (b : Bindings) (ts : List Token) :
    (∀ r, Statement.run b ts = r ↔ Statement.Verdict b ts r) ∧
    (∀ name, ts = [⟨.identifier, name⟩] →
      Statement.run b ts =
        ((if isVariableName name then b.get name else .error .identifier).map
          fun v => ⟨.lookup, v⟩, b)) ∧
    (Statement.ofTokens ts ≠ .expression →
      Statement.declare b ts =
        ((Statement.run b ts).1.map Evaluation.value, (Statement.run b ts).2)) := by
  refine ⟨Statement.run_eq_iff_verdict, fun name hts => ?_, Statement.declare_eq_run⟩
  rw [hts]
  exact Statement.run_lookup b name

end LineCalc
