import LineCalc.Proofs.EvaluatedFiles
import LineCalc.Proofs.Layout
import LineCalc.Proofs.PrintedTokens
import LineCalc.Proofs.VisibleLines

/-!
# The listing of a file, line by line

`tokenize` takes each line of a file by itself: it lists the tokens of the line on the standard
output, or complains of it on the standard error. So what it makes of a file is put together from
what it makes of its lines, in their order, and a cut between two lines is none (`Joined`). The
lines it takes are the visible ones that are no commands; an `/exit` is passed over like any other
command.

Each of these lines leaves a trace. If it has no tokens because of a fault there is a complaint,
and otherwise it has at least one token: only blanks have none, and a line of blanks does not show.
That traces do not run into each other is because no printed token and no complaint has a newline
in it (`newline_not_mem_trace`).
-/

namespace LineCalc

/-! ## The tokens of a line that shows -/

theorem isWhiteSpace_of_isBlank {c : Char} (h : isBlank c = true) :
    Text.isWhiteSpace c = true := by
  rcases isBlank_iff.mp h with rfl | rfl | rfl <;> decide

/-- The text of a layout has the lexemes of its tokens in it. -/
theorem Layout.lexeme_subset_text {l : Layout} {t : Token} (h : t ∈ l.tokens) :
    t.lexeme.toList ⊆ l.text := by
  induction l with
  | last gap => cases h
  | token gap u rest ih =>
      intro c hc
      rcases List.mem_cons.mp h with rfl | h
      · exact List.mem_append_right _ (List.mem_append_left _ hc)
      · exact List.mem_append_right _ (List.mem_append_right _ (ih h hc))

section

variable {line : String} {ts : List Token}

theorem lexeme_subset_of_scan (h : Token.scan line = .ok ts) {t : Token} (ht : t ∈ ts) :
    t.lexeme.toList ⊆ line.toList := by
  obtain ⟨-, l, rfl, rfl, -⟩ := layout_of_scan h
  rw [toList_eq_text_iff.mpr rfl]
  exact Layout.lexeme_subset_text ht

/-- **A trimmed line that is not empty has a token,** if it has no fault. -/
theorem tokens_ne_nil (h : Line.tokens line = .ok ts) (htrim : Text.trim line = line)
    (hne : line ≠ "") : ts ≠ [] := by
  rintro rfl
  obtain ⟨-, hscan, -⟩ := Line.tokens_eq_ok_iff.mp h
  obtain ⟨-, l, hl, rfl, hs⟩ := layout_of_scan hscan
  cases l with
  | token gap t rest => cases hl
  | last gap =>
      -- there is nothing but a gap, and trimming leaves nothing of that
      have hwhite : Text.White gap := fun c hc => isWhiteSpace_of_isBlank (hs.blank_front c hc)
      have hnone : Text.trim (Layout.last gap).line = "" := by
        rw [Layout.line, Text.trim_ofList, Layout.text, Text.trimmed_eq_nil_iff.mpr hwhite]
      exact hne (htrim.symm.trans hnone)

end

namespace CommandLine

/-! ## What is written about a line -/

/-- The lines that are printed of a line: one for each token, or one for all of them. -/
def printed (json : Bool) (line : String) : List String :=
  match Line.tokens line with
  | .ok tokens => if json then [Token.jsonArray tokens] else tokens.map Token.describe
  | .error _ => []

/-- The complaint about a line that has a fault. -/
def complaint? (line : String) : Option String :=
  match Line.tokens line with
  | .ok _ => none
  | .error fault => some (line ++ ": " ++ fault.message)

/-- Lines one after the other, each with its newline. -/
def unlines (lines : List String) : String := String.join (lines.map (· ++ "\n"))

/-- The lines of a text that are listed: the visible ones that are no commands. -/
def listedLines (text : String) : List String :=
  (Text.visibleLines text.toList).filter (!startsCommand ·)

/-- The report on some lines. -/
def summary (json : Bool) (lines : List String) : Report :=
  ⟨if (lines.filterMap complaint?).isEmpty then 0 else 65, unlines (lines.flatMap (printed json)),
    unlines (lines.filterMap complaint?)⟩

theorem unlines_append (xs ys : List String) : unlines (xs ++ ys) = unlines xs ++ unlines ys := by
  rw [unlines, List.map_append, String.join_append]
  rfl

theorem summary_append (json : Bool) (xs ys : List String) :
    summary json (xs ++ ys) = summary json xs ++ summary json ys := by
  change _ = Report.append _ _
  unfold summary Report.append
  rw [List.filterMap_append, List.flatMap_append, unlines_append, unlines_append]
  cases xs.filterMap complaint? <;> rfl

theorem summary_singleton (json : Bool) (line : String) : summary json [line]
    = ⟨if (complaint? line).isNone then 0 else 65, unlines (printed json line),
      unlines (complaint? line).toList⟩ := by
  rw [summary, List.flatMap_singleton]
  cases h : complaint? line <;> simp [h]

/-- A line is reported if it shows and is no command. -/
theorem lineReport_eq (json : Bool) (line : String) : lineReport json line
    = summary json (([line].filter (· ≠ "")).filter (!startsCommand ·)) := by
  rw [lineReport, Command.isSome_ofLine?]
  by_cases hline : line = ""
  · simp [hline]
    rfl
  cases hcommand : startsCommand line with
  | true =>
      simp [hcommand]
      rfl
  | false =>
      rw [List.filter_cons_of_pos (by simpa using hline), List.filter_nil,
        List.filter_cons_of_pos (by simpa using hcommand), List.filter_nil, decide_eq_false hline,
        summary_singleton, printed, complaint?]
      cases Line.tokens line with
      | ok tokens => cases json <;> simp [unlines, listing, Function.comp_def]
      | error fault => simp [unlines]

/-- **The report on a text is the one on its listed lines.** -/
theorem tokenizeReport_eq (json : Bool) (text : String) :
    tokenizeReport json text = summary json (listedLines text) := by
  unfold tokenizeReport listedLines Text.visibleLines
  induction Text.lines '\n' text.toList with
  | nil => rfl
  | cons l ls ih =>
      rw [List.map_cons, List.foldr_cons, ih, lineReport_eq, ← summary_append, ← List.filter_append,
        ← List.filter_append]
      rfl

/-! ## A cut between two lines -/

theorem listedLines_append {a : String} (h : Text.EndsBetweenLines a.toList) (b : String) :
    listedLines (a ++ b) = listedLines a ++ listedLines b := by
  rw [listedLines, String.toList_append, Text.visibleLines_append h, List.filter_append]
  rfl

/-- A command is not listed. -/
theorem listedLines_command {command : String} (hline : '\n' ∉ command.toList)
    (hcommand : startsCommand (Text.trim command) = true) : listedLines (command ++ "\n") = [] := by
  have hvisible : Text.visibleLines (command ++ "\n").toList
      = [Text.trim command].filter (· ≠ "") := by
    have hnone : Text.visibleLines [] = [] := rfl
    have hnewline : "\n".toList = ['\n'] := rfl
    rw [String.toList_append, hnewline, Text.visibleLines_newline, hnone, List.append_nil,
      Text.visibleLines_of_not_mem hline, String.ofList_toList]
  rw [listedLines, hvisible, List.filter_filter]
  simp [hcommand]

/-- The report `r` has in it what is in two others, one after the other. -/
structure Joined (r r₁ r₂ : Report) : Prop where
  stdout : r.stdout = r₁.stdout ++ r₂.stdout
  stderr : r.stderr = r₁.stderr ++ r₂.stderr
  code : r.code = if r₁.code = 65 ∨ r₂.code = 65 then 65 else 0

theorem joined_summary (json : Bool) (xs ys : List String) :
    Joined (summary json (xs ++ ys)) (summary json xs) (summary json ys) := by
  rw [summary_append]
  refine ⟨rfl, rfl, ?_⟩
  change (Report.append _ _).code = _
  unfold summary Report.append
  cases (xs.filterMap complaint?).isEmpty <;> cases (ys.filterMap complaint?).isEmpty <;> rfl

/-! ## One trace for each line -/

section

variable {json : Bool} {line : String}

theorem complaint?_ne_none_iff :
    complaint? line ≠ none ↔ ∃ fault, Line.tokens line = .error fault := by
  rw [complaint?]
  cases Line.tokens line with
  | ok tokens => exact ⟨fun h => absurd rfl h, fun ⟨_, h⟩ => (by cases h)⟩
  | error fault => exact ⟨fun _ => ⟨fault, rfl⟩, fun _ => Option.some_ne_none _⟩

theorem summary_code (json : Bool) (lines : List String) :
    (summary json lines).code = 65 ∨ (summary json lines).code = 0 := by
  unfold summary
  split
  · exact Or.inr rfl
  · exact Or.inl rfl

/-- The code tells whether there is a fault. -/
theorem summary_code_eq_iff {lines : List String} : (summary json lines).code = 65 ↔
    ∃ line ∈ lines, ∃ fault, Line.tokens line = .error fault := by
  have hcode : (summary json lines).code = 65 ↔ lines.filterMap complaint? ≠ [] := by
    unfold summary
    cases lines.filterMap complaint? <;> simp
  rw [hcode, Ne, List.filterMap_eq_nil_iff]
  push Not
  exact exists_congr fun line => and_congr_right fun _ => complaint?_ne_none_iff

/-- Nothing that is written about a line has a newline in it. -/
theorem newline_not_mem_trace {trace : String} (hline : '\n' ∉ line.toList)
    (h : trace ∈ printed json line ∨ complaint? line = some trace) : '\n' ∉ trace.toList := by
  unfold printed complaint? at h
  cases htokens : Line.tokens line with
  | ok tokens =>
      rw [htokens] at h
      rcases h with h | h
      · cases json with
        | true =>
            obtain rfl := List.mem_singleton.mp h
            exact Token.newline_not_mem_jsonArray tokens
        | false =>
            obtain ⟨t, ht, rfl⟩ := List.mem_map.mp h
            have hscan := (Line.tokens_eq_ok_iff.mp htokens).2.1
            exact Token.newline_not_mem_describe fun hmem =>
              hline (lexeme_subset_of_scan hscan ht hmem)
      · cases h
  | error fault =>
      rw [htokens] at h
      rcases h with h | h
      · cases h
      · cases h
        have hcolon : '\n' ∉ ": ".toList := by decide
        have hmessage : '\n' ∉ fault.message.toList := by cases fault <;> decide
        simp only [String.toList_append, List.mem_append, hline, hcolon, hmessage, or_self,
          not_false_eq_true]

end

theorem of_mem_listedLines {text line : String} (h : line ∈ listedLines text) :
    Text.trim line = line ∧ line ≠ "" ∧ '\n' ∉ line.toList := by
  have hvisible := (List.mem_filter.mp h).1
  obtain ⟨htrim, hne⟩ := Text.of_mem_visibleLines hvisible
  exact ⟨htrim, hne, Text.newline_not_mem_of_mem_visibleLines hvisible⟩

/-! ## Runs of the program -/

/-- A run of the program that is to list the tokens of a file with this text, and what it comes
to. -/
inductive Tokenizes (json : Bool) (text : String) : Report → Prop where
  | run {args : List String} {folder : Folder} {stdin content : List UInt8} {options : Options}
      {file : String} :
      Request.ofArguments args = .run options (.tokenize file json) →
      (CommandLine.run args folder stdin).2.find stdin file = .file content →
      Text.decode? content = some text →
      Tokenizes json text (CommandLine.run args folder stdin).1

/-- Every text can be listed, and it is the text alone that decides what comes of it. -/
theorem tokenizes_iff {json : Bool} {text : String} {report : Report} :
    Tokenizes json text report ↔ report = summary json (listedLines text) := by
  have hreport : ∀ {report}, Tokenizes json text report →
      report = summary json (listedLines text) := by
    rintro _ ⟨hargs, hfile, htext⟩
    rw [run_of_arguments hargs, perform, hfile, textOf, htext]
    exact tokenizeReport_eq json text
  refine ⟨hreport, fun h => ?_⟩
  have hargs : Request.ofArguments (if json then ["tokenize", "--json", "sums"]
      else ["tokenize", "sums"]) = .run .unset (.tokenize "sums" json) := by
    cases json <;> decide +kernel
  have hdecode : Text.decode? (Text.encode text.toList) = some text := by
    rw [Text.decode?_encode, String.ofList_toList]
  have hrun : Tokenizes json text (CommandLine.run _ ⟨[("sums", Text.encode text.toList)]⟩ []).1 :=
    .run hargs (by cases json <;> exact find_of_isName (by decide) rfl) hdecode
  rw [h, ← hreport hrun]
  exact hrun

/-! ## The theorem -/

/-- What there is to say about listing the tokens of a text. -/
structure ListsEachLine (json : Bool) (text : String) (report : Report) : Prop where
  /-- What is printed of the lines, in their order. -/
  stdout : report.stdout = unlines ((listedLines text).flatMap (printed json))
  /-- What is complained of, in the order of the lines. -/
  stderr : report.stderr = unlines ((listedLines text).filterMap complaint?)
  /-- The code is 65 or 0, and tells whether there is a fault. -/
  code : (report.code = 65 ↔ ∃ line ∈ listedLines text, ∃ fault, Line.tokens line = .error fault) ∧
    (report.code = 65 ∨ report.code = 0)
  /-- A line without a fault has a token. -/
  token : ∀ line ∈ listedLines text, ∀ tokens, Line.tokens line = .ok tokens → tokens ≠ []
  /-- Each token, each array and each complaint is one line of what is written. -/
  oneLine : ∀ line ∈ listedLines text, ∀ trace,
    trace ∈ printed json line ∨ complaint? line = some trace → '\n' ∉ trace.toList
  /-- Complaints are the same whether the tokens are listed in JSON or not. -/
  modes : ∀ other, Tokenizes (!json) text other →
    other.stderr = report.stderr ∧ other.code = report.code
  /-- A cut between two lines leaves two texts that can be listed apart. -/
  cut : ∀ front back, text = front ++ back → Text.EndsBetweenLines front.toList →
    ∀ r₁ r₂, Tokenizes json front r₁ → Tokenizes json back r₂ → Joined report r₁ r₂
  /-- So does a command, `/exit` or any other, and it is passed over. -/
  command : ∀ front command back, text = front ++ (command ++ "\n") ++ back →
    Text.EndsBetweenLines front.toList → '\n' ∉ command.toList →
    startsCommand (Text.trim command) = true →
    ∀ r₁ r₂, Tokenizes json front r₁ → Tokenizes json back r₂ → Joined report r₁ r₂

/--
**A file is listed line by line.**

All runs of the program that list the tokens of a file with this text come to one report. It has on
the standard output what is printed of each listed line, and on the standard error a complaint of
each that has a fault, both in the order of the lines; and no listed line is left without the one
or the other. Texts that are put together between lines have their reports put together, and lines
behind an `/exit` are listed like all others.
-/
theorem file_tokenized_line_by_line (json : Bool) (text : String) :
    ∃ report, (∀ r, Tokenizes json text r ↔ r = report) ∧ ListsEachLine json text report := by
  have hends : ∀ {front command : String},
      Text.EndsBetweenLines (front ++ (command ++ "\n")).toList := by
    intro front command
    have hnewline : "\n".toList = ['\n'] := rfl
    rw [String.toList_append, String.toList_append, hnewline, ← List.append_assoc]
    exact Or.inr List.getLast?_concat
  refine ⟨summary json (listedLines text), fun r => tokenizes_iff, rfl, rfl,
    ⟨summary_code_eq_iff, summary_code json _⟩, fun line hline tokens htokens => ?_,
    fun line hline trace => ?_, fun other hother => ?_, ?_, ?_⟩
  · obtain ⟨htrim, hne, -⟩ := of_mem_listedLines hline
    exact tokens_ne_nil htokens htrim hne
  · exact newline_not_mem_trace (of_mem_listedLines hline).2.2
  · rw [tokenizes_iff.mp hother]
    exact ⟨rfl, rfl⟩
  · rintro front back rfl hfront r₁ r₂ h₁ h₂
    rw [tokenizes_iff.mp h₁, tokenizes_iff.mp h₂, listedLines_append hfront]
    exact joined_summary json _ _
  · rintro front command back rfl hfront hline hcommand r₁ r₂ h₁ h₂
    rw [tokenizes_iff.mp h₁, tokenizes_iff.mp h₂, listedLines_append hends,
      listedLines_append hfront, listedLines_command hline hcommand, List.append_nil]
    exact joined_summary json _ _

example : tokenizeReport false "1 +\n/exit\nx = -7\n"
    = ⟨65, "IDENTIFIER x null\nEQUAL = null\nMINUS - null\nNUMBER 7 7\n",
      "1 +: Invalid expression\n"⟩ := by
  decide +kernel

end CommandLine

end LineCalc
