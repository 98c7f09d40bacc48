import LineCalc.Proofs.EncodedLines
import LineCalc.Session.Command
import LineCalc.Text.WhiteSpace
import Mathlib.Data.List.DropRight

/-!
# The lines of a text that show

Whoever reads a text line by line, trims the lines and passes over the empty ones sees its
`visibleLines` and nothing else. Two texts with the same visible lines are the same text to such a
reader.

What this leaves open is what the lines are that do not show. `visibleLines_padding` says it: white
space at the edge of a line can be put in or left out. That is all there is to a carriage return in
front of a newline, to blank lines, to indentation by whatever spaces Unicode has, and to whether
the last line has a newline; newlines are white space, too.
-/

namespace LineCalc.Text

/-! ## Trimming -/

/-- All of it is white space. -/
def White (cs : List Char) : Prop := ∀ c ∈ cs, isWhiteSpace c = true

theorem trimmed_eq (cs : List Char) :
    trimmed cs = (cs.dropWhile isWhiteSpace).rdropWhile isWhiteSpace := rfl

section

variable {cs pad : List Char}

theorem trimmed_append_left (h : White pad) (cs : List Char) :
    trimmed (pad ++ cs) = trimmed cs := by
  rw [trimmed_eq, trimmed_eq, List.dropWhile_append_of_pos h]

theorem rdropWhile_append_right (h : White pad) (cs : List Char) :
    (cs ++ pad).rdropWhile isWhiteSpace = cs.rdropWhile isWhiteSpace := by
  have hpad : ∀ c ∈ pad.reverse, isWhiteSpace c = true := fun c hc => h c (List.mem_reverse.mp hc)
  rw [List.rdropWhile, List.rdropWhile, List.reverse_append, List.dropWhile_append_of_pos hpad]

theorem trimmed_append_right (h : White pad) (cs : List Char) :
    trimmed (cs ++ pad) = trimmed cs := by
  rw [trimmed_eq, trimmed_eq, List.dropWhile_append]
  split
  · rename_i hcs
    rw [List.isEmpty_iff.mp hcs, List.dropWhile_eq_nil_iff.mpr h]
  · exact rdropWhile_append_right h _

/-- Only white space is taken away. -/
theorem trimmed_split (cs : List Char) :
    ∃ before behind, cs = before ++ trimmed cs ++ behind ∧ White before ∧ White behind := by
  refine ⟨cs.takeWhile isWhiteSpace, (cs.dropWhile isWhiteSpace).rtakeWhile isWhiteSpace, ?_,
    fun c hc => List.all_eq_true.mp List.all_takeWhile c hc, fun c => List.mem_rtakeWhile_imp⟩
  rw [trimmed_eq, List.append_assoc, List.rdropWhile_append_rtakeWhile,
    List.takeWhile_append_dropWhile]

theorem trimmed_eq_nil_iff : trimmed cs = [] ↔ White cs := by
  constructor
  · intro h
    obtain ⟨before, behind, hsplit, hbefore, hbehind⟩ := trimmed_split cs
    rw [hsplit, h, List.append_nil]
    intro c hc
    exact (List.mem_append.mp hc).elim (hbefore c) (hbehind c)
  · intro h
    rw [trimmed_eq, List.dropWhile_eq_nil_iff.mpr h]
    rfl

theorem trimmed_trimmed (cs : List Char) : trimmed (trimmed cs) = trimmed cs := by
  obtain ⟨before, behind, hsplit, hbefore, hbehind⟩ := trimmed_split cs
  have hwhole : trimmed cs = trimmed (before ++ trimmed cs ++ behind) := congrArg trimmed hsplit
  rw [trimmed_append_right hbehind, trimmed_append_left hbefore] at hwhole
  exact hwhole.symm

end

theorem trim_ofList (cs : List Char) : trim (String.ofList cs) = String.ofList (trimmed cs) := by
  rw [trim, String.toList_ofList]

theorem trim_trim (s : String) : trim (trim s) = trim s := by
  rw [trim, trim, String.toList_ofList, trimmed_trimmed]

/-! ## Visible lines -/

/-- The lines of a text, trimmed, without those that are empty then. -/
def visibleLines (cs : List Char) : List String :=
  ((lines '\n' cs).map fun line => trim (String.ofList line)).filter (· ≠ "")

section

variable {cs pad front back : List Char}

theorem of_mem_visibleLines {line : String} (h : line ∈ visibleLines cs) :
    trim line = line ∧ line ≠ "" := by
  obtain ⟨hmem, hne⟩ := List.mem_filter.mp h
  obtain ⟨l, -, rfl⟩ := List.mem_map.mp hmem
  exact ⟨trim_trim _, of_decide_eq_true hne⟩

/-- No newline is part of a line. -/
theorem newline_not_mem_of_mem_lines {cs l : List Char} (h : l ∈ lines '\n' cs) : '\n' ∉ l := by
  induction cs generalizing l with
  | nil => cases h
  | cons c cs ih =>
      rw [lines] at h
      split at h
      · rcases List.mem_cons.mp h with rfl | h
        · exact List.not_mem_nil
        · exact ih h
      · rename_i hc
        split at h
        · obtain rfl := List.mem_singleton.mp h
          simpa using Ne.symm hc
        · rename_i line rest hlines
          rw [hlines] at ih
          rcases List.mem_cons.mp h with rfl | h
          · rw [List.mem_cons, not_or]
            exact ⟨Ne.symm hc, ih List.mem_cons_self⟩
          · exact ih (List.mem_cons_of_mem _ h)

theorem newline_not_mem_of_mem_visibleLines {line : String} (h : line ∈ visibleLines cs) :
    '\n' ∉ line.toList := by
  obtain ⟨l, hl, rfl⟩ := List.mem_map.mp (List.mem_filter.mp h).1
  obtain ⟨before, behind, hsplit, -, -⟩ := trimmed_split l
  rw [trim_ofList, String.toList_ofList]
  intro hmem
  refine newline_not_mem_of_mem_lines hl ?_
  rw [hsplit]
  exact List.mem_append_left _ (List.mem_append_right _ hmem)

/-- A newline at the end of a text adds no line, or an empty one. -/
theorem lines_append_singleton (cs : List Char) :
    ∃ more, lines '\n' (cs ++ ['\n']) = lines '\n' cs ++ more ∧ (more = [] ∨ more = [[]]) := by
  induction cs with
  | nil => exact ⟨[[]], rfl, Or.inr rfl⟩
  | cons c cs ih =>
      obtain ⟨more, hlines, hmore⟩ := ih
      rw [List.cons_append, lines, lines, hlines]
      by_cases hc : c = '\n'
      · rw [if_pos hc, if_pos hc]
        exact ⟨more, rfl, hmore⟩
      · rw [if_neg hc, if_neg hc]
        cases lines '\n' cs with
        | nil => rcases hmore with rfl | rfl <;> exact ⟨[], rfl, Or.inl rfl⟩
        | cons line rest => exact ⟨more, rfl, hmore⟩

/-- A newline divides the lines in front of it from those behind it. -/
theorem visibleLines_newline (front back : List Char) :
    visibleLines (front ++ '\n' :: back) = visibleLines front ++ visibleLines back := by
  obtain ⟨more, hlines, hmore⟩ := lines_append_singleton front
  unfold visibleLines
  rw [lines_append_newline, hlines, List.map_append, List.map_append, List.filter_append,
    List.filter_append]
  rcases hmore with rfl | rfl
  · simp
  · have hempty : trim (String.ofList []) = "" := rfl
    simp [hempty]

/-- Nothing is left of a line that started: the text is empty, or it ends with a newline. -/
def EndsBetweenLines (cs : List Char) : Prop := cs = [] ∨ cs.getLast? = some '\n'

/-- **A text may be cut between two lines.** -/
theorem visibleLines_append (h : EndsBetweenLines front) (back : List Char) :
    visibleLines (front ++ back) = visibleLines front ++ visibleLines back := by
  rcases h with rfl | hlast
  · rfl
  · obtain ⟨first, rfl⟩ := List.getLast?_eq_some_iff.mp hlast
    have hnone : visibleLines [] = [] := rfl
    rw [List.append_assoc, List.singleton_append, visibleLines_newline, visibleLines_newline,
      hnone, List.append_nil]

/-- Without a newline there is one line, if it shows. -/
theorem visibleLines_of_not_mem (h : '\n' ∉ cs) :
    visibleLines cs = [trim (String.ofList cs)].filter (· ≠ "") := by
  cases cs with
  | nil => rfl
  | cons c cs =>
      have hlines : lines '\n' (c :: cs ++ []) = [c :: cs] :=
        lines_append_of_not_mem (List.cons_ne_nil c cs) h
      rw [List.append_nil] at hlines
      rw [visibleLines, hlines]
      rfl

/-! ## White space at the edge of a line -/

/-- White space in front of a text is in front of its first line, or makes lines that do not
show. -/
theorem visibleLines_append_left (h : White pad) (cs : List Char) :
    visibleLines (pad ++ cs) = visibleLines cs := by
  induction pad with
  | nil => rfl
  | cons c pad ih =>
      obtain ⟨hc, hpad⟩ := List.forall_mem_cons.mp h
      rw [List.cons_append, ← ih hpad]
      generalize pad ++ cs = cs
      by_cases hnl : c = '\n'
      · rw [hnl]
        exact visibleLines_newline [] cs
      · -- `c` joins the first line, and is trimmed away there
        have hline : ∀ l, '\n' ∉ l → visibleLines (c :: l) = visibleLines l := by
          intro l hl
          have hcl : '\n' ∉ c :: l := by
            rw [List.mem_cons, not_or]
            exact ⟨Ne.symm hnl, hl⟩
          have htrim : trimmed (c :: l) = trimmed l :=
            trimmed_append_left (List.forall_mem_singleton.mpr hc) l
          rw [visibleLines_of_not_mem hl, visibleLines_of_not_mem hcl, trim_ofList, trim_ofList,
            htrim]
        obtain ⟨l, behind, rfl, hl, hbehind⟩ := exists_first_line '\n' cs
        rcases hbehind with rfl | hhead
        · rw [List.append_nil]
          exact hline l hl
        · obtain ⟨rest, rfl⟩ := List.head?_eq_some_iff.mp hhead
          rw [← List.cons_append, visibleLines_newline, visibleLines_newline, hline l hl]

/-- White space behind a text is behind its last line, or makes lines that do not show. -/
theorem visibleLines_append_right (h : White pad) (cs : List Char) :
    visibleLines (cs ++ pad) = visibleLines cs := by
  -- the lines of `cs` one after the other; the last is where the white space goes
  induction hn : cs.length using Nat.strongRecOn generalizing cs with
  | ind n ih =>
      obtain ⟨l, behind, rfl, hl, hbehind⟩ := exists_first_line '\n' cs
      rcases hbehind with rfl | hhead
      · rw [List.append_nil]
        obtain ⟨p, rest, rfl, hp, hrest⟩ := exists_first_line '\n' pad
        have hwp : White p := fun c hc => h c (List.mem_append_left _ hc)
        have hlp : '\n' ∉ l ++ p := by
          rw [List.mem_append, not_or]
          exact ⟨hl, hp⟩
        have hline : visibleLines (l ++ p) = visibleLines l := by
          rw [visibleLines_of_not_mem hlp, visibleLines_of_not_mem hl, trim_ofList, trim_ofList,
            trimmed_append_right hwp]
        rcases hrest with rfl | hhead
        · rw [List.append_nil]
          exact hline
        · obtain ⟨r, rfl⟩ := List.head?_eq_some_iff.mp hhead
          have hwr : White r := fun c hc =>
            h c (List.mem_append_right _ (List.mem_cons_of_mem _ hc))
          have hnone : visibleLines r = [] := by
            have hr := visibleLines_append_left hwr []
            rwa [List.append_nil] at hr
          rw [← List.append_assoc, visibleLines_newline, hline, hnone, List.append_nil]
      · obtain ⟨rest, rfl⟩ := List.head?_eq_some_iff.mp hhead
        have hshorter : rest.length < n := by
          rw [← hn, List.length_append, List.length_cons]
          omega
        rw [List.append_assoc, List.cons_append, visibleLines_newline, visibleLines_newline,
          ih rest.length hshorter rest rfl]

/-- A place where a line starts or ends. -/
def IsEdge (front back : List Char) : Prop :=
  EndsBetweenLines front ∨ back = [] ∨ back.head? = some '\n'

/-- **White space at the edge of a line makes no difference.** -/
theorem visibleLines_padding (hedge : IsEdge front back) (h : White pad) :
    visibleLines (front ++ pad ++ back) = visibleLines (front ++ back) := by
  rcases hedge with hfront | rfl | hhead
  · rw [List.append_assoc, visibleLines_append hfront, visibleLines_append_left h,
      visibleLines_append hfront]
  · rw [List.append_nil, List.append_nil]
    exact visibleLines_append_right h front
  · obtain ⟨rest, rfl⟩ := List.head?_eq_some_iff.mp hhead
    rw [visibleLines_newline, visibleLines_newline, visibleLines_append_right h]

end

/-- Endings, indentation, blank lines and a newline at the end. -/
example : visibleLines "\u00a0x = 2\r\n\r\n \tx * x\n".toList = ["x = 2", "x * x"] := by
  decide +kernel

/-! ## Bytes -/

/-- The lines of the bytes of a text are its lines. -/
theorem decodedLines_of_decode? {bytes : List UInt8} {text : String}
    (h : decode? bytes = some text) :
    decodedLines bytes = (lines '\n' text.toList).map fun line => some (String.ofList line) := by
  rw [decodedLines, decode?_eq_some_iff.mp h, lines_encode, List.map_map]
  exact List.map_congr_left fun line _ => decode?_encode line

end LineCalc.Text

namespace LineCalc

/-! ## Commands -/

/-- The line starts like a command. -/
def startsCommand (line : String) : Bool := line.toList.head? = some '/'

theorem Command.isSome_ofLine? (line : String) :
    (ofLine? line).isSome = startsCommand line := by
  unfold ofLine? startsCommand
  split <;> simp_all

end LineCalc
