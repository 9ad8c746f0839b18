import BlockSynth.Program.Ledger
import BlockSynth.Proofs.Text.Indent
import BlockSynth.Proofs.Text.Tidy

/-! # Reindented templates

Templates step by two spaces and are rewritten to the unit of a configuration. Every line keeps what
follows its steps, an odd space included, and no line is split or joined. Steps are cut off in
bytes, and a space is one byte, so no cut goes through a character. The unit of two spaces is no
exception, although it takes a shortcut, and tabs can be turned back into spaces.
-/
namespace BlockSynth.Chars

variable {unit line text : List Char}

/-- How many spaces a line begins with. -/
def indentation (line : List Char) : Nat :=
  (line.takeWhile (· == ' ')).length

/-- The steps of two spaces that a line begins with. -/
def steps (line : List Char) : Nat :=
  indentation line / 2

/-! ### Leading spaces -/

theorem spaces_append_dropWhile (line : List Char) :
    List.replicate (indentation line) ' ' ++ line.dropWhile (· == ' ') = line := by
  have hspaces : line.takeWhile (· == ' ') = List.replicate (indentation line) ' ' := by
    refine List.eq_replicate_iff.mpr ⟨rfl, fun c hc => ?_⟩
    simpa using List.mem_takeWhile_imp hc
  rw [← hspaces, List.takeWhile_append_dropWhile]

theorem two_mul_steps_add (line : List Char) :
    2 * steps line + indentation line % 2 = indentation line :=
  Nat.div_add_mod _ 2

/-- What is behind the steps of a line: a space if their number was odd, and then the
line without its spaces. -/
theorem drop_steps (line : List Char) : line.drop (2 * steps line) =
    List.replicate (indentation line % 2) ' ' ++ line.dropWhile (· == ' ') := by
  have hline : line = List.replicate (2 * steps line) ' ' ++
      (List.replicate (indentation line % 2) ' ' ++ line.dropWhile (· == ' ')) := by
    rw [← List.append_assoc, ← List.replicate_add, two_mul_steps_add, spaces_append_dropWhile]
  calc line.drop (2 * steps line)
      = (List.replicate (2 * steps line) ' ' ++ _).drop (2 * steps line) :=
    congrArg (List.drop _) hline
    _ = _ := List.drop_left' List.length_replicate

theorem spaces_append_drop_steps (line : List Char) :
    List.replicate (2 * steps line) ' ' ++ line.drop (2 * steps line) = line := by
  rw [drop_steps, ← List.append_assoc, ← List.replicate_add, two_mul_steps_add,
    spaces_append_dropWhile]

theorem leadingSteps_eq (line : List Char) :
    leadingSteps line = (steps line, line.drop (2 * steps line)) := by
  induction line using leadingSteps.induct with
  | case1 rest count more hrest ih =>
    have hspaces : indentation (' ' :: ' ' :: rest) = indentation rest + 2 := by simp [indentation]
    have hsteps : steps (' ' :: ' ' :: rest) = steps rest + 1 := by
      rw [steps, hspaces, Nat.add_div_right _ Nat.two_pos]
      rfl
    rw [leadingSteps, ih, hsteps]
    rfl
  | case2 line h =>
    have hsteps : steps line = 0 := by
      match line, h with
      | [], _ => rfl
      | [c], _ => by_cases hc : c = ' ' <;> simp [steps, indentation, hc]
      | c :: d :: rest, h =>
        by_cases hc : c = ' '
        · by_cases hd : d = ' '
          · exact absurd rfl (hc ▸ hd ▸ h rest)
          · simp [steps, indentation, hc, hd]
        · simp [steps, indentation, hc]
    rw [leadingSteps.eq_2 line h, hsteps]
    rfl

theorem reindentLine_eq (unit line : List Char) :
    reindentLine unit line = units (steps line) unit ++ line.drop (2 * steps line) := by
  rw [reindentLine, leadingSteps_eq]
  rfl

/-! ### Lines -/

theorem newline_not_mem_reindentLine (hunit : '\n' ∉ unit) (h : '\n' ∉ line) :
    '\n' ∉ reindentLine unit line := by
  rw [reindentLine_eq, List.mem_append, not_or]
  exact ⟨newline_not_mem_units hunit _, fun hmem => h (List.mem_of_mem_drop hmem)⟩

theorem splitLines_reindentLines (hunit : '\n' ∉ unit) (text : List Char) :
    splitLines (reindentLines unit text) = (splitLines text).map (reindentLine unit) := by
  refine splitLines_joinLines (by simpa using splitLines_ne_nil text) ?_
  rw [List.forall_mem_map]
  exact fun line hline =>
    newline_not_mem_reindentLine hunit (newline_not_mem_splitLines text line hline)

/-- Two spaces stand for two spaces. -/
theorem reindentLines_spaces (text : List Char) : reindentLines [' ', ' '] text = text := by
  have hline : ∀ line, reindentLine [' ', ' '] line = line := by
    intro line
    have hspaces : units (steps line) [' ', ' '] = List.replicate (2 * steps line) ' ' := by
      rw [Nat.mul_comm]
      exact List.flatten_replicate_replicate (m := 2)
    rw [reindentLine_eq, hspaces, spaces_append_drop_steps]
  rw [reindentLines, List.map_congr_left fun line _ => hline line, List.map_id',
    joinLines_splitLines]

/-! ### Bytes -/

theorem utf8Encode_spaces (n : Nat) : (List.replicate n ' ').utf8Encode.size = n := by
  induction n with
  | zero => rfl
  | succ n ih =>
    rw [List.replicate_succ, List.utf8Encode_cons, ByteArray.size_append, ih]
    show 1 + n = n + 1
    exact Nat.add_comm 1 n

/-- The leading spaces are as many as the bytes that go with them. -/
theorem size_sub_size_dropWhile (line : List Char) :
    line.utf8Encode.size - (line.dropWhile (· == ' ')).utf8Encode.size = indentation line := by
  have hsize : line.utf8Encode.size =
      indentation line + (line.dropWhile (· == ' ')).utf8Encode.size := by
    conv_lhs =>
      rw [← spaces_append_dropWhile line, List.utf8Encode_append, ByteArray.size_append,
        utf8Encode_spaces]
  rw [hsize, Nat.add_sub_cancel]

/-- The bytes behind the steps of a line are those of the characters behind them. -/
theorem extract_steps (line : List Char) :
    line.utf8Encode.extract (2 * steps line) line.utf8Encode.size =
      (line.drop (2 * steps line)).utf8Encode := by
  have hsplit : line.utf8Encode = (List.replicate (2 * steps line) ' ').utf8Encode ++
        (line.drop (2 * steps line)).utf8Encode := by
    rw [← List.utf8Encode_append, spaces_append_drop_steps]
  rw [hsplit]
  apply ByteArray.extract_append_eq_right
  · exact (utf8Encode_spaces _).symm
  · exact ByteArray.size_append

/-! ### Tabs -/

/-- A line with two spaces in place of each tab that it begins with. -/
def expandTabs : List Char → List Char
  | '\t' :: rest => ' ' :: ' ' :: expandTabs rest
  | line => line

theorem expandTabs_tabs_append (n : Nat) {rest : List Char} (h : rest.head? ≠ some '\t') :
    expandTabs (List.replicate n '\t' ++ rest) = List.replicate (2 * n) ' ' ++ rest := by
  induction n with
  | zero =>
    refine expandTabs.eq_2 rest fun more hrest => ?_
    rw [hrest] at h
    exact h rfl
  | succ n ih =>
    rw [List.replicate_succ, List.cons_append, expandTabs, ih]
    rfl

/-- A line whose first character other than a space is no tab gets its spaces back from tabs. -/
theorem expandTabs_reindentLine (h : (line.dropWhile (· == ' ')).head? ≠ some '\t') :
    expandTabs (reindentLine ['\t'] line) = line := by
  have hrest : (line.drop (2 * steps line)).head? ≠ some '\t' := by
    rw [drop_steps]
    rcases Nat.mod_two_eq_zero_or_one (indentation line) with heven | hodd
    · rwa [heven]
    · rw [hodd]
      exact fun hspace => absurd (Option.some.inj hspace) (by decide)
  rw [reindentLine_eq, units, List.flatten_replicate_singleton, expandTabs_tabs_append _ hrest,
    spaces_append_drop_steps]

end BlockSynth.Chars

namespace BlockSynth.Text

open Chars

theorem toList_reindent (unit text : String) :
    (reindent unit text).toList = reindentLines unit.toList text.toList := by
  unfold reindent
  split
  · rename_i hunit
    rw [hunit]
    exact (reindentLines_spaces text.toList).symm
  · exact String.toList_ofList

/-- Reindenting rewrites the leading spaces of every line and nothing else. A line
keeps what is behind its steps of two spaces, the lines stay as many as they are, and
where a line is cut at a number of bytes it is cut between characters. The unit of two
spaces takes a shortcut to the text itself, which the other way would have given, too.
Tabs that come from steps are turned back into them. -/
theorem reindenting_is_exact {unit : String} (hunit : '\n' ∉ unit.toList) (text : String) :
    (splitLines (reindent unit text).toList = (splitLines text.toList).map fun line =>
        let k := indentation line / 2
        (List.replicate k unit.toList).flatten ++ line.drop (2 * k)) ∧
      (splitLines (reindent unit text).toList).length = (splitLines text.toList).length ∧
      (∀ line ∈ splitLines text.toList,
        let spaces := line.utf8Encode.size - (line.dropWhile (· == ' ')).utf8Encode.size
        spaces = indentation line ∧ line.utf8Encode.extract (spaces / 2 * 2) line.utf8Encode.size =
          (line.drop (2 * (indentation line / 2))).utf8Encode) ∧
      (reindent unit text).toList = reindentLines unit.toList text.toList ∧
      reindentLines "  ".toList text.toList = text.toList ∧
      (unit = "\t" →
        (∀ line ∈ splitLines text.toList, (line.dropWhile (· == ' ')).head? ≠ some '\t') →
        joinLines ((splitLines (reindent unit text).toList).map expandTabs) = text.toList) := by
  have hlines : splitLines (reindent unit text).toList =
      (splitLines text.toList).map (reindentLine unit.toList) := by
    rw [toList_reindent, splitLines_reindentLines hunit]
  refine ⟨?_, ?_, fun line _ => ?_, toList_reindent unit text, reindentLines_spaces text.toList, ?_⟩
  · rw [hlines]
    exact List.map_congr_left fun line _ => reindentLine_eq unit.toList line
  · rw [hlines, List.length_map]
  · refine ⟨size_sub_size_dropWhile line, ?_⟩
    rw [size_sub_size_dropWhile, Nat.mul_comm]
    exact extract_steps line
  · rintro rfl htabs
    have hback : ∀ line ∈ splitLines text.toList, expandTabs (reindentLine ['\t'] line) = line :=
      fun line hline => expandTabs_reindentLine (htabs line hline)
    rw [hlines, List.map_map]
    calc joinLines ((splitLines text.toList).map (expandTabs ∘ reindentLine ['\t']))
        = joinLines ((splitLines text.toList).map id) :=
      congrArg joinLines (List.map_congr_left hback)
      _ = text.toList := by rw [List.map_id, joinLines_splitLines]

/-- An odd number of spaces before a character of two bytes, a blank line, and a step
behind a step. -/
theorem odd_space_stays_behind_the_tab :
    let text := "fn\n   é\n\n    c"
    '\n' ∉ "\t".toList ∧ reindent "\t" text = "fn\n\t é\n\n\t\tc" ∧
      (splitLines (reindent "\t" text).toList).length = (splitLines text.toList).length ∧
      joinLines ((splitLines (reindent "\t" text).toList).map expandTabs) = text.toList := by
  intro text
  have hunit : '\n' ∉ "\t".toList := by decide
  obtain ⟨-, hlength, -, -, -, htabs⟩ := reindenting_is_exact hunit text
  exact ⟨hunit, by decide, hlength, htabs rfl (by decide)⟩

end BlockSynth.Text
