import BlockSynth.Proofs.Text.Lines

/-! # Remarks among the lines of a text

A remark is a line that begins with two slashes. A text may be another one with remarks strewn into
it. What shortens runs of newlines and takes blank lines off the ends of a text could tell the two
apart, since a remark breaks up a run; it cannot if every remark stands right behind a line that is
not blank, or right before one.
-/
namespace BlockSynth.Chars

/-- The first characters of the line that are not blank are two slashes. -/
def isRemark (line : List Char) : Bool :=
  ['/', '/'].isPrefixOf (trimStart line)

def isSolid (line : List Char) : Bool :=
  line.any fun c => !isBlank c

/-- The lines of a text that are no remarks. -/
def withoutRemarks (text : List Char) : List Char :=
  ((pieces text).filter fun piece => !isRemark piece).flatten

/-! ### Lines -/

theorem isRemark_blanks_append {blanks : List Char}
    (h : ∀ c ∈ blanks, isBlank c = true) (line : List Char) :
    isRemark (blanks ++ line) = isRemark line := by
  unfold isRemark trimStart
  rw [List.dropWhile_append_of_pos h]

theorem isRemark_append_blanks {blanks : List Char}
    (h : ∀ c ∈ blanks, isBlank c = true) (line : List Char) :
    isRemark (line ++ blanks) = isRemark line := by
  have hblanks : blanks.dropWhile isBlank = [] := List.dropWhile_eq_nil_iff.mpr h
  unfold isRemark trimStart
  rw [List.dropWhile_append]
  cases line.dropWhile isBlank with
  | nil => simp [hblanks]
  | cons c rest =>
    cases rest with
    | cons d more => rfl
    | nil =>
      -- One slash and blanks behind it do not make a remark.
      cases blanks with
      | nil => rfl
      | cons b more =>
        have hb : b ≠ '/' := by
          rintro rfl
          exact absurd (h '/' List.mem_cons_self) (by decide)
        simp [List.isPrefixOf, hb.symm]

theorem isRemark_trimEnd (line : List Char) : isRemark (trimEnd line) = isRemark line := by
  obtain ⟨blanks, hline, hblanks⟩ := exists_trimEnd_append line
  calc isRemark (trimEnd line)
      = isRemark (trimEnd line ++ blanks) := (isRemark_append_blanks hblanks _).symm
    _ = isRemark line := by rw [← hline]

theorem isSolid_blanks_append {blanks : List Char}
    (h : ∀ c ∈ blanks, isBlank c = true) (line : List Char) :
    isSolid (blanks ++ line) = isSolid line := by
  have hblanks : blanks.any (fun c => !isBlank c) = false := by
    simpa using h
  rw [isSolid, List.any_append, hblanks, Bool.false_or]
  rfl

theorem isSolid_of_mem {line : List Char} {c : Char} (hmem : c ∈ line) (hc : isBlank c = false) :
    isSolid line = true :=
  List.any_eq_true.mpr ⟨c, hmem, by simp [hc]⟩

theorem ne_nil_of_isSolid {line : List Char} (h : isSolid line = true) : line ≠ [] := by
  rintro rfl
  simp [isSolid] at h

theorem isSolid_of_isRemark {line : List Char} (h : isRemark line = true) :
    isSolid line = true := by
  have hmem : '/' ∈ trimStart line := (List.isPrefixOf_iff_prefix.mp h).subset List.mem_cons_self
  exact isSolid_of_mem ((List.dropWhile_suffix isBlank).subset hmem) (by decide)

/-- A line that is not solid is trimmed to nothing. -/
theorem trimEnd_eq_nil_iff {line : List Char} : trimEnd line = [] ↔ isSolid line = false := by
  simp [trimEnd, isSolid]

/-! ### Texts of whole lines -/

/-- Lines that hold no newline. -/
def Lines (lines : List (List Char)) : Prop :=
  ∀ line ∈ lines, '\n' ∉ line

theorem pieces_unlines {lines : List (List Char)} (h : Lines lines) :
    pieces (unlines lines) = lines.map (· ++ ['\n']) := by
  induction lines with
  | nil => rfl
  | cons line rest ih =>
    rw [Lines, List.forall_mem_cons] at h
    rw [unlines_cons, pieces_line h.1, ih h.2, List.map_cons]

theorem pieces_unlines_append {lines : List (List Char)} {last : List Char}
    (h : Lines lines) (hlast : '\n' ∉ last) (hne : last ≠ []) :
    pieces (unlines lines ++ last) = lines.map (· ++ ['\n']) ++ [last] := by
  induction lines with
  | nil => simp [pieces_last hlast, hne]
  | cons line rest ih =>
    rw [Lines, List.forall_mem_cons] at h
    rw [unlines_cons, List.append_assoc, List.cons_append, pieces_line h.1, ih h.2,
      List.map_cons, List.cons_append]

theorem withoutRemarks_unlines {lines : List (List Char)} (h : Lines lines) :
    withoutRemarks (unlines lines) = unlines (lines.filter fun line => !isRemark line) := by
  have hbreak : ∀ line, isRemark (line ++ ['\n']) = isRemark line :=
    isRemark_append_blanks (List.forall_mem_singleton.mpr (by decide))
  unfold withoutRemarks unlines
  rw [← unlines, pieces_unlines h, List.filter_map, List.flatMap]
  simp only [Function.comp_def, hbreak]

theorem prefixLines_unlines (mark : List Char) {lines : List (List Char)} (h : Lines lines) :
    prefixLines mark (unlines lines) = unlines (lines.map (mark ++ ·)) := by
  rw [prefixLines, pieces_unlines h, unlines, List.flatMap_map, List.flatMap_map]
  simp only [List.append_assoc]

/-! ### Scattered remarks -/

/-- Texts that differ in their remarks. -/
def Scattered (text bare : List Char) : Prop :=
  ∃ lines plain, Lines lines ∧ Lines plain ∧ text = unlines lines ∧ bare = unlines plain ∧
    lines.filter (fun line => !isRemark line) = plain.filter fun line => !isRemark line

theorem Scattered.append {text bare more plain : List Char} (h : Scattered text bare)
    (hmore : Scattered more plain) : Scattered (text ++ more) (bare ++ plain) := by
  obtain ⟨lines, lines', hlines, hlines', rfl, rfl, hfilter⟩ := h
  obtain ⟨after, after', hafter, hafter', rfl, rfl, hrest⟩ := hmore
  refine ⟨lines ++ after, lines' ++ after', List.forall_mem_append.mpr ⟨hlines, hafter⟩,
    List.forall_mem_append.mpr ⟨hlines', hafter'⟩, (unlines_append _ _).symm,
    (unlines_append _ _).symm, ?_⟩
  rw [List.filter_append, List.filter_append, hfilter, hrest]

/-! ### Strewn remarks -/

/-- The text has a first line, and something is on it. -/
def OpensSolid (text : List Char) : Prop :=
  ∃ line rest, '\n' ∉ line ∧ isSolid line = true ∧ text = line ++ '\n' :: rest

/-- The first text is the second one with remarks strewn into it. The line before them is solid if
they are `settled`, and the last line is solid if they are to `settle` what follows. -/
inductive Strewn : Bool → Bool → List Char → List Char → Prop
  | nil {settled settles : Bool} : (settles = true → settled = true) → Strewn settled settles [] []
  | line {settled settles : Bool} {line text bare : List Char} :
    '\n' ∉ line → Strewn (isSolid line) settles text bare →
      Strewn settled settles (line ++ '\n' :: text) (line ++ '\n' :: bare)
  | remark {settled settles : Bool} {line text bare : List Char} :
    '\n' ∉ line → isRemark line = true → settled = true ∨ OpensSolid bare →
      Strewn settled settles text bare → Strewn settled settles (line ++ '\n' :: text) bare

variable {settled settles : Bool} {text bare : List Char}

theorem OpensSolid.append (h : OpensSolid text) (more : List Char) : OpensSolid (text ++ more) := by
  obtain ⟨line, rest, hline, hsolid, rfl⟩ := h
  exact ⟨line, rest ++ more, hline, hsolid, by simp⟩

theorem opensSolid_cons {c : Char} (hc : isBlank c = false) {rest : List Char} (h : '\n' ∈ rest) :
    OpensSolid (c :: rest) := by
  obtain ⟨line, more, rfl, hline⟩ := List.eq_append_cons_of_mem h
  refine ⟨c :: line, more, ?_, isSolid_of_mem List.mem_cons_self hc, rfl⟩
  simp only [List.mem_cons, not_or]
  refine ⟨?_, hline⟩
  rintro rfl
  exact absurd hc (by decide)

namespace Strewn

/-- Behind a solid line nothing more is asked for. -/
theorem settle (h : Strewn false settles text bare) (settled : Bool) :
    Strewn settled settles text bare := by
  generalize hunsettled : false = before at h
  induction h with
  | nil hsettles =>
    subst hunsettled
    exact .nil fun hs => absurd (hsettles hs) Bool.false_ne_true
  | line hline hrest _ => exact .line hline hrest
  | remark hline hremark hplace _ ih =>
    subst hunsettled
    exact .remark hline hremark (.inr (hplace.resolve_left Bool.false_ne_true)) (ih rfl)

theorem unsettle (h : Strewn settled settles text bare) : Strewn settled false text bare := by
  induction h with
  | nil _ => exact .nil fun hs => absurd hs Bool.false_ne_true
  | line hline _ ih => exact .line hline ih
  | remark hline hremark hplace _ ih => exact .remark hline hremark hplace ih

theorem append {settles' : Bool} {more plain : List Char}
    (h : Strewn settled settles text bare) (hmore : Strewn settles settles' more plain) :
    Strewn settled settles' (text ++ more) (bare ++ plain) := by
  induction h with
  | @nil settled settles hsettles =>
    cases settles with
    | false => exact hmore.settle settled
    | true =>
      rw [hsettles rfl]
      exact hmore
  | line hline _ ih =>
    rw [List.append_assoc, List.append_assoc]
    exact .line hline (ih hmore)
  | remark hline hremark hplace _ ih =>
    rw [List.append_assoc]
    exact .remark hline hremark (hplace.imp_right fun hsolid => hsolid.append plain) (ih hmore)

theorem scattered (h : Strewn settled settles text bare) : Scattered text bare := by
  induction h with
  | nil _ => exact ⟨[], [], List.forall_mem_nil _, List.forall_mem_nil _, rfl, rfl, rfl⟩
  | @line settled settles line text bare hline _ ih =>
    obtain ⟨lines, plain, hlines, hplain, rfl, rfl, hfilter⟩ := ih
    refine ⟨line :: lines, line :: plain, List.forall_mem_cons.mpr ⟨hline, hlines⟩,
      List.forall_mem_cons.mpr ⟨hline, hplain⟩, (unlines_cons _ _).symm,
      (unlines_cons _ _).symm, ?_⟩
    rw [List.filter_cons, List.filter_cons, hfilter]
  | @remark settled settles line text bare hline hremark hplace _ ih =>
    obtain ⟨lines, plain, hlines, hplain, rfl, hbare, hfilter⟩ := ih
    refine ⟨line :: lines, plain, List.forall_mem_cons.mpr ⟨hline, hlines⟩, hplain,
      (unlines_cons _ _).symm, hbare, ?_⟩
    rw [List.filter_cons, hremark, ← hfilter]
    rfl

end Strewn

/-! ### Texts without remarks of their own -/

/-- A text with a newline behind it, whatever there is in it. -/
theorem strewn_newline (settled : Bool) (text : List Char) :
    Strewn settled false (text ++ ['\n']) (text ++ ['\n']) := by
  induction text using line_induction generalizing settled with
  | last line hline => exact .line hline (.nil fun hs => absurd hs Bool.false_ne_true)
  | more line rest hline ih =>
    rw [List.append_assoc]
    exact .line hline (ih (isSolid line))

theorem scattered_newline (text : List Char) : Scattered (text ++ ['\n']) (text ++ ['\n']) :=
  (strewn_newline true text).scattered

/-- A text that ends in a character that can be seen, and a newline. -/
theorem strewn_solid (settled : Bool) (text : List Char) {c : Char} (hc : isBlank c = false) :
    Strewn settled true (text ++ [c, '\n']) (text ++ [c, '\n']) := by
  induction text using line_induction generalizing settled with
  | last line hline =>
    have hsolid : isSolid (line ++ [c]) = true := isSolid_of_mem (by simp) hc
    have hbreak : '\n' ∉ line ++ [c] := by
      rw [List.mem_append, not_or]
      refine ⟨hline, fun hmem => ?_⟩
      obtain rfl := List.mem_singleton.mp hmem
      exact absurd hc (by decide)
    have hwhole : Strewn settled true ((line ++ [c]) ++ '\n' :: []) ((line ++ [c]) ++ '\n' :: []) :=
      .line hbreak (.nil fun _ => hsolid)
    simpa using hwhole
  | more line rest hline ih =>
    rw [List.append_assoc]
    exact .line hline (ih (isSolid line))

/-- Lines that are all remarks. -/
def Remarks (text : List Char) : Prop :=
  ∃ lines, Lines lines ∧ (∀ line ∈ lines, isRemark line = true) ∧ text = unlines lines

theorem remarks_nil : Remarks [] :=
  ⟨[], List.forall_mem_nil _, List.forall_mem_nil _, rfl⟩

theorem Remarks.append {more : List Char} (h : Remarks text) (hmore : Remarks more) :
    Remarks (text ++ more) := by
  obtain ⟨lines, hlines, hremarks, rfl⟩ := h
  obtain ⟨after, hafter, hremarks', rfl⟩ := hmore
  exact ⟨lines ++ after, List.forall_mem_append.mpr ⟨hlines, hafter⟩,
    List.forall_mem_append.mpr ⟨hremarks, hremarks'⟩, (unlines_append _ _).symm⟩

theorem Strewn.remarks {remarks : List Char} (h : Strewn settled settles text bare)
    (hremarks : Remarks remarks) (hplace : settled = true ∨ OpensSolid bare) :
    Strewn settled settles (remarks ++ text) bare := by
  obtain ⟨lines, hlines, hall, rfl⟩ := hremarks
  induction lines with
  | nil => exact h
  | cons line rest ih =>
    rw [Lines, List.forall_mem_cons] at hlines
    rw [List.forall_mem_cons] at hall
    rw [unlines_cons, List.append_assoc]
    exact .remark hlines.1 hall.1 hplace (ih hlines.2 hall.2)

/-- Whole lines become remarks when each is marked as one. -/
theorem remarks_prefixLines {mark : List Char} (hmark : '\n' ∉ mark)
    (hremark : ∀ line, isRemark (mark ++ line) = true) (text : List Char) :
    Remarks (prefixLines mark (text ++ ['\n'])) := by
  have hmarked : ∀ {line : List Char}, '\n' ∉ line → Remarks (mark ++ (line ++ ['\n'])) := by
    intro line hline
    have hbreak : '\n' ∉ mark ++ line := by
      rw [List.mem_append, not_or]
      exact ⟨hmark, hline⟩
    exact ⟨[mark ++ line], by simpa [Lines] using hbreak, by simp [hremark], by simp⟩
  induction text using line_induction with
  | last line hline =>
    rw [prefixLines_line mark hline]
    simpa [prefixLines, pieces] using hmarked hline
  | more line rest hline ih =>
    rw [List.append_assoc, List.cons_append, prefixLines_line mark hline]
    exact (hmarked hline).append ih

/-! ### Indentation -/

theorem OpensSolid.prefixLines {mark : List Char} (h : OpensSolid text) (hmark : '\n' ∉ mark) :
    OpensSolid (prefixLines mark text) := by
  obtain ⟨line, rest, hline, hsolid, rfl⟩ := h
  rw [prefixLines_line mark hline]
  refine ⟨mark ++ line, Chars.prefixLines mark rest, ?_, ?_, by simp⟩
  · rw [List.mem_append, not_or]
    exact ⟨hmark, hline⟩
  · rw [isSolid, List.any_append, Bool.or_eq_true]
    exact .inr hsolid

theorem Strewn.prefixLines {mark : List Char} (h : Strewn settled settles text bare)
    (hmark : '\n' ∉ mark) (hblank : ∀ c ∈ mark, isBlank c = true) :
    Strewn settled settles (prefixLines mark text) (prefixLines mark bare) := by
  have hbreak : ∀ {line : List Char}, '\n' ∉ line → '\n' ∉ mark ++ line := by
    intro line hline
    rw [List.mem_append, not_or]
    exact ⟨hmark, hline⟩
  have hsplit : ∀ line rest : List Char,
      mark ++ (line ++ ['\n']) ++ rest = (mark ++ line) ++ '\n' :: rest := by
    intro line rest
    simp
  induction h with
  | nil hsettles => exact .nil hsettles
  | line hline _ ih =>
    rw [prefixLines_line mark hline, prefixLines_line mark hline, hsplit, hsplit]
    rw [← isSolid_blanks_append hblank] at ih
    exact .line (hbreak hline) ih
  | remark hline hremark hplace _ ih =>
    rw [prefixLines_line mark hline, hsplit]
    rw [← isRemark_blanks_append hblank] at hremark
    exact .remark (hbreak hline) hremark
      (hplace.imp_right fun hsolid => hsolid.prefixLines hmark) ih

theorem Scattered.prefixLines {mark : List Char} (h : Scattered text bare)
    (hmark : '\n' ∉ mark) (hblank : ∀ c ∈ mark, isBlank c = true) :
    Scattered (prefixLines mark text) (prefixLines mark bare) := by
  obtain ⟨lines, plain, hlines, hplain, rfl, rfl, hfilter⟩ := h
  have hmarked : ∀ {lines}, Lines lines → Lines (lines.map (mark ++ ·)) := by
    intro lines hlines line hline
    obtain ⟨unmarked, hmem, rfl⟩ := List.mem_map.mp hline
    rw [List.mem_append, not_or]
    exact ⟨hmark, hlines unmarked hmem⟩
  refine ⟨_, _, hmarked hlines, hmarked hplain, prefixLines_unlines mark hlines,
    prefixLines_unlines mark hplain, ?_⟩
  rw [List.filter_map, List.filter_map]
  simp only [Function.comp_def, isRemark_blanks_append hblank, hfilter]

/-! ### Runs of newlines -/

theorem collapseAfter_line {line : List Char} (hline : '\n' ∉ line)
    (hne : line ≠ []) (seen : Nat) (rest : List Char) :
    collapseAfter seen (line ++ '\n' :: rest) = line ++ '\n' :: collapseAfter 1 rest := by
  obtain ⟨c, more, rfl⟩ := List.exists_cons_of_ne_nil hne
  simp only [List.mem_cons, not_or] at hline
  rw [List.cons_append, collapseAfter, if_neg (Ne.symm hline.1), collapseAfter_line_append hline.2]
  rfl

theorem OpensSolid.collapseAfter (h : OpensSolid text) (seen : Nat) :
    OpensSolid (collapseAfter seen text) := by
  obtain ⟨line, rest, hline, hsolid, rfl⟩ := h
  rw [collapseAfter_line hline (ne_nil_of_isSolid hsolid)]
  exact ⟨line, Chars.collapseAfter 1 rest, hline, hsolid, rfl⟩

theorem not_opensSolid_newline (text : List Char) : ¬OpensSolid ('\n' :: text) := by
  rintro ⟨line, rest, hline, hsolid, heq⟩
  cases line with
  | nil => simp [isSolid] at hsolid
  | cons c more =>
    obtain ⟨rfl, -⟩ := List.cons.inj heq
    exact hline List.mem_cons_self

/-- A run of newlines is shortened alike in both texts: as many have been seen in the one as in the
other, or none count because the next line is solid. -/
theorem Strewn.collapseAfter (h : Strewn settled settles text bare) {seen seen' : Nat}
    (hseen : seen = seen' ∨ OpensSolid bare) (hsettled : settled = true → seen' = 1) :
    Strewn settled settles (collapseAfter seen text) (collapseAfter seen' bare) := by
  induction h generalizing seen seen' with
  | nil hsettles => exact .nil hsettles
  | @line settled settles line text bare hline _ ih =>
    by_cases hne : line = []
    · subst hne
      -- No remark stands right before a blank line unless a solid one is in front of
      -- it, so both counts are equal here.
      obtain rfl : seen = seen' := hseen.resolve_right (not_opensSolid_newline bare)
      rw [List.nil_append, List.nil_append, Chars.collapseAfter, Chars.collapseAfter,
        if_pos rfl, if_pos rfl]
      split
      · exact .line hline (ih (.inl rfl) fun hs => absurd hs Bool.false_ne_true)
      · exact (ih (.inl rfl) fun hs => absurd hs Bool.false_ne_true).settle settled
    · rw [collapseAfter_line hline hne, collapseAfter_line hline hne]
      exact .line hline (ih (.inl rfl) fun _ => rfl)
  | @remark settled settles line text bare hline hremark hplace _ ih =>
    rw [collapseAfter_line hline (ne_nil_of_isSolid (isSolid_of_isRemark hremark))]
    refine .remark hline hremark
      (hplace.imp_right fun hsolid => hsolid.collapseAfter seen') (ih ?_ hsettled)
    exact hplace.imp_left fun hs => (hsettled hs).symm

/-! ### The ends of a text -/

theorem dropWhile_newline_line {line : List Char}
    (hline : '\n' ∉ line) (hne : line ≠ []) (rest : List Char) :
    (line ++ '\n' :: rest).dropWhile (· == '\n') = line ++ '\n' :: rest := by
  obtain ⟨c, more, rfl⟩ := List.exists_cons_of_ne_nil hne
  have hc : c ≠ '\n' := fun heq => hline (heq ▸ List.mem_cons_self)
  simp [hc]

/-- Newlines in front of both texts are dropped alike. -/
theorem Strewn.dropNewlines (h : Strewn false settles text bare) :
    Strewn false settles (text.dropWhile (· == '\n')) (bare.dropWhile (· == '\n')) := by
  generalize hunsettled : false = settled at h
  induction h with
  | nil hsettles => exact .nil hsettles
  | @line settled settles line text bare hline hrest ih =>
    by_cases hne : line = []
    · subst hne hunsettled
      simpa [isSolid] using ih rfl
    · rw [dropWhile_newline_line hline hne, dropWhile_newline_line hline hne]
      exact .line hline hrest
  | @remark settled settles line text bare hline hremark hplace hrest ih =>
    subst hunsettled
    obtain ⟨first, rest, hfirst, hsolid, rfl⟩ := hplace.resolve_left Bool.false_ne_true
    rw [dropWhile_newline_line hline (ne_nil_of_isSolid (isSolid_of_isRemark hremark)),
      dropWhile_newline_line hfirst (ne_nil_of_isSolid hsolid)]
    exact .remark hline hremark hplace hrest

/-- The text without the newlines at its end. -/
def dropEndNewlines (text : List Char) : List Char :=
  (text.reverse.dropWhile (· == '\n')).reverse

theorem dropEndNewlines_line {line : List Char} (hline : '\n' ∉ line) (rest : List Char) :
    dropEndNewlines (line ++ '\n' :: rest) =
      if dropEndNewlines rest = [] then line else line ++ '\n' :: dropEndNewlines rest := by
  have hkeep : line.reverse.dropWhile (· == '\n') = line.reverse := by
    cases hreverse : line.reverse with
    | nil => rfl
    | cons c more =>
      have hc : c ≠ '\n' := by
        rintro rfl
        exact hline (List.mem_reverse.mp (hreverse ▸ List.mem_cons_self))
      simp [hc]
  unfold dropEndNewlines
  rw [List.reverse_append, List.reverse_cons, List.append_assoc, List.dropWhile_append]
  by_cases hrest : rest.reverse.dropWhile (· == '\n') = []
  · simp [hrest, hkeep]
  · simp [hrest]

/-- The lines of the text up to the last one that is not empty. -/
def closeLines (text : List Char) : List Char :=
  if dropEndNewlines text = [] then [] else dropEndNewlines text ++ ['\n']

theorem closeLines_line {line : List Char} (hline : '\n' ∉ line) (rest : List Char) :
    closeLines (line ++ '\n' :: rest) =
      if line = [] ∧ closeLines rest = [] then [] else line ++ '\n' :: closeLines rest := by
  unfold closeLines
  rw [dropEndNewlines_line hline]
  by_cases hrest : dropEndNewlines rest = []
  · by_cases hnil : line = []
    · simp [hrest, hnil]
    · simp [hrest, hnil]
  · simp [hrest]

theorem OpensSolid.closeLines (h : OpensSolid text) : OpensSolid (closeLines text) := by
  obtain ⟨line, rest, hline, hsolid, rfl⟩ := h
  have hne := ne_nil_of_isSolid hsolid
  rw [closeLines_line hline, if_neg fun hboth => hne hboth.1]
  exact ⟨line, Chars.closeLines rest, hline, hsolid, rfl⟩

theorem OpensSolid.ne_nil (h : OpensSolid text) : text ≠ [] := by
  obtain ⟨line, rest, -, -, rfl⟩ := h
  simp

/-- Unless a solid line is in front, there is something in the one text where there is
in the other. -/
theorem Strewn.closeLines_eq_nil_iff (h : Strewn false settles text bare) :
    closeLines text = [] ↔ closeLines bare = [] := by
  generalize hunsettled : false = settled at h
  induction h with
  | nil hsettles => exact Iff.rfl
  | @line settled settles line text bare hline hrest ih =>
    rw [closeLines_line hline, closeLines_line hline]
    by_cases hne : line = []
    · subst hne
      simp [ih rfl]
    · simp [hne]
  | @remark settled settles line text bare hline hremark hplace hrest ih =>
    subst hunsettled
    have hsolid := hplace.resolve_left Bool.false_ne_true
    have hne := ne_nil_of_isSolid (isSolid_of_isRemark hremark)
    rw [closeLines_line hline, if_neg fun hboth => hne hboth.1]
    exact iff_of_false (by simp) hsolid.closeLines.ne_nil

/-- Newlines behind both texts are dropped alike. -/
theorem Strewn.closeLines (h : Strewn settled settles text bare) :
    Strewn settled false (closeLines text) (closeLines bare) := by
  induction h with
  | nil hsettles => exact .nil fun hs => absurd hs Bool.false_ne_true
  | @line settled settles line text bare hline hrest ih =>
    rw [closeLines_line hline, closeLines_line hline]
    by_cases hne : line = []
    · subst hne
      have hiff := hrest.closeLines_eq_nil_iff
      by_cases htext : Chars.closeLines text = []
      · rw [if_pos ⟨rfl, htext⟩, if_pos ⟨rfl, hiff.mp htext⟩]
        exact .nil fun hs => absurd hs Bool.false_ne_true
      · rw [if_neg fun hboth => htext hboth.2, if_neg fun hboth => htext (hiff.mpr hboth.2)]
        exact .line hline ih
    · rw [if_neg fun hboth => hne hboth.1, if_neg fun hboth => hne hboth.1]
      exact .line hline ih
  | @remark settled settles line text bare hline hremark hplace hrest ih =>
    have hne := ne_nil_of_isSolid (isSolid_of_isRemark hremark)
    rw [closeLines_line hline, if_neg fun hboth => hne hboth.1]
    exact .remark hline hremark (hplace.imp_right OpensSolid.closeLines) ih

/-! ### Runs and ends together -/

theorem collapseAfter_append_newline (seen : Nat) (text : List Char) :
    collapseAfter seen (text ++ ['\n']) = collapseAfter seen text ∨
      collapseAfter seen (text ++ ['\n']) = collapseAfter seen text ++ ['\n'] := by
  induction text generalizing seen with
  | nil =>
    by_cases hseen : seen < 2
    · exact .inr (by simp [Chars.collapseAfter, hseen])
    · exact .inl (by simp [Chars.collapseAfter, hseen])
  | cons c rest ih =>
    simp only [List.cons_append, Chars.collapseAfter]
    split
    · split
      · simpa using ih (seen + 1)
      · exact ih seen
    · simpa using ih 0

theorem trimNewlines_append_newline (text : List Char) :
    trimNewlines (text ++ ['\n']) = trimNewlines text := by
  unfold trimNewlines
  rw [List.dropWhile_append]
  split
  · rename_i hempty
    rw [List.isEmpty_iff.mp hempty]
    rfl
  · simp

/-- A newline at the end of a text does not survive. -/
theorem trimNewlines_collapse_newline (text : List Char) :
    trimNewlines (collapseBlankLines (text ++ ['\n'])) =
      trimNewlines (collapseBlankLines text) := by
  unfold collapseBlankLines
  rcases collapseAfter_append_newline 0 text with heq | heq
  · rw [heq]
  · rw [heq, trimNewlines_append_newline]

/-- Shortening the runs of newlines and taking away those at the ends leaves something of the one
text where it does of the other, with remarks strewn into it. -/
theorem Strewn.trimNewlines_collapse (h : Strewn false settles (text ++ ['\n']) (bare ++ ['\n'])) :
    (trimNewlines (collapseBlankLines text) = [] ↔ trimNewlines (collapseBlankLines bare) = []) ∧
      (trimNewlines (collapseBlankLines text) ≠ [] → Strewn false false
        (trimNewlines (collapseBlankLines text) ++ ['\n'])
          (trimNewlines (collapseBlankLines bare) ++ ['\n'])) := by
  have hclose : ∀ text : List Char,
      Chars.closeLines ((Chars.collapseAfter 0 (text ++ ['\n'])).dropWhile (· == '\n')) =
      if trimNewlines (collapseBlankLines text) = [] then []
        else trimNewlines (collapseBlankLines text) ++ ['\n'] := by
    intro text
    rw [← trimNewlines_collapse_newline]
    rfl
  have hdropped :=
    (h.collapseAfter (.inl (Eq.refl 0)) fun hs => absurd hs Bool.false_ne_true).dropNewlines
  have hiff := hdropped.closeLines_eq_nil_iff
  have hclosed := hdropped.closeLines
  rw [hclose, hclose] at hiff hclosed
  have hboth : trimNewlines (collapseBlankLines text) = [] ↔
      trimNewlines (collapseBlankLines bare) = [] := by
    simpa using hiff
  refine ⟨hboth, fun hne => ?_⟩
  rwa [if_neg hne, if_neg fun hnil => hne (hboth.mpr hnil)] at hclosed

/-- Nothing can be strewn into a text so that nothing is left. -/
theorem Strewn.eq_nil (h : Strewn settled settles [] bare) : bare = [] := by
  generalize hnil : [] = text at h
  cases h with
  | nil _ => rfl
  | line _ _ => simp at hnil
  | remark _ _ _ _ => simp at hnil

/-! ### The final form -/

/-- The blank lines that a text begins with, and its lines from the first solid one on. -/
structure Headed (lead lines : List (List Char)) (text : List Char) : Prop where
  whole : Lines (lead ++ lines)
  blank : ∀ line ∈ lead, isSolid line = false
  solid : ∃ first rest, lines = first :: rest ∧ isSolid first = true
  spelled : text = unlines (lead ++ lines)

theorem Headed.cons {lead lines : List (List Char)} {line : List Char}
    (h : Headed lead lines text) (hline : '\n' ∉ line) (hblank : isSolid line = false) :
    Headed (line :: lead) lines (line ++ '\n' :: text) where
  whole := List.forall_mem_cons.mpr ⟨hline, h.whole⟩
  blank := List.forall_mem_cons.mpr ⟨hblank, h.blank⟩
  solid := h.solid
  spelled := by rw [h.spelled, List.cons_append, unlines_cons]

theorem headed_solid {lines : List (List Char)} {line : List Char} (hline : '\n' ∉ line)
    (hsolid : isSolid line = true) (hlines : Lines lines) :
    Headed [] (line :: lines) (line ++ '\n' :: unlines lines) where
  whole := List.forall_mem_cons.mpr ⟨hline, hlines⟩
  blank := List.forall_mem_nil _
  solid := ⟨line, lines, rfl, hsolid⟩
  spelled := (unlines_cons _ _).symm

theorem Headed.append {lead lines after : List (List Char)}
    (h : Headed lead lines text) (hafter : Lines after) :
    Headed lead (lines ++ after) (text ++ unlines after) where
  whole := by
    rw [← List.append_assoc]
    exact List.forall_mem_append.mpr ⟨h.whole, hafter⟩
  blank := h.blank
  solid := by
    obtain ⟨first, rest, rfl, hsolid⟩ := h.solid
    exact ⟨first, rest ++ after, rfl, hsolid⟩
  spelled := by rw [h.spelled, ← unlines_append, List.append_assoc]

/-- A text has one first line. -/
theorem eq_cons_of_unlines {lines : List (List Char)} {line rest : List Char} (hlines : Lines lines)
    (hline : '\n' ∉ line) (h : line ++ '\n' :: rest = unlines lines) :
    ∃ more, lines = line :: more := by
  have hpieces := congrArg pieces h
  rw [pieces_line hline, pieces_unlines hlines] at hpieces
  cases lines with
  | nil => simp at hpieces
  | cons first more =>
    rw [List.map_cons, List.cons.injEq] at hpieces
    exact ⟨more, by rw [List.append_cancel_right hpieces.1]⟩

/-- Where the last line is solid, both texts come to a solid line behind the same blank ones. -/
theorem Strewn.exists_headed (h : Strewn false true text bare) :
    ∃ lead lines plain, Headed lead lines text ∧ Headed lead plain bare ∧
      lines.filter (fun line => !isRemark line) = plain.filter fun line => !isRemark line := by
  generalize hunsettled : false = settled at h
  generalize hsettles : true = settles at h
  induction h with
  | nil hends =>
    subst hunsettled hsettles
    exact absurd (hends rfl) Bool.false_ne_true
  | @line settled settles line text bare hline hrest ih =>
    by_cases hsolid : isSolid line = true
    · obtain ⟨lines, plain, hlines, hplain, rfl, rfl, hfilter⟩ := hrest.scattered
      refine ⟨[], line :: lines, line :: plain, headed_solid hline hsolid hlines,
        headed_solid hline hsolid hplain, ?_⟩
      rw [List.filter_cons, List.filter_cons, hfilter]
    · have hblank : isSolid line = false := by simpa using hsolid
      obtain ⟨lead, lines, plain, hlines, hplain, hfilter⟩ := ih hblank.symm hsettles
      exact ⟨line :: lead, lines, plain, hlines.cons hline hblank,
        hplain.cons hline hblank, hfilter⟩
  | @remark settled settles line text bare hline hremark hplace hrest ih =>
    subst hunsettled
    obtain ⟨first, rest, hfirst, hsolid, rfl⟩ := hplace.resolve_left Bool.false_ne_true
    obtain ⟨lines, plain, hlines, hplain, rfl, hbare, hfilter⟩ := hrest.scattered
    obtain ⟨more, rfl⟩ := eq_cons_of_unlines hplain hfirst hbare
    rw [Lines, List.forall_mem_cons] at hplain
    refine ⟨[], line :: lines, first :: more,
      headed_solid hline (isSolid_of_isRemark hremark) hlines, ?_, ?_⟩
    · rw [hbare, unlines_cons]
      exact headed_solid hfirst hsolid hplain.2
    · rw [List.filter_cons, hremark, ← hfilter]
      rfl

/-- What is left of a text that begins with a solid line behind blank ones, and ends
in a solid line. -/
theorem Headed.tidyLines_append {lead lines : List (List Char)} {last : List Char}
    (h : Headed lead lines text) (hlast : '\n' ∉ last) (hsolid : isSolid last = true) :
    tidyLines (text ++ last) = (lines ++ [last]).map trimEnd := by
  have hpieces := pieces_unlines_append h.whole hlast (ne_nil_of_isSolid hsolid)
  rw [← h.spelled] at hpieces
  have hmap : (pieces (text ++ last)).map (fun piece => trimEnd (withoutBreak piece)) =
      lead.map trimEnd ++ (lines ++ [last]).map trimEnd := by
    rw [hpieces]
    simp [Function.comp_def, trimEnd_withoutBreak_line, withoutBreak_last hlast]
  have hlead : ∀ line ∈ lead.map trimEnd, line.isEmpty = true := by
    intro line hline
    obtain ⟨blank, hmem, rfl⟩ := List.mem_map.mp hline
    rw [trimEnd_eq_nil_iff.mpr (h.blank blank hmem)]
    rfl
  have hkept : ∀ {line : List Char}, isSolid line = true → (trimEnd line).isEmpty = false := by
    intro line hline
    rw [List.isEmpty_eq_false_iff, Ne, trimEnd_eq_nil_iff, hline]
    exact Bool.true_eq_false.mp
  obtain ⟨first, rest, rfl, hfirst⟩ := h.solid
  unfold tidyLines
  dsimp only
  rw [hmap, List.dropWhile_append_of_pos hlead]
  simp [hkept hfirst, hkept hsolid]

theorem newline_not_mem_trimEnd {line : List Char} (h : '\n' ∉ line) : '\n' ∉ trimEnd line := by
  obtain ⟨blanks, hline, -⟩ := exists_trimEnd_append line
  intro hmem
  exact h (hline ▸ List.mem_append_left blanks hmem)

theorem Headed.withoutRemarks_tidy {lead lines : List (List Char)} {last : List Char}
    (h : Headed lead lines text) (hlast : '\n' ∉ last) (hsolid : isSolid last = true) :
    withoutRemarks (tidy (text ++ last)) =
      unlines (((lines ++ [last]).filter fun line => !isRemark line).map trimEnd) := by
  have hwhole : Lines ((lines ++ [last]).map trimEnd) := by
    intro line hline
    obtain ⟨long, hmem, rfl⟩ := List.mem_map.mp hline
    apply newline_not_mem_trimEnd
    rcases List.mem_append.mp hmem with hmem | hmem
    · exact h.whole long (List.mem_append_right lead hmem)
    · rwa [List.mem_singleton.mp hmem]
  rw [tidy_eq_unlines, h.tidyLines_append hlast hsolid,
    withoutRemarks_unlines hwhole, List.filter_map]
  simp only [Function.comp_def, isRemark_trimEnd]

/-- Tidied texts that have remarks strewn into them up to a solid line, and scattered behind it, are
the same without their remarks. -/
theorem withoutRemarks_tidy {more plain last : List Char} (h : Strewn false true text bare)
    (hmore : Scattered more plain) (hlast : '\n' ∉ last) (hsolid : isSolid last = true) :
    withoutRemarks (tidy (text ++ more ++ last)) =
      withoutRemarks (tidy (bare ++ plain ++ last)) := by
  obtain ⟨lead, lines, lines', hlines, hlines', hfilter⟩ := h.exists_headed
  obtain ⟨after, after', hafter, hafter', rfl, rfl, hrest⟩ := hmore
  rw [(hlines.append hafter).withoutRemarks_tidy hlast hsolid,
    (hlines'.append hafter').withoutRemarks_tidy hlast hsolid]
  simp only [List.filter_append, hfilter, hrest]

end BlockSynth.Chars
