import BlockSynth.Proofs.Text.Mention
import BlockSynth.Text.Columns

/-! # Where aligned comments go

A comment is found by the first two slashes of its line, and spaces are put in front of them. They
stand before the comment if no two slashes stand in the code before it, or if those that do are
where all comments are moved to.
-/
namespace BlockSynth.Chars

/-- What begins a comment. -/
def slashes : List Char :=
  ['/', '/']

variable {code line : List Char}

/-! ### The first two slashes -/

/-- Two slashes behind the code are the first ones. -/
def Clear (code : List Char) : Prop :=
  ¬slashes <:+: code ++ ['/']

theorem Clear.tail {c : Char} (h : Clear (c :: code)) : Clear code :=
  fun hfound => h (hfound.trans (List.suffix_cons c _).isInfix)

theorem Clear.not_prefix {c : Char} (h : Clear (c :: code)) (rest : List Char) :
    ¬slashes <+: c :: (code ++ (slashes ++ rest)) := by
  intro hstart
  apply h
  obtain ⟨rfl, hnext⟩ := List.cons_prefix_cons.mp hstart
  apply List.IsPrefix.isInfix
  refine List.cons_prefix_cons.mpr ⟨rfl, ?_⟩
  cases code with
  | nil => exact List.prefix_rfl
  | cons d code =>
    obtain ⟨rfl, -⟩ := List.cons_prefix_cons.mp hnext
    exact List.prefix_append ['/'] (code ++ ['/'])

theorem splitComment_cons {c : Char} (h : ¬slashes <+: c :: line) : splitComment (c :: line) =
    (splitComment line).map fun (code, comment) => (c :: code, comment) := by
  rw [splitComment]
  rintro rest rfl rfl
  exact h (List.prefix_append slashes rest)

theorem Clear.splitComment (h : Clear code) (rest : List Char) :
    splitComment (code ++ (slashes ++ rest)) = some (code, slashes ++ rest) := by
  induction code with
  | nil => rfl
  | cons c code ih =>
    rw [List.cons_append, splitComment_cons (h.not_prefix rest), ih h.tail]
    rfl

theorem exists_clear (h : slashes <:+: line) :
    ∃ code rest, line = code ++ (slashes ++ rest) ∧ Clear code := by
  induction line with
  | nil => simp [slashes] at h
  | cons c line ih =>
    by_cases hstart : slashes <+: c :: line
    · obtain ⟨rest, heq⟩ := hstart
      exact ⟨[], rest, heq.symm, by unfold Clear; decide⟩
    · obtain ⟨code, rest, rfl, hclear⟩ := ih ((List.infix_cons_iff.mp h).resolve_left hstart)
      refine ⟨c :: code, rest, rfl, fun hfound => ?_⟩
      rcases List.infix_cons_iff.mp hfound with hhere | hlater
      · apply hstart
        refine hhere.trans (List.cons_prefix_cons.mpr ⟨rfl, ?_⟩)
        exact List.prefix_append_right_inj code |>.mpr (List.prefix_append ['/'] ('/' :: rest))
      · exact hclear hlater

theorem clear_of_free (hfree : ¬slashes <:+: code)
    (hlast : code.getLast? ≠ some '/') : Clear code := by
  intro hfound
  obtain ⟨before, after, heq⟩ := hfound
  rcases List.eq_nil_or_concat after with rfl | ⟨init, last, rfl⟩
  · rw [List.append_nil] at heq
    have hcode : before ++ ['/'] = code := by
      have hsame : before ++ ['/'] ++ ['/'] = code ++ ['/'] := by simpa [slashes] using heq
      exact List.append_cancel_right hsame
    simp [← hcode] at hlast
  · rw [List.concat_eq_append, ← List.append_assoc] at heq
    exact hfree ⟨before, init, (List.append_inj' heq rfl).1⟩

/-! ### Moving comments -/

/-- The column of the first two slashes, if some follow the code. -/
def slashColumn (code : List Char) : Nat :=
  ((splitComment (code ++ slashes)).map fun (before, _) => byteLength before).getD 0

theorem slashColumn_eq {before after : List Char}
    (h : code ++ slashes = before ++ (slashes ++ after)) (hclear : Clear before) :
    slashColumn code = byteLength before := by
  rw [slashColumn, h, hclear.splitComment]
  rfl

theorem byteLength_append (text more : List Char) :
    byteLength (text ++ more) = byteLength text + byteLength more := by
  simp [byteLength]

theorem slashes_infix_append_iff {lead : List Char} (hlead : '/' ∉ lead) :
    slashes <:+: lead ++ code ↔ slashes <:+: code := by
  have hfree : ∀ c ∈ lead, c ∉ slashes := by
    intro c hc hslash
    obtain rfl : c = '/' := by simpa [slashes] using hslash
    exact hlead hc
  constructor
  · exact infix_of_infix_append (by decide) hfree
  · exact fun h => h.trans (List.suffix_append lead code).isInfix

/-- Text without slashes moves the first two of them by its length. -/
theorem slashColumn_append {lead : List Char} (hlead : '/' ∉ lead) (code : List Char) :
    slashColumn (lead ++ code) = byteLength lead + slashColumn code := by
  obtain ⟨before, after, hsplit, hclear⟩ := exists_clear (List.suffix_append code slashes).isInfix
  have hclearLead : Clear (lead ++ before) := by
    unfold Clear
    rw [List.append_assoc, slashes_infix_append_iff hlead]
    exact hclear
  have hline : lead ++ code ++ slashes = lead ++ before ++ (slashes ++ after) := by
    rw [List.append_assoc, hsplit, List.append_assoc]
  rw [slashColumn_eq hline hclearLead, slashColumn_eq hsplit hclear, byteLength_append]

/-- Code with a comment behind it. -/
def remarked (code comment : List Char) : List Char :=
  code ++ (slashes ++ comment)

theorem commentColumn_remarked (code comment : List Char) :
    commentColumn (remarked code comment) = some (slashColumn code) := by
  obtain ⟨before, after, hsplit, hclear⟩ := exists_clear (List.suffix_append code slashes).isInfix
  have hline : remarked code comment = before ++ (slashes ++ (after ++ comment)) := by
    rw [remarked, ← List.append_assoc, hsplit]
    simp
  rw [commentColumn, hline, hclear.splitComment, slashColumn_eq hsplit hclear]
  rfl

theorem Clear.moveComment (h : Clear code) (column : Nat) (rest : List Char) :
    moveComment column (code ++ (slashes ++ rest)) =
      code ++ List.replicate (column - byteLength code) ' ' ++ (slashes ++ rest) := by
  rw [Chars.moveComment, h.splitComment]

/-- Spaces are put in front of the comment, unless slashes in the code before it are moved. -/
theorem exists_gap_iff (hlast : code.getLast? ≠ some '/') (comment : List Char) (column : Nat) :
    (∃ gap, moveComment column (remarked code comment) =
      code ++ List.replicate gap ' ' ++ (slashes ++ comment)) ↔
      (slashes <:+: code → column ≤ slashColumn code) := by
  by_cases hfree : slashes <:+: code
  · obtain ⟨before, rest, rfl, hclear⟩ := exists_clear hfree
    have hsplit : before ++ (slashes ++ rest) ++ slashes =
        before ++ (slashes ++ (rest ++ slashes)) := by
      rw [List.append_assoc, List.append_assoc]
    have hmoved : moveComment column (remarked (before ++ (slashes ++ rest)) comment) =
        before ++ List.replicate (column - byteLength before)
          ' ' ++ (slashes ++ (rest ++ (slashes ++ comment))) := by
      rw [remarked, List.append_assoc, List.append_assoc, hclear.moveComment]
    rw [hmoved, slashColumn_eq hsplit hclear]
    constructor
    · rintro ⟨gap, heq⟩ _
      by_contra hright
      obtain ⟨width, hwidth⟩ :=
        Nat.exists_eq_succ_of_ne_zero (Nat.sub_ne_zero_of_lt (Nat.lt_of_not_le hright))
      -- A space stands where the first of the two slashes has to.
      rw [hwidth, List.append_assoc, List.append_assoc, List.append_assoc] at heq
      have hhead := (List.cons.inj (List.append_cancel_left heq)).1
      exact absurd hhead (by decide)
    · intro hleft
      have hwidth : column - byteLength before = 0 := Nat.sub_eq_zero_of_le (hleft hfree)
      exact ⟨0, by simp [hwidth]⟩
  · constructor
    · exact fun _ hfound => absurd hfound hfree
    · exact fun _ => ⟨_, (clear_of_free hfree hlast).moveComment column comment⟩

/-! ### Aligning comments -/

theorem foldl_max_le_iff (columns : List Nat) (least bound : Nat) :
    columns.foldl max least ≤ bound ↔ least ≤ bound ∧ ∀ column ∈ columns, column ≤ bound := by
  induction columns generalizing least with
  | nil => simp
  | cons column rest ih =>
    rw [List.foldl_cons, ih, List.forall_mem_cons, Nat.max_le, and_assoc]

/-- The column that the comments behind the given codes are moved to. -/
def alignedColumn (codes : List (List Char)) : Nat :=
  (codes.map slashColumn).foldl max 0

theorem alignedColumn_le_iff (codes : List (List Char)) (bound : Nat) :
    alignedColumn codes ≤ bound ↔ ∀ code ∈ codes, slashColumn code ≤ bound := by
  rw [alignedColumn, foldl_max_le_iff, List.forall_mem_map]
  simp

/-- The lines between a first and a last one are moved to one column. -/
theorem alignComments_remarked (first last : List Char)
    (hlast : splitComment last = none) (lines : List (List Char × List Char)) :
    alignComments (first :: (lines.map (fun line => remarked line.1 line.2) ++ [last])) =
      first :: (lines.map (fun line =>
        moveComment (alignedColumn (lines.map Prod.fst)) (remarked line.1 line.2)) ++
        [last]) := by
  have hcolumns : (lines.map (fun line => remarked line.1 line.2) ++ [last]).filterMap
      commentColumn = (lines.map Prod.fst).map slashColumn := by
    have hnone : commentColumn last = none := by rw [commentColumn, hlast, Option.map_none]
    rw [List.filterMap_append, List.filterMap_map, List.filterMap_cons_none hnone,
      List.filterMap_nil, List.append_nil, List.map_map]
    rw [← List.filterMap_eq_map]
    apply List.filterMap_congr
    intro line _
    exact commentColumn_remarked line.1 line.2
  have hstays : ∀ column, moveComment column last = last := by
    intro column
    rw [moveComment, hlast]
  rw [alignComments, hcolumns, List.map_append, List.map_map, List.map_singleton, hstays]
  rfl

/-- Of all the lines, those keep their code together whose slashes stand where the comments go. -/
theorem exists_gaps_iff {lines : List (List Char × List Char)}
    (h : ∀ line ∈ lines, line.1.getLast? ≠ some '/') :
    (∀ line ∈ lines, ∃ gap,
      moveComment (alignedColumn (lines.map Prod.fst)) (remarked line.1 line.2) =
      line.1 ++ List.replicate gap ' ' ++ (slashes ++ line.2)) ↔
      ∀ code ∈ lines.map Prod.fst, slashes <:+: code → ∀ other ∈ lines.map Prod.fst,
        slashColumn other ≤ slashColumn code := by
  rw [List.forall_mem_map]
  apply forall₂_congr
  intro line hline
  rw [exists_gap_iff (h line hline), alignedColumn_le_iff]

theorem append_of_splitComment {comment : List Char}
    (h : splitComment line = some (code, comment)) :
    code ++ comment = line := by
  induction line generalizing code with
  | nil => simp [splitComment] at h
  | cons c line ih =>
    by_cases hstart : slashes <+: c :: line
    · obtain ⟨rest, heq⟩ := hstart
      rw [← heq] at h ⊢
      obtain ⟨rfl, rfl⟩ := Prod.mk.inj (Option.some.inj h)
      rfl
    · rw [splitComment_cons hstart] at h
      obtain ⟨⟨before, after⟩, hline, heq⟩ := Option.map_eq_some_iff.mp h
      obtain ⟨rfl, rfl⟩ := Prod.mk.inj heq
      rw [List.cons_append, ih hline]

theorem newline_mem_of_mem_moveComment {column : Nat}
    (h : '\n' ∈ moveComment column line) : '\n' ∈ line := by
  unfold moveComment at h
  split at h
  · rename_i before comment hsplit
    rw [← append_of_splitComment hsplit]
    simp only [List.mem_append, List.mem_replicate] at h ⊢
    rcases h with (hcode | ⟨-, hspace⟩) | hrest
    · exact .inl hcode
    · exact absurd hspace (by decide)
    · exact .inr hrest
  · exact h

end BlockSynth.Chars
