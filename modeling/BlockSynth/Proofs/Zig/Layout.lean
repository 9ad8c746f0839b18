import BlockSynth.Program.Ledger
import BlockSynth.Proofs.Name.Identifier
import BlockSynth.Proofs.Text.Lines
import BlockSynth.Proofs.Zig.Sketch
import BlockSynth.Text.Columns

/-! # Layout does not change what is read

A newline ends every word, operator and comment, so behind it the reader stands
between two tokens. Hence indentation, blank lines and spaces at the end of a line can
come and go, and so can spaces in front of a comment.
-/
namespace BlockSynth.Zig

/-- Texts that read alike between two tokens. -/
def Alike (text other : List Char) : Prop :=
  Mode.code.run text = Mode.code.run other

theorem Alike.symm {text other : List Char} (h : Alike text other) : Alike other text :=
  Eq.symm h

theorem Alike.trans {text other third : List Char} (h : Alike text other) (h' : Alike other third) :
    Alike text third :=
  Eq.trans h h'

theorem Alike.append_right {text other : List Char} (h : Alike text other) (more : List Char) :
    Alike (text ++ more) (other ++ more) := by
  unfold Alike
  rw [Mode.run_append, Mode.run_append, h]

theorem Alike.read_eq {text other : List Char} (h : Alike text other) (outline : Outline) :
    Scan.read (.code, outline) text = Scan.read (.code, outline) other := by
  rw [Scan.read_eq_run, Scan.read_eq_run, h]

theorem Alike.tokens_eq {text other : List Char} (h : Alike text other) :
    tokens text = tokens other := by
  unfold tokens
  rw [h]

theorem Closed.of_alike {text other : List Char} (h : Alike text other) (hclosed : Closed other) :
    Closed text where
  inside outline hopened := by rw [h.read_eq outline, hclosed.inside outline hopened]
  outside outline hopened := by
    obtain ⟨next, hread, hnil⟩ := hclosed.outside outline hopened
    exact ⟨next, by rw [h.read_eq outline, hread], hnil⟩

theorem Operand.of_alike {bound : Rank} {text other : List Char} (h : Alike text other)
    (hleads : ∃ c, text.head? = some c ∧ leads c = true) (hoperand : Operand bound other) :
    Operand bound text where
  leads := hleads
  inside outline hopened := by
    obtain ⟨mode, hset, hread⟩ := hoperand.inside outline hopened
    exact ⟨mode, hset, by rw [h.read_eq outline, hread]⟩
  outside outline hopened hlast := by
    obtain ⟨scan, hset, hread, hrest⟩ := hoperand.outside outline hopened hlast
    exact ⟨scan, hset, by rw [h.read_eq outline, hread], hrest⟩
  tame := by
    unfold Tame
    rw [h.tokens_eq]
    exact hoperand.tame

/-! ### Newlines -/

theorem Mode.step_newline {mode next : Mode} {tokens : List Token}
    (h : mode.step '\n' = some (tokens, next)) : next = .code := by
  have hstart : start '\n' = ([], code) := by decide
  have hword : Chars.isWordChar '\n' = false := by decide
  cases mode with
  | code => simpa [step, hstart, eq_comm] using (congrArg (Option.map Prod.snd) h)
  | word text => simpa [step, hstart, hword, eq_comm] using (congrArg (Option.map Prod.snd) h)
  | operator first =>
    have hpair : isPair first '\n' = false := by simp [isPair]
    simpa [step, hstart, hpair, eq_comm] using (congrArg (Option.map Prod.snd) h)
  | literal quote => simp [step] at h
  | escape quote => simp [step] at h
  | comment => simpa [step, eq_comm] using (congrArg (Option.map Prod.snd) h)

/-- Lines can be exchanged for lines that read alike. -/
theorem Alike.line {line line' rest rest' : List Char} (hline : Alike line line')
    (hrest : Alike rest rest') : Alike (line ++ '\n' :: rest) (line' ++ '\n' :: rest') := by
  unfold Alike
  rw [Mode.run_append, Mode.run_append, hline]
  cases Mode.code.run line' with
  | none => rfl
  | some result =>
    simp only [Option.bind_some, Mode.run_cons]
    cases hstep : result.2.step '\n' with
    | none => rfl
    | some next =>
      obtain ⟨tokens, mode⟩ := next
      obtain rfl : mode = .code := Mode.step_newline hstep
      rw [Option.bind_some, Option.bind_some, hrest]

theorem alike_refl (text : List Char) : Alike text text := rfl

/-- A newline between two tokens is skipped. -/
theorem alike_newline (text : List Char) : Alike ('\n' :: text) text := by
  have hstart : Mode.start '\n' = ([], .code) := by decide
  simp [Alike, Mode.run_cons, Mode.step, hstart]

theorem alike_indent {indent : List Char} (h : IsIndent indent) (text : List Char) :
    Alike (indent ++ text) text := by
  unfold Alike
  rw [Mode.run_of_run (Mode.run_indent h)]
  simp

/-! ### Line by line -/

theorem alike_joinLines {change : List Char → List Char} (h : ∀ line, Alike (change line) line)
    (lines : List (List Char)) :
    Alike (Chars.joinLines (lines.map change)) (Chars.joinLines lines) := by
  induction lines with
  | nil => exact alike_refl _
  | cons line rest ih =>
    by_cases hrest : rest = []
    · subst hrest
      exact h line
    · rw [List.map_cons, Chars.joinLines_cons _ (by simpa using hrest),
        Chars.joinLines_cons _ hrest]
      exact (h line).line ih

theorem alike_prefixLines {mark : List Char} (hmark : IsIndent mark) (text : List Char) :
    Alike (Chars.prefixLines mark text) text := by
  induction text using Chars.line_induction with
  | last line h =>
    rw [Chars.prefixLines_last mark h]
    split
    · rename_i hline
      rw [hline]
      exact alike_refl _
    · exact alike_indent hmark line
  | more line rest h ih =>
    rw [Chars.prefixLines_line mark h]
    have hlines := (alike_indent hmark line).line ih
    simpa using hlines

theorem IsIndent.newline_not_mem {mark : List Char} (h : IsIndent mark) : '\n' ∉ mark := by
  intro hmem
  rcases h '\n' hmem with heq | heq
  · exact absurd heq (by decide)
  · exact absurd heq (by decide)

theorem alike_reindentLine {unit : List Char} (hunit : IsIndent unit) (line : List Char) :
    Alike (Chars.reindentLine unit line) line := by
  induction line using Chars.leadingSteps.induct with
  | case1 rest _ _ _ ih =>
    have hstep : Chars.reindentLine unit (' ' :: ' ' :: rest) =
        unit ++ Chars.reindentLine unit rest := by
      simp [Chars.reindentLine, Chars.leadingSteps, List.replicate_succ]
    have hspaces : IsIndent [' ', ' '] := by simp [IsIndent]
    rw [hstep]
    exact (alike_indent hunit _).trans (ih.trans (alike_indent hspaces rest).symm)
  | case2 line hline =>
    have hstep : Chars.leadingSteps line = (0, line) := by
      rw [Chars.leadingSteps.eq_def]
      split
      · rename_i rest
        exact absurd rfl (hline rest)
      · rfl
    rw [Chars.reindentLine, hstep]
    exact alike_refl line

theorem alike_reindent {unit : List Char} (hunit : IsIndent unit) (text : List Char) :
    Alike (Chars.reindentLines unit text) text := by
  have hlines := alike_joinLines (alike_reindentLine hunit) (Chars.splitLines text)
  rwa [Chars.joinLines_splitLines] at hlines

/-! ### Blanks at the end of a line -/

theorem isWordChar_of_isBlank {c : Char} (hc : Chars.isBlank c = true) :
    Chars.isWordChar c = false := by
  rw [Bool.eq_false_iff]
  intro hword
  simp only [Chars.isBlank, Bool.or_eq_true, Bool.and_eq_true, decide_eq_true_eq, beq_iff_eq] at hc
  simp only [Chars.isWordChar, Char.isAlphanum, Bool.or_eq_true, beq_iff_eq] at hword
  rcases hword with (halpha | hdigit) | rfl
  · have hbounds := Chars.isAlpha_iff.mp halpha
    omega
  · have hbounds : 48 ≤ c.toNat ∧ c.toNat ≤ 57 := Char.isDigit_iff_toNat.mp hdigit
    omega
  · simp at hc

theorem isPair_of_isBlank (first : Char) {c : Char} (hc : Chars.isBlank c = true) :
    isPair first c = false := by
  have heq : c ≠ '=' := by rintro rfl; exact absurd hc (by decide)
  have hplus : c ≠ '+' := by rintro rfl; exact absurd hc (by decide)
  simp [isPair, heq, hplus]

/-- A blank that is followed by a newline is skipped in every mode. -/
theorem Mode.run_blank_newline (mode : Mode) {c : Char}
    (hc : Chars.isBlank c = true) (hline : c ≠ '\n') (rest : List Char) :
    mode.run (c :: '\n' :: rest) = mode.run ('\n' :: rest) := by
  have hstart : start c = ([], code) := by simp [start, hc]
  have hnewline : start '\n' = ([], code) := by decide
  have hword : Chars.isWordChar c = false := isWordChar_of_isBlank hc
  have hbreak : Chars.isWordChar '\n' = false := by decide
  cases mode with
  | code => simp [run_cons, step, Function.comp_def, hstart, hnewline]
  | word text => simp [run_cons, step, Function.comp_def, hstart, hnewline, hword, hbreak]
  | operator first =>
    have hmark : c ≠ '/' := by rintro rfl; exact absurd hc (by decide)
    have hpair : isPair first c = false := isPair_of_isBlank first hc
    have hpair' : isPair first '\n' = false := isPair_of_isBlank first (by decide)
    simp [run_cons, step, Function.comp_def, hstart, hnewline, hmark, hpair, hpair']
  | literal quote =>
    have hslash : c ≠ '\\' := by rintro rfl; exact absurd hc (by decide)
    have hquote : c ≠ quote.mark := by rintro rfl; cases quote <;> exact absurd hc (by decide)
    simp [run_cons, step, Function.comp_def, hline, hslash, hquote]
  | escape quote => simp [run_cons, step, Function.comp_def, hline]
  | comment => simp [run_cons, step, Function.comp_def, hline]

theorem Mode.run_blanks_newline (mode : Mode) {blanks : List Char}
    (h : ∀ c ∈ blanks, Chars.isBlank c = true) (hline : '\n' ∉ blanks) (rest : List Char) :
    mode.run (blanks ++ '\n' :: rest) = mode.run ('\n' :: rest) := by
  induction blanks generalizing mode with
  | nil => rfl
  | cons c blanks ih =>
    simp only [List.mem_cons, not_or] at hline
    have htail : ∀ d ∈ blanks, Chars.isBlank d = true := fun d hd => h d (List.mem_cons_of_mem _ hd)
    calc mode.run (c :: blanks ++ '\n' :: rest)
        = mode.run (c :: '\n' :: rest) := by
          rw [List.cons_append, run_cons, run_cons]
          simp only [ih _ htail hline.2]
      _ = mode.run ('\n' :: rest) :=
        run_blank_newline mode (h c List.mem_cons_self) (Ne.symm hline.1) rest

theorem alike_trimEnd_line {line rest rest' : List Char}
    (hline : '\n' ∉ line) (h : Alike rest rest') :
    Alike (Chars.trimEnd line ++ '\n' :: rest) (line ++ '\n' :: rest') := by
  obtain ⟨blanks, hsplit, hblanks⟩ := Chars.exists_trimEnd_append line
  have hnot : '\n' ∉ blanks :=
    fun hmem => hline (by rw [hsplit]; exact List.mem_append_right _ hmem)
  refine ((alike_refl (Chars.trimEnd line)).line h).trans ?_
  have hlong : line ++ '\n' :: rest' = Chars.trimEnd line ++ (blanks ++ '\n' :: rest') := by
    rw [← List.append_assoc, ← hsplit]
  unfold Alike
  rw [hlong, Mode.run_append, Mode.run_append]
  simp only [Mode.run_blanks_newline _ hblanks hnot]

/-! ### The final form -/

/-- The right-trimmed lines of a text, blank ones included. -/
def trimmedLines (text : List Char) : List (List Char) :=
  (Chars.pieces text).map fun piece => Chars.trimEnd (Chars.withoutBreak piece)

theorem alike_unlines_trimmed (text : List Char) :
    Alike (Chars.unlines (trimmedLines text)) (text ++ ['\n']) := by
  induction text using Chars.line_induction with
  | last line h =>
    by_cases hline : line = []
    · subst hline
      exact (alike_newline []).symm
    · have hone : trimmedLines line = [Chars.trimEnd line] := by
        simp [trimmedLines, Chars.pieces_last h, hline, Chars.withoutBreak_last h]
      rw [hone, Chars.unlines_cons]
      exact alike_trimEnd_line h (alike_refl [])
  | more line rest h ih =>
    have hcons : trimmedLines (line ++ '\n' :: rest) = Chars.trimEnd line :: trimmedLines rest := by
      simp [trimmedLines, Chars.pieces_line h, Chars.trimEnd_withoutBreak_line]
    rw [hcons, Chars.unlines_cons, List.append_assoc, List.cons_append]
    exact alike_trimEnd_line h ih

theorem alike_unlines_cons {lines others : List (List Char)} (line : List Char)
    (h : Alike (Chars.unlines lines) (Chars.unlines others)) :
    Alike (Chars.unlines (line :: lines)) (Chars.unlines (line :: others)) := by
  rw [Chars.unlines_cons, Chars.unlines_cons]
  exact (alike_refl line).line h

theorem alike_unlines_empty {lines : List (List Char)} (h : ∀ line ∈ lines, line.isEmpty = true) :
    Alike (Chars.unlines lines) [] := by
  induction lines with
  | nil => exact alike_refl []
  | cons line rest ih =>
    obtain rfl : line = [] := List.isEmpty_iff.mp (h line List.mem_cons_self)
    rw [Chars.unlines_cons]
    exact (alike_newline _).trans (ih fun other hother => h other (List.mem_cons_of_mem _ hother))

/-- Blank lines at the end can be left out. -/
theorem alike_unlines_append_empty (lines : List (List Char)) {blank : List (List Char)}
    (h : ∀ line ∈ blank, line.isEmpty = true) :
    Alike (Chars.unlines lines) (Chars.unlines (lines ++ blank)) := by
  induction lines with
  | nil => exact (alike_unlines_empty h).symm
  | cons line rest ih => exact alike_unlines_cons line ih

theorem alike_unlines_dropWhile (lines : List (List Char)) :
    Alike (Chars.unlines (lines.dropWhile List.isEmpty)) (Chars.unlines lines) := by
  induction lines with
  | nil => exact alike_refl _
  | cons line rest ih =>
    by_cases hline : line = []
    · subst hline
      rw [Chars.unlines_cons]
      exact ih.trans (alike_newline _).symm
    · rw [List.dropWhile_cons_of_neg (by simpa using hline)]
      exact alike_refl _

theorem alike_tidy (text : List Char) : Alike (Chars.tidy text) (text ++ ['\n']) := by
  have hdef : Chars.tidyLines text =
      (((trimmedLines text).dropWhile List.isEmpty).reverse.dropWhile List.isEmpty).reverse := rfl
  generalize hlines : (trimmedLines text).dropWhile List.isEmpty = lines at hdef
  have hsplit : lines = Chars.tidyLines text ++ (lines.reverse.takeWhile List.isEmpty).reverse := by
    rw [hdef, ← List.reverse_append, List.takeWhile_append_dropWhile, List.reverse_reverse]
  have hblank : ∀ line ∈ (lines.reverse.takeWhile List.isEmpty).reverse, line.isEmpty = true :=
    fun line hline => List.mem_takeWhile_imp (List.mem_reverse.mp hline)
  have hend := alike_unlines_append_empty (Chars.tidyLines text) hblank
  rw [← hsplit, ← Chars.tidy_eq_unlines, ← hlines] at hend
  exact hend.trans ((alike_unlines_dropWhile _).trans (alike_unlines_trimmed text))

/-- Where newlines have been read already, more of them are skipped. -/
theorem Mode.run_collapseAfter (mode : Mode) {seen : Nat} (h : seen ≠ 0 → mode = .code)
    (text : List Char) : mode.run (Chars.collapseAfter seen text) = mode.run text := by
  induction text generalizing mode seen with
  | nil => rfl
  | cons c rest ih =>
    simp only [Chars.collapseAfter]
    split
    · rename_i hc
      subst hc
      split
      · rw [run_cons, run_cons]
        cases hstep : mode.step '\n' with
        | none => rfl
        | some next =>
          rw [Option.bind_some, Option.bind_some, ih next.2 fun _ => step_newline hstep]
      · rename_i hseen
        obtain rfl : mode = .code := h (by omega)
        rw [ih _ h]
        exact (alike_newline rest).symm
    · rw [run_cons, run_cons]
      cases mode.step c with
      | none => rfl
      | some next => rw [Option.bind_some, Option.bind_some, ih next.2 fun hne => absurd rfl hne]

theorem alike_collapseBlankLines (text : List Char) : Alike (Chars.collapseBlankLines text) text :=
  Mode.run_collapseAfter .code (fun h => absurd rfl h) text

theorem alike_newlines {breaks : List Char} (h : ∀ c ∈ breaks, c = '\n') (text : List Char) :
    Alike (breaks ++ text) text := by
  induction breaks with
  | nil => exact alike_refl text
  | cons c rest ih =>
    obtain rfl : c = '\n' := h c List.mem_cons_self
    exact (alike_newline _).trans (ih fun d hd => h d (List.mem_cons_of_mem _ hd))

theorem alike_trimNewlines (text : List Char) :
    Alike (Chars.trimNewlines text ++ ['\n']) (text ++ ['\n']) := by
  generalize hbody : text.dropWhile (· == '\n') = body
  have hfront : text = text.takeWhile (· == '\n') ++ body := by
    rw [← hbody, List.takeWhile_append_dropWhile]
  have hback : body = Chars.trimNewlines text ++ (body.reverse.takeWhile (· == '\n')).reverse := by
    rw [Chars.trimNewlines, hbody, ← List.reverse_append, List.takeWhile_append_dropWhile,
      List.reverse_reverse]
  have hbreaks : ∀ c ∈ (body.reverse.takeWhile (· == '\n')).reverse, c = '\n' :=
    fun c hc => by simpa using List.mem_takeWhile_imp (List.mem_reverse.mp hc)
  have hleading : ∀ c ∈ text.takeWhile (· == '\n'), c = '\n' :=
    fun c hc => by simpa using List.mem_takeWhile_imp hc
  have hend : Alike (Chars.trimNewlines text ++ ['\n']) (body ++ ['\n']) := by
    generalize (body.reverse.takeWhile (· == '\n')).reverse = breaks at hback hbreaks
    have hsame : breaks ++ ['\n'] = '\n' :: breaks := by
      rw [List.eq_replicate_of_mem hbreaks, ← List.replicate_succ', ← List.replicate_succ]
    rw [hback, List.append_assoc, hsame]
    have hnone : Alike breaks [] := by
      simpa using alike_newlines hbreaks []
    exact (alike_refl _).line hnone.symm
  refine hend.trans ?_
  rw [hfront, List.append_assoc]
  exact (alike_newlines hleading _).symm

/-! ### Comments -/

theorem Mode.run_comment {line : List Char} (h : '\n' ∉ line) (rest : List Char) :
    comment.run (line ++ '\n' :: rest) = code.run rest := by
  induction line with
  | nil => simp [run_cons, step]
  | cons c line ih =>
    simp only [List.mem_cons, not_or] at h
    have hstep : comment.step c = some ([], comment) := by
      simp [step, Ne.symm h.1]
    rw [List.cons_append, run_cons, hstep, Option.bind_some, ih h.2]
    simp

theorem alike_commentLine {line : List Char} (h : '\n' ∉ line) (rest : List Char) :
    Alike ('/' :: '/' :: line ++ '\n' :: rest) rest := by
  have hopen : Mode.code.run ['/', '/'] = some ([], .comment) := by
    have hstart : Mode.start '/' = ([], .operator '/') := by decide
    simp [Mode.run, Mode.step, hstart]
  calc Mode.code.run ('/' :: '/' :: line ++ '\n' :: rest)
      = (Mode.comment.run (line ++ '\n' :: rest)).map fun last => ([] ++ last.1, last.2) :=
        Mode.run_of_run hopen _
    _ = Mode.code.run rest := by simp [Mode.run_comment h]

/-- Lines that are all made comments are skipped, the last one being ended. -/
theorem alike_prefixLines_comment (text : List Char) (h : text = [] ∨ text.getLast? = some '\n') :
    Alike (Chars.prefixLines ['/', '/', ' '] text) [] := by
  induction text using Chars.line_induction with
  | last line hline =>
    rcases h with rfl | hlast
    · exact alike_refl []
    · exact absurd (List.mem_of_getLast? hlast) hline
  | more line rest hline ih =>
    rw [Chars.prefixLines_line _ hline]
    have hrest : rest = [] ∨ rest.getLast? = some '\n' := by
      cases rest with
      | nil => exact .inl rfl
      | cons c rest => exact .inr (by simpa [List.getLast?_append] using h)
    have hspace : '\n' ∉ ' ' :: line := by simp [hline]
    simpa using (alike_commentLine hspace _).trans (ih hrest)

/-! ### Moved comments -/

theorem Mode.eq_of_step_operator {mode : Mode} {c first : Char} {tokens : List Token}
    (h : mode.step c = some (tokens, .operator first)) : c = first := by
  have hstart : ∀ {d : Char}, (start d).2 = .operator first → d = first := by
    intro d hd
    unfold start at hd
    repeat' split at hd
    all_goals simp_all
  cases mode with
  | code => exact hstart (congrArg Prod.snd (Option.some.inj h))
  | word text =>
    simp only [step] at h
    split at h
    · simp at h
    · exact hstart (congrArg Prod.snd (Option.some.inj h))
  | operator other =>
    simp only [step] at h
    split at h
    · simp at h
    · split at h
      · simp at h
      · exact hstart (congrArg Prod.snd (Option.some.inj h))
  | literal quote =>
    simp only [step] at h
    repeat' split at h
    all_goals simp at h
  | escape quote =>
    simp only [step] at h
    split at h <;> simp at h
  | comment =>
    simp only [step] at h
    split at h <;> simp at h

/-- One space in front of two slashes changes nothing, unless it separates them from a third. -/
theorem Mode.run_space_slashes (mode : Mode) (h : mode ≠ .operator '/') (rest : List Char) :
    mode.run (' ' :: '/' :: '/' :: rest) = mode.run ('/' :: '/' :: rest) := by
  have hspace : start ' ' = ([], code) := by decide
  have hslash : start '/' = ([], operator '/') := by decide
  have hword : Chars.isWordChar ' ' = false := by decide
  have hword' : Chars.isWordChar '/' = false := by decide
  cases mode with
  | code => simp [run_cons, step, Function.comp_def, hspace, hslash]
  | word text => simp [run_cons, step, Function.comp_def, hspace, hslash, hword, hword']
  | operator first =>
    have hfirst : first ≠ '/' := fun heq => h (by rw [heq])
    have hpair : isPair first ' ' = false := by simp [isPair]
    have hpair' : isPair first '/' = false := by simp [isPair]
    simp [run_cons, step, Function.comp_def, hspace, hslash, hfirst, hpair, hpair']
  | literal quote => cases quote <;> simp [run_cons, step, Function.comp_def, Quote.mark]
  | escape quote => cases quote <;> simp [run_cons, step, Function.comp_def, Quote.mark]
  | comment => simp [run_cons, step, Function.comp_def]

theorem Mode.run_spaces_slashes (mode : Mode) (h : mode ≠ .operator '/') (count : Nat)
    (rest : List Char) :
    mode.run (List.replicate count ' ' ++ '/' :: '/' :: rest) = mode.run ('/' :: '/' :: rest) := by
  induction count generalizing mode with
  | zero => rfl
  | succ count ih =>
    rw [← run_space_slashes mode h, List.replicate_succ, List.cons_append, run_cons, run_cons]
    cases hstep : mode.step ' ' with
    | none => rfl
    | some next =>
      obtain ⟨tokens, after⟩ := next
      have hafter : after ≠ .operator '/' := by
        rintro rfl
        exact absurd (eq_of_step_operator hstep) (by decide)
      rw [Option.bind_some, Option.bind_some, ih after hafter]

/-- Spaces at the first two slashes of a line change nothing, in a comment, in code or
in a literal. -/
theorem Mode.run_splitComment (mode : Mode) {line code comment : List Char}
    (hsplit : Chars.splitComment line = some (code, comment))
    (h : mode = .operator '/' → line.head? ≠ some '/') (count : Nat) :
    mode.run (code ++ List.replicate count ' ' ++ comment) = mode.run line := by
  induction line using Chars.splitComment.induct generalizing mode code comment with
  | case1 rest =>
    simp only [Chars.splitComment, Option.some.injEq, Prod.mk.injEq] at hsplit
    obtain ⟨rfl, rfl⟩ := hsplit
    exact run_spaces_slashes mode (fun hmode => absurd rfl (h hmode)) count rest
  | case2 c rest hslashes ih =>
    rw [Chars.splitComment] at hsplit
    · obtain ⟨⟨code', comment'⟩, htail, heq⟩ := Option.map_eq_some_iff.mp hsplit
      obtain ⟨rfl, rfl⟩ := Prod.mk.inj heq
      rw [List.cons_append, List.cons_append, run_cons, run_cons]
      cases hstep : mode.step c with
      | none => rfl
      | some next =>
        obtain ⟨tokens, after⟩ := next
        rw [Option.bind_some, Option.bind_some, ih after htail]
        rintro rfl hhead
        obtain ⟨tail, rfl⟩ := List.head?_eq_some_iff.mp hhead
        exact hslashes tail (eq_of_step_operator hstep) rfl
    · exact hslashes
  | case3 => simp [Chars.splitComment] at hsplit

theorem alike_moveComment (column : Nat) (line : List Char) :
    Alike (Chars.moveComment column line) line := by
  unfold Alike Chars.moveComment
  split
  · rename_i code comment hsplit
    exact Mode.run_splitComment .code hsplit (fun hmode => by simp at hmode) _
  · rfl

end BlockSynth.Zig
