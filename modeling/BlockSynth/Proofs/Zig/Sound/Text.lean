import BlockSynth.Proofs.Zig.Cumulative
import BlockSynth.Proofs.Zig.Sound.List
import BlockSynth.Zig.Device
import BlockSynth.Zig.Palette
import BlockSynth.Zig.Wording

/-! # Text, colours and devices keep the contract

Whatever a person has typed stands in a literal, and so exposes nothing. Text of several lines is a
concatenation of literals, and a sensor is read by a call with a comment on every line.
-/
namespace BlockSynth.Zig

variable {plain : Prop} {own : String → Prop} {config : Config} {fine : String → Prop}

theorem spells_quote (raw : String) (bound : Rank) : Spells (quote raw) [.operand bound] :=
  (atom_quote raw).spells bound

/-! ### Literals -/

theorem fulfils_textLiteral (node : Node) :
    Fulfils plain own config (Sound fine) (textLiteral config node) :=
  Fulfils.done (atom_quote _)

theorem spells_lineJoiner (code more : String) [Spells code [.operand .atomic]]
    [Spells more [.operand .additive]] :
    Spells (code ++ quotes.lineJoiner ++ more) [.operand .additive] := by
  have hnewline : Spells (quotes.quote "\n") [.operand .atomic] := spells_quote "\n" .atomic
  have hconcat : quotes.concat = "++" := rfl
  unfold QuoteStyle.lineJoiner
  rw [hconcat]
  exact spells_iff.mpr (operand_of_spells _ (by decide))

theorem operand_join_literals {codes : List String} (hne : codes ≠ [])
    (h : ∀ code ∈ codes, Spells code [.operand .atomic]) :
    Operand .additive (Text.join quotes.lineJoiner codes).toList := by
  induction codes with
  | nil => exact absurd rfl hne
  | cons code rest ih =>
    have hcode := h code List.mem_cons_self
    cases rest with
    | nil => exact Atom.operand (spells_iff.mp hcode) .additive
    | cons next more =>
      have hrest : Spells (Text.join quotes.lineJoiner (next :: more)) [.operand .additive] :=
        spells_iff.mpr (ih (by simp) fun other hother => h other (List.mem_cons_of_mem _ hother))
      exact spells_iff.mp (spells_lineJoiner code (Text.join quotes.lineJoiner (next :: more)))

theorem newline_mem_lineJoiner : '\n' ∈ quotes.lineJoiner.toList := by
  unfold QuoteStyle.lineJoiner
  rw [String.toList_append]
  exact List.mem_append_right _ (by decide)

theorem fulfils_textLines (node : Node) :
    Fulfils plain own config (Sound fine) (textLines config node) := by
  refine Fulfils.done ?_
  unfold QuoteStyle.quoteLines
  generalize hlines : Chars.splitLines (optionOr node "TEXT" "").toList = lines
  have hne : lines ≠ [] := hlines ▸ Chars.splitLines_ne_nil _
  cases lines with
  | nil => exact absurd rfl hne
  | cons line rest =>
    cases rest with
    | nil => exact Atom.operand (atom_quote _) _
    | cons next more =>
      have hcontains : (Text.join quotes.lineJoiner ((line :: next :: more).map fun line =>
          quotes.quote (String.ofList line))).toList.contains '\n' = true := by
        simp only [List.map_cons, Text.join, String.toList_append,
          List.contains_iff_mem, List.mem_append]
        exact .inl (.inr newline_mem_lineJoiner)
      simp only [hcontains, if_true]
      refine operand_join_literals (by simp) fun code hcode => ?_
      obtain ⟨raw, -, rfl⟩ := List.mem_map.mp hcode
      exact spells_quote _ .atomic

/-! ### Joined text -/

theorem isInner_pattern (arguments : List String) :
    IsInner (String.join (arguments.map fun _ => "\x7bany\x7d")).toList := by
  rw [String.toList_join]
  intro c hc
  obtain ⟨part, hpart, hmem⟩ := List.mem_flatMap.mp hc
  obtain ⟨_, -, rfl⟩ := List.mem_map.mp hpart
  have hchars : IsInner "\x7bany\x7d".toList := by decide
  exact hchars c hmem

theorem operand_formatCall {arguments : List String} (hne : arguments ≠ [])
    (h : ∀ argument ∈ arguments, Spells argument [.operand .none]) :
    Operand .unaryPrefix (formatCall arguments).toList := by
  have hpattern : Spells (String.join (arguments.map fun _ => "\x7bany\x7d")) [.inner] :=
    spells_iff.mpr (isInner_pattern arguments)
  have hlisted : Spells (Text.join ", " arguments) [.operand .none] :=
    spells_iff.mpr (operand_join_comma hne h)
  unfold formatCall
  exact operand_of_spells _ (by decide)

theorem fulfils_joinText (node : Node) :
    Fulfils plain own config (Sound fine) (joinText config node) := by
  unfold joinText
  split
  · exact Fulfils.done atom_emptyText
  · refine (fulfils_valuesOr .none atom_emptyText (itemSlots node)).bind fun parts hparts => ?_
    refine fulfils_requireAllocator.bind fun _ _ => Fulfils.pure ?_
    by_cases hne : parts = []
    · subst hne
      exact operand_of_spells "try std.fmt.allocPrint(allocator, \"\", .\x7b  \x7d)" (by decide)
    · exact operand_formatCall hne hparts

theorem spells_appended (name value : String) [Spells name [.operand .atomic]]
    [hvalue : Spells value [.operand .none]] :
    Spells (formatCall [name, value]) [.operand .unaryPrefix] := by
  refine spells_iff.mpr (operand_formatCall (by simp) fun argument hargument => ?_)
  rcases List.mem_cons.mp hargument with rfl | hrest
  · exact spells_operand_none _
  · obtain rfl := List.mem_singleton.mp hrest
    exact hvalue

theorem Cumulative.appendText (hfine : Cumulative own fine) (node : Node) :
    Fulfils plain own config (Sound fine) (Zig.appendText config node) := by
  refine (fulfils_variableOf node).bind fun name hname => ?_
  refine (fulfils_valueOr "TEXT" .none atom_emptyText).bind fun value hvalue => ?_
  refine fulfils_requireAllocator.bind fun _ _ => Fulfils.pure ?_
  have hjoined := spells_appended name value
  exact hfine.statement _ (by decide)

/-! ### Other operations on text -/

theorem fulfils_textLength (node : Node) :
    Fulfils plain own config (Sound fine) (textLength config node) := by
  refine (fulfils_valueOr "VALUE" .unaryPostfix atom_emptyText).bind fun text htext =>
    Fulfils.pure ?_
  exact operand_of_spells _ (by decide)

theorem fulfils_textIsEmpty (node : Node) :
    Fulfils plain own config (Sound fine) (textIsEmpty config node) := by
  refine (fulfils_valueOr "VALUE" .unaryPostfix atom_emptyText).bind fun text htext =>
    Fulfils.pure ?_
  exact operand_of_spells _ (by decide)

instance : ClosedTemplate titleCaseTemplate := by
  unfold titleCaseTemplate
  exact closedTemplate_of_verbatim (by decide +kernel)

theorem fulfils_changeCase (h : Fair plain config) (node : Node) :
    Fulfils plain own config (Sound fine) (changeCase config node) := by
  refine (fulfils_option node "CASE").bind fun name _ => ?_
  refine (fulfils_choose node "CASE" (letterCase? name)).bind fun letterCase _ => ?_
  refine (fulfils_valueOr "TEXT" .none atom_emptyText).bind fun text htext => ?_
  refine fulfils_requireAllocator.bind fun _ _ => ?_
  cases letterCase with
  | upper => exact Fulfils.pure (operand_of_spells _ (by decide))
  | lower => exact Fulfils.pure (operand_of_spells _ (by decide))
  | title =>
    refine (fulfils_askHelper h _ titleCaseTemplate).bind fun helper hhelper => Fulfils.pure ?_
    exact operand_of_spells _ (by decide)

theorem operand_trim {name function text : String} (h : trimFunction? name = some function)
    [Spells text [.operand .none]] :
    Operand .unaryPostfix (s!"std.mem.{function}(u8, {text}, \" \")").toList := by
  unfold trimFunction? at h
  split at h
  all_goals simp only [Option.some.injEq, reduceCtorEq] at h
  all_goals subst h
  all_goals exact operand_of_spells _ (by decide)

theorem fulfils_trimText (node : Node) :
    Fulfils plain own config (Sound fine) (trimText config node) := by
  refine (fulfils_option node "MODE").bind fun name _ => ?_
  refine (fulfils_choose node "MODE" (trimFunction? name)).bind fun function hfunction => ?_
  refine (fulfils_valueOr "TEXT" .none atom_emptyText).bind fun text htext => ?_
  exact fulfils_requireStd.bind fun _ _ => Fulfils.pure (operand_trim hfunction)

theorem Cumulative.print (hfine : Cumulative own fine) (node : Node) :
    Fulfils plain own config (Sound fine) (Zig.print config node) := by
  refine (fulfils_valueOr "TEXT" .none atom_emptyText).bind fun message hmessage => ?_
  refine fulfils_requireStd.bind fun _ _ => Fulfils.pure ?_
  split
  · exact hfine.statement _ (by decide)
  · exact hfine.statement _ (by decide)

instance : ClosedTemplate promptTemplate := by
  unfold promptTemplate
  exact closedTemplate_of_verbatim (by decide +kernel)

theorem fulfils_promptMessage (node : Node) :
    Fulfils plain own config (fun code => Spells code [.operand .none]) (promptMessage node) := by
  unfold promptMessage
  split
  · exact Fulfils.done (spells_quote _ .none)
  · exact fulfils_valueOr "TEXT" .none atom_emptyText

theorem fulfils_prompt (h : Fair plain config) (node : Node) :
    Fulfils plain own config (Sound fine) (prompt config node) := by
  refine (fulfils_choose node "TYPE" _).bind fun isNumber _ => ?_
  refine (fulfils_promptMessage node).bind fun message hmessage => ?_
  refine fulfils_requireAllocator.bind fun _ _ => ?_
  refine (fulfils_askHelper h _ promptTemplate).bind fun helper hhelper => Fulfils.pure ?_
  cases isNumber with
  | false => exact operand_of_spells s!"try {helper}({message})" (by decide)
  | true =>
    exact operand_of_spells
      ("try std.fmt.parseFloat(f32, " ++ s!"try {helper}({message})" ++ ")") (by decide)

instance : ClosedTemplate countTemplate := by
  unfold countTemplate
  exact closedTemplate_of_verbatim (by decide +kernel)

theorem fulfils_countText (h : Fair plain config) (node : Node) :
    Fulfils plain own config (Sound fine) (countText config node) := by
  refine (fulfils_valueOr "TEXT" .none atom_emptyText).bind fun text htext => ?_
  refine (fulfils_valueOr "SUB" .none atom_emptyText).bind fun sub hsub => ?_
  refine fulfils_requireStd.bind fun _ _ => ?_
  refine (fulfils_askHelper h _ countTemplate).bind fun helper hhelper => Fulfils.pure ?_
  exact operand_of_spells _ (by decide)

theorem fulfils_replaceText (node : Node) :
    Fulfils plain own config (Sound fine) (replaceText config node) := by
  refine (fulfils_valueOr "TEXT" .none atom_emptyText).bind fun text htext => ?_
  refine (fulfils_valueOr "FROM" .none atom_emptyText).bind fun old hold => ?_
  refine (fulfils_valueOr "TO" .none atom_emptyText).bind fun new hnew => ?_
  exact fulfils_requireAllocator.bind fun _ _ => Fulfils.pure (operand_of_spells _ (by decide))

instance : ClosedTemplate reverseTextTemplate := by
  unfold reverseTextTemplate
  exact closedTemplate_of_verbatim (by decide +kernel)

theorem fulfils_reverseText (h : Fair plain config) (node : Node) :
    Fulfils plain own config (Sound fine) (reverseText config node) := by
  refine (fulfils_valueOr "TEXT" .none atom_emptyText).bind fun text htext => ?_
  refine fulfils_requireAllocator.bind fun _ _ => ?_
  refine (fulfils_askHelper h _ reverseTextTemplate).bind fun helper hhelper => Fulfils.pure ?_
  exact operand_of_spells _ (by decide)

/-! ### Colours -/

theorem atom_black : Atom black.toList := by
  unfold black
  exact operand_of_spells _ (by decide)

theorem fulfils_pickColour (node : Node) :
    Fulfils plain own config (Sound fine) (pickColour config node) :=
  Fulfils.done (atom_quote _)

instance : ClosedTemplate randomColourTemplate := by
  dsimp only [randomColourTemplate, printColour, List.map]
  exact closedTemplate_of_verbatim (by decide +kernel)

theorem fulfils_randomColour (h : Fair plain config) (node : Node) :
    Fulfils plain own config (Sound fine) (randomColour config node) := by
  refine fulfils_requireAllocator.bind fun _ _ => ?_
  refine (fulfils_askHelper h _ randomColourTemplate).bind fun helper hhelper => Fulfils.pure ?_
  exact operand_of_spells _ (by decide)

instance : ClosedTemplate mixTemplate := by
  dsimp only [mixTemplate, printColour, List.map]
  exact closedTemplate_of_verbatim (by decide +kernel)

theorem fulfils_mixColour (h : Fair plain config) (node : Node) :
    Fulfils plain own config (Sound fine) (mixColour config node) := by
  refine (fulfils_valueOr "RED" .none atom_zero).bind fun red hred => ?_
  refine (fulfils_valueOr "GREEN" .none atom_zero).bind fun green hgreen => ?_
  refine (fulfils_valueOr "BLUE" .none atom_zero).bind fun blue hblue => ?_
  refine fulfils_requireAllocator.bind fun _ _ => ?_
  refine (fulfils_askHelper h _ mixTemplate).bind fun helper hhelper => Fulfils.pure ?_
  exact operand_of_spells _ (by decide)

instance : ClosedTemplate blendTemplate := by
  dsimp only [blendTemplate, printColour, List.map]
  exact closedTemplate_of_verbatim (by decide +kernel)

theorem fulfils_blendColours (h : Fair plain config) (node : Node) :
    Fulfils plain own config (Sound fine) (blendColours config node) := by
  have hhalf : Atom "0.5".toList := operand_of_spells _ (by decide)
  refine (fulfils_valueOr "COLOUR1" .none atom_black).bind fun first hfirst => ?_
  refine (fulfils_valueOr "COLOUR2" .none atom_black).bind fun second hsecond => ?_
  refine (fulfils_valueOr "RATIO" .none hhalf).bind fun ratio hratio => ?_
  refine fulfils_requireAllocator.bind fun _ _ => ?_
  refine (fulfils_askHelper h _ blendTemplate).bind fun helper hhelper => Fulfils.pure ?_
  exact operand_of_spells _ (by decide)

/-! ### Devices -/

theorem fulfils_messageField (node : Node) :
    Fulfils plain own config (Sound fine) (messageField config node) := by
  have hname := spells_quote (optionOr node "NAME" "") .atomic
  refine (fulfils_valueOr "name" .atomic atom_null).bind fun value hvalue => Fulfils.pure ?_
  exact operand_of_spells _ (by decide)

theorem Cumulative.transmit (hfine : Cumulative own fine) (node : Node) :
    Fulfils plain own config (Sound fine) (Zig.transmit config node) := by
  refine (fulfils_valueOr "MSG" .atomic atom_emptyText).bind fun message hmessage => ?_
  exact Fulfils.pure (hfine.statement _ (by decide))

/-- Moving the comments of all lines but the first changes nothing that is read. -/
theorem alike_alignComments (first : List Char) (rest : List (List Char)) (hne : rest ≠ []) :
    Alike (Chars.joinLines (Chars.alignComments (first :: rest)))
      (Chars.joinLines (first :: rest)) := by
  unfold Chars.alignComments
  rw [Chars.joinLines_cons _ (by simpa using hne), Chars.joinLines_cons _ hne]
  exact (alike_refl first).line (alike_joinLines (alike_moveComment _) rest)

theorem operand_alignComments (bound : Rank) (first : String) {rest : List String} (hne : rest ≠ [])
    (hhead : first ≠ "") (h : Operand bound (Text.join "\n" (first :: rest)).toList) :
    Operand bound (Text.join "\n" (Text.alignComments (first :: rest))).toList := by
  have hlines : (Text.alignComments (first :: rest)).map String.toList =
      Chars.alignComments (first.toList :: rest.map String.toList) := by
    simp [Text.alignComments, Function.comp_def]
  rw [toList_join_newline] at h
  rw [toList_join_newline, hlines]
  have hmoved := alike_alignComments first.toList (rest.map String.toList) (by simpa using hne)
  obtain ⟨c, chars, hfirst⟩ := List.exists_cons_of_ne_nil (mt String.toList_eq_nil_iff.mp hhead)
  obtain ⟨next, more, rfl⟩ := List.exists_cons_of_ne_nil hne
  have hsame : (Chars.joinLines
      (Chars.alignComments (first.toList :: (next :: more).map String.toList))).head? =
      (Chars.joinLines ((first :: next :: more).map String.toList)).head? := by
    simp [hfirst, Chars.alignComments, Chars.joinLines]
  exact Operand.of_alike hmoved (hsame ▸ h.leads) h

theorem fulfils_readSensor (h : Fair plain config) (node : Node) :
    Fulfils plain own config (Sound fine) (readSensor config node) := by
  refine Fulfils.done (operand_alignComments .unaryPrefix _ (by simp) (by decide) ?_)
  have hindent := h.spells_indent
  have hfield := spells_quote (optionOr node "FIELD" "temperature") .atomic
  have hpath := spells_quote (optionOr node "PATH" "/dev/sensor/sensor_baro0") .atomic
  simp only [Text.join]
  unfold sensorStruct
  split
  · exact operand_of_spells _ (by decide)
  · exact operand_of_spells _ (by decide)

/-- Operands on lines of their own. -/
theorem operand_join_lines {codes : List String} (hne : codes ≠ [])
    (h : ∀ code ∈ codes, Spells code [.operand .none]) :
    Operand .none (Text.join "\n" codes).toList := by
  induction codes with
  | nil => exact absurd rfl hne
  | cons code rest ih =>
    have hcode := h code List.mem_cons_self
    cases rest with
    | nil => exact spells_iff.mp hcode
    | cons next more =>
      have hrest : Spells (Text.join "\n" (next :: more)) [.operand .none] :=
        spells_iff.mpr (ih (by simp) fun other hother => h other (List.mem_cons_of_mem _ hother))
      exact operand_of_spells (code ++ "\n" ++ Text.join "\n" (next :: more)) (by decide)

/-- Indented code is an operand as well. -/
theorem operand_prefixLines {unit code : String} {bound : Rank} (hunit : IsIndent unit.toList)
    (h : Operand bound code.toList) : Operand bound (Text.prefixLines unit code).toList := by
  rw [Text.prefixLines, String.toList_ofList]
  refine Operand.of_alike (alike_prefixLines hunit _) ?_ h
  obtain ⟨c, hhead, hc⟩ := h.leads
  obtain ⟨rest, htext⟩ := List.head?_eq_some_iff.mp hhead
  obtain ⟨tail, heq⟩ := Chars.exists_prefixLines_cons unit.toList c rest
  rw [htext, heq]
  cases hblank : unit.toList with
  | nil => exact ⟨c, rfl, hc⟩
  | cons d more =>
    refine ⟨d, rfl, ?_⟩
    rcases hunit d (by simp [hblank]) with rfl | rfl <;> decide

theorem fulfils_composeMessage (h : Fair plain config) (node : Node) :
    Fulfils plain own config (Sound fine) (composeMessage config node) := by
  refine (fulfils_valuesOr .none atom_emptyText (itemSlots node)).bind fun elements helements => ?_
  refine Fulfils.pure ?_
  split
  · exact operand_of_spells _ (by decide)
  · rename_i hempty
    have hlines : Spells (Text.prefixLines config.indentUnit (Text.join "\n" elements))
        [.operand .none] :=
      spells_iff.mpr
        (operand_prefixLines h.indent (operand_join_lines (by simpa using hempty) helements))
    exact operand_of_spells _ (by decide)

end BlockSynth.Zig
