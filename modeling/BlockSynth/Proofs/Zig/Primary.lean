import BlockSynth.Proofs.Zig.Lexeme
import BlockSynth.Proofs.Zig.Literal
import BlockSynth.Proofs.Zig.RankTruth
import BlockSynth.Proofs.Zig.Still

/-! # Code that cannot come apart

The code of the tightest rank is a single token, or a number with a point. Where such code is asked
for, everything else stands in parentheses, so what is answered there is one primary.
-/
namespace BlockSynth.Zig

open Script

/-- Tokens whose brackets match. -/
def Matched (tokens : List Token) : Prop :=
  ∃ outline, Outline.addAll {} tokens = some outline ∧ outline.opened = []

/-- A word, a number, a literal, or something in parentheses. -/
inductive IsPrimary : List Token → Prop
  | word {text : List Char} : operators.lookup (.word text) = none → IsPrimary [.word text]
  | point {whole fraction : List Char} : Chars.isDigits whole = true →
    Chars.isDigits fraction = true →
    IsPrimary [.word whole, .symbol ['.'], .word fraction]
  | literal : IsPrimary [.literal]
  | group {inner : List Token} : Matched inner →
    IsPrimary (.opening '(' :: (inner ++ [.closing ')']))

/-- Text that is read as a primary, whatever follows. -/
def Primary (code : String) : Prop :=
  ∃ tokens, Lexes code.toList tokens ∧ IsPrimary tokens

/-! ### Single tokens -/

theorem IsPlain.primary {code : String} (h : IsPlain code.toList) : Primary code :=
  ⟨_, h.lexes, .word h.lookup⟩

theorem lexes_quote (raw : String) : Lexes (quote raw).toList [.literal] := by
  rw [toList_quote]
  refine ⟨⟨'"', rfl, rfl⟩, fun rest _ => ?_⟩
  rw [Mode.tokens_append (Mode.run_quote raw.toList)]

@[simp] theorem primary_quote (raw : String) : Primary (quote raw) :=
  ⟨_, lexes_quote raw, .literal⟩

@[simp] theorem primary_emptyText : Primary emptyText :=
  primary_quote ""

@[simp] theorem primary_true : Primary "true" :=
  IsPlain.primary (by decide)

@[simp] theorem primary_false : Primary "false" :=
  IsPlain.primary (by decide)

@[simp] theorem primary_null : Primary "null" :=
  IsPlain.primary (by decide)

/-- A number without a sign. -/
theorem primary_codeText {negative : Bool} {significand : Nat} {exponent : Int}
    (h : (Binary64.finite negative significand exponent).isNegative = false) :
    Primary (Binary64.finite negative significand exponent).codeText := by
  obtain ⟨body, decimal, hbody, htext, -⟩ := Binary64.codeText_finite negative significand exponent
  rw [h, if_neg Bool.false_ne_true, List.nil_append] at htext
  unfold Primary
  rw [htext]
  cases hbody with
  | whole digits hdigits =>
    have hplain := isPlain_of_isDigits hdigits
    exact ⟨_, hplain.lexes, .word hplain.lookup⟩
  | point whole fraction hwhole hfraction =>
    have hpoint : Mode.code.run ['.'] = some ([.symbol ['.']], .code) := rfl
    have hlexes :=
      (isPlain_of_isDigits hwhole).lexes.between (isPlain_of_isDigits hfraction).lexes hpoint
      ⟨'.', rfl, by decide⟩
    exact ⟨_, hlexes, .point hwhole hfraction⟩

/-! ### Wrapped code -/

theorem Fits.exists_matched {fine : Rank → Prop} {text : List Char} (h : Fits fine text) :
    ∃ toks, Lexes text toks ∧ Matched toks := by
  obtain ⟨outline, houtline, hopened, -⟩ := h.outline?_eq
  obtain ⟨toks, htokens, hadd⟩ := Option.bind_eq_some_iff.mp houtline
  exact ⟨toks, h.lexes htokens, outline, hadd, hopened⟩

theorem Operand.primary_wrap {rank : Rank} {code : String}
    (h : Operand rank code.toList) (hrank : rank ≠ .atomic) :
    Primary (wrap .atomic rank code) := by
  obtain ⟨tokens, hlexes, hmatched⟩ := h.exists_matched
  have hparens : Rank.needsParens .atomic rank = true := by
    cases rank <;> first | exact absurd rfl hrank | rfl
  have htext : (wrap .atomic rank code).toList = ['('] ++ (code.toList ++ [')']) := by
    rw [wrap, if_pos hparens]
    show ("(" ++ code ++ ")").toList = _
    simp
  have hclosed : Lexes (code.toList ++ [')']) (tokens ++ [.closing ')']) :=
    hlexes.before (by decide) ⟨')', rfl, by decide⟩
  have hopen : Mode.code.run ['('] = some ([.opening '('], .code) := by decide
  refine ⟨_, ?_, .group hmatched⟩
  rw [htext]
  exact hclosed.behind hopen ⟨'(', rfl, by decide⟩

/-! ### Emissions -/

/-- An emission that is a primary, if it is of the tightest rank. -/
def Compact : Emission → Prop
  | .value code rank => rank = .atomic → Primary code
  | _ => True

@[simp] theorem compact_value (code : String) (rank : Rank) :
    Compact (.value code rank) ↔ (rank = .atomic → Primary code) := Iff.rfl

@[simp] theorem compact_statement (code : String) : Compact (.statement code) := trivial

@[simp] theorem compact_ite (c : Prop) [Decidable c] (emission other : Emission) :
    Compact (if c then emission else other) ↔ (c → Compact emission) ∧ (¬c → Compact other) := by
  split <;> simp_all

variable {config : Config}

/-- An emitter of compact code, whatever it is answered. -/
def Terse (config : Config) (emitter : Emitter) : Prop :=
  ∀ node, (emitter.script config node).Calm Compact

/-! ### The families -/

theorem terse_sequences : ∀ entry ∈ sequences, Terse config entry.2 := by
  simp [sequences, Terse, emptyList, listOf, copyItems, repeatItem, listLength, listIsEmpty,
    sortList, splitOrJoin, reverseList]

theorem terse_palette : ∀ entry ∈ palette, Terse config entry.2 := by
  simp [palette, Terse, pickColour, randomColour, mixColour, blendColours]

theorem terse_statistics : ∀ entry ∈ statistics, Terse config entry.2 := by
  simp [statistics, Terse, aggregateList]

theorem terse_slices : ∀ entry ∈ slices, Terse config entry.2 := by
  simp [slices, Terse, subtext, sublist, sliceEnds, copyItems, calm_sliceInPlace, sliceThrough]

theorem terse_devices : ∀ entry ∈ devices.tail, Terse config entry.2 := by
  simp [devices, Terse, messageField, readSensor, transmit, composeMessage]

theorem terse_routines : ∀ entry ∈ routines.tail, Terse config entry.2 := by
  simp [routines, Terse, returnIf, callForValue, callForEffect, callCode]

theorem terse_bindings : ∀ entry ∈ bindings.tail, Terse config entry.2 := by
  simp [bindings, Terse, setVariable, changeVariable]

theorem terse_textLines : Terse config ⟨textLines, false⟩ := by
  intro node
  simp only [textLines, calm_done, compact_value]
  split
  · simp
  · rename_i hline
    rw [List.contains_iff_mem, newline_mem_quoteLines_iff] at hline
    rw [quoteLines_of_not_mem hline]
    exact fun _ => primary_quote _

theorem terse_changeCase : Terse config ⟨changeCase, false⟩ := by
  intro node
  simp only [changeCase, calm_bind, calm_option, calm_choose, calm_valueOr, calm_requireAllocator]
  intro name _ letterCase _ text
  cases letterCase <;> simp

theorem terse_wordings : ∀ entry ∈ wordings, Terse config entry.2 := by
  simp only [wordings, List.forall_mem_cons, terse_textLines, terse_changeCase]
  simp [Terse, textLiteral, joinText, appendText, textLength, textIsEmpty, trimText, print, prompt,
    promptMessage, countText, replaceText, reverseText]

theorem terse_letterAt : Terse config ⟨letterAt, false⟩ := by
  intro node
  simp only [letterAt, calm_bind, calm_valueOr, calm_pure]
  intro text
  unfold letterCode
  split <;> simp [atStart, atEnd]

theorem calm_compact_accessComputed (access : Access) (position : Position) (list : String) :
    (accessComputed config access position list).Calm Compact := by
  simp only [accessComputed, calm_ite]
  refine ⟨fun _ => ?_, fun _ => ?_⟩
  · simp
  · cases access <;> simp [atEnd]

theorem calm_compact_accessDirect (access : Access) (position : Position) (list : String) :
    (accessDirect config access position list).Calm Compact := by
  cases position <;> cases access <;> simp [accessDirect, accessAt, removal, atStart, atEnd]

theorem terse_getItem : Terse config ⟨getItem, false⟩ := by
  intro node
  simp [getItem, calm_compact_accessComputed, calm_compact_accessDirect]

theorem terse_setItem : Terse config ⟨setItem, false⟩ := fun node =>
  calm_setItem node fun _ _ _ => trivial

theorem terse_positions : ∀ entry ∈ positions, Terse config entry.2 := by
  simp only [positions, List.forall_mem_cons, terse_letterAt, terse_getItem, terse_setItem]
  simp [Terse, findText, findItem, foundPosition]

theorem terse_compare : Terse config ⟨compare, false⟩ := by
  intro node
  simp only [compare, calm_bind, calm_option, calm_choose, calm_valueOr, calm_pure, compact_value]
  intro name _ comparison hcomparison a b hrank
  unfold comparison? at hcomparison
  split at hcomparison <;> cases hcomparison <;> cases hrank

theorem terse_connect : Terse config ⟨connect, false⟩ := by
  intro node
  simp only [connect, calm_bind, calm_option, calm_choose, calm_askValue, calm_pure, compact_value]
  intro name _ connective hconnective a b hrank
  unfold connective? at hconnective
  split at hconnective <;> cases hconnective <;> cases hrank

theorem terse_choices : ∀ entry ∈ choices.tail, Terse config entry.2 := by
  simp only [choices, List.tail_cons, List.forall_mem_cons, terse_compare, terse_connect]
  simp [Terse, negate, boolean, null, ternary]

theorem terse_number : Terse config ⟨number, false⟩ := by
  intro node
  show (number config node).Calm Compact
  unfold number
  generalize (node.fieldNumber "NUM").getD (.zero false) = value
  cases value with
  | nan => simp
  | infinite negative => simp
  | finite negative significand exponent =>
    simp only [calm_done, compact_value]
    split
    · exact fun hrank => by cases hrank
    · rename_i hpositive
      exact fun _ => primary_codeText (Bool.eq_false_iff.mpr hpositive)

theorem terse_operate : Terse config ⟨operate, false⟩ := by
  intro node
  simp only [operate, calm_bind, calm_option, calm_ite, calm_choose, calm_valueOr,
    calm_pure, compact_value]
  refine fun name _ => ⟨fun _ => by simp [power], fun _ operator hoperator a b hrank => ?_⟩
  unfold operator? at hoperator
  split at hoperator <;> cases hoperator <;> cases hrank

theorem terse_apply : Terse config ⟨apply, false⟩ := by
  intro node
  simp only [apply, calm_bind, calm_option, calm_ite]
  refine fun name _ => ⟨by simp, fun _ => ?_⟩
  split
  · simp
  · simp only [libraryFunction, calm_bind, calm_requireStd, calm_ite]
    refine ⟨by simp, fun _ => ?_⟩
    split <;> simp

theorem terse_testProperty : Terse config ⟨testProperty, false⟩ := by
  intro node
  simp only [testProperty, calm_bind, calm_option]
  intro property _
  split <;> simp [divisible, prime]

theorem terse_constrain : Terse config ⟨constrain, false⟩ := by
  intro node
  simp only [constrain, calm_bind, calm_valueOr, calm_askValue]
  intro value low high
  cases high <;> simp

theorem terse_arithmetic : ∀ entry ∈ arithmetic, Terse config entry.2 := by
  simp only [arithmetic, List.forall_mem_cons, terse_number, terse_operate, terse_apply,
    terse_testProperty, terse_constrain]
  simp [Terse, constant, modulo, randomInt, randomFraction, angle]

/-! ### All emitters -/

/-- An emitter of compact code, if names are. -/
def Neat (config : Config) (emitter : Emitter) : Prop :=
  ∀ node, (emitter.script config node).Meets naming.toTerms Compact

theorem Terse.neat {emitter : Emitter} (h : Terse config emitter) : Neat config emitter :=
  fun node => (h node).meets (fun _ => trivial) fun _ => trivial

theorem Mute.neat {emitter : Emitter} (h : Mute config emitter) : Neat config emitter :=
  fun node =>
    h.meets node (fun _ => trivial) trivial (fun _ => trivial) (fun _ => trivial) fun _ => trivial

theorem neat_getVariable : Neat config ⟨getVariable, false⟩ := by
  intro node
  have hword : (variableOf node).Meets naming.toTerms IsName :=
    ((meets_free (option node "VAR")).of_free (fun _ h => h) (fun _ => trivial) (fun _ => trivial)
      fun _ => trivial).bind fun name _ => meets_variableName name
  exact hword.bind fun word hname => Script.Meets.pure fun _ => hname.isPlain.primary

theorem neat_choices : ∀ entry ∈ choices, Neat config entry.2 :=
  List.forall_mem_cons.mpr ⟨mute_conditional.neat, fun entry hentry =>
    (terse_choices entry hentry).neat⟩

theorem neat_bindings : ∀ entry ∈ bindings, Neat config entry.2 :=
  List.forall_mem_cons.mpr ⟨neat_getVariable, fun entry hentry =>
    (terse_bindings entry hentry).neat⟩

theorem neat_routines : ∀ entry ∈ routines, Neat config entry.2 :=
  List.forall_mem_cons.mpr ⟨mute_defineProcedure.neat, fun entry hentry =>
    (terse_routines entry hentry).neat⟩

theorem neat_devices : ∀ entry ∈ devices, Neat config entry.2 :=
  List.forall_mem_cons.mpr ⟨mute_every.neat, fun entry hentry => (terse_devices entry hentry).neat⟩

theorem neat_catalog (config : Config) : catalog.All (Neat config) := by
  have hempty : Catalog.All (Neat config) {} := List.forall_mem_nil _
  refine (hempty.registerAll ?_).withAliases aliases
  simp only [emitters, List.forall_mem_append]
  exact ⟨⟨⟨⟨⟨⟨⟨⟨⟨⟨⟨neat_choices, fun entry hentry => (mute_iterations entry hentry).neat⟩,
    fun entry hentry => (terse_arithmetic entry hentry).neat⟩,
    fun entry hentry => (terse_statistics entry hentry).neat⟩,
    fun entry hentry => (terse_wordings entry hentry).neat⟩,
    fun entry hentry => (terse_positions entry hentry).neat⟩,
    fun entry hentry => (terse_slices entry hentry).neat⟩,
    fun entry hentry => (terse_sequences entry hentry).neat⟩,
    fun entry hentry => (terse_palette entry hentry).neat⟩, neat_bindings⟩, neat_routines⟩,
    neat_devices⟩

/-! ### Values -/

/-- The contract of names under which emissions are compact. -/
def compacting : Contract :=
  { naming with emission := Compact }

theorem compacting_upheld (config : Config) : compacting.Upheld (setting config) where
  toKept := (naming_upheld config).toKept
  loops _ _ h := ⟨h.names, h.realized⟩
  wrap _ _ _ _ _ := trivial
  statement _ _ _ _ _ := trivial
  naked _ _ _ _ _ := trivial
  chain_nil := trivial
  chain_append _ _ _ _ := trivial
  lines _ _ _ := trivial
  loopBody _ _ _ _ := trivial
  loop _ := trivial
  emitter _ _ hfind node := (neat_catalog config).find? (catalog_setting config ▸ hfind) node

/-- What a node answers at the tightest place is one primary. -/
theorem keeps_primary (hindent : IsIndent config.indentUnit.toList) (node : Node) :
    Synth.Keeps Named (fun code => ∀ text ∈ code, Primary text)
      ((node.offer (setting config)).value .atomic) := by
  have hcompact := ((compacting_upheld config).offer node).emission
  rw [value_offer]
  refine (((keeps_sound hindent node).and hcompact).congr fun _ => and_self_iff).asValue_of_forall
    fun code rank hvalue _ => ?_
  by_cases hrank : rank = .atomic
  · subst hrank
    exact hvalue.2 rfl
  · exact Operand.primary_wrap hvalue.1 hrank

end BlockSynth.Zig
