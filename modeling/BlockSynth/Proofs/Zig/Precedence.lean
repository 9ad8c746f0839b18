import BlockSynth.Proofs.Zig.Formula
import BlockSynth.Proofs.Zig.Session

/-! # Rendered formulas read back

The text of a formula is read by the grammar as the tree of its node. Variables are spelled as the
registry spells them, and what has been spelled once stays so for the rest of the run.
-/
namespace BlockSynth.Zig

/-- A later registry spells everything as an earlier one does. -/
def Extends (names later : Registry) : Prop :=
  ∀ space name word, names.lookup space name = some word → later.lookup space name = some word

theorem Extends.refl (names : Registry) : Extends names names := fun _ _ _ h => h

theorem Extends.trans {names later last : Registry}
    (h : Extends names later) (h' : Extends later last) :
    Extends names last :=
  fun space name word hword => h' space name word (h space name word hword)

theorem extends_resolve (names : Registry) (space : Namespace) (name : String) :
    Extends names (names.resolve space name).2 :=
  fun _ _ _ hword => Registry.lookup_resolve_of_lookup hword space name

/-- How a variable is spelled. -/
def spelling (names : Registry) (name : String) : String :=
  (names.lookup .variable name).getD name

/-! ### Steps that succeed -/

/-- A step that succeeds, only adds names, and answers as it should for every later spelling. -/
def Yields {α : Type} (step : Synth α) (post : Registry → α → Prop) : Prop :=
  ∀ session, Named session → ∃ answer next, step session = .ok answer next ∧ Named next ∧
    Extends session.names next.names ∧ ∀ later, Extends next.names later → post later answer

theorem Yields.pure {α : Type} {answer : α}
    {post : Registry → α → Prop} (h : ∀ names, post names answer) :
    Yields (Pure.pure answer) post :=
  fun session hsession => ⟨answer, session, rfl, hsession, Extends.refl _, fun later _ => h later⟩

theorem Yields.bind {α β : Type} {step : Synth α} {next : α → Synth β}
    {middle : Registry → α → Prop} {post : Registry → β → Prop} (h : Yields step middle)
    (hnext : ∀ answer, Yields (next answer) fun names result =>
      middle names answer → post names result) :
    Yields (step >>= next) post := by
  intro session hsession
  obtain ⟨answer, after, hrun, hafter, hgrown, hmiddle⟩ := h session hsession
  obtain ⟨result, last, hrun', hlast, hgrown', hpost⟩ := hnext answer after hafter
  refine ⟨result, last, (Synth.bind_of_ok hrun next).trans hrun', hlast, hgrown.trans hgrown', ?_⟩
  intro later hlater
  exact hpost later hlater (hmiddle later (hgrown'.trans hlater))

theorem Yields.mono {α : Type} {step : Synth α} {post post' : Registry → α → Prop}
    (h : Yields step post) (himp : ∀ names answer, post names answer → post' names answer) :
    Yields step post' := by
  intro session hsession
  obtain ⟨answer, next, hrun, hnext, hgrown, hpost⟩ := h session hsession
  exact ⟨answer, next, hrun, hnext, hgrown, fun later hlater =>
    himp later answer (hpost later hlater)⟩

/-- The variables of a tree all have their identifiers. -/
def Spelled (names : Registry) (tree : Expr) : Prop :=
  ∀ name ∈ tree.names, names.lookup .variable name = some (spelling names name)

/-- Text at a place that is read as the given tree. -/
structure Fills (place : Rank) (names : Registry) (text : String) (tree : Expr) : Prop where
  placed : Placed place text (tree.rename (spelling names))
  spelled : Spelled names tree

/-- What a slot answers at a place if it stands for the given tree or for nothing. -/
inductive Answer (place : Rank) (names : Registry) : Option String → Option Expr → Prop
  | nothing : Answer place names none none
  | code {text : String} {tree : Expr} : Fills place names text tree →
    Answer place names (some text) (some tree)

/-- An emission whose code is read as the given tree. -/
inductive Emits (tree : Expr) (names : Registry) : Emission → Prop
  | value {code : String} {rank : Rank} : Says rank code (tree.rename (spelling names)) →
    Spelled names tree →
    Emits tree names (.value code rank)

/-! ### Literals -/

theorem says_word {text : String} (h : IsPlain text.toList) {tree : Expr}
    (hread : readWord text.toList = some tree) : Says .atomic text tree := by
  have hif : (Token.word text.toList) ≠ .ifWord := by
    intro heq
    have hlookup := h.lookup
    rw [heq] at hlookup
    exact absurd hlookup (by decide)
  exact .of_reads h.lexes (reads_word hif hread) (by decide) (by decide)

theorem says_name {word : String} (h : IsName word) : Says .atomic word (.name word) := by
  refine says_word h.isPlain ?_
  have hreserved : ∀ other : String, other ∈ reservedWords → word.toList ≠ other.toList := by
    intro other hother heq
    exact h.not_mem (String.toList_inj.mp heq ▸ hother)
  have hdigits : Chars.isDigits word.toList = false := by
    have hidentifier := h.isIdentifier
    cases hlist : word.toList with
    | nil => rfl
    | cons c rest =>
      rw [hlist, Chars.isIdentifier, Bool.and_eq_true] at hidentifier
      have hc : c.isDigit = false := Chars.isDigit_of_isIdentifierStart hidentifier.1
      simp [Chars.isDigits, hc]
  have hkeyword : word ∉ keywords := fun hmem =>
    h.not_mem (List.mem_append_left _ (List.mem_append_left _ hmem))
  unfold readWord
  rw [String.ofList_toList, hdigits, if_neg Bool.false_ne_true,
    if_neg (hreserved "true" (by decide)),
    if_neg (hreserved "false" (by decide)), if_neg (hreserved "null" (by decide)),
    if_pos ⟨h.isIdentifier, hkeyword⟩]

theorem says_zero : Says .atomic "0" zeroTree :=
  says_word (by decide) rfl

theorem says_truth (value : Bool) :
    Says .atomic (if value then "true" else "false") (.truth value) := by
  cases value with
  | false => exact says_word (by decide) rfl
  | true => exact says_word (by decide) rfl

theorem says_null : Says .atomic "null" .null :=
  says_word (by decide) rfl

theorem reads_numeral {text : List Char} {decimal : Decimal} (h : Chars.Numeral text decimal) :
    ∃ tokens, Lexes text tokens ∧ Reads 0 tokens (.number decimal.toBinary64) := by
  cases h with
  | whole digits hdigits =>
    have hplain := isPlain_of_isDigits hdigits
    have hif : (Token.word text) ≠ .ifWord := by
      intro heq
      obtain rfl := Token.word.inj heq
      exact absurd hdigits (by decide)
    exact ⟨_, hplain.lexes, reads_word hif (if_pos hdigits)⟩
  | point whole fraction hwhole hfraction =>
    have hpoint : Mode.code.run ['.'] = some ([.symbol ['.']], .code) := rfl
    have hlexes :=
      (isPlain_of_isDigits hwhole).lexes.between (isPlain_of_isDigits hfraction).lexes hpoint
      ⟨'.', rfl, by decide⟩
    exact ⟨_, hlexes, reads_point hwhole hfraction⟩

theorem exists_finite_of_numberTree {number : Binary64}
    {tree : Expr} (h : numberTree number = some tree) :
    ∃ negative significand exponent, number = .finite negative significand exponent ∧
      Binary64.Canonical significand exponent ∧
      tree = if number.isNegative then .signed .minus (.number number.abs)
        else .number number.abs := by
  cases number with
  | nan => simp [numberTree] at h
  | infinite negative => simp [numberTree] at h
  | finite negative significand exponent =>
    simp only [numberTree] at h
    split at h
    · rename_i hcanonical
      exact ⟨negative, significand, exponent, rfl, hcanonical, (Option.some.inj h).symm⟩
    · simp at h

theorem names_numberTree {number : Binary64} {tree : Expr} (h : numberTree number = some tree) :
    tree.names = [] := by
  obtain ⟨negative, significand, exponent, -, -, rfl⟩ := exists_finite_of_numberTree h
  split <;> rfl

theorem says_number {number : Binary64} {tree : Expr} (h : numberTree number = some tree) :
    Says (if number.isNegative then .unaryPrefix else .atomic) number.codeText tree := by
  obtain ⟨negative, significand, exponent, rfl, hcanonical, rfl⟩ := exists_finite_of_numberTree h
  obtain ⟨body, decimal, hbody, hdecimal, htext⟩ := Binary64.codeText_canonical negative hcanonical
  obtain ⟨tokens, hlexes, hreads⟩ := reads_numeral hbody
  rw [← hdecimal]
  split
  · rename_i hnegative
    rw [if_pos hnegative] at htext
    have hminus : Mode.code.run ['-'] = some ([.minus], .code) := rfl
    have hall := hlexes.behind hminus ⟨'-', rfl, by decide⟩
    rw [← htext] at hall
    exact .of_reads hall (hreads.signed .minus) (by decide) (by decide)
  · rename_i hpositive
    rw [if_neg hpositive, List.nil_append] at htext
    rw [← htext] at hlexes
    exact .of_reads hlexes hreads (by decide) (by decide)

/-! ### Emitters -/

section

variable {config : Config} {id : String} {inputs branches : List (String × Offer)}

theorem Says.placed_of_atomic {code : String} {tree : Expr}
    (h : Says .atomic code tree) (place : Rank) :
    Placed place code tree := by
  refine ⟨.atomic, code, ?_, h⟩
  rw [wrap, if_neg (by simp [Rank.needsParens_atomic])]

/-- What stands for an empty slot names no variable. -/
theorem Answer.fills {place : Rank} {names : Registry} {code : Option String}
    {filled : Option Expr} (h : Answer place names code filled) {fallback : String}
    {empty : Expr} (hempty : Says .atomic fallback empty) (hclosed : empty.names = []) :
    Fills place names (code.getD fallback) (filled.getD empty) := by
  cases h with
  | nothing =>
    constructor
    · show Placed place fallback (empty.rename (spelling names))
      rw [Expr.rename_of_names_eq_nil _ hclosed]
      exact hempty.placed_of_atomic place
    · intro name hname
      have hmem : name ∈ empty.names := hname
      simp [hclosed] at hmem
  | code hfills => exact hfills

theorem Answer.isNone_eq {place : Rank} {names : Registry} {code : Option String}
    {filled : Option Expr} (h : Answer place names code filled) : code.isNone = filled.isNone := by
  cases h <;> rfl

theorem yields_valueOr {slot fallback : String} {place : Rank} {next : String → Script Emission}
    {filled : Option Expr} {empty : Expr} {post : Registry → Emission → Prop}
    (hslot : Yields (Script.atSlot inputs slot none fun offer => offer.value place)
      fun names code => Answer place names code filled)
    (hempty : Says .atomic fallback empty) (hclosed : empty.names = [])
    (hnext : ∀ code,
      Yields ((next code).run (setting config) id inputs branches) fun names emission =>
        Fills place names code (filled.getD empty) → post names emission) :
    Yields ((Script.valueOr slot place fallback >>= next).run (setting config) id inputs branches)
      post := by
  refine Yields.bind hslot fun code =>
    (hnext (code.getD fallback)).mono fun names emission himp hanswer => ?_
  exact himp (hanswer.fills hempty hclosed)

variable {node : Node} {slot : String → Option (Option Expr)} {tree : Expr}

theorem number_of_numberTree {number : Binary64}
    (hnumber : node.fieldNumber "NUM" = some number) (h : numberTree number = some tree) :
    Zig.number config node =
      .done (.value number.codeText (if number.isNegative then .unaryPrefix else .atomic)) := by
  obtain ⟨negative, significand, exponent, rfl, -⟩ := exists_finite_of_numberTree h
  simp [Zig.number, hnumber]

theorem yields_number {number : Binary64} (hnumber : node.fieldNumber "NUM" = some number)
    (h : numberTree number = some tree) :
    Yields ((Zig.number config node).run (setting config) id inputs branches) (Emits tree) := by
  have hclosed := names_numberTree h
  rw [number_of_numberTree hnumber h]
  refine Yields.pure fun names => Emits.value ?_ ?_
  · rw [Expr.rename_of_names_eq_nil _ hclosed]
    exact says_number h
  · simp [Spelled, hclosed]

theorem yields_boolean {value : Bool} (h : node.fieldBool "BOOL" = some value) :
    Yields ((boolean config node).run (setting config) id inputs branches)
      (Emits (.truth value)) := by
  have hscript : boolean config node =
      .done (.value (if value then "true" else "false") .atomic) := by
    simp only [boolean, h]
    rfl
  rw [hscript]
  exact Yields.pure fun names => Emits.value (says_truth value) (List.forall_mem_nil _)

theorem yields_null (node : Node) :
    Yields ((null config node).run (setting config) id inputs branches) (Emits .null) :=
  Yields.pure fun _ => Emits.value says_null (List.forall_mem_nil _)

theorem getVariable_of_field {name : String} (h : node.fieldText "VAR" = some name) :
    getVariable config node = .resolve .variable name fun word => .done (.value word .atomic) := by
  simp only [getVariable, variableOf, option, h]
  rfl

/-- A variable answers with its word, which is the one that it has from then on. -/
theorem yields_word {name : String} {post : Registry → Emission → Prop}
    (h : node.fieldText "VAR" = some name)
    (hpost : ∀ names word, IsName word → names.lookup .variable name = some word →
      spelling names name = word → post names (.value word .atomic)) :
    Yields ((getVariable config node).run (setting config) id inputs branches) post := by
  rw [getVariable_of_field h]
  intro session hsession
  have hresolved := hsession.resolve .variable name
  refine ⟨.value (session.resolve .variable name).1 .atomic,
    { session with toLedger := (session.resolve .variable name).2 }, rfl, hresolved.2,
    extends_resolve session.names .variable name, fun later hlater => ?_⟩
  have hlookup := hlater _ _ _ (Registry.lookup_resolve session.names .variable name)
  exact hpost later _ hresolved.1 hlookup (congrArg (·.getD name) hlookup)

theorem yields_variable {name : String} (h : node.fieldText "VAR" = some name) :
    Yields ((getVariable config node).run (setting config) id inputs branches)
      (Emits (.name name)) := by
  refine yields_word h fun names word hword hlookup hspelled =>
    Emits.value ?_ (List.forall_mem_singleton.mpr ?_)
  · show Says .atomic word (.name (spelling names name))
    rw [hspelled]
    exact says_name hword
  · rw [hspelled]
    exact hlookup

theorem apply_minus (hoption : node.fieldText "OP" = some "NEG") : apply config node = (do
    let operand ← Script.valueOr "NUM" .unaryPrefix "0"
    return .value (minus operand) .unaryPrefix) := by
  simp only [apply, option, hoption]
  rfl

theorem operate_of_option {name : String} {operator : Operator}
    (hoption : node.fieldText "OP" = some name)
    (hoperator : arithmeticOperator? name = some operator) : operate config node = (do
      let a ← Script.valueOr "A" operator.place "0"
      let b ← Script.valueOr "B" operator.place "0"
      return .value s!"{a} {operator.text} {b}" operator.rank) := by
  unfold arithmeticOperator? at hoperator
  split at hoperator <;> simp only [Option.some.injEq, reduceCtorEq] at hoperator
    <;> subst hoperator <;>
    simp only [operate, option, hoption] <;> rfl

theorem mem_of_arithmeticOperator? {name : String} {operator : Operator}
    (h : arithmeticOperator? name = some operator) :
    operator ∈ [Operator.add, .subtract, .multiply, .divide] := by
  unfold arithmeticOperator? at h
  split at h <;> simp only [Option.some.injEq, reduceCtorEq] at h <;> subst h <;> decide

/-- Slots that answer at every place with what they stand for. -/
def Supplies (inputs : List (String × Offer)) (slot : String → Option (Option Expr)) : Prop :=
  ∀ name filled, slot name = some filled → ∀ place,
    Yields (Script.atSlot inputs name none fun offer => offer.value place) fun names code =>
      Answer place names code filled

variable (hslots : Supplies inputs slot) {first second third : Option Expr}

include hslots

theorem yields_minus (hoption : node.fieldText "OP" = some "NEG")
    (hfirst : slot "NUM" = some first) :
    Yields ((apply config node).run (setting config) id inputs branches)
      (Emits (.signed .minus (first.getD zeroTree))) := by
  rw [apply_minus hoption]
  refine yields_valueOr (hslots _ _ hfirst _) says_zero rfl fun code => ?_
  exact Yields.pure fun names hoperand => Emits.value hoperand.placed.minus hoperand.spelled

theorem yields_not (node : Node) (hfirst : slot "BOOL" = some first) :
    Yields ((negate config node).run (setting config) id inputs branches)
      (Emits (.signed .not (first.getD (.truth true)))) := by
  refine yields_valueOr (hslots _ _ hfirst _) (says_truth true) rfl fun code => ?_
  exact Yields.pure fun names hoperand => Emits.value hoperand.placed.not hoperand.spelled

theorem yields_binary {operator : Operator} (hoperator : ¬operator.IsConnective)
    (hfirst : slot "A" = some first) (hsecond : slot "B" = some second) :
    Yields (Script.run (setting config) id inputs branches (do
      let a ← Script.valueOr "A" operator.place "0"
      let b ← Script.valueOr "B" operator.place "0"
      return .value s!"{a} {operator.text} {b}" operator.rank))
      (Emits (.binary operator (first.getD zeroTree) (second.getD zeroTree))) := by
  refine yields_valueOr (hslots _ _ hfirst _) says_zero rfl fun a => ?_
  refine yields_valueOr (hslots _ _ hsecond _) says_zero rfl fun b => ?_
  refine Yields.pure fun names hb ha => Emits.value (Placed.binary hoperator ha.placed hb.placed) ?_
  exact List.forall_mem_append.mpr ⟨ha.spelled, hb.spelled⟩

theorem yields_operate {name : String} {operator : Operator}
    (hoption : node.fieldText "OP" = some name)
    (hoperator : arithmeticOperator? name = some operator)
    (hfirst : slot "A" = some first) (hsecond : slot "B" = some second) :
    Yields ((operate config node).run (setting config) id inputs branches)
      (Emits (.binary operator (first.getD zeroTree) (second.getD zeroTree))) := by
  have harithmetic : ∀ operator ∈ [Operator.add, .subtract, .multiply, .divide],
      ¬operator.IsConnective := by decide
  rw [operate_of_option hoption hoperator]
  exact yields_binary hslots
    (harithmetic operator (mem_of_arithmeticOperator? hoperator)) hfirst hsecond

theorem yields_compare {name : String} {operator : Operator}
    (hoption : node.fieldText "OP" = some name)
    (hoperator : comparisonOperator? name = some operator)
    (hfirst : slot "A" = some first) (hsecond : slot "B" = some second) :
    Yields ((compare config node).run (setting config) id inputs branches)
      (Emits (.binary operator (first.getD zeroTree) (second.getD zeroTree))) := by
  have hscript : compare config node = (do
      let a ← Script.valueOr "A" operator.place "0"
      let b ← Script.valueOr "B" operator.place "0"
      return .value s!"{a} {operator.text} {b}" operator.rank) ∧ ¬operator.IsConnective := by
    unfold comparisonOperator? at hoperator
    split at hoperator <;> simp only [Option.some.injEq, reduceCtorEq] at hoperator
      <;> subst hoperator <;>
      simp only [compare, option, hoption] <;> exact ⟨rfl, by decide⟩
  rw [hscript.1]
  exact yields_binary hslots hscript.2 hfirst hsecond

/-- What stands for a missing operand depends on whether both are missing. -/
theorem yields_connect {name : String} {operator : Operator}
    {identity : Bool} (hoption : node.fieldText "OP" = some name)
    (hoperator : connectiveOperator? name = some (operator, identity))
    (hfirst : slot "A" = some first) (hsecond : slot "B" = some second) {missing : Expr}
    (hmissing : missing = .truth (if first.isNone && second.isNone then false else identity)) :
    Yields ((connect config node).run (setting config) id inputs branches)
      (Emits (.binary operator (first.getD missing) (second.getD missing))) := by
  have hscript : connect config node = (do
      let a ← Script.askValue "A" operator.rank
      let b ← Script.askValue "B" operator.rank
      let fallback := if a.isNone && b.isNone then "false" else if identity then "true" else "false"
      return .value
        (a.getD fallback ++ " " ++ operator.text ++ " " ++ b.getD fallback) operator.rank) ∧
      operator.IsConnective := by
    unfold connectiveOperator? at hoperator
    split at hoperator
      <;> simp only [Option.some.injEq, Prod.mk.injEq, reduceCtorEq] at hoperator <;>
      obtain ⟨rfl, rfl⟩ := hoperator <;> simp only [connect, option, hoption]
        <;> exact ⟨rfl, by decide⟩
  rw [hscript.1]
  refine Yields.bind (hslots _ _ hfirst operator.rank) fun a => ?_
  refine Yields.bind (hslots _ _ hsecond operator.rank) fun b => ?_
  refine Yields.pure fun names hb ha => ?_
  have hsays : Says .atomic
      (if a.isNone && b.isNone then "false" else if identity then "true" else "false") missing := by
    rw [ha.isNone_eq, hb.isNone_eq, hmissing]
    split
    · exact says_truth false
    · exact says_truth identity
  have hclosed : missing.names = [] := by rw [hmissing]; rfl
  have hleft := ha.fills hsays hclosed
  have hright := hb.fills hsays hclosed
  refine Emits.value (Placed.connect hscript.2 hleft.placed hright.placed) ?_
  exact List.forall_mem_append.mpr ⟨hleft.spelled, hright.spelled⟩

theorem yields_choice (node : Node) (hfirst : slot "IF" = some first)
    (hsecond : slot "THEN" = some second) (hthird : slot "ELSE" = some third) :
    Yields ((ternary config node).run (setting config) id inputs branches)
      (Emits (.choice (first.getD (.truth false)) (second.getD .null) (third.getD .null))) := by
  refine yields_valueOr (hslots _ _ hfirst _) (says_truth false) rfl fun condition => ?_
  refine yields_valueOr (hslots _ _ hsecond _) says_null rfl fun consequence => ?_
  refine yields_valueOr (hslots _ _ hthird _) says_null rfl fun otherwise => ?_
  refine Yields.pure fun names hotherwise hconsequence hcondition =>
    Emits.value (Placed.choice hcondition.placed hconsequence.placed hotherwise.placed) ?_
  have hbefore := List.forall_mem_append.mpr ⟨hcondition.spelled, hconsequence.spelled⟩
  exact List.forall_mem_append.mpr ⟨hbefore, hotherwise.spelled⟩

omit hslots

/-- An emitter answers with the tree that the shape of its node is. -/
theorem yields_shape (hslots : Supplies (slotOffers (setting config) node.inputs) slot)
    (h : shape node slot = some tree) :
    Yields (node.offer (setting config)).emission (Emits tree) := by
  unfold shape at h
  split at h <;> rename_i hkind <;>
    simp only [Option.bind_eq_bind, Option.bind_eq_some_iff, Option.map_eq_some_iff] at h
  · obtain ⟨value, hvalue, htree⟩ := h
    rw [emission_of_kind hkind ((find?_catalog (by decide)).trans rfl)]
    exact yields_number hvalue htree
  · obtain ⟨value, hvalue, rfl⟩ := h
    rw [emission_of_kind hkind ((find?_catalog (by decide)).trans rfl)]
    exact yields_boolean hvalue
  · obtain rfl := Option.some.inj h
    rw [emission_of_kind hkind ((find?_catalog (by decide)).trans rfl)]
    exact yields_null node
  · obtain ⟨name, hname, rfl⟩ := h
    rw [emission_of_kind hkind ((find?_catalog (by decide)).trans rfl)]
    exact yields_variable hname
  · split at h
    · rename_i hoption
      simp only [Option.bind_eq_some_iff, Option.map_eq_some_iff] at h
      obtain ⟨_, ⟨operand, hoperand, rfl⟩, htree⟩ := h
      obtain rfl := Option.some.inj htree
      rw [emission_of_kind hkind ((find?_catalog (by decide)).trans rfl)]
      exact yields_minus hslots hoption hoperand
    · simp at h
  · obtain ⟨_, ⟨operand, hoperand, rfl⟩, htree⟩ := h
    obtain rfl := Option.some.inj htree
    rw [emission_of_kind hkind ((find?_catalog (by decide)).trans rfl)]
    exact yields_not hslots node hoperand
  · obtain ⟨name, hname, operator, hoperator, _, ⟨a, ha, rfl⟩, _, ⟨b, hb, rfl⟩, htree⟩ := h
    obtain rfl := Option.some.inj htree
    rw [emission_of_kind hkind ((find?_catalog (by decide)).trans rfl)]
    exact yields_operate hslots hname hoperator ha hb
  · obtain ⟨name, hname, operator, hoperator, _, ⟨a, ha, rfl⟩, _, ⟨b, hb, rfl⟩, htree⟩ := h
    obtain rfl := Option.some.inj htree
    rw [emission_of_kind hkind ((find?_catalog (by decide)).trans rfl)]
    exact yields_compare hslots hname hoperator ha hb
  · obtain ⟨name, hname, ⟨operator, identity⟩, hoperator, a, ha, b, hb, htree⟩ := h
    obtain rfl := Option.some.inj htree
    rw [emission_of_kind hkind ((find?_catalog (by decide)).trans rfl)]
    exact yields_connect hslots hname hoperator ha hb rfl
  · obtain ⟨_, ⟨condition, hcondition, rfl⟩, _, ⟨consequence, hconsequence, rfl⟩, _,
        ⟨otherwise, hotherwise, rfl⟩, htree⟩ := h
    obtain rfl := Option.some.inj htree
    rw [emission_of_kind hkind ((find?_catalog (by decide)).trans rfl)]
    exact yields_choice hslots node hcondition hconsequence hotherwise
  · simp at h

/-! ### Nodes -/

theorem Says.ne_empty {rank : Rank} {code : String} (h : Says rank code tree) : code ≠ "" := by
  rintro rfl
  obtain ⟨tokens, hlexes, -⟩ := h
  exact hlexes.ne_nil rfl

theorem yields_value (hslots : Supplies (slotOffers (setting config) node.inputs) slot)
    (h : shape node slot = some tree) (henabled : node.disabled = false) (place : Rank) :
    Yields ((node.offer (setting config)).value place) fun names code =>
      Answer place names code (some tree) := by
  intro session hsession
  obtain ⟨emission, next, hrun, hnext, hgrown, hemits⟩ := yields_shape hslots h session hsession
  cases hemits next.names (Extends.refl _) with
  | @value code rank hsays _ =>
    refine ⟨_, next, value_of_emission hrun henabled hsays.ne_empty place, hnext, hgrown,
      fun later hlater => ?_⟩
    cases hemits later hlater with
    | value hsays' hspelled => exact .code ⟨⟨rank, code, rfl, hsays'⟩, hspelled⟩

end

mutual

theorem yields_reading (config : Config) (node : Node)
    (filled : Option Expr) (h : reading node = some filled) (place : Rank) :
    Yields ((node.offer (setting config)).value place) fun names code =>
      Answer place names code filled := by
  obtain ⟨id, kind, fields, inputs, statements, next, comment, disabled, mutation⟩ := node
  rw [reading_eq] at h
  split at h
  · rename_i hdisabled
    obtain rfl := Option.some.inj h
    rw [value_offer, if_pos hdisabled]
    exact Yields.pure fun _ => .nothing
  · rename_i henabled
    obtain ⟨tree, htree, rfl⟩ := Option.map_eq_some_iff.mp h
    exact yields_value (supplies_slots config inputs) htree (Bool.eq_false_iff.mpr henabled) place
termination_by structural node

theorem supplies_slots (config : Config) (inputs : List (String × Node)) :
    Supplies (slotOffers (setting config) inputs) (slotReading (slotReadings inputs)) := by
  intro name filled h place
  cases inputs with
  | nil =>
    obtain rfl := Option.some.inj h
    exact Yields.pure fun _ => .nothing
  | cons entry rest =>
    obtain ⟨slot, node⟩ := entry
    by_cases hname : name = slot
    · subst hname
      simp only [slotReading, slotReadings, List.lookup_cons_self, Option.getD_some] at h
      have hnode := yields_reading config node filled h place
      simp only [Script.atSlot, slotOffers, List.lookup_cons_self]
      exact hnode
    · have hrest := supplies_slots config rest name filled
      simp only [slotReading, slotReadings, List.lookup_cons, beq_eq_false_iff_ne.mpr hname] at h
      simp only [Script.atSlot, slotOffers, List.lookup_cons, beq_eq_false_iff_ne.mpr hname]
      exact hrest h place
termination_by structural inputs

end

/-! ### Reading a rendered formula -/

theorem Fills.parse_eq {names : Registry} {text : String}
    {tree : Expr} (h : Fills .none names text tree) :
    ∃ parsed, parse text = some parsed ∧ Regrouped parsed (tree.rename (spelling names)) := by
  obtain ⟨toks, hlexes, hreads⟩ := h.placed.reads fun rank _ => grade_le_loosest rank
  obtain ⟨parsed, hparsed, hread⟩ := hreads.reads
  refine ⟨parsed, ?_, hparsed⟩
  have hall := hread [] trivial
  rw [List.append_nil] at hall
  simp [parse, hlexes.tokens_eq, hall]

theorem WellNamed.injOn_spelling {names : Registry} (h : WellNamed names) {tree : Expr}
    (hspelled : Spelled names tree) : Set.InjOn (spelling names) { name | name ∈ tree.names } := by
  intro name hname other hother heq
  have hlookup := hspelled name hname
  have hlookup' := hspelled other hother
  rw [heq] at hlookup
  exact (h.lookup_injective hlookup hlookup').2

/-- The code of a formula is read as its tree, chains of one connective regrouped, with one
identifier for each variable. It has the value of the tree whatever the parts of the tree mean. -/
theorem formulas_are_read_as_their_trees {config : Config}
    {session : Session} (hreach : Reachable (setting config) session)
    {node : Node} {tree : Expr} (h : formula? node = some tree) :
    ∃ text next parsed, (setting config).renderValue (some node) .none "" session = .ok text next ∧
      parse text = some parsed ∧ Regrouped parsed (tree.rename (spelling next.names)) ∧
      Set.InjOn (spelling next.names) { name | name ∈ tree.names } ∧
      ∀ (V : Type) (meaning : Meaning V),
        (∀ operator : Operator, operator.IsConnective → Std.Associative (meaning.binary operator)) →
        parsed.eval meaning =
          tree.eval { meaning with name := meaning.name ∘ spelling next.names } := by
  have hreading : reading node = some (some tree) := Option.join_eq_some_iff.mp h
  obtain ⟨code, next, hvalue, hnext, -, hanswer⟩ :=
    yields_reading config node (some tree) hreading .none session (named_of_reachable hreach)
  have hrender := renderValue_of_value hvalue ""
  cases hanswer next.names (Extends.refl _) with
  | @code text _ hfills =>
    obtain ⟨parsed, hparse, hregrouped⟩ := hfills.parse_eq
    refine ⟨text, next, parsed, hrender, hparse, hregrouped,
      hnext.names.injOn_spelling hfills.spelled, ?_⟩
    intro V meaning hassoc
    calc parsed.eval meaning
        = (tree.rename (spelling next.names)).eval meaning := hregrouped.eval_eq hassoc
      _ = tree.eval { meaning with name := meaning.name ∘ spelling next.names } :=
        Expr.eval_rename meaning _ tree

/-- A sign in front of a negative number, compared with a choice that has one branch. -/
theorem signs_and_empty_slots_are_read_as_their_tree :
    let one := Binary64.finite false (2 ^ 52) (-52)
    let minusOne : Node :=
      { kind := "math_number", fields := [("NUM", .number (.finite true (2 ^ 52) (-52)))] }
    let sign : Node :=
      { kind := "math_single", fields := [("OP", .text "NEG")], inputs := [("NUM", minusOne)] }
    let variableX : Node := { kind := "variables_get", fields := [("VAR", .text "x")] }
    let choice : Node := { kind := "logic_ternary", inputs := [("ELSE", variableX)] }
    let node : Node :=
      { kind := "logic_compare", fields := [("OP", .text "LT")], inputs := [("A", sign), ("B", choice)] }
    let tree : Expr := .binary .less (.signed .minus (.signed .minus (.number one)))
      (.choice (.truth false) .null (.name "x"))
    formula? node = some tree ∧
      ∃ text next parsed,
        (setting {}).renderValue (some node) .none "" (setting {}).session = .ok text next ∧
        parse text = some parsed ∧ Regrouped parsed (tree.rename (spelling next.names)) := by
  intro one minusOne sign variableX choice node tree
  have hformula : formula? node = some tree := by rfl
  have hstart : Reachable (setting {}) (setting {}).session := .start
  obtain ⟨text, next, parsed, hrender, hparse, hregrouped, -⟩ :=
    @formulas_are_read_as_their_trees {} _ hstart node tree hformula
  exact ⟨hformula, text, next, parsed, hrender, hparse, hregrouped⟩

end BlockSynth.Zig
