import BlockSynth.Proofs.Dispatch
import BlockSynth.Proofs.Number.Order
import BlockSynth.Proofs.Zig.Counting
import BlockSynth.Proofs.Zig.Growth
import BlockSynth.Proofs.Zig.Indexing

/-! # Counting loops

Between literal bounds the direction of a counting loop is decided before the program
runs, and between variables when it does. Both loops enter their bodies with the same
values, but for one case: a step of zero between bounds that fall, where the one loop
never ends and the other never begins.
-/
namespace BlockSynth.Zig

/-! ### Nodes that count -/

/-- A node that counts a variable from the code of one slot to that of another. -/
structure Counts (node : Node) (counter : String) (start finish stride : Node) : Prop where
  kind : node.kind = "controls_for"
  counter : node.fieldText "VAR" = some counter
  start : node.inputs.lookup "FROM" = some start
  finish : node.inputs.lookup "TO" = some finish
  stride : node.inputs.lookup "BY" = some stride

/-- A number whose code is an integer. -/
structure IsInteger (node : Node) (z : Int) : Prop where
  kind : node.kind = "math_number"
  enabled : node.disabled = false
  number : ∃ negative significand exponent,
    node.fieldNumber "NUM" = some (.finite negative significand exponent) ∧
      Binary64.Canonical significand exponent ∧
      (Binary64.finite negative significand exponent).codeText = toString z

structure GetsVariable (node : Node) (name : String) : Prop where
  kind : node.kind = "variables_get"
  enabled : node.disabled = false
  name : node.fieldText "VAR" = some name

variable {config : Config} {node inner : Node} {slot counter : String} {session next : Session}

theorem slotCode_of_lookup (hslot : node.inputs.lookup slot = some inner) (place : Rank) :
    slotCode config node slot place = (inner.offer (setting config)).value place := by
  rw [slotCode_eq, hslot]

theorem slotCode_integer {z : Int} (hslot : node.inputs.lookup slot = some inner)
    (h : IsInteger inner z) (session : Session) :
    slotCode config node slot .assignment session = .ok (some (toString z)) session := by
  obtain ⟨negative, significand, exponent, hfield, -, hcode⟩ := h.number
  have hscript : Zig.number config inner = .done (.value (toString z)
      (if (Binary64.finite negative significand exponent).isNegative then .unaryPrefix
        else .atomic)) := by
    simp [Zig.number, hfield, hcode]
  have hemission : (inner.offer (setting config)).emission session = .ok (.value (toString z)
      (if (Binary64.finite negative significand exponent).isNegative then .unaryPrefix
        else .atomic)) session := by
    rw [emission_of_kind h.kind ((find?_catalog (by decide)).trans rfl)]
    show (setting config).ask inner (Zig.number config inner) session = _
    rw [hscript]
    rfl
  have hwrap : wrap .assignment
      (if (Binary64.finite negative significand exponent).isNegative then .unaryPrefix
      else .atomic) (toString z) = toString z := by
    split <;> exact if_neg (by decide)
  rw [slotCode_of_lookup hslot,
    value_of_emission hemission h.enabled (denotes_integer z).ne_empty, hwrap]

theorem emission_variable {name : String} (h : GetsVariable inner name) (session : Session) :
    (inner.offer (setting config)).emission session =
      .ok (.value (session.resolve .variable name).1 .atomic)
      { session with toLedger := (session.resolve .variable name).2 } := by
  rw [emission_of_kind h.kind ((find?_catalog (by decide)).trans rfl)]
  show (setting config).ask inner (getVariable config inner) session = _
  rw [getVariable_of_field h.name]
  rfl

theorem slotCode_variable {name : String} (hslot : node.inputs.lookup slot = some inner)
    (h : GetsVariable inner name) (hsession : Named session) (place : Rank) :
    ∃ word next,
      slotCode config node slot place session = .ok (some word) next ∧ IsName word ∧ Named next ∧
      Extends session.names next.names ∧ next.names.lookup .variable name = some word := by
  obtain ⟨hword, hnamed, hgrown, hlookup⟩ := named_resolve hsession (rfl :
    Synth.onLedger (·.resolve .variable name) session = .ok (session.resolve .variable name).1 _)
  refine ⟨_, _, ?_, hword, hnamed, hgrown, hlookup⟩
  have hwrap : wrap place .atomic (session.resolve .variable name).1 =
      (session.resolve .variable name).1 :=
    if_neg (by simp [Rank.needsParens_atomic])
  rw [slotCode_of_lookup hslot,
    value_of_emission (emission_variable h session) h.enabled (denotes_word hword).ne_empty, hwrap]
  rfl

/-- What a counting loop comes to when its slots have been rendered. -/
def countBetween (config : Config) (name start finish step body : String) : Script Emission :=
  match literal? start, literal? finish, literal? step with
  | some first, some last, some stride =>
    return .statement (literalCount name start finish first last stride body)
  | _, _, _ => do
    let start ← cacheBound start (name ++ "_start")
    let finish ← cacheBound finish (name ++ "_end")
    let increment ← .freshName (name ++ "_inc")
    return .statement (computedCount config name increment start finish step body)

theorem ask_countLoop (h : node.fieldText "VAR" = some counter) :
    (setting config).ask node (countLoop config node) = (do
      let name ← Synth.onLedger (·.resolve .variable counter)
      let start ← slotCode config node "FROM" .assignment
      let finish ← slotCode config node "TO" .assignment
      let step ← slotCode config node "BY" .assignment
      let body ← (setting config).ask node (.askLoopBody "DO")
      (setting config).ask node
        (countBetween config name (start.getD "0") (finish.getD "0") (step.getD "1") body)) := by
  have hcounter : (setting config).ask node (variableOf node) =
      Synth.onLedger (·.resolve .variable counter) := by
    simp only [variableOf, option, h]
    rfl
  have hvalue : ∀ slot fallback, (setting config).ask node (.valueOr slot .assignment fallback) =
      slotCode config node slot .assignment >>= fun code =>
        pure (code.getD fallback) := fun _ _ => rfl
  unfold countLoop
  simp only [Setting.ask_bind, hcounter, hvalue, bind_assoc, pure_bind]
  rfl

/-- Between number literals a loop has the direction of its bounds. -/
theorem isLoop_of_integers {start finish stride : Node}
    (hcounts : Counts node counter start finish stride) {first last step : Int}
    (hfirst : IsInteger start first) (hlast : IsInteger finish last)
    (hstep : IsInteger stride step) (hsession : Named session) {emission : Emission}
    (h : (node.offer (setting config)).emission session = .ok emission next) :
    ∃ code body name,
      emission = .statement code ∧ IsName name ∧ next.names.lookup .variable counter = some name ∧
      IsLoop code body
        (literalLoop name (decide (first ≤ last)) (integerTree first) (integerTree last)
        (.whole step.natAbs)) := by
  rw [emission_of_kind hcounts.kind ((find?_catalog (by decide)).trans rfl)] at h
  have hask := (congrFun (@ask_countLoop config _ _ hcounts.counter) session).symm.trans h
  obtain ⟨name, resolved, hname, hrest⟩ := Synth.ok_of_bind hask
  obtain ⟨hword, hresolved, -, hlookup⟩ := named_resolve hsession hname
  rw [Synth.bind_of_ok (slotCode_integer hcounts.start hfirst resolved),
    Synth.bind_of_ok (slotCode_integer hcounts.finish hlast resolved),
    Synth.bind_of_ok (slotCode_integer hcounts.stride hstep resolved)] at hrest
  obtain ⟨body, inside, hbody, hcode⟩ := Synth.ok_of_bind hrest
  have hgrown := (later_of_ask hresolved hbody).grown
  have hliteral : ∀ {node : Node} {z : Int}, IsInteger node z →
      ∃ number, literal? (toString z) = some number ∧ Binary64.IsLiteral number z := by
    intro node z hnode
    obtain ⟨negative, significand, exponent, -, hcanonical, htext⟩ := hnode.number
    rw [literal?_toString]
    exact Binary64.exists_isLiteral hcanonical htext
  obtain ⟨lower, hlower, hisLower⟩ := hliteral hfirst
  obtain ⟨upper, hupper, hisUpper⟩ := hliteral hlast
  obtain ⟨size, hsize, hisSize⟩ := hliteral hstep
  simp only [countBetween, Option.getD_some, hlower, hupper, hsize] at hcode
  obtain ⟨rfl, rfl⟩ := EStateM.Result.ok.inj hcode
  refine ⟨_, body, name, rfl, hword, hgrown _ _ _ hlookup, ?_⟩
  have hup : lower.le upper = decide (first ≤ last) := by
    rw [Bool.eq_iff_iff, hisLower.le_iff hisUpper, decide_eq_true_iff]
  rw [← hup]
  exact isLoop_literalCount hword (denotes_integer first) (denotes_integer last)
    (denotes_toString step.natAbs) body hisSize.codeText_abs

theorem cacheBound_of_isName {word : String} (h : IsName word) (name : String) :
    cacheBound word name = .done ⟨word, ""⟩ := by
  simp [cacheBound, (literal?_of_isName h).1, cache, Script.cache, h.isWord]

/-- A name that has been resolved is not issued again. -/
theorem ne_fresh {names : Registry} (h : WellNamed names) {space : Namespace}
    {name word : String} (hlookup : names.lookup space name = some word) (base : String) :
    (names.fresh base).1 ≠ word := by
  rintro rfl
  exact (names.distinct_not_mem base).1 (h.issued _ (Keyed.mem_of_lookup hlookup))

/-- Between variables a loop finds its direction when it starts. Its increment is a
word of its own. -/
theorem isLoop_of_variables (hindent : IsIndent config.indentUnit.toList)
    {start finish stride : Node} (hcounts : Counts node counter start finish stride)
    {first last step : String} (hfirst : GetsVariable start first)
    (hlast : GetsVariable finish last) (hstep : GetsVariable stride step) (hsession : Named session)
    {emission : Emission} (h : (node.offer (setting config)).emission session = .ok emission next) :
    ∃ code body increment, emission = .statement code ∧
      IsLoop code body
        (computedLoop (spelling next.names counter) increment (spelling next.names first)
        (spelling next.names last) (spelling next.names step)) ∧
      (∀ name ∈ [counter, first, last], increment ≠ spelling next.names name) ∧
      ∀ name ∈ [counter, first, last, step],
        next.names.lookup .variable name = some (spelling next.names name) := by
  rw [emission_of_kind hcounts.kind ((find?_catalog (by decide)).trans rfl)] at h
  have hask := (congrFun (@ask_countLoop config _ _ hcounts.counter) session).symm.trans h
  obtain ⟨name, resolved, hname, hrest⟩ := Synth.ok_of_bind hask
  obtain ⟨hword, hresolved, -, hlookup⟩ := named_resolve hsession hname
  obtain ⟨lower, started, hlower, hlowerName, hstarted, hgrown, hlowerLookup⟩ :=
    @slotCode_variable config _ _ _ _ _ hcounts.start hfirst hresolved .assignment
  obtain ⟨upper, finished, hupper, hupperName, hfinished, hgrownUpper, hupperLookup⟩ :=
    @slotCode_variable config _ _ _ _ _ hcounts.finish hlast hstarted .assignment
  obtain ⟨size, stepped, hsize, hsizeName, hstepped, hgrownSize, hsizeLookup⟩ :=
    @slotCode_variable config _ _ _ _ _ hcounts.stride hstep hfinished .assignment
  rw [Synth.bind_of_ok hlower, Synth.bind_of_ok hupper, Synth.bind_of_ok hsize] at hrest
  obtain ⟨body, inside, hbody, hcode⟩ := Synth.ok_of_bind hrest
  obtain ⟨hinside, hgrownBody⟩ := later_of_ask hstepped hbody
  have htail : countBetween config name lower upper size body = (do
      let increment ← .freshName (name ++ "_inc")
      return .statement
        (computedCount config name increment ⟨lower, ""⟩ ⟨upper, ""⟩ size body)) := by
    simp only [countBetween, (literal?_of_isName hlowerName).2, cacheBound_of_isName hlowerName,
      cacheBound_of_isName hupperName]
    rfl
  simp only [Option.getD_some, htail] at hcode
  obtain ⟨hemission, hnext⟩ := EStateM.Result.ok.inj hcode
  -- The session inside the body knows all names, and so does the last one.
  have hlookups : inside.names.lookup .variable counter = some name ∧
      inside.names.lookup .variable first = some lower ∧
      inside.names.lookup .variable last = some upper ∧
      inside.names.lookup .variable step = some size :=
    ⟨hgrownBody _ _ _ (hgrownSize _ _ _ (hgrownUpper _ _ _ (hgrown _ _ _ hlookup))),
      hgrownBody _ _ _ (hgrownSize _ _ _ (hgrownUpper _ _ _ hlowerLookup)),
      hgrownBody _ _ _ (hgrownSize _ _ _ hupperLookup), hgrownBody _ _ _ hsizeLookup⟩
  obtain ⟨hcounter, hlow, hhigh, hby⟩ := hlookups
  have hspelling : ∀ {known word : String}, inside.names.lookup .variable known = some word →
      spelling next.names known = word := by
    intro known word hknown
    rw [← hnext]
    exact congrArg (·.getD known) hknown
  have hincrement := (hinside.fresh (name ++ "_inc")).1
  refine ⟨_, body, (inside.fresh (name ++ "_inc")).1, hemission.symm, ?_, ?_, ?_⟩
  · rw [hspelling hcounter, hspelling hlow, hspelling hhigh, hspelling hby]
    exact isLoop_computedCount hindent hword hincrement hlowerName hupperName hsizeName body
  · simp only [List.forall_mem_cons, List.not_mem_nil, false_imp_iff, implies_true, and_true]
    rw [hspelling hcounter, hspelling hlow, hspelling hhigh]
    exact ⟨ne_fresh hinside.names hcounter _, ne_fresh hinside.names hlow _,
      ne_fresh hinside.names hhigh _⟩
  · simp only [List.forall_mem_cons, List.not_mem_nil, false_imp_iff, implies_true, and_true]
    rw [hspelling hcounter, hspelling hlow, hspelling hhigh, hspelling hby, ← hnext]
    exact ⟨hcounter, hlow, hhigh, hby⟩

/-- Different variables have different words. -/
theorem spelling_ne_of_emission (hsession : Named session) {emission : Emission}
    (h : (node.offer (setting config)).emission session = .ok emission next) {name other : String}
    (hname : next.names.lookup .variable name = some (spelling next.names name))
    (hother : next.names.lookup .variable other = some (spelling next.names other))
    (hne : name ≠ other) :
    spelling next.names name ≠ spelling next.names other := by
  have hnext := (((naming_upheld config).offer node).emission.of_ok hsession h).2
  intro hsame
  rw [hsame] at hname
  exact hne (hnext.names.lookup_injective hname hother).2

/-! ### Two loops for the same numbers -/

/-- A loop with nothing in it. -/
def counting (start finish stride : Node) : Node :=
  { kind := "controls_for", fields := [("VAR", .text "i")],
    inputs := [("FROM", start), ("TO", finish), ("BY", stride)] }

theorem counts_counting (start finish stride : Node) :
    Counts (counting start finish stride) "i" start finish stride :=
  ⟨rfl, rfl, rfl, rfl, rfl⟩

def integerNode (significand : Nat) (exponent : Int) : Node :=
  { kind := "math_number", fields := [("NUM", .number (.finite false significand exponent))] }

def variableNode (name : String) : Node :=
  { kind := "variables_get", fields := [("VAR", .text name)] }

theorem getsVariable_variableNode (name : String) : GetsVariable (variableNode name) name :=
  ⟨rfl, rfl, rfl⟩

theorem isInteger_integerNode {significand : Nat} {exponent z : Int}
    (hcanonical : Binary64.Canonical significand exponent)
    (h : (Binary64.finite false significand exponent).integer? = some z)
    (hbound : z.natAbs < Binary64.integerBound) :
    IsInteger (integerNode significand exponent) z :=
  ⟨rfl, rfl, false, significand, exponent, rfl, hcanonical, codeText_of_integer? h hbound⟩

theorem exists_emission_countBetween (node : Node)
    (name start finish step body : String) (session : Session) :
    ∃ emission next,
      (setting {}).ask node (countBetween {} name start finish step body) session =
        .ok emission next := by
  have hbound : ∀ code base session, ∃ cached next,
      (setting {}).ask node (cacheBound code base) session = .ok cached next := by
    intro code base session
    unfold cacheBound
    split
    · exact ⟨_, _, rfl⟩
    · unfold cache Script.cache
      split
      · exact ⟨_, _, rfl⟩
      · exact ⟨_, _, rfl⟩
  unfold countBetween
  split
  · exact ⟨_, _, rfl⟩
  · obtain ⟨lower, started, hlower⟩ := hbound start (name ++ "_start") session
    obtain ⟨upper, finished, hupper⟩ := hbound finish (name ++ "_end") started
    rw [Setting.ask_bind, Synth.bind_of_ok hlower, Setting.ask_bind, Synth.bind_of_ok hupper]
    exact ⟨_, _, rfl⟩

/-- What a slot has to do for a loop to be emitted. -/
def Answers (node : Node) (slot : String) : Prop :=
  ∀ session, Named session → ∃ code next,
    slotCode {} node slot .assignment session = .ok code next ∧ Named next

theorem exists_emission_counting {start finish stride : Node}
    (hslots : ∀ slot ∈ ["FROM", "TO", "BY"], Answers (counting start finish stride) slot) :
    ∃ emission next,
      ((counting start finish stride).offer (setting {})).emission (setting {}).session =
        .ok emission next := by
  have hcounts := counts_counting start finish stride
  have hnamed := (named_resolve (named_session {}) (rfl :
    Synth.onLedger (·.resolve .variable "i") (setting {}).session = .ok _ _)).2.1
  obtain ⟨lower, started, hlower, hstarted⟩ := hslots "FROM" (by simp) _ hnamed
  obtain ⟨upper, finished, hupper, hfinished⟩ := hslots "TO" (by simp) _ hstarted
  obtain ⟨size, stepped, hsize, -⟩ := hslots "BY" (by simp) _ hfinished
  obtain ⟨emission, next, hemission⟩ := exists_emission_countBetween (counting start finish stride)
    ((setting {}).session.resolve .variable "i").1 (lower.getD "0") (upper.getD "0")
      (size.getD "1") "" stepped
  refine ⟨emission, next, ?_⟩
  rw [emission_of_kind hcounts.kind ((find?_catalog (by decide)).trans rfl)]
  refine (congrFun (@ask_countLoop {} _ _ hcounts.counter) _).trans ?_
  refine (Synth.bind_of_ok rfl _).trans ?_
  rw [Synth.bind_of_ok hlower, Synth.bind_of_ok hupper, Synth.bind_of_ok hsize]
  exact (Synth.bind_of_ok rfl _).trans hemission

theorem answers_integer {node inner : Node} {slot : String} {z : Int}
    (hslot : node.inputs.lookup slot = some inner) (h : IsInteger inner z) : Answers node slot :=
  fun session hsession => ⟨_, session, slotCode_integer hslot h session, hsession⟩

theorem answers_variable {node inner : Node} {slot name : String}
    (hslot : node.inputs.lookup slot = some inner) (h : GetsVariable inner name) :
    Answers node slot := by
  intro session hsession
  obtain ⟨word, next, hrun, -, hnext, -⟩ :=
    @slotCode_variable {} _ _ _ _ _ hslot h hsession .assignment
  exact ⟨_, next, hrun, hnext⟩

theorem exists_emission_of_integers {start finish stride : Node}
    {first last step : Int} (hfirst : IsInteger start first)
    (hlast : IsInteger finish last) (hstep : IsInteger stride step) :
    ∃ emission next,
      ((counting start finish stride).offer (setting {})).emission (setting {}).session =
        .ok emission next := by
  have hcounts := counts_counting start finish stride
  refine exists_emission_counting ?_
  simp only [List.forall_mem_cons, List.not_mem_nil, false_imp_iff, implies_true, and_true]
  exact ⟨answers_integer hcounts.start hfirst, answers_integer hcounts.finish hlast,
    answers_integer hcounts.stride hstep⟩

theorem exists_emission_of_variables : ∃ emission next,
    ((counting (variableNode "a") (variableNode "b") (variableNode "s")).offer
      (setting {})).emission
      (setting {}).session = .ok emission next := by
  have hcounts := counts_counting (variableNode "a") (variableNode "b") (variableNode "s")
  refine exists_emission_counting ?_
  simp only [List.forall_mem_cons, List.not_mem_nil, false_imp_iff, implies_true, and_true]
  exact ⟨answers_variable hcounts.start (getsVariable_variableNode "a"),
    answers_variable hcounts.finish (getsVariable_variableNode "b"),
    answers_variable hcounts.stride (getsVariable_variableNode "s")⟩

theorem isInteger_two : IsInteger (integerNode (2 ^ 52) (-51)) 2 :=
  isInteger_integerNode (by decide) (by decide +kernel) (by decide)

theorem isInteger_one : IsInteger (integerNode (2 ^ 52) (-52)) 1 :=
  isInteger_integerNode (by decide) (by decide +kernel) (by decide)

theorem isInteger_zero : IsInteger (integerNode 0 (-1074)) 0 :=
  isInteger_integerNode (by decide) (by decide +kernel) (by decide)

/-! ### The sequences of values -/

/-- A counting loop enters its body with the same values, whether its bounds are literals or
variables, unless the bounds fall and the step is zero. -/
theorem literal_bounds_count_like_variables {config : Config}
    (hindent : IsIndent config.indentUnit.toList) {node start finish stride : Node}
    {counter : String} (hcounts : Counts node counter start finish stride) {first last step : Int}
    (hfirst : IsInteger start first) (hlast : IsInteger finish last) (hstep : IsInteger stride step)
    {session next : Session} (hreach : Reachable (setting config) session) {emission : Emission}
    (h : (node.offer (setting config)).emission session = .ok emission next)
    {node' start' finish' stride' : Node} {counter' : String}
    (hcounts' : Counts node' counter' start' finish' stride') {from' to' by' : String}
    (hfrom : GetsVariable start' from') (hto : GetsVariable finish' to')
    (hby : GetsVariable stride' by') (hne : counter' ≠ to') {session' next' : Session}
    (hreach' : Reachable (setting config) session') {emission' : Emission}
    (h' : (node'.offer (setting config)).emission session' = .ok emission' next') :
    ∃ code body loop code' body' loop', emission = .statement code ∧ IsLoop code body loop ∧
      emission' = .statement code' ∧ IsLoop code' body' loop' ∧
      loop.change.word = (spelling next.names counter).toList ∧
      loop'.change.word = (spelling next'.names counter').toList ∧
      ∀ run run' store store', loop.Spared run → loop'.Spared run' →
        store' (spelling next'.names from').toList = first →
        store' (spelling next'.names to').toList = last →
        store' (spelling next'.names by').toList = step →
        (loop.entries run store = loop'.entries run' store' ↔ (step = 0 → first ≤ last)) := by
  obtain ⟨code, body, name, hcode, hname, hlookup, hloop⟩ :=
    isLoop_of_integers hcounts hfirst hlast hstep (named_of_reachable hreach) h
  obtain ⟨code', body', increment, hcode', hloop', hapart, hknown⟩ :=
    isLoop_of_variables hindent hcounts' hfrom hto hby (named_of_reachable hreach') h'
  have hcounter :=
    spelling_ne_of_emission (named_of_reachable hreach') h' (hknown counter' (by simp))
    (hknown to' (by simp)) hne
  have hspelled : spelling next.names counter = name := by
    simp only [spelling, hlookup, Option.getD_some]
  refine ⟨code, body, _, code', body', _, hcode, hloop, hcode',
    hloop', by rw [hspelled]; rfl, rfl, ?_⟩
  intro run run' store store' hspared hspared' hstart hend hsize
  simp only [List.forall_mem_cons, List.not_mem_nil, false_imp_iff, implies_true,
    and_true] at hapart
  rw [entries_literalLoop store hspared,
    entries_computedLoop hapart.2.1 hapart.2.2 hcounter hapart.1.symm hspared' hstart hend hsize]
  exact progressions_agree_iff

theorem loops_from_two_to_one_agree :
    let literal := counting (integerNode (2 ^ 52) (-51))
      (integerNode (2 ^ 52) (-52)) (integerNode (2 ^ 52) (-52))
    let computed := counting (variableNode "a") (variableNode "b") (variableNode "s")
    ∃ code body loop next code' body' loop' next',
      (literal.offer (setting {})).emission (setting {}).session = .ok (.statement code) next ∧
      IsLoop code body loop ∧
        (computed.offer (setting {})).emission (setting {}).session = .ok (.statement code') next' ∧
        IsLoop code' body' loop' ∧
        ∀ store, store (spelling next'.names "a").toList = 2 →
          store (spelling next'.names "b").toList = 1 →
          store (spelling next'.names "s").toList = 1 →
          loop.entries id store = loop'.entries id store := by
  dsimp only
  obtain ⟨emission, next, h⟩ :=
    exists_emission_of_integers isInteger_two isInteger_one isInteger_one
  obtain ⟨emission', next', h'⟩ := exists_emission_of_variables
  obtain ⟨code, body, loop, code', body', loop', rfl, hloop, rfl, hloop', -, -, hagree⟩ :=
    literal_bounds_count_like_variables (by decide) (counts_counting _ _ _) isInteger_two
      isInteger_one isInteger_one .start h (counts_counting _ _ _) (getsVariable_variableNode "a")
      (getsVariable_variableNode "b") (getsVariable_variableNode "s") (by decide) .start h'
  refine ⟨code, body, loop, next, code', body', loop', next', h, hloop, h', hloop',
    fun store ha hb hs => ?_⟩
  exact (hagree id id store store loop.spared_id loop'.spared_id ha hb hs).mpr (by decide)

/-- From two to one by zero, the one loop is at two for ever, and the other never
enters its body. -/
theorem loops_from_two_to_one_by_zero_disagree :
    let literal :=
      counting (integerNode (2 ^ 52) (-51)) (integerNode (2 ^ 52) (-52)) (integerNode 0 (-1074))
    let computed := counting (variableNode "a") (variableNode "b") (variableNode "s")
    ∃ code body loop next code' body' loop' next' store,
      (literal.offer (setting {})).emission (setting {}).session = .ok (.statement code) next ∧
      IsLoop code body loop ∧
        (computed.offer (setting {})).emission (setting {}).session = .ok (.statement code') next' ∧
        IsLoop code' body' loop' ∧ store (spelling next'.names "a").toList = 2 ∧
        store (spelling next'.names "b").toList = 1 ∧ store (spelling next'.names "s").toList = 0 ∧
        (∀ n, loop.entries id store n = some 2) ∧ ∀ n, loop'.entries id store n = none := by
  dsimp only
  obtain ⟨emission, next, h⟩ :=
    exists_emission_of_integers isInteger_two isInteger_one isInteger_zero
  obtain ⟨emission', next', h'⟩ := exists_emission_of_variables
  obtain ⟨code, body, name, rfl, -, -, hloop⟩ :=
    isLoop_of_integers (counts_counting _ _ _) isInteger_two isInteger_one isInteger_zero
      (named_session {}) h
  obtain ⟨code', body', increment, rfl, hloop', hapart, hknown⟩ :=
    isLoop_of_variables (by decide) (counts_counting _ _ _) (getsVariable_variableNode "a")
      (getsVariable_variableNode "b") (getsVariable_variableNode "s") (named_session {}) h'
  have hne : ∀ known ∈ ["i", "a", "b", "s"], ∀ other ∈ ["i", "a", "b", "s"], known ≠ other →
      spelling next'.names known ≠ spelling next'.names other := fun known hknown' other hother =>
    spelling_ne_of_emission (named_session {}) h' (hknown known hknown') (hknown other hother)
  let store : Store := fun word =>
    if word = (spelling next'.names "a").toList then 2
      else if word = (spelling next'.names "b").toList then 1 else 0
  have hother : ∀ known ∈ ["i", "a", "b", "s"], ∀ other ∈ ["i", "a", "b", "s"], known ≠ other →
      (spelling next'.names known).toList ≠ (spelling next'.names other).toList :=
    fun known hknown' other hother hdiffer heq =>
      hne known hknown' other hother hdiffer (String.toList_inj.mp heq)
  have ha : store (spelling next'.names "a").toList = 2 := if_pos rfl
  have hb : store (spelling next'.names "b").toList = 1 := by
    simp [store, hother "b" (by simp) "a" (by simp) (by decide)]
  have hs : store (spelling next'.names "s").toList = 0 := by
    simp [store, hother "s" (by simp) "a" (by simp) (by decide),
      hother "s" (by simp) "b" (by simp) (by decide)]
  refine ⟨code, body, _, next, code', body', _, next', store, h, hloop, h', hloop', ha, hb, hs,
    fun n => ?_, fun n => ?_⟩
  · rw [entries_literalLoop store (Loop.spared_id _)]
    simp [progression, stride, UpTo]
  · simp only [List.forall_mem_cons, List.not_mem_nil, false_imp_iff, implies_true,
      and_true] at hapart
    rw [entries_computedLoop hapart.2.1 hapart.2.2 (hne "i" (by simp) "b" (by simp) (by decide))
      hapart.1.symm (Loop.spared_id _) ha hb hs]
    refine if_neg fun hall => ?_
    exact absurd (hall 0 (Nat.zero_le n)) (by decide)

end BlockSynth.Zig
