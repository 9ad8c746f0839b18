import BlockSynth.Proofs.Dispatch
import BlockSynth.Proofs.Zig.Imports

/-! # Operands that are evaluated once

Code may be expensive to evaluate or do something, so it must not be written twice. What a node
emits is looked at here as a function of the code of one operand: code that is computed ends up in
one gap of an emission that is the same for all such code.
-/
namespace BlockSynth

/-- An operand that is rendered like another one, but always as the given code. -/
def Offer.giving (operand : Offer) (code : String) : Offer :=
  { operand with value := fun place => do
      let _ ← operand.value place
      return some code }

/-- What a node emits with the given operand in a slot. -/
def Setting.emissionWith (setting : Setting) (node : Node) (slot : String)
    (operand : Offer) : Synth Emission :=
  (Offer.ofNode setting node ((slot, operand) :: slotOffers setting node.inputs)
    (slotOffers setting node.statements) (chainOffer setting node.next)).emission

theorem emissionWith_of_find? {setting : Setting} {node : Node} {emitter : Emitter}
    (h : setting.target.catalog.find? node.kind = some emitter) (slot : String) (operand : Offer) :
    setting.emissionWith node slot operand =
      (emitter.script setting.config node).run setting node.id
      ((slot, operand) :: slotOffers setting node.inputs) (slotOffers setting node.statements) := by
  unfold Setting.emissionWith Offer.ofNode
  simp only [h]

/-- With the offer of the node that is in the slot, a node emits what it does. -/
theorem emission_eq_emissionWith {setting : Setting} {node child : Node} {slot : String}
    (h : node.inputs.lookup slot = some child) :
    (node.offer setting).emission = setting.emissionWith node slot (child.offer setting) := by
  have hinputs : ∀ name, (slotOffers setting node.inputs).lookup name =
      ((slot, child.offer setting) :: slotOffers setting node.inputs).lookup name := by
    intro name
    rw [List.lookup_cons, lookup_slotOffers]
    cases hname : name == slot with
    | true =>
      rw [eq_of_beq hname, h]
      rfl
    | false => rfl
  rw [Node.offer_eq]
  unfold Setting.emissionWith Offer.ofNode
  cases setting.target.catalog.find? node.kind with
  | none => rfl
  | some emitter => exact Script.run_congr hinputs _

namespace Zig

/-- An emission with a gap for the code of an operand. -/
inductive Mould
  | value (before behind : String) (rank : Rank)
  | statement (before behind : String)

def Mould.fill (code : String) : Mould → Emission
  | value before behind rank => .value (before ++ code ++ behind) rank
  | statement before behind => .statement (before ++ code ++ behind)

/-- How a run ends whose emission has a gap. -/
abbrev Outcome := EStateM.Result Fault Session Mould

def Outcome.fill (code : String) : Outcome → EStateM.Result Fault Session Emission
  | .ok mould last => .ok (mould.fill code) last
  | .error fault last => .error fault last

/-- The statement ends with a loop, and its gap is in front of that. -/
def Mould.BeforeLoop : Mould → Prop
  | .statement _ behind => ∃ setup condition change body : String,
    behind = setup ++ braces s!"while ({condition}) : ({change})" body ++ "\n"
  | .value .. => False

def boundSlots : List (String × String) :=
  [("controls_repeat_ext", "TIMES"), ("controls_for", "FROM"), ("controls_for", "TO"),
    ("controls_for", "BY")]

/-- The slots of operands that must be evaluated once. -/
def onceSlots : List (String × String) :=
  [("lists_getIndex", "VALUE"), ("lists_setIndex", "LIST"), ("lists_getSublist", "LIST"),
    ("text_getSubstring", "STRING")] ++ boundSlots

/-- Code of an operand that nodes of the given kind may not repeat. -/
def Computed (kind code : String) : Prop :=
  Text.isWord code = false ∧
    (kind = "text_getSubstring" → Text.isQuotedWord quotes.delimiter code = false) ∧
    (kind ∈ boundSlots.map Prod.fst → Text.isNumberLiteral code = false)

variable {α : Type} (config : Config) (node : Node) (slot : String) (computed : String → Prop)
    (fits : Mould → Prop)

/-- Run a script of the node with an operand in the slot. -/
def runWith (operand : Offer) (script : Script α) : Synth α :=
  script.run (setting config) node.id ((slot, operand) :: slotOffers (setting config) node.inputs)
    (slotOffers (setting config) node.statements)

/-- The script has nothing to do with the operand in the slot. -/
def Ignores (script : Script α) : Prop :=
  ∃ run, ∀ operand, runWith config node slot operand script = run

/-- Scripts that depend on the code of an operand, and emit it in the gap of one mould. -/
def Moulds (family : String → Script Emission) : Prop :=
  ∀ session, ∃ outcome : Outcome, (∀ mould last, outcome = .ok mould last → fits mould) ∧
    ∀ operand code, computed code →
      runWith config node slot operand (family code) session = outcome.fill code

/-- The script asks for the operand in the slot once, and emits its code in the gap of a mould. -/
def Once (script : Script Emission) : Prop :=
  ∀ operand session, ∃ outcome : Outcome, (∀ mould last, outcome = .ok mould last → fits mould) ∧
    (∀ code, computed code →
      runWith config node slot (operand.giving code) script session = outcome.fill code) ∧
    ∀ emission last, runWith config node slot operand script session = .ok emission last →
      ∃ place before answer after, operand.value place before = .ok answer after ∧
        ∀ code ∈ answer, computed code → outcome.fill code = .ok emission last

variable {config node slot computed fits} {β : Type}

theorem runWith_bind (operand : Offer) (script : Script α) (next : α → Script β) :
    runWith config node slot operand (script >>= next) =
      runWith config node slot operand script >>= fun answer =>
        runWith config node slot operand (next answer) :=
  script.run_bind next

/-! ### Scripts that ignore the operand -/

theorem Ignores.bind {script : Script α} {next : α → Script β} (h : Ignores config node slot script)
    (hnext : ∀ answer, Ignores config node slot (next answer)) :
    Ignores config node slot (script >>= next) := by
  obtain ⟨run, hrun⟩ := h
  choose rest hrest using hnext
  refine ⟨run >>= rest, fun operand => ?_⟩
  rw [runWith_bind, hrun operand]
  exact congrArg _ (funext fun answer => hrest answer operand)

theorem ignores_pure (answer : α) : Ignores config node slot (pure answer) := ⟨_, fun _ => rfl⟩

theorem ignores_fail (fault : Fault) :
    Ignores config node slot (.fail fault : Script α) := ⟨_, fun _ => rfl⟩

theorem ignores_choose (field : String) (choice : Option α) :
    Ignores config node slot (choose node field choice) := by
  cases choice with
  | none => exact ignores_fail _
  | some answer => exact ignores_pure answer

theorem ignores_askValue {other : String} (h : other ≠ slot) (rank : Rank) :
    Ignores config node slot (.askValue other rank) := by
  have hother : (other == slot) = false := beq_eq_false_iff_ne.mpr h
  refine ⟨Script.atSlot (slotOffers (setting config) node.inputs) other none fun offer =>
    offer.value rank, fun operand => ?_⟩
  simp only [runWith, Script.askValue, Script.run, Script.atSlot, List.lookup_cons,
    hother, bind_pure]

theorem ignores_valueOr {other : String} (h : other ≠ slot) (rank : Rank) (fallback : String) :
    Ignores config node slot (.valueOr other rank fallback) :=
  (ignores_askValue h rank).bind fun _ => ignores_pure _

theorem ignores_index {other : String} (h : other ≠ slot)
    (delta : Int) (negate : Bool) (place : Rank) :
    Ignores config node slot (.index config other delta negate place) :=
  (ignores_valueOr h _ _).bind fun _ => ignores_pure _

theorem ignores_askHelper (key template : String) :
    Ignores config node slot (.askHelper key template) :=
  ⟨(setting config).ask node (.askHelper key template), fun _ => rfl⟩

theorem ignores_freshName (name : String) : Ignores config node slot (.freshName name) :=
  ⟨(setting config).ask node (.freshName name), fun _ => rfl⟩

theorem ignores_variableName (name : String) : Ignores config node slot (.variableName name) :=
  ⟨(setting config).ask node (.variableName name), fun _ => rfl⟩

theorem ignores_askLoopBody (branch : String) : Ignores config node slot (.askLoopBody branch) :=
  ⟨(setting config).ask node (.askLoopBody branch), fun _ => rfl⟩

theorem ignores_requireStd : Ignores config node slot requireStd :=
  ⟨(setting config).ask node requireStd, fun _ => rfl⟩

theorem ignores_requireAllocator : Ignores config node slot requireAllocator :=
  ⟨(setting config).ask node requireAllocator, fun _ => rfl⟩

theorem ignores_variableOf : Ignores config node slot (variableOf node) := by
  refine Ignores.bind ?_ ignores_variableName
  unfold option
  split
  · exact ignores_pure _
  · exact ignores_fail _

theorem ignores_cache (code name : String) : Ignores config node slot (cache code name) := by
  unfold cache Script.cache
  split
  · exact ignores_pure _
  · exact (ignores_freshName name).bind fun _ => ignores_pure _

theorem ignores_cacheBound (code name : String) :
    Ignores config node slot (cacheBound code name) := by
  unfold cacheBound
  split
  · exact ignores_pure _
  · exact ignores_cache code name

theorem ignores_randomIndex (list : String) : Ignores config node slot (randomIndex list) :=
  ignores_requireStd.bind fun _ => (ignores_freshName _).bind fun _ => ignores_pure _

theorem ignores_sliceEnds : Ignores config node slot (sliceEnds node) :=
  (ignores_choose _ _).bind fun _ => (ignores_choose _ _).bind fun _ => ignores_pure _

theorem ignores_writeItem (hslot : "AT" ≠ slot) (insert : Bool)
    (position : Position) (list value : String) :
    Ignores config node slot (writeItem config insert position list value) := by
  cases position with
  | first => exact ignores_pure _
  | last => exact ignores_pure _
  | fromStart => exact (ignores_index hslot _ _ _).bind fun _ => ignores_pure _
  | fromEnd => exact (ignores_index hslot _ _ _).bind fun _ => ignores_pure _
  | random => exact (ignores_randomIndex list).bind fun _ => ignores_pure _

/-! ### Scripts with the code at hand -/

theorem Moulds.pure {family : String → Script Emission} (mould : Mould) (hfits : fits mould)
    (h : ∀ code, computed code → family code = Pure.pure (mould.fill code)) :
    Moulds config node slot computed fits family := by
  refine fun session => ⟨.ok mould session, ?_, fun operand code hcode => ?_⟩
  · rintro _ _ ⟨⟩
    exact hfits
  · rw [h code hcode]
    rfl

theorem Moulds.value {text : String → String} (before behind : String)
    (rank : Rank) (hfits : fits (.value before behind rank))
    (h : ∀ code,
      computed code → (text code).toList = before.toList ++ code.toList ++ behind.toList) :
    Moulds config node slot computed fits fun code => Pure.pure (.value (text code) rank) := by
  refine .pure (.value before behind rank) hfits fun code hcode => ?_
  have htext : text code = before ++ code ++ behind :=
    String.toList_inj.mp (by simpa using h code hcode)
  rw [htext, Mould.fill]

theorem Moulds.statement {text : String → String} (before behind : String)
    (hfits : fits (.statement before behind))
    (h : ∀ code,
      computed code → (text code).toList = before.toList ++ code.toList ++ behind.toList) :
    Moulds config node slot computed fits fun code => Pure.pure (.statement (text code)) := by
  refine .pure (.statement before behind) hfits fun code hcode => ?_
  have htext : text code = before ++ code ++ behind :=
    String.toList_inj.mp (by simpa using h code hcode)
  rw [htext, Mould.fill]

theorem Moulds.congr {family family' : String → Script Emission}
    (h : Moulds config node slot computed fits family')
    (heq : ∀ code, computed code → family code = family' code) :
    Moulds config node slot computed fits family := by
  intro session
  obtain ⟨outcome, hfits, hfill⟩ := h session
  refine ⟨outcome, hfits, fun operand code hcode => ?_⟩
  rw [heq code hcode]
  exact hfill operand code hcode

theorem Moulds.bind {script : Script α} {next : String → α → Script Emission}
    (h : Ignores config node slot script)
    (hnext : ∀ answer, Moulds config node slot computed fits fun code => next code answer) :
    Moulds config node slot computed fits fun code => script >>= next code := by
  intro session
  obtain ⟨run, hrun⟩ := h
  cases hstep : run session with
  | ok answer between =>
    obtain ⟨outcome, hfits, hfill⟩ := hnext answer between
    refine ⟨outcome, hfits, fun operand code hcode => ?_⟩
    rw [runWith_bind, hrun operand, Synth.bind_of_ok hstep]
    exact hfill operand code hcode
  | error fault stopped =>
    refine ⟨.error fault stopped, fun _ _ h => (nomatch h), fun operand code hcode => ?_⟩
    rw [runWith_bind, hrun operand, Synth.bind_of_error hstep]
    rfl

/-- Code that is no word is bound to a name, and the name is used from there on. -/
theorem Moulds.cache {name : String} {next : String → Cached → Script Emission}
    (hcomputed : ∀ code, computed code → Text.isWord code = false)
    (hnext : ∀ word, Moulds config node slot computed fits fun code =>
      next code ⟨word, declareConst word code⟩) :
    Moulds config node slot computed fits fun code => cache code name >>= next code := by
  refine (Moulds.bind (ignores_freshName name) hnext).congr fun code hcode => ?_
  unfold Zig.cache Script.cache
  rw [hcomputed code hcode]
  rfl

theorem Moulds.cacheBound {name : String} {next : String → Cached → Script Emission}
    (hcomputed : ∀ code, computed code →
      Text.isWord code = false ∧ Text.isNumberLiteral code = false)
    (hnext : ∀ word, Moulds config node slot computed fits fun code =>
      next code ⟨word, declareConst word code⟩) :
    Moulds config node slot computed fits fun code => cacheBound code name >>= next code := by
  have hcached : Moulds config node slot computed fits fun code =>
      Zig.cache code name >>= next code :=
    .cache (fun code hcode => (hcomputed code hcode).1) hnext
  refine hcached.congr fun code hcode => ?_
  unfold Zig.cacheBound
  rw [(hcomputed code hcode).2]
  rfl

/-! ### Scripts that ask for the operand -/

theorem Once.bind {script : Script α} {next : α → Script Emission}
    (h : Ignores config node slot script)
    (hnext : ∀ answer, Once config node slot computed fits (next answer)) :
    Once config node slot computed fits (script >>= next) := by
  intro operand session
  obtain ⟨run, hrun⟩ := h
  cases hstep : run session with
  | ok answer between =>
    obtain ⟨outcome, hfits, hfill, hown⟩ := hnext answer operand between
    refine ⟨outcome, hfits, fun code hcode => ?_, fun emission last hlast => ?_⟩
    · rw [runWith_bind, hrun, Synth.bind_of_ok hstep]
      exact hfill code hcode
    · rw [runWith_bind, hrun, Synth.bind_of_ok hstep] at hlast
      exact hown emission last hlast
  | error fault stopped =>
    refine ⟨.error fault stopped, fun _ _ h => (nomatch h), fun code hcode => ?_,
      fun emission last hlast => ?_⟩
    · rw [runWith_bind, hrun, Synth.bind_of_error hstep]
      rfl
    · rw [runWith_bind, hrun, Synth.bind_of_error hstep] at hlast
      cases hlast

theorem runWith_askValue (operand : Offer) (rank : Rank) :
    runWith config node slot operand (.askValue slot rank) = operand.value rank := by
  simp only [runWith, Script.askValue, Script.run, Script.atSlot, List.lookup_cons,
    beq_self_eq_true, bind_pure]

/-- The rest of the script is a function of the code, which is what has to be moulded. -/
theorem once_askValue (rank : Rank) (next : Option String → Script Emission)
    (h : Moulds config node slot computed fits fun code => next (some code)) :
    Once config node slot computed fits (.askValue slot rank >>= next) := by
  intro operand session
  cases hrun : operand.value rank session with
  | ok answer after =>
    obtain ⟨outcome, hfits, hfill⟩ := h after
    refine ⟨outcome, hfits, fun code hcode => ?_, fun emission last hlast => ?_⟩
    · have hgiven : (operand.giving code).value rank session = .ok (some code) after :=
        Synth.bind_of_ok hrun _
      rw [runWith_bind, runWith_askValue, Synth.bind_of_ok hgiven]
      exact hfill _ code hcode
    · rw [runWith_bind, runWith_askValue, Synth.bind_of_ok hrun] at hlast
      refine ⟨rank, session, answer, after, hrun, fun code hanswer hcode => ?_⟩
      obtain rfl : answer = some code := hanswer
      rw [← hfill operand code hcode]
      exact hlast
  | error fault stopped =>
    refine ⟨.error fault stopped, fun _ _ h => (nomatch h), fun code hcode => ?_,
      fun emission last hlast => ?_⟩
    · have hgiven : (operand.giving code).value rank session = .error fault stopped :=
        Synth.bind_of_error hrun _
      rw [runWith_bind, runWith_askValue, Synth.bind_of_error hgiven]
      rfl
    · rw [runWith_bind, runWith_askValue, Synth.bind_of_error hrun] at hlast
      cases hlast

theorem once_valueOr (rank : Rank) (fallback : String) {next : String → Script Emission}
    (h : Moulds config node slot computed fits next) :
    Once config node slot computed fits (.valueOr slot rank fallback >>= next) :=
  once_askValue rank (fun code => next (code.getD fallback)) h

theorem once_listOr {next : String → Script Emission}
    (h : Moulds config node slot computed fits next) :
    Once config node slot computed fits (listOr slot >>= next) := by
  rw [listOr, bind_assoc]
  exact once_askValue .unaryPostfix _ h

/-! ### Emitters -/

section Lists

variable (hcomputed : ∀ code, computed code → Text.isWord code = false)
    (hfits : ∀ mould, fits mould)

include hfits in
theorem moulds_accessAt (access : Access) (index : String) :
    Moulds config node slot computed fits fun code => pure (accessAt access code index) := by
  cases access with
  | get =>
    exact .value "" s!".items[{index}]" .unaryPostfix (hfits _) fun code _ => by simp [toString]
  | getRemove =>
    exact .value "" s!".orderedRemove({index})" .unaryPostfix (hfits _) fun code _ => by
      simp [toString]
  | remove =>
    exact .statement "_ = " s!".orderedRemove({index});\n" (hfits _) fun code _ => by
      simp [toString]

include hcomputed hfits in
theorem moulds_accessComputed (access : Access) (position : Position) (hslot : "AT" ≠ slot) :
    Moulds config node slot computed fits (accessComputed config access position) := by
  unfold accessComputed
  split
  · refine .cache hcomputed fun word => .bind (ignores_randomIndex word) fun answer => ?_
    exact .statement s!"const {word} = " s!";\n{answer.2}_ = {word}.orderedRemove({answer.1});\n"
      (hfits _) fun code _ => by simp [declareConst, toString]
  · cases access with
    | remove =>
      refine .bind (ignores_index hslot _ _ _) fun back => .cache hcomputed fun word => ?_
      exact .statement s!"const {word} = "
        s!";\n_ = {word}.orderedRemove({word}.items.len - {back});\n" (hfits _)
        fun code _ => by simp [declareConst, toString]
    | get =>
      refine .bind (ignores_index hslot _ _ _) fun back =>
        .bind (ignores_askHelper _ _) fun helper => ?_
      exact .value s!"{helper}(" s!".items, {back})" .unaryPostfix (hfits _) fun code _ => by
        simp [toString]
    | getRemove =>
      refine .bind (ignores_index hslot _ _ _) fun back =>
        .bind (ignores_askHelper _ _) fun helper => ?_
      exact .value s!"{helper}(&" s!", {back})" .unaryPostfix (hfits _) fun code _ => by
        simp [toString]

include hfits in
theorem moulds_accessDirect {access : Access} {position : Position}
    (htwice : usesTwice access position = false) (hslot : "AT" ≠ slot) :
    Moulds config node slot computed fits (accessDirect config access position) := by
  cases position with
  | first => exact moulds_accessAt hfits access "0"
  | last =>
    cases access with
    | get => exact .value "" ".getLast()" .unaryPostfix (hfits _) fun code _ => by simp [toString]
    | getRemove => exact .value "" ".pop()" .unaryPostfix (hfits _) fun code _ => by simp [toString]
    | remove => exact .statement "_ = " ".pop();\n" (hfits _) fun code _ => by simp [toString]
  | fromStart =>
    exact .bind (ignores_index hslot _ _ _) fun index => moulds_accessAt hfits access index
  | fromEnd => cases htwice
  | random =>
    cases access with
    | get =>
      refine .bind ignores_requireStd fun _ => .bind (ignores_askHelper _ _) fun helper => ?_
      exact .value s!"{helper}(" ".items)" .unaryPostfix (hfits _) fun code _ => by simp [toString]
    | getRemove =>
      refine .bind ignores_requireStd fun _ => .bind (ignores_askHelper _ _) fun helper => ?_
      exact .value s!"{helper}(&" ")" .unaryPostfix (hfits _) fun code _ => by simp [toString]
    | remove => cases htwice

include hcomputed hfits in
theorem once_getItem : Once config node "VALUE" computed fits (getItem config node) := by
  refine .bind (ignores_choose _ _) fun access =>
    .bind (ignores_choose _ _) fun position => once_listOr ?_
  cases htwice : usesTwice access position with
  | true =>
    refine (moulds_accessComputed hcomputed hfits access position (by decide)).congr
      fun code hcode => ?_
    simp [hcomputed code hcode]
  | false => exact moulds_accessDirect hfits htwice (by decide)

include hfits in
theorem moulds_writeAt (insert : Bool) (index value : String) :
    Moulds config node slot computed fits fun code =>
      pure (.statement ("" ++ writeAt insert code index value)) := by
  cases insert with
  | true =>
    exact .statement "try " s!".insert({index}, {value});\n" (hfits _) fun code _ => by
      simp [writeAt, toString]
  | false =>
    exact .statement "" s!".items[{index}] = {value};\n" (hfits _) fun code _ => by
      simp [writeAt, toString]

include hcomputed hfits in
/-- A list that is bound to a name can be written to in any way. -/
theorem moulds_writeBound (hslot : "AT" ≠ slot)
    (insert : Bool) (position : Position) (value : String) :
    Moulds config node slot computed fits fun code => cache code "tmp_list" >>= fun target =>
      writeItem config insert position target.expr value >>= fun written =>
        pure (.statement (target.setup ++ written)) := by
  refine .cache hcomputed fun word =>
    .bind (ignores_writeItem hslot insert position word value) fun written => ?_
  exact .statement s!"const {word} = " (";\n" ++ written) (hfits _) fun code _ => by
    simp [declareConst, toString]

include hcomputed hfits in
theorem once_setItem : Once config node "LIST" computed fits (setItem config node) := by
  refine .bind (ignores_choose _ _) fun insert =>
    .bind (ignores_choose _ _) fun position => once_listOr ?_
  refine .bind (ignores_valueOr (by decide) _ _) fun value => ?_
  cases position with
  | first => exact moulds_writeAt hfits insert "0" value
  | last =>
    cases insert with
    | true =>
      exact .statement "try " s!".append({value});\n" (hfits _) fun code _ => by simp [toString]
    | false => exact moulds_writeBound hcomputed hfits (by decide) false .last value
  | fromStart =>
    show Moulds config node "LIST" computed fits fun code => atStart config >>= fun index =>
      pure (.statement ("" ++ writeAt insert code index value))
    exact .bind (ignores_index (by decide) _ _ _) fun index =>
      moulds_writeAt hfits insert index value
  | fromEnd => exact moulds_writeBound hcomputed hfits (by decide) insert .fromEnd value
  | random => exact moulds_writeBound hcomputed hfits (by decide) insert .random value

/-- In place a slice that needs no length has its operand once. -/
theorem Moulds.sliceInPlace (owner : String → String) {start : SliceStart} {finish : SliceEnd}
    {next : String → Script Emission} (hfree : lengthFree start finish = true)
    (hslot : "AT1" ≠ slot ∧ "AT2" ≠ slot)
    (hnext : ∀ low high : String, Moulds config node slot computed fits fun code =>
      next s!"{owner code}[{low}..{high}]") :
    Moulds config node slot computed fits fun code =>
      sliceInPlace config (owner code) start finish >>= next := by
  cases finish with
  | fromStart =>
    cases start with
    | fromStart =>
      simp only [Zig.sliceInPlace, sliceFrom, bind_assoc, pure_bind]
      refine .bind (ignores_index hslot.1 _ _ _) fun low => ?_
      exact .bind (ignores_index hslot.2 _ _ _) fun high => hnext low high
    | first =>
      simp only [Zig.sliceInPlace, sliceFrom, bind_assoc, pure_bind]
      exact .bind (ignores_pure "0") fun low =>
        .bind (ignores_index hslot.2 _ _ _) fun high => hnext low high
    | fromEnd => cases hfree
  | fromEnd => cases start <;> cases hfree
  | last => cases start <;> cases hfree

theorem Moulds.sliceThrough (owner : String → String) {key template : String} {start : SliceStart}
    {finish : SliceEnd} {next : String → Script Emission} (hslot : "AT1" ≠ slot ∧ "AT2" ≠ slot)
    (hnext : ∀ helper rest : String, Moulds config node slot computed fits fun code =>
      next s!"{helper}({owner code}{rest})") :
    Moulds config node slot computed fits fun code =>
      sliceThrough config key template (owner code) start finish >>= next := by
  simp only [Zig.sliceThrough, bind_assoc, pure_bind]
  refine .bind (ignores_index hslot.1 _ _ _) fun at1 =>
    .bind (ignores_index hslot.2 _ _ _) fun at2 => ?_
  refine .bind (ignores_askHelper key template) fun helper => ?_
  refine (hnext helper s!", {quote start.tag}, {at1}, {quote finish.tag}, {at2}").congr
    fun code _ => ?_
  exact congrArg next (String.toList_inj.mp (by simp [toString]))

theorem Moulds.copyItems (items : String → String) {next : String → Script Emission}
    (hnext : ∀ helper : String, Moulds config node slot computed fits fun code =>
      next s!"try {helper}({items code})") :
    Moulds config node slot computed fits fun code => copyItems (items code) >>= next := by
  simp only [Zig.copyItems, bind_assoc, pure_bind]
  exact .bind ignores_requireAllocator fun _ => .bind (ignores_askHelper _ _) hnext

include hcomputed hfits in
theorem once_sublist : Once config node "LIST" computed fits (sublist config node) := by
  refine .bind ignores_sliceEnds fun (start, finish) => once_listOr ?_
  cases hfree : lengthFree start finish with
  | true =>
    have hinPlace : Moulds config node "LIST" computed fits fun code =>
        sliceInPlace config (code ++ ".items") start finish >>= fun slice =>
          copyItems slice >>= fun copied => pure (.value copied .unaryPrefix) := by
      refine .sliceInPlace (· ++ ".items") hfree (by decide) fun low high => ?_
      let slice := fun items : String => s!"{items}[{low}..{high}]"
      refine .copyItems (fun code => slice (code ++ ".items")) fun helper => ?_
      refine .value s!"try {helper}(" s!".items[{low}..{high}])" .unaryPrefix
        (hfits _) fun code _ => ?_
      simp [slice, toString]
    refine hinPlace.congr fun code _ => ?_
    simp only [Bool.or_true, if_true]
  | false =>
    have hthrough : Moulds config node "LIST" computed fits fun code =>
        requireAllocator >>= fun _ =>
          sliceThrough config "lists_get_sublist" sublistTemplate (code ++ ".items") start
            finish >>= fun call => pure (.value ("try " ++ call) .unaryPrefix) := by
      refine .bind ignores_requireAllocator fun _ => ?_
      refine .sliceThrough (· ++ ".items") (by decide) fun helper rest => ?_
      exact .value s!"try {helper}(" s!".items{rest})" .unaryPrefix (hfits _) fun code _ => by
        simp [toString]
    refine hthrough.congr fun code hcode => ?_
    simp [hcomputed code hcode]

end Lists

theorem once_subtext
    (hcomputed : ∀ code, computed code → Text.isQuotedWord quotes.delimiter code = false)
    (hfits : ∀ mould, fits mould) :
    Once config node "STRING" computed fits (subtext config node) := by
  refine .bind ignores_sliceEnds fun (start, finish) => ?_
  dsimp only
  split
  · exact once_valueOr .none emptyText (.value "" "" .none (hfits _) fun code _ => by simp)
  refine once_valueOr .unaryPostfix emptyText ?_
  cases hfree : lengthFree start finish with
  | true =>
    have hinPlace : Moulds config node "STRING" computed fits fun code =>
        sliceInPlace config code start finish >>= fun slice =>
          pure (.value slice .unaryPostfix) := by
      refine .sliceInPlace id hfree (by decide) fun low high => ?_
      exact .value "" s!"[{low}..{high}]" .unaryPostfix (hfits _) fun code _ => by simp [toString]
    refine hinPlace.congr fun code _ => ?_
    simp only [Bool.or_true, if_true]
  | false =>
    have hthrough : Moulds config node "STRING" computed fits fun code => requireStd >>= fun _ =>
        sliceThrough config "text_get_substring" subtextTemplate code start finish >>= fun call =>
          pure (.value call .unaryPostfix) := by
      refine .bind ignores_requireStd fun _ => .sliceThrough id (by decide) fun helper rest => ?_
      exact .value s!"{helper}(" s!"{rest})" .unaryPostfix (hfits _) fun code _ => by
        simp [toString]
    refine hthrough.congr fun code hcode => ?_
    simp [hcomputed code hcode]

section Loops

variable (hcomputed : ∀ code,
      computed code → Text.isWord code = false ∧ Text.isNumberLiteral code = false)
  (hfits : ∀ mould, mould.BeforeLoop → fits mould)

include hcomputed hfits in
theorem once_repeatLoop (hkind : node.kind ≠ "controls_repeat") :
    Once config node "TIMES" computed fits (repeatLoop config node) := by
  have htimes : repeatTimes node = .valueOr "TIMES" .relational "0" := by
    unfold repeatTimes
    rw [beq_eq_false_iff_ne.mpr hkind, Bool.and_false]
    rfl
  unfold repeatLoop
  rw [htimes]
  refine once_valueOr .relational "0" ?_
  refine .bind (ignores_askLoopBody _) fun body => .bind (ignores_freshName _) fun counter => ?_
  refine .cacheBound hcomputed fun bound => ?_
  let condition := s!"{counter} < {bound}"
  let change := s!"{counter} += 1"
  let behind :=
    s!";\nvar {counter}: f32 = 0;\n" ++ braces s!"while ({condition}) : ({change})" body ++ "\n"
  refine .statement s!"const {bound} = " behind (hfits _ ⟨_, _, _, _, rfl⟩) fun code _ => ?_
  simp [behind, condition, change, declareConst, braces, toString]

/-- The size of the steps of a counting loop. -/
def stepSize (step : String) : String :=
  match literal? step with
  | some number => number.abs.codeText
  | none => s!"@abs({step})"

/-- The loop comes behind the statements that bind its bounds and its step. -/
theorem exists_loop_computedCount (config : Config) (name increment low high body : String) :
    ∃ steer condition change : String, ∀ setup setup' step,
      computedCount config name increment ⟨low, setup⟩ ⟨high, setup'⟩ step body =
        setup ++ setup' ++ s!"var {increment}: f32 = {stepSize step};\n" ++
          (steer ++ braces s!"while ({condition}) : ({change})" body ++ "\n") := by
  let steer :=
    braces s!"if ({low} > {high})" s!"{config.indentUnit}{increment} = -{increment};\n" ++ "\n" ++
    s!"{name} = {low};\n"
  refine ⟨steer, s!"if ({increment} >= 0) {name} <= {high} else {name} >= {high}",
    s!"{name} += {increment}", fun setup setup' step => ?_⟩
  unfold computedCount stepSize
  cases literal? step with
  | none => simp only [steer, toString, String.append_assoc]
  | some number => simp only [steer, toString, String.append_assoc]

/-- A counting loop whose operands are rendered and not all literal. -/
def boundCount (config : Config) (name start finish step body : String) : Script Emission := do
  let start ← cacheBound start (name ++ "_start")
  let finish ← cacheBound finish (name ++ "_end")
  let increment ← .freshName (name ++ "_inc")
  return .statement (computedCount config name increment start finish step body)

include hcomputed

theorem literal?_of_computed {code : String} (hcode : computed code) : literal? code = none := by
  rw [literal?, (hcomputed code hcode).2]
  rfl

include hfits

theorem once_countLoop_from : Once config node "FROM" computed fits (countLoop config node) := by
  refine .bind ignores_variableOf fun name => once_valueOr .assignment "0" ?_
  refine .bind (ignores_valueOr (by decide) _ _) fun finish =>
    .bind (ignores_valueOr (by decide) _ _) fun step => ?_
  refine .bind (ignores_askLoopBody _) fun body => ?_
  suffices h : Moulds config node "FROM" computed fits fun code =>
      boundCount config name code finish step body by
    refine h.congr fun code hcode => ?_
    rw [literal?_of_computed hcomputed hcode]
    rfl
  refine .cacheBound hcomputed fun word => .bind (ignores_cacheBound _ _) fun finish => ?_
  refine .bind (ignores_freshName _) fun increment => ?_
  obtain ⟨steer, condition, change, heq⟩ :=
    exists_loop_computedCount config name increment word finish.expr body
  let setup := s!";\n{finish.setup}var {increment}: f32 = {stepSize step};\n{steer}"
  refine .statement s!"const {word} = " _
    (hfits _ ⟨setup, condition, change, body, rfl⟩) fun code _ => ?_
  rw [heq]
  simp [setup, declareConst, braces, toString]

theorem once_countLoop_to : Once config node "TO" computed fits (countLoop config node) := by
  refine .bind ignores_variableOf fun name =>
    .bind (ignores_valueOr (by decide) _ _) fun start => ?_
  refine once_valueOr .assignment "0" (.bind (ignores_valueOr (by decide) _ _) fun step => ?_)
  refine .bind (ignores_askLoopBody _) fun body => ?_
  suffices h : Moulds config node "TO" computed fits fun code =>
      boundCount config name start code step body by
    refine h.congr fun code hcode => ?_
    rw [literal?_of_computed hcomputed hcode]
    cases literal? start <;> simp only [boundCount]
  refine .bind (ignores_cacheBound _ _) fun start => .cacheBound hcomputed fun word => ?_
  refine .bind (ignores_freshName _) fun increment => ?_
  obtain ⟨steer, condition, change, heq⟩ :=
    exists_loop_computedCount config name increment start.expr word body
  let setup := s!";\nvar {increment}: f32 = {stepSize step};\n{steer}"
  refine .statement s!"{start.setup}const {word} = " _
    (hfits _ ⟨setup, condition, change, body, rfl⟩) fun code _ => ?_
  rw [heq]
  simp [setup, declareConst, braces, toString]

theorem once_countLoop_by : Once config node "BY" computed fits (countLoop config node) := by
  refine .bind ignores_variableOf fun name =>
    .bind (ignores_valueOr (by decide) _ _) fun start => ?_
  refine .bind (ignores_valueOr (by decide) _ _) fun finish => once_valueOr .assignment "1" ?_
  refine .bind (ignores_askLoopBody _) fun body => ?_
  suffices h : Moulds config node "BY" computed fits fun code =>
      boundCount config name start finish code body by
    refine h.congr fun code hcode => ?_
    rw [literal?_of_computed hcomputed hcode]
    cases literal? start <;> cases literal? finish <;> simp only [boundCount]
  refine .bind (ignores_cacheBound _ _) fun start => .bind (ignores_cacheBound _ _) fun finish => ?_
  refine .bind (ignores_freshName _) fun increment => ?_
  obtain ⟨steer, condition, change, heq⟩ :=
    exists_loop_computedCount config name increment start.expr finish.expr body
  refine .statement s!"{start.setup}{finish.setup}var {increment}: f32 = @abs(" _
    (hfits _ ⟨s!");\n{steer}", condition, change, body, rfl⟩) fun code hcode => ?_
  rw [heq, stepSize, literal?_of_computed hcomputed hcode]
  simp [braces, toString]

end Loops

/-! ### Nodes -/

/-- The slots are those of emitters that ask for them once. -/
theorem exists_once_emitter (hslot : (node.kind, slot) ∈ onceSlots) :
    ∃ emitter, catalog.find? node.kind = some emitter ∧
      Once config node slot (Computed node.kind) (fun mould =>
        (node.kind, slot) ∈ boundSlots → mould.BeforeLoop)
        (emitter.script config node) := by
  have hword : ∀ code, Computed node.kind code → Text.isWord code = false := fun _ h => h.1
  have hcases := hslot
  simp only [onceSlots, boundSlots, List.cons_append, List.nil_append, List.mem_cons,
    List.not_mem_nil, or_false, Prod.mk.injEq] at hcases
  rcases hcases with ⟨hkind, rfl⟩ | ⟨hkind, rfl⟩ | ⟨hkind, rfl⟩ | ⟨hkind, rfl⟩ | ⟨hkind, rfl⟩
    | ⟨hkind, rfl⟩ | ⟨hkind, rfl⟩ | ⟨hkind, rfl⟩
  · rw [hkind] at hword ⊢
    exact ⟨_, (find?_catalog (by decide)).trans rfl, once_getItem hword fun _ h =>
      absurd h (by decide)⟩
  · rw [hkind] at hword ⊢
    exact ⟨_, (find?_catalog (by decide)).trans rfl, once_setItem hword fun _ h =>
      absurd h (by decide)⟩
  · rw [hkind] at hword ⊢
    exact ⟨_, (find?_catalog (by decide)).trans rfl, once_sublist hword fun _ h =>
      absurd h (by decide)⟩
  · rw [hkind]
    exact ⟨_, (find?_catalog (by decide)).trans rfl, once_subtext (fun _ h => h.2.1 rfl)
      fun _ h => absurd h (by decide)⟩
  · rw [hkind]
    exact ⟨_, (find?_catalog (by decide)).trans rfl,
      once_repeatLoop (fun _ h => ⟨h.1, h.2.2 (by decide)⟩)
      (fun _ h _ => h) (by rw [hkind]; decide)⟩
  · rw [hkind]
    exact ⟨_, (find?_catalog (by decide)).trans rfl,
      once_countLoop_from (fun _ h => ⟨h.1, h.2.2 (by decide)⟩) fun _ h _ => h⟩
  · rw [hkind]
    exact ⟨_, (find?_catalog (by decide)).trans rfl,
      once_countLoop_to (fun _ h => ⟨h.1, h.2.2 (by decide)⟩) fun _ h _ => h⟩
  · rw [hkind]
    exact ⟨_, (find?_catalog (by decide)).trans rfl,
      once_countLoop_by (fun _ h => ⟨h.1, h.2.2 (by decide)⟩) fun _ h _ => h⟩

/-- What is computed for a slot that must be evaluated once is written once: with everything else
fixed, the emission is the same up to the gap that the code stands in, and the gap of a loop is in
front of its repeated condition. If the operand itself is computed, as the node in the slot may be,
its code stands in the same gap. -/
theorem computed_operands_are_evaluated_once (config : Config) (node : Node) {slot : String}
    (hslot : (node.kind, slot) ∈ onceSlots) (operand : Offer) (session : Session) :
    ∃ outcome : Outcome,
      ((node.kind, slot) ∈ boundSlots → ∀ mould last, outcome = .ok mould last → mould.BeforeLoop) ∧
      (∀ code, Computed node.kind code →
        (setting config).emissionWith node slot (operand.giving code) session = outcome.fill code) ∧
      ∀ emission last, (setting config).emissionWith node slot operand session = .ok emission last →
        ∃ place before answer after, operand.value place before = .ok answer after ∧
          ∀ code ∈ answer, Computed node.kind code → outcome.fill code = .ok emission last := by
  obtain ⟨emitter, hfind, honce⟩ := @exists_once_emitter config node slot hslot
  rw [← catalog_setting config] at hfind
  obtain ⟨outcome, hfits, hfill, hown⟩ := honce operand session
  refine ⟨outcome, fun hloop mould last hlast => hfits mould last hlast hloop, fun code hcode => ?_,
    fun emission last h => ?_⟩
  · rw [emissionWith_of_find? hfind]
    exact hfill code hcode
  · rw [emissionWith_of_find? hfind] at h
    exact hown emission last h

/-- The procedure that makes the list is called once, and the list it makes is handed
to a helper. -/
theorem made_list_is_evaluated_once :
    ("lists_getIndex", "VALUE") ∈ onceSlots ∧ Computed "lists_getIndex" "(try f())" ∧
    ∃ emission last,
      (removalFromEnd.offer (setting {})).emission (setting {}).session = .ok emission last ∧
      ∃ outcome : Outcome,
        (∀ code, Computed "lists_getIndex" code → (setting {}).emissionWith removalFromEnd "VALUE"
          ((madeList.offer (setting {})).giving code) (setting {}).session = outcome.fill code) ∧
        ∃ place before answer after,
          (madeList.offer (setting {})).value place before = .ok answer after ∧
          ∀ code ∈ answer, Computed "lists_getIndex" code →
            outcome.fill code = .ok emission last := by
  obtain ⟨code, hemission⟩ := emission_removalFromEnd (setting {}).session
  have hslot : (removalFromEnd.kind, "VALUE") ∈ onceSlots := by decide
  obtain ⟨outcome, -, hfill, hown⟩ := computed_operands_are_evaluated_once {} removalFromEnd hslot
    (madeList.offer (setting {})) (setting {}).session
  refine ⟨by decide, ⟨by decide, by decide, by decide⟩, _, _, hemission, outcome,
    hfill, hown _ _ ?_⟩
  rw [← emission_eq_emissionWith rfl]
  exact hemission

end Zig

end BlockSynth
