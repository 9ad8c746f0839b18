import BlockSynth.Proofs.Dispatch
import BlockSynth.Proofs.Zig.Precedence
import BlockSynth.Proofs.Zig.RankTruth
import BlockSynth.Proofs.Zig.Worth

/-! # Indices

The code of an index that is moved and perhaps negated is worth what the node in its
slot stands for, moved and negated. It fits the place it is asked for but for one
case: a literal that comes out negative has no parentheses.
-/
namespace BlockSynth.Zig

/-! ### Trees of whole numbers -/

/-- Integers below the bound up to which they are written as such, variables, signs,
sums and products. -/
def Expr.IsWhole : Expr → Prop
  | .number value => ∃ n, value.integer? = some n ∧ n.natAbs < Binary64.integerBound
  | .name _ => True
  | .signed sign operand => sign = .minus ∧ operand.IsWhole
  | .binary operator left right =>
    operator ∈ [.add, .subtract, .multiply] ∧ left.IsWhole ∧ right.IsWhole
  | _ => False

/-- Whole numbers, the variables being what the reckoning makes of their identifiers. -/
def exactly (reckoning : Reckoning) (spell : String → String) : Meaning Int where
  number value := value.integer?.getD 0
  truth value := value.toInt
  null := 0
  name word := reckoning.unit [.word (spell word).toList]
  signed := Sign.eval
  binary operator := operator.eval reckoning.quotient
  choice condition consequence otherwise := if condition = 0 then otherwise else consequence

/-- Text that is a phrase with the value of the tree. -/
structure Matches (level : Nat) (names : Registry) (text : String) (tree : Expr) : Prop where
  denotes : ∃ amount, Denotes level text amount ∧
    ∀ reckoning, amount.eval reckoning = tree.eval (exactly reckoning (spelling names))

/-- What a slot answers at a place if it stands for the given tree or for nothing. -/
inductive Supplied (place : Rank) (names : Registry) : Option String → Option Expr → Prop
  | nothing : Supplied place names none none
  | code {text : String} {tree : Expr} : Matches (reach place) names text tree →
    Supplied place names (some text) (some tree)

/-- An emission whose code has the value of the tree. -/
inductive EmitsExactly (tree : Expr) (names : Registry) : Emission → Prop
  | value {code : String} {rank : Rank} : Matches (height rank) names code tree →
    EmitsExactly tree names (.value code rank)

variable {config : Config} {id : String} {inputs branches : List (String × Offer)}
    {names : Registry}
  {place : Rank} {tree : Expr}

theorem Supplied.matches {code : Option String} {filled : Option Expr}
    (h : Supplied place names code filled) {fallback : String}
    {empty : Expr} (hempty : Matches 0 names fallback empty) :
    Matches (reach place) names (code.getD fallback) (filled.getD empty) := by
  cases h with
  | nothing =>
    obtain ⟨amount, hdenotes, hvalue⟩ := hempty.denotes
    exact ⟨amount, hdenotes.mono (Nat.zero_le _), hvalue⟩
  | code hmatches => exact hmatches

theorem integer?_zero : (Binary64.zero false).integer? = some 0 := by
  unfold Binary64.zero Binary64.integer?
  simp only [Nat.zero_mul, Nat.zero_mod, Nat.zero_div, if_true, Bool.false_eq_true, if_false]
  rfl

theorem matches_zero (names : Registry) : Matches 0 names "0" zeroTree := by
  refine ⟨_, denotes_toString 0, fun reckoning => ?_⟩
  simp [Amount.eval, zeroTree, Expr.eval, exactly, integer?_zero]

/-! ### Emitters -/

theorem integer?_abs {number : Binary64} {n : Int} (h : number.abs.integer? = some n) :
    number.integer? = some (negated number.isNegative n) := by
  cases number with
  | nan => simp [Binary64.abs, Binary64.integer?] at h
  | infinite negative => simp [Binary64.abs, Binary64.integer?] at h
  | finite negative significand exponent =>
    simp only [Binary64.abs, Binary64.integer?] at h ⊢
    split at h
    · rename_i hmod
      rw [if_pos hmod]
      obtain rfl := Option.some.inj h
      by_cases hzero : significand = 0
      · simp [negated, Binary64.isNegative, hzero]
      · cases negative <;> simp [negated, Binary64.isNegative, hzero]
    · simp at h

theorem codeText_of_integer? {number : Binary64} {n : Int} (h : number.integer? = some n)
    (hbound : n.natAbs < Binary64.integerBound) : number.codeText = toString n := by
  simp [Binary64.codeText, h, hbound]

theorem matches_number {number : Binary64}
    (h : numberTree number = some tree) (hwhole : tree.IsWhole) :
    Matches (height (if number.isNegative then .unaryPrefix else .atomic)) names
      number.codeText tree := by
  obtain ⟨-, -, -, -, -, htree⟩ := exists_finite_of_numberTree h
  obtain ⟨n, hinteger, hbound⟩ : ∃ n,
      number.abs.integer? = some n ∧ n.natAbs < Binary64.integerBound := by
    rw [htree] at hwhole
    split at hwhole
    · exact hwhole.2
    · exact hwhole
  have habs : (negated number.isNegative n).natAbs = n.natAbs := by
    unfold negated
    split <;> simp
  rw [codeText_of_integer? (integer?_abs hinteger) (by rwa [habs])]
  refine ⟨integerTree _, (denotes_integer _).mono (Nat.zero_le _), fun reckoning => ?_⟩
  rw [eval_integerTree, htree]
  unfold negated
  split <;> simp [Expr.eval, exactly, Sign.eval, hinteger]

theorem matches_name {word name : String} (h : IsName word)
    (hspelled : spelling names name = word) :
    Matches 0 names word (.name name) := by
  refine ⟨.word word, denotes_word h, fun reckoning => ?_⟩
  simp [Amount.word, Amount.eval, Expr.eval, exactly, hspelled]

theorem yields_slot {slot fallback : String} {next : String → Script Emission}
    {filled : Option Expr} {empty : Expr} {post : Registry → Emission → Prop}
    (hslot : Yields (Script.atSlot inputs slot none fun offer => offer.value place)
      fun names code => Supplied place names code filled)
    (hempty : ∀ names, Matches 0 names fallback empty)
    (hnext : ∀ code,
      Yields ((next code).run (setting config) id inputs branches) fun names emission =>
        Matches (reach place) names code (filled.getD empty) → post names emission) :
    Yields ((Script.valueOr slot place fallback >>= next).run (setting config) id inputs branches)
      post := by
  refine Yields.bind hslot fun code =>
    (hnext (code.getD fallback)).mono fun names emission himp hsupplied => ?_
  exact himp (hsupplied.matches (hempty names))

variable {node : Node} {slot : String → Option (Option Expr)}

theorem exact_number {number : Binary64} (hnumber : node.fieldNumber "NUM" = some number)
    (h : numberTree number = some tree) (hwhole : tree.IsWhole) :
    Yields ((Zig.number config node).run (setting config) id inputs branches)
      (EmitsExactly tree) := by
  rw [number_of_numberTree hnumber h]
  exact Yields.pure fun names => .value (matches_number h hwhole)

theorem exact_variable {name : String} (h : node.fieldText "VAR" = some name) :
    Yields ((getVariable config node).run (setting config) id inputs branches)
      (EmitsExactly (.name name)) :=
  yields_word h fun _ _ hword _ hspelled => .value (matches_name hword hspelled)

/-- Slots that answer at every place with what they stand for, if that is a tree of
whole numbers. -/
def SuppliesExactly (inputs : List (String × Offer))
    (slot : String → Option (Option Expr)) : Prop :=
  ∀ name filled, slot name = some filled → (∀ tree ∈ filled, tree.IsWhole) → ∀ place,
    Yields (Script.atSlot inputs name none fun offer => offer.value place) fun names code =>
      Supplied place names code filled

/-- What an empty slot is counted as is always whole. -/
theorem forall_whole_of_getD {filled : Option Expr} (h : (filled.getD zeroTree).IsWhole) :
    ∀ tree ∈ filled, tree.IsWhole := by
  rintro tree rfl
  exact h

variable (hslots : SuppliesExactly inputs slot) {first second : Option Expr}

include hslots

theorem exact_minus (hoption : node.fieldText "OP" = some "NEG") (hfirst : slot "NUM" = some first)
    (hwhole : (first.getD zeroTree).IsWhole) :
    Yields ((apply config node).run (setting config) id inputs branches)
      (EmitsExactly (.signed .minus (first.getD zeroTree))) := by
  rw [apply_minus hoption]
  refine yields_slot (hslots _ _ hfirst (forall_whole_of_getD hwhole) _) matches_zero fun code => ?_
  refine Yields.pure fun names hoperand => .value ?_
  obtain ⟨amount, hdenotes, hvalue⟩ := hoperand.denotes
  exact ⟨_, hdenotes.minus, fun reckoning => by simp [Amount.eval, Expr.eval, exactly, hvalue]⟩

theorem exact_operate {name : String} {operator : Operator}
    (hoption : node.fieldText "OP" = some name)
    (hoperator : arithmeticOperator? name = some operator)
    (hfirst : slot "A" = some first) (hsecond : slot "B" = some second)
    (hwhole : (first.getD zeroTree).IsWhole) (hwhole' : (second.getD zeroTree).IsWhole) :
    Yields ((operate config node).run (setting config) id inputs branches)
      (EmitsExactly (.binary operator (first.getD zeroTree) (second.getD zeroTree))) := by
  have harithmetic : ∀ operator ∈ [Operator.add, .subtract, .multiply, .divide],
      operator.level ≠ Operator.comparing ∧ reach operator.place = operator.level - 1 := by decide
  obtain ⟨hchain, hreach⟩ := harithmetic operator (mem_of_arithmeticOperator? hoperator)
  rw [operate_of_option hoption hoperator]
  refine yields_slot (hslots _ _ hfirst (forall_whole_of_getD hwhole) _) matches_zero fun a => ?_
  refine yields_slot (hslots _ _ hsecond (forall_whole_of_getD hwhole') _) matches_zero fun b => ?_
  refine Yields.pure fun names hb ha => .value ?_
  obtain ⟨left, hleft, hvalue⟩ := ha.denotes
  obtain ⟨right, hright, hvalue'⟩ := hb.denotes
  rw [hreach] at hleft hright
  rw [operator.height_rank]
  refine ⟨_, (hleft.mono (Nat.sub_le _ _)).joined hchain hright, fun reckoning => ?_⟩
  simp only [Amount.eval, Expr.eval, hvalue, hvalue']
  rfl

omit hslots

/-- An emitter answers with the value of the tree that the shape of its node is. -/
theorem exact_shape (hslots : SuppliesExactly (slotOffers (setting config) node.inputs) slot)
    (h : shape node slot = some tree) (hwhole : tree.IsWhole) :
    Yields (node.offer (setting config)).emission (EmitsExactly tree) := by
  unfold shape at h
  split at h <;> rename_i hkind <;>
    simp only [Option.bind_eq_bind, Option.bind_eq_some_iff, Option.map_eq_some_iff] at h
  · obtain ⟨value, hvalue, htree⟩ := h
    rw [emission_of_kind hkind ((find?_catalog (by decide)).trans rfl)]
    exact exact_number hvalue htree hwhole
  · obtain ⟨value, -, rfl⟩ := h
    exact hwhole.elim
  · obtain rfl := Option.some.inj h
    exact hwhole.elim
  · obtain ⟨name, hname, rfl⟩ := h
    rw [emission_of_kind hkind ((find?_catalog (by decide)).trans rfl)]
    exact exact_variable hname
  · split at h
    · rename_i hoption
      simp only [Option.bind_eq_some_iff, Option.map_eq_some_iff] at h
      obtain ⟨_, ⟨operand, hoperand, rfl⟩, htree⟩ := h
      obtain rfl := Option.some.inj htree
      rw [emission_of_kind hkind ((find?_catalog (by decide)).trans rfl)]
      exact exact_minus hslots hoption hoperand hwhole.2
    · simp at h
  · obtain ⟨_, -, htree⟩ := h
    obtain rfl := Option.some.inj htree
    exact absurd hwhole.1 (by decide)
  · obtain ⟨name, hname, operator, hoperator, _, ⟨a, ha, rfl⟩, _, ⟨b, hb, rfl⟩, htree⟩ := h
    obtain rfl := Option.some.inj htree
    rw [emission_of_kind hkind ((find?_catalog (by decide)).trans rfl)]
    exact exact_operate hslots hname hoperator ha hb hwhole.2.1 hwhole.2.2
  · obtain ⟨name, -, operator, hoperator, _, -, _, -, htree⟩ := h
    obtain rfl := Option.some.inj htree
    refine absurd hwhole.1 ?_
    unfold comparisonOperator? at hoperator
    split at hoperator <;> simp only [Option.some.injEq, reduceCtorEq] at hoperator
      <;> subst hoperator <;> decide
  · obtain ⟨name, -, ⟨operator, identity⟩, hoperator, a, -, b, -, htree⟩ := h
    obtain rfl := Option.some.inj htree
    refine absurd hwhole.1 ?_
    unfold connectiveOperator? at hoperator
    split at hoperator
      <;> simp only [Option.some.injEq, Prod.mk.injEq, reduceCtorEq] at hoperator <;>
      obtain ⟨rfl, -⟩ := hoperator <;> dsimp only <;> decide
  · obtain ⟨_, -, _, -, _, -, htree⟩ := h
    obtain rfl := Option.some.inj htree
    exact hwhole.elim
  · simp at h

theorem Denotes.ne_empty {level : Nat} {text : String}
    {amount : Amount} (h : Denotes level text amount) :
    text ≠ "" := by
  rintro rfl
  obtain ⟨toks, hlexes, -⟩ := h
  exact hlexes.ne_nil rfl

theorem exact_value (hslots : SuppliesExactly (slotOffers (setting config) node.inputs) slot)
    (h : shape node slot = some tree) (hwhole : tree.IsWhole)
    (henabled : node.disabled = false) (place : Rank) :
    Yields ((node.offer (setting config)).value place) fun names code =>
      Supplied place names code (some tree) := by
  intro session hsession
  obtain ⟨emission, next, hrun, hnext, hgrown, hemits⟩ :=
    exact_shape hslots h hwhole session hsession
  cases hemits next.names (Extends.refl _) with
  | @value code rank hmatches =>
    obtain ⟨amount, hdenotes, -⟩ := hmatches.denotes
    refine ⟨_, next, value_of_emission hrun henabled hdenotes.ne_empty place, hnext, hgrown,
      fun later hlater => ?_⟩
    cases hemits later hlater with
    | value hlast =>
      obtain ⟨amount', hdenotes', hvalue⟩ := hlast.denotes
      exact .code ⟨amount', hdenotes'.wrap, hvalue⟩

mutual

theorem exact_reading (config : Config) (node : Node) (filled : Option Expr)
    (h : reading node = some filled) (hwhole : ∀ tree ∈ filled, tree.IsWhole) (place : Rank) :
    Yields ((node.offer (setting config)).value place) fun names code =>
      Supplied place names code filled := by
  obtain ⟨id, kind, fields, inputs, statements, next, comment, disabled, mutation⟩ := node
  rw [reading_eq] at h
  split at h
  · rename_i hdisabled
    obtain rfl := Option.some.inj h
    rw [value_offer, if_pos hdisabled]
    exact Yields.pure fun _ => .nothing
  · rename_i henabled
    obtain ⟨tree, htree, rfl⟩ := Option.map_eq_some_iff.mp h
    exact exact_value (exact_slots config inputs) htree (hwhole tree rfl)
      (Bool.eq_false_iff.mpr henabled) place
termination_by structural node

theorem exact_slots (config : Config) (inputs : List (String × Node)) :
    SuppliesExactly (slotOffers (setting config) inputs) (slotReading (slotReadings inputs)) := by
  intro name filled h hwhole place
  cases inputs with
  | nil =>
    obtain rfl := Option.some.inj h
    exact Yields.pure fun _ => .nothing
  | cons entry rest =>
    obtain ⟨slot, node⟩ := entry
    by_cases hname : name = slot
    · subst hname
      simp only [slotReading, slotReadings, List.lookup_cons_self, Option.getD_some] at h
      have hnode := exact_reading config node filled h hwhole place
      simp only [Script.atSlot, slotOffers, List.lookup_cons_self]
      exact hnode
    · have hrest := exact_slots config rest name filled
      simp only [slotReading, slotReadings, List.lookup_cons, beq_eq_false_iff_ne.mpr hname] at h
      simp only [Script.atSlot, slotOffers, List.lookup_cons, beq_eq_false_iff_ne.mpr hname]
      exact hrest h hwhole place
termination_by structural inputs

end

/-! ### The value of an index -/

/-- What an empty index slot is rendered as. -/
def firstIndex (config : Config) : String :=
  if config.oneBased then "1" else "0"

/-- How far an index moves that counts from one, if the graph does. -/
def rebased (config : Config) (delta : Int) : Int :=
  if config.oneBased then delta - 1 else delta

/-- What a slot is worth that stands for the given tree or for nothing. -/
def slotWorth (config : Config) (reckoning : Reckoning) (names : Registry) : Option Expr → Int
  | some tree => tree.eval (exactly reckoning (spelling names))
  | none => if config.oneBased then 1 else 0

/-- The code of a slot for a place, if there is any. -/
def slotCode (config : Config) (node : Node) (slot : String) (place : Rank) :
    Synth (Option String) :=
  Script.atSlot (slotOffers (setting config) node.inputs) slot none fun offer => offer.value place

/-- An index is what its slot answers, moved and negated. -/
theorem ask_index (config : Config) (node : Node) (slot : String)
    (delta : Int) (negate : Bool) (place : Rank) :
    (setting config).ask node (.index config slot delta negate place) =
      slotCode config node slot (IndexOperand.operandRank (rebased config delta) negate place) >>=
        fun code =>
          pure ((IndexOperand.ofCode (code.getD (firstIndex config))).adjust
            (rebased config delta) negate place) :=
  rfl

theorem denotes_firstIndex (config : Config) :
    Denotes 0 (firstIndex config) (.whole (if config.oneBased then 1 else 0)) := by
  unfold firstIndex
  split
  · exact denotes_toString 1
  · exact denotes_toString 0

theorem Supplied.denotes {code : Option String} {filled : Option Expr}
    (h : Supplied place names code filled) (config : Config) :
    ∃ amount, Denotes (reach place) (code.getD (firstIndex config)) amount ∧
      ∀ reckoning, amount.eval reckoning = slotWorth config reckoning names filled := by
  cases h with
  | nothing =>
    refine ⟨_, (denotes_firstIndex config).mono (Nat.zero_le _), fun reckoning => ?_⟩
    simp only [Amount.eval, slotWorth]
    split <;> rfl
  | code hmatches => exact hmatches.denotes

theorem saturate_eq_iff {value : Int} :
    IndexOperand.saturate value = value ↔ leastWord ≤ value ∧ value ≤ greatestWord := by
  have hwords : leastWord ≤ greatestWord := by decide
  unfold IndexOperand.saturate
  omega

/-- Within the words that code is computed with, a literal index stays one. -/
theorem literal_of_unsaturated {raw : String} {z delta : Int}
    {negate : Bool} (h : Text.intLiteral? raw = some z)
    (hunsaturated : Unsaturated delta negate (IndexOperand.ofCode raw)) (place : Rank) :
    let text := (IndexOperand.ofCode raw).adjust delta negate place
    Chars.isDigits (Chars.splitSign text.toList).2 = true ∧
      Text.intLiteral? text = some (negated negate (z + delta)) := by
  have hcode : IndexOperand.ofCode raw = .literal z := by simp [IndexOperand.ofCode, h]
  rw [hcode] at hunsaturated ⊢
  rw [adjust_literal hunsaturated]
  have hmoved := saturate_eq_iff.mp hunsaturated.1
  have hrange : leastWord ≤ negated negate (z + delta) ∧
      negated negate (z + delta) ≤ greatestWord := by
    unfold negated
    split
    · rename_i hnegate
      exact saturate_eq_iff.mp (hunsaturated.2 hnegate)
    · exact hmoved
  refine ⟨?_, intLiteral?_toString hrange.1 hrange.2⟩
  rw [splitSign_toString]
  exact Chars.isDigits_toString _

/-- An index that no word overflows is read as an expression with the value of its slot, moved and
negated. If the operand is a literal, so is the index. -/
theorem moved_indices_have_the_right_value {config : Config} {session : Session}
    (hreach : Reachable (setting config) session) {node : Node} {slot : String}
    {filled : Option Expr} (hfilled : slotReading (slotReadings node.inputs) slot = some filled)
    (hwhole : ∀ tree ∈ filled, tree.IsWhole) (delta : Int) (negate : Bool) (place : Rank) :
    let moved := rebased config delta
    ∃ code next, slotCode config node slot (IndexOperand.operandRank moved negate place) session =
      .ok code next ∧
      let raw := code.getD (firstIndex config)
      ∃ text,
        (setting config).ask node (.index config slot delta negate place) session = .ok text next ∧
        (Unsaturated moved negate (IndexOperand.ofCode raw) →
          let value := fun reckoning =>
            negated negate (slotWorth config reckoning next.names filled + moved)
          (∃ parsed, amount? text = some parsed ∧ ∀ reckoning,
            parsed.eval reckoning = value reckoning) ∧
          ((Text.intLiteral? raw).isSome → Chars.isDigits (Chars.splitSign text.toList).2 = true ∧
            ∀ reckoning, Text.intLiteral? text = some (value reckoning))) := by
  intro moved
  obtain ⟨code, next, hrun, -, -, hsupplied⟩ :=
    exact_slots config node.inputs slot filled hfilled hwhole
    (IndexOperand.operandRank moved negate place) session (named_of_reachable hreach)
  obtain ⟨amount, hdenotes, hvalue⟩ := (hsupplied next.names (Extends.refl _)).denotes config
  refine ⟨code, next, hrun,
    (IndexOperand.ofCode (code.getD (firstIndex config))).adjust moved negate place, ?_,
    fun hunsaturated => ?_⟩
  · rw [ask_index]
    exact Synth.bind_of_ok hrun _
  · obtain ⟨result, hresult, hmoved⟩ := denotes_adjust hdenotes hunsaturated
    refine ⟨⟨result, hresult.amount?_eq (reach_le_sentence place), fun reckoning => ?_⟩,
      fun hliteral => ?_⟩
    · rw [hmoved, hvalue]
    · obtain ⟨z, hz⟩ := Option.isSome_iff_exists.mp hliteral
      have hfolded := literal_of_unsaturated hz hunsaturated place
      refine ⟨hfolded.1, fun reckoning => ?_⟩
      have hsame :=
        (worth_of_literal hz reckoning).unique (hdenotes.worth (reach_le_sentence _) reckoning)
      rw [hvalue] at hsame
      rw [hfolded.2, hsame]

def five : Binary64 :=
  .finite false (5 * 2 ^ 50) (-50)

theorem integer?_five : five.integer? = some 5 := by decide +kernel

/-- A node whose index is the number five. -/
def fifth : Node :=
  { kind := "k", inputs := [("AT", { kind := "math_number", fields := [("NUM", .number five)] })] }

theorem slotCode_fifth (config : Config) (session : Session) (place : Rank) :
    slotCode config fifth "AT" place session = .ok (some "5") session := by
  have hcode : five.codeText = "5" :=
    codeText_of_integer? integer?_five (by decide)
  let number : Node := { kind := "math_number", fields := [("NUM", .number five)] }
  have hemission : (number.offer (setting config)).emission session =
      .ok (.value "5" .atomic) session := by
    rw [emission_of_kind rfl ((find?_catalog (by decide)).trans rfl), ← hcode]
    rfl
  have hvalue := value_of_emission hemission rfl (by decide) place
  have hwrap : wrap place .atomic "5" = "5" := by
    simp [wrap, Rank.needsParens_atomic]
  rw [hwrap] at hvalue
  exact hvalue

theorem fifth_index_has_the_right_value :
    slotReading (slotReadings fifth.inputs) "AT" = some (some (.number five)) ∧
      ∃ text next, (setting {}).ask fifth (.index {} "AT" (-2) true .none) (setting {}).session =
        .ok text next ∧
        ∃ parsed, amount? text = some parsed ∧ ∀ reckoning, parsed.eval reckoning = -2 := by
  have hfilled : slotReading (slotReadings fifth.inputs) "AT" =
      some (some (.number five)) := by rfl
  have hwhole : ∀ tree ∈ some (Expr.number five), tree.IsWhole := by
    rintro tree ⟨⟩
    exact ⟨5, integer?_five, by decide⟩
  obtain ⟨code, next, hcode, text, htext, hmoved⟩ := moved_indices_have_the_right_value
    (Reachable.start : Reachable (setting {}) _) hfilled hwhole (-2) true .none
  obtain ⟨rfl, rfl⟩ := EStateM.Result.ok.inj ((slotCode_fifth {} _ _).symm.trans hcode)
  have hoperand : IndexOperand.ofCode "5" = .literal 5 := by decide
  have hunsaturated : Unsaturated (rebased {} (-2)) true (IndexOperand.ofCode "5") := by
    rw [hoperand]
    exact ⟨by decide, by decide⟩
  obtain ⟨⟨parsed, hparsed, hvalue⟩, -⟩ := hmoved hunsaturated
  refine ⟨hfilled, text, _, htext, parsed, hparsed, fun reckoning => ?_⟩
  rw [hvalue]
  simp [slotWorth, Expr.eval, exactly, integer?_five, rebased, negated]

/-! ### The place of an index -/

/-- A literal index, moved and negated. -/
def folded (delta : Int) (negate : Bool) (value : Int) : Int :=
  let moved := IndexOperand.saturate (value + delta)
  if negate then IndexOperand.saturate (-moved) else moved

theorem adjust_eq_folded (delta : Int) (negate : Bool) (place : Rank) (value : Int) :
    (IndexOperand.literal value).adjust delta negate place =
      toString (folded delta negate value) := rfl

/-- Code that fits its place. -/
def Suits (place : Rank) (text : String) : Prop :=
  Fits (fun operator => place.needsParens operator = false) text.toList

theorem Suits.exposes {text : String} (h : Suits place text) :
    Exposes (fun operator => place.needsParens operator = false) text :=
  h.outline?_eq

theorem Atom.suits {text : String} (h : Atom text.toList) (place : Rank) : Suits place text :=
  h.toFits.mono fun _ => Rank.needsParens_of_le (Rank.needsParens_atomic place)

theorem exposes_iff {fine : Rank → Prop} {text : String} {outline : Outline}
    (h : outline? text.toList = some outline) (hopened : outline.opened = []) :
    Exposes fine text ↔ ∀ operator ∈ outline.exposed, fine operator := by
  constructor
  · rintro ⟨other, hother, -, hfine⟩
    obtain rfl := Option.some.inj (h.symm.trans hother)
    exact hfine
  · exact fun hfine => ⟨outline, h, hopened, hfine⟩

/-- A number exposes its sign. -/
theorem exposes_integer {fine : Rank → Prop} (z : Int) :
    Exposes fine (toString z) ↔ (z < 0 → fine .unaryPrefix) := by
  have hplain := isPlain_of_isDigits (Chars.isDigits_toString z.natAbs)
  have htext := Binary64.toString_toList_int z
  generalize (toString z.natAbs).toList = digits at hplain htext
  by_cases hz : z < 0
  · rw [if_pos hz] at htext
    have houtline : outline? (toString z).toList =
        some ⟨[], some (.word digits), [.unaryPrefix]⟩ := by
      rw [htext, outline?, List.singleton_append, hplain.lexes.minus.tokens_eq]
      show (Outline.add ⟨[], some .minus, [.unaryPrefix]⟩ (.word digits)).bind some = _
      rw [Outline.add_word, put_of_nil rfl, hplain.rank?]
      rfl
    rw [exposes_iff houtline rfl]
    simp [hz]
  · rw [if_neg hz, List.nil_append] at htext
    have houtline : outline? (toString z).toList = some ⟨[], some (.word digits), []⟩ := by
      rw [htext, outline?, hplain.lexes.tokens_eq]
      show (Outline.add {} (.word digits)).bind some = _
      rw [Outline.add_word, put_of_nil rfl, hplain.rank?]
      rfl
    rw [exposes_iff houtline rfl]
    simp [hz]

/-- What a node answers fits the place it is asked for. -/
theorem keeps_value (hindent : IsIndent config.indentUnit.toList) (node : Node) (place : Rank) :
    Synth.Keeps Named (fun code => ∀ text ∈ code, Operand place text.toList ∧ Suits place text)
      ((node.offer (setting config)).value place) := by
  rw [value_offer]
  exact (keeps_sound hindent node).asValue_of_forall fun code rank hsound _ =>
    ⟨operand_wrap hsound place, fits_wrap hsound place⟩

theorem slotCode_eq (config : Config) (node : Node) (slot : String) (place : Rank) :
    slotCode config node slot place = match node.inputs.lookup slot with
      | some inner => (inner.offer (setting config)).value place
      | none => pure none := by
  unfold slotCode Script.atSlot
  rw [lookup_slotOffers]
  cases node.inputs.lookup slot <;> rfl

theorem keeps_slotCode (hindent : IsIndent config.indentUnit.toList)
    (node : Node) (slot : String) (place : Rank) :
    Synth.Keeps Named (fun code => ∀ text ∈ code, Operand place text.toList ∧ Suits place text)
      (slotCode config node slot place) := by
  rw [slotCode_eq]
  split
  · exact keeps_value hindent _ place
  · exact Synth.Keeps.pure fun text htext => by simp at htext

theorem atom_firstIndex (config : Config) : Atom (firstIndex config).toList := by
  unfold firstIndex
  split
  · exact atom_one
  · exact atom_zero

/-- Code is wrapped where its place asks for it, moved and negated as it may be. -/
theorem suits_adjust_code {raw : String} {delta : Int} {negate : Bool}
    (h : Operand (IndexOperand.operandRank delta negate place) raw.toList)
    (hsuits : Suits (IndexOperand.operandRank delta negate place) raw) :
    Suits place ((IndexOperand.code raw).adjust delta negate place) := by
  by_cases hdelta : delta = 0
  · subst hdelta
    cases negate with
    | false => exact hsuits
    | true =>
      have hraw : Spells raw [.operand .unaryPrefix] := spells_iff.mpr h
      have hsigned : Operand .unaryPrefix (s!"-{raw}").toList := operand_of_spells _ (by decide)
      exact fits_wrap hsigned place
  · have hrank : IndexOperand.operandRank delta negate place = .additive := by
      simp [IndexOperand.operandRank, hdelta]
    rw [hrank] at h
    have hraw : Spells raw [.operand .additive] := spells_iff.mpr h
    have hmoved := operand_shiftCode raw hdelta
    cases negate with
    | false =>
      have hadjust : (IndexOperand.code raw).adjust delta false place =
          wrap place .additive (IndexOperand.shiftCode raw delta) := by
        simp [IndexOperand.adjust, IndexOperand.shiftRank?, hdelta, wrap]
      rw [hadjust]
      exact fits_wrap hmoved place
    | true =>
      have hspells : Spells (IndexOperand.shiftCode raw delta) [.operand .additive] :=
        spells_iff.mpr hmoved
      have hloose : Spells (IndexOperand.shiftCode raw delta) [.operand .none] :=
        spells_operand_none (IndexOperand.shiftCode raw delta)
      have hsigned : Operand .unaryPrefix (s!"-({IndexOperand.shiftCode raw delta})").toList :=
        operand_of_spells _ (by decide)
      have hadjust : (IndexOperand.code raw).adjust delta true place =
          wrap place .unaryPrefix (s!"-({IndexOperand.shiftCode raw delta})") := by
        simp [IndexOperand.adjust, IndexOperand.shiftRank?, hdelta, wrap]
      rw [hadjust]
      exact fits_wrap hsigned place

/-- An index exposes nothing that needs parentheses at its place, unless a literal comes out
negative where a sign needs them. -/
theorem moved_indices_fit_unless_folded_below_zero (hindent : IsIndent config.indentUnit.toList)
    {session next : Session} (hreach : Reachable (setting config) session)
    {node : Node} {slot text : String} {delta : Int} {negate : Bool} {place : Rank}
    (h : (setting config).ask node (.index config slot delta negate place) session =
      .ok text next) :
    let moved := rebased config delta
    ∃ code, slotCode config node slot (IndexOperand.operandRank moved negate place) session =
      .ok code next ∧
      (Exposes (fun operator => place.needsParens operator = false) text ↔
        ∀ z, Text.intLiteral? (code.getD (firstIndex config)) = some z → folded moved negate z < 0 →
          place.needsParens .unaryPrefix = false) := by
  intro moved
  have hkeeps := keeps_slotCode hindent node slot (IndexOperand.operandRank moved negate place)
  rw [ask_index] at h
  obtain ⟨code, after, hrun, hpure⟩ := Synth.ok_of_bind h
  obtain ⟨rfl, rfl⟩ := EStateM.Result.ok.inj hpure
  have hanswer := (hkeeps.of_ok (named_of_reachable hreach) hrun).1
  have hraw : Operand (IndexOperand.operandRank moved negate place)
      (code.getD (firstIndex config)).toList ∧
      Suits (IndexOperand.operandRank moved negate place) (code.getD (firstIndex config)) := by
    cases code with
    | none => exact ⟨(atom_firstIndex config).operand _, (atom_firstIndex config).suits _⟩
    | some raw => exact hanswer raw rfl
  refine ⟨code, hrun, ?_⟩
  generalize code.getD (firstIndex config) = raw at hraw
  unfold IndexOperand.ofCode
  cases hliteral : Text.intLiteral? raw with
  | none =>
    have hsuits := (suits_adjust_code hraw.1 hraw.2).exposes
    simpa using hsuits
  | some value =>
    show Exposes _ ((IndexOperand.literal value).adjust moved negate place) ↔ _
    rw [adjust_eq_folded, exposes_integer]
    simp

theorem fifth_index_fits_unnegated :
    ∃ text, (setting {}).ask fifth (.index {} "AT" 1 false .unaryPostfix) (setting {}).session =
        .ok text (setting {}).session ∧
      Exposes (fun operator => Rank.unaryPostfix.needsParens operator = false) text := by
  have hindex := ask_index {} fifth "AT" 1 false .unaryPostfix
  have hask : (setting {}).ask fifth (.index {} "AT" 1 false .unaryPostfix) (setting {}).session =
      .ok "5" (setting {}).session := by
    rw [hindex]
    exact Synth.bind_of_ok (slotCode_fifth {} _ _) _
  obtain ⟨code, hcode, hfits⟩ := moved_indices_fit_unless_folded_below_zero (by decide) .start hask
  obtain ⟨rfl, -⟩ := EStateM.Result.ok.inj ((slotCode_fifth {} _ _).symm.trans hcode)
  refine ⟨"5", hask, hfits.mpr ?_⟩
  intro z hz hbelow
  have hfive : Text.intLiteral? "5" = some 5 := by decide
  obtain rfl := Option.some.inj (hfive.symm.trans hz)
  exact absurd hbelow (by decide)

/-- A literal that comes out negative has no parentheses where its sign needs them. -/
theorem negated_fifth_index_does_not_fit :
    ∃ text, (setting {}).ask fifth (.index {} "AT" 1 true .unaryPostfix) (setting {}).session =
        .ok text (setting {}).session ∧
      ¬Exposes (fun operator => Rank.unaryPostfix.needsParens operator = false) text := by
  have hindex := ask_index {} fifth "AT" 1 true .unaryPostfix
  refine ⟨"-5", ?_, ?_⟩
  · rw [hindex]
    exact Synth.bind_of_ok (slotCode_fifth {} _ _) _
  · have hsign :=
      @exposes_integer (fun operator => Rank.unaryPostfix.needsParens operator = false) (-5)
    intro hexposes
    exact absurd (hsign.mp hexposes (by decide)) (by decide)

end BlockSynth.Zig
