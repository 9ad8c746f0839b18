import BlockSynth.Proofs.Number.Literal
import BlockSynth.Proofs.Zig.Phrase

/-! # Formulas

The trees that nodes of arithmetic and logic stand for, read off the nodes alone: an
empty slot and a disabled node are what the kind of the node above puts there, and a
negative number is a minus sign before a number.
-/
namespace BlockSynth.Zig

/-! ### The value of a tree -/

/-- What the parts of an expression mean, in any kind of values. -/
structure Meaning (V : Type) where
  number : Binary64 → V
  truth : Bool → V
  null : V
  name : String → V
  signed : Sign → V → V
  binary : Operator → V → V → V
  choice : V → V → V → V

namespace Expr

def eval {V : Type} (meaning : Meaning V) : Expr → V
  | number value => meaning.number value
  | truth value => meaning.truth value
  | null => meaning.null
  | name word => meaning.name word
  | signed sign operand => meaning.signed sign (operand.eval meaning)
  | binary operator left right => meaning.binary operator (left.eval meaning) (right.eval meaning)
  | choice condition consequence otherwise =>
    meaning.choice (condition.eval meaning) (consequence.eval meaning) (otherwise.eval meaning)

/-- The tree with other names for its variables. -/
def rename (spell : String → String) : Expr → Expr
  | number value => number value
  | truth value => truth value
  | null => null
  | name word => name (spell word)
  | signed sign operand => signed sign (operand.rename spell)
  | binary operator left right => binary operator (left.rename spell) (right.rename spell)
  | choice condition consequence otherwise =>
    choice (condition.rename spell) (consequence.rename spell) (otherwise.rename spell)

/-- The names of its variables. -/
def names : Expr → List String
  | number _ => []
  | truth _ => []
  | null => []
  | name word => [word]
  | signed _ operand => operand.names
  | binary _ left right => left.names ++ right.names
  | choice condition consequence otherwise =>
    condition.names ++ consequence.names ++ otherwise.names

theorem rename_of_names_eq_nil (spell : String → String) {tree : Expr} (h : tree.names = []) :
    tree.rename spell = tree := by
  induction tree with
  | number value => rfl
  | truth value => rfl
  | null => rfl
  | name word => simp [names] at h
  | signed sign operand ih => rw [rename, ih h]
  | binary operator left right ih ih' =>
    obtain ⟨hleft, hright⟩ := List.append_eq_nil_iff.mp h
    rw [rename, ih hleft, ih' hright]
  | choice condition consequence otherwise ih ih' ih'' =>
    obtain ⟨hbefore, hotherwise⟩ := List.append_eq_nil_iff.mp h
    obtain ⟨hcondition, hconsequence⟩ := List.append_eq_nil_iff.mp hbefore
    rw [rename, ih hcondition, ih' hconsequence, ih'' hotherwise]

/-- A renamed tree has the value of the tree where each variable is what its new name is. -/
theorem eval_rename {V : Type} (meaning : Meaning V) (spell : String → String) (tree : Expr) :
    (tree.rename spell).eval meaning = tree.eval { meaning with name := meaning.name ∘ spell } := by
  induction tree with
  | number value => rfl
  | truth value => rfl
  | null => rfl
  | name word => rfl
  | signed sign operand ih => simp only [rename, eval, ih]
  | binary operator left right ih ih' => simp only [rename, eval, ih, ih']
  | choice condition consequence otherwise ih ih' ih'' => simp only [rename, eval, ih, ih', ih'']

end Expr

/-- Regrouping changes no value if the connectives are associative. -/
theorem Regrouped.eval_eq {V : Type} {meaning : Meaning V}
    (hassoc : ∀ operator : Operator,
      operator.IsConnective → Std.Associative (meaning.binary operator)) {tree other : Expr}
    (h : Regrouped tree other) : tree.eval meaning = other.eval meaning := by
  induction h with
  | refl tree => rfl
  | symm _ ih => exact ih.symm
  | trans _ _ ih ih' => exact ih.trans ih'
  | signed sign _ ih => simp only [Expr.eval, ih]
  | binary operator _ _ ih ih' => simp only [Expr.eval, ih, ih']
  | choice _ _ _ ih ih' ih'' => simp only [Expr.eval, ih, ih', ih'']
  | assoc hconnective first second third => exact (hassoc _ hconnective).assoc _ _ _

/-! ### The tree of a node -/

instance (significand : Nat) (exponent : Int) :
    Decidable (Binary64.Canonical significand exponent) :=
  decidable_of_iff (significand < 2 ^ 53 ∧ Binary64.leastExponent ≤ exponent ∧
      exponent ≤ Binary64.greatestExponent ∧
      (2 ^ 52 ≤ significand ∨ exponent = Binary64.leastExponent))
    ⟨fun h => ⟨h.1, h.2.1, h.2.2.1, h.2.2.2⟩, fun h => ⟨h.1, h.2, h.3, h.4⟩⟩

/-- A finite number. Those of loaded graphs have their one form, see
`Workspace.ofDoubles_of_load`. -/
def numberTree : Binary64 → Option Expr
  | .finite negative significand exponent =>
    let value := Binary64.finite negative significand exponent
    if Binary64.Canonical significand exponent then
      some (if value.isNegative then .signed .minus (.number value.abs) else .number value.abs)
    else none
  | _ => none

def arithmeticOperator? : String → Option Operator
  | "ADD" => some .add
  | "MINUS" => some .subtract
  | "MULTIPLY" => some .multiply
  | "DIVIDE" => some .divide
  | _ => none

def comparisonOperator? : String → Option Operator
  | "EQ" => some .equal
  | "NEQ" => some .unequal
  | "LT" => some .less
  | "LTE" => some .lessOrEqual
  | "GT" => some .greater
  | "GTE" => some .greaterOrEqual
  | _ => none

/-- A connective and what stands for one missing operand of it. -/
def connectiveOperator? : String → Option (Operator × Bool)
  | "AND" => some (.and, true)
  | "OR" => some (.or, false)
  | _ => none

def zeroTree : Expr := .number (.zero false)

/-- The tree of an enabled node whose slots stand for the given trees. A slot may stand for nothing;
it is `none` if what it holds is no formula. -/
def shape (node : Node) (slot : String → Option (Option Expr)) : Option Expr :=
  let operand (name : String) (empty : Expr) : Option Expr := (slot name).map (·.getD empty)
  match node.kind with
  | "math_number" => do numberTree (← node.fieldNumber "NUM")
  | "logic_boolean" => (node.fieldBool "BOOL").map .truth
  | "logic_null" => some .null
  | "variables_get" => (node.fieldText "VAR").map .name
  | "math_single" => do
    if node.fieldText "OP" = some "NEG"
      then return .signed .minus (← operand "NUM" zeroTree) else none
  | "logic_negate" => do return .signed .not (← operand "BOOL" (.truth true))
  | "math_arithmetic" => do
    let operator ← arithmeticOperator? (← node.fieldText "OP")
    return .binary operator (← operand "A" zeroTree) (← operand "B" zeroTree)
  | "logic_compare" => do
    let operator ← comparisonOperator? (← node.fieldText "OP")
    return .binary operator (← operand "A" zeroTree) (← operand "B" zeroTree)
  | "logic_operation" => do
    let (operator, identity) ← connectiveOperator? (← node.fieldText "OP")
    let a ← slot "A"
    let b ← slot "B"
    let missing := Expr.truth (if a.isNone && b.isNone then false else identity)
    return .binary operator (a.getD missing) (b.getD missing)
  | "logic_ternary" => do
    return .choice (← operand "IF" (.truth false)) (← operand "THEN" .null) (← operand "ELSE" .null)
  | _ => none

def slotReading (slots : List (String × Option (Option Expr))) (slot : String) :
    Option (Option Expr) :=
  (slots.lookup slot).getD (some none)

mutual

/-- What a node stands for if it is a formula: a tree, or nothing if it is disabled. -/
def reading : Node → Option (Option Expr)
  | ⟨id, kind, fields, inputs, statements, next, comment, disabled, mutation⟩ =>
    if disabled then some none
    else
      (shape ⟨id, kind, fields, inputs, statements, next, comment, disabled, mutation⟩
        (slotReading (slotReadings inputs))).map some
termination_by structural node => node

def slotReadings : List (String × Node) → List (String × Option (Option Expr))
  | [] => []
  | (slot, node) :: rest => (slot, reading node) :: slotReadings rest
termination_by structural slots => slots

end

/-- The tree of an enabled node that is a formula. -/
def formula? (node : Node) : Option Expr :=
  (reading node).join

theorem reading_eq (node : Node) :
    reading node = if node.disabled then some none
      else (shape node (slotReading (slotReadings node.inputs))).map some := by
  cases node
  rfl

end BlockSynth.Zig
