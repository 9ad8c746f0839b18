import BlockSynth.Proofs.Zig.Contract
import BlockSynth.Zig.Arithmetic

/-! # Numbers keep the contract

Each emitter asks for its operands at the rank of its own operator, so whatever they
expose stays within the rank of the whole.
-/
namespace BlockSynth.Zig

variable {plain : Prop} {own : String → Prop} {config : Config} {fine : String → Prop}

/-! ### Arithmetic -/

theorem fulfils_number (node : Node) :
    Fulfils plain own config (Sound fine) (number config node) := by
  unfold number
  split
  · exact fulfils_requireStd.bind fun _ _ => Fulfils.pure (operand_of_spells _ (by decide))
  · rename_i negative _
    refine fulfils_requireStd.bind fun _ _ => Fulfils.pure ?_
    cases negative with
    | false => exact operand_of_spells "std.math.inf(f32)" (by decide)
    | true => exact operand_of_spells ("-" ++ "std.math.inf(f32)") (by decide)
  · rename_i hnan hinf
    generalize (node.fieldNumber "NUM").getD (.zero false) = number at hnan hinf
    cases number with
    | nan => exact (hnan rfl).elim
    | infinite negative => exact (hinf negative rfl).elim
    | finite negative significand exponent =>
      exact Fulfils.done (operand_codeText_finite negative significand exponent)

theorem fulfils_power : Fulfils plain own config (Sound fine) power := by
  refine fulfils_requireStd.bind fun _ _ => ?_
  refine (fulfils_valueOr "A" .none atom_zero).bind fun base hbase => ?_
  refine (fulfils_valueOr "B" .none atom_zero).bind fun exponent hexponent => Fulfils.pure ?_
  exact operand_of_spells _ (by decide)

theorem operand_binary {name operator a b : String}
    {rank : Rank} (h : operator? name = some (operator, rank))
    [Spells a [.operand rank]] [Spells b [.operand rank]] :
    Operand rank (s!"{a} {operator} {b}").toList := by
  unfold operator? at h
  split at h
  all_goals simp only [Option.some.injEq, Prod.mk.injEq, reduceCtorEq] at h
  all_goals obtain ⟨rfl, rfl⟩ := h
  all_goals exact operand_of_spells _ (by decide)

theorem fulfils_operate (node : Node) :
    Fulfils plain own config (Sound fine) (operate config node) := by
  refine (fulfils_option node "OP").bind fun name _ => ?_
  split
  · exact fulfils_power
  · refine (fulfils_choose node "OP" (operator? name)).bind fun (operator, rank) hoperator => ?_
    refine (fulfils_valueOr "A" rank atom_zero).bind fun a ha => ?_
    refine (fulfils_valueOr "B" rank atom_zero).bind fun b hb => Fulfils.pure ?_
    exact operand_binary hoperator

theorem operand_minus (operand : String) [Spells operand [.operand .unaryPrefix]] :
    Operand .unaryPrefix (minus operand).toList := by
  unfold minus
  split
  · exact operand_of_spells _ (by decide)
  · exact operand_of_spells _ (by decide)

/-- A call of a builtin or library function is an operand if its name is. -/
theorem operand_call (function argument : String)
    [Spells function [.operand .unaryPostfix]] [Spells argument [.operand .none]] :
    Operand .unaryPostfix (s!"{function}({argument})").toList :=
  operand_of_spells _ (by decide)

theorem spells_builtin {name function : String} (h : builtin? name = some function) :
    Spells function [.operand .unaryPostfix] := by
  unfold builtin? at h
  split at h
  all_goals simp only [Option.some.injEq, reduceCtorEq] at h
  all_goals subst h
  all_goals exact spells_iff.mpr (operand_of_spells _ (by decide))

theorem spells_sine {name function : String} (h : sine? name = some function) :
    Spells function [.operand .unaryPostfix] := by
  unfold sine? at h
  split at h
  all_goals simp only [Option.some.injEq, reduceCtorEq] at h
  all_goals subst h
  all_goals exact spells_iff.mpr (operand_of_spells _ (by decide))

theorem spells_arcsine {name function : String} (h : arcsine? name = some function) :
    Spells function [.operand .unaryPostfix] := by
  unfold arcsine? at h
  split at h
  all_goals simp only [Option.some.injEq, reduceCtorEq] at h
  all_goals subst h
  all_goals exact spells_iff.mpr (operand_of_spells _ (by decide))

theorem fulfils_libraryFunction (node : Node) (name : String) :
    Fulfils plain own config (Sound fine) (libraryFunction node name) := by
  refine fulfils_requireStd.bind fun _ _ => ?_
  split
  · refine (fulfils_valueOr "NUM" .none atom_zero).bind fun operand hoperand => Fulfils.pure ?_
    exact operand_of_spells _ (by decide)
  · split
    · rename_i function _ hfunction
      have hspells := spells_sine hfunction
      refine (fulfils_valueOr "NUM" .multiplicative atom_zero).bind fun operand hoperand =>
        Fulfils.pure ?_
      exact operand_of_spells _ (by decide)
    · rename_i function _ hfunction
      have hspells := spells_arcsine hfunction
      refine (fulfils_valueOr "NUM" .none atom_zero).bind fun operand hoperand => Fulfils.pure ?_
      exact operand_of_spells _ (by decide)
    · exact fulfils_unknownOption node "OP"

theorem fulfils_apply (node : Node) :
    Fulfils plain own config (Sound fine) (apply config node) := by
  refine (fulfils_option node "OP").bind fun name _ => ?_
  split
  · refine (fulfils_valueOr "NUM" .unaryPrefix atom_zero).bind fun operand hoperand =>
      Fulfils.pure ?_
    exact operand_minus operand
  · split
    · rename_i function hfunction
      have hspells := spells_builtin hfunction
      refine (fulfils_valueOr "NUM" .none atom_zero).bind fun operand hoperand => Fulfils.pure ?_
      exact operand_call function operand
    · exact fulfils_libraryFunction node name

theorem operand_constant {name code : String} (h : constant? name = some code) :
    Operand .unaryPostfix code.toList := by
  unfold constant? at h
  split at h
  all_goals simp only [Option.some.injEq, reduceCtorEq] at h
  all_goals subst h
  all_goals first
    | exact operand_of_spells _ (by decide)
    | exact operand_of_spells "std.math.inf(f32)" (by decide)

theorem fulfils_constant (node : Node) :
    Fulfils plain own config (Sound fine) (constant config node) := by
  refine (fulfils_option node "CONSTANT").bind fun name _ => ?_
  refine (fulfils_choose node "CONSTANT" (constant? name)).bind fun code hcode => ?_
  exact fulfils_requireStd.bind fun _ _ => Fulfils.pure (operand_constant hcode)

theorem fulfils_divisible : Fulfils plain own config (Sound fine) divisible := by
  refine (fulfils_valueOr "DIVISOR" .none atom_zero).bind fun divisor hdivisor => ?_
  split
  · exact Fulfils.pure atom_false
  · refine (fulfils_valueOr "NUMBER_TO_CHECK" .none atom_zero).bind fun number hnumber =>
      Fulfils.pure ?_
    exact operand_of_spells _ (by decide)

instance : ClosedTemplate isPrime := by
  unfold isPrime
  exact closedTemplate_of_verbatim (by decide +kernel)

theorem fulfils_prime (h : Fair plain config) : Fulfils plain own config (Sound fine) prime := by
  refine fulfils_requireStd.bind fun _ _ => ?_
  refine (fulfils_askHelper h _ isPrime).bind fun helper hhelper => ?_
  refine (fulfils_valueOr "NUMBER_TO_CHECK" .none atom_zero).bind fun number hnumber =>
    Fulfils.pure ?_
  exact operand_of_spells _ (by decide)

theorem operand_remainderTest {property divisor rest number : String}
    (h : remainderTest? property = some (divisor, rest)) [Spells number [.operand .none]] :
    Operand .equality (s!"@mod({number}, {divisor}) == {rest}").toList := by
  unfold remainderTest? at h
  split at h
  all_goals simp only [Option.some.injEq, Prod.mk.injEq, reduceCtorEq] at h
  all_goals obtain ⟨rfl, rfl⟩ := h
  all_goals exact operand_of_spells _ (by decide)

theorem operand_signTest {property operator number : String}
    (h : signTest? property = some operator) [Spells number [.operand .relational]] :
    Operand .relational (s!"{number} {operator} 0").toList := by
  unfold signTest? at h
  split at h
  all_goals simp only [Option.some.injEq, reduceCtorEq] at h
  all_goals subst h
  all_goals exact operand_of_spells _ (by decide)

theorem fulfils_testProperty (h : Fair plain config) (node : Node) :
    Fulfils plain own config (Sound fine) (testProperty config node) := by
  refine (fulfils_option node "PROPERTY").bind fun property _ => ?_
  split
  · rename_i divisor rest _ htest
    refine (fulfils_valueOr "NUMBER_TO_CHECK" .none atom_zero).bind fun number hnumber =>
      Fulfils.pure ?_
    exact operand_remainderTest htest
  · rename_i operator _ htest
    refine (fulfils_valueOr "NUMBER_TO_CHECK" .relational atom_zero).bind fun number hnumber =>
      Fulfils.pure ?_
    exact operand_signTest htest
  · split
    · exact fulfils_divisible
    · split
      · exact fulfils_prime h
      · exact fulfils_unknownOption node "PROPERTY"

theorem fulfils_modulo (node : Node) :
    Fulfils plain own config (Sound fine) (modulo config node) := by
  refine (fulfils_valueOr "DIVIDEND" .none atom_zero).bind fun dividend hdividend => ?_
  refine (fulfils_valueOr "DIVISOR" .none atom_zero).bind fun divisor hdivisor => Fulfils.pure ?_
  exact operand_of_spells _ (by decide)

theorem fulfils_constrain (node : Node) :
    Fulfils plain own config (Sound fine) (constrain config node) := by
  refine (fulfils_valueOr "VALUE" .none atom_zero).bind fun value hvalue => ?_
  refine (fulfils_valueOr "LOW" .none atom_zero).bind fun low hlow => ?_
  refine (fulfils_askValue "HIGH" .none).bind fun high hhigh => ?_
  cases high with
  | some high =>
    have hspells := hhigh high rfl
    exact Fulfils.pure (operand_of_spells _ (by decide))
  | none =>
    unfold infinity
    exact fulfils_requireStd.bind fun _ _ => Fulfils.pure (operand_of_spells _ (by decide))

instance : ClosedTemplate randomIntTemplate := by
  unfold randomIntTemplate
  exact closedTemplate_of_verbatim (by decide +kernel)

theorem fulfils_randomInt (h : Fair plain config) (node : Node) :
    Fulfils plain own config (Sound fine) (randomInt config node) := by
  refine fulfils_requireStd.bind fun _ _ => ?_
  refine (fulfils_askHelper h _ randomIntTemplate).bind fun helper hhelper => ?_
  refine (fulfils_valueOr "FROM" .none atom_zero).bind fun low hlow => ?_
  refine (fulfils_valueOr "TO" .none atom_zero).bind fun high hhigh => Fulfils.pure ?_
  exact operand_of_spells _ (by decide)

theorem fulfils_randomFraction (node : Node) :
    Fulfils plain own config (Sound fine) (randomFraction config node) :=
  fulfils_requireStd.bind fun _ _ => Fulfils.pure (operand_of_spells _ (by decide))

theorem fulfils_angle (node : Node) :
    Fulfils plain own config (Sound fine) (angle config node) := by
  refine fulfils_requireStd.bind fun _ _ => ?_
  refine (fulfils_valueOr "X" .none atom_zero).bind fun x hx => ?_
  refine (fulfils_valueOr "Y" .none atom_zero).bind fun y hy => Fulfils.pure ?_
  exact operand_of_spells _ (by decide)

end BlockSynth.Zig
