import BlockSynth.Proofs.Zig.Sound.Catalog

/-! # Ranks tell the truth

The code of a value exposes no operator that is looser than its rank. Rendered at a place, it
therefore exposes none that needs parentheses there.
-/
namespace BlockSynth.Zig

/-- Text that leaves nothing open and exposes operators of fine ranks only. -/
def Exposes (fine : Rank → Prop) (text : String) : Prop :=
  ∃ outline, outline? text.toList = some outline ∧ outline.opened = [] ∧
    ∀ operator ∈ outline.exposed, fine operator

theorem operand_of_emission {config : Config} (hindent : IsIndent config.indentUnit.toList)
    {session next : Session} (hreach : Reachable (setting config) session)
    {node : Node} {code : String} {rank : Rank}
    (hemission : (node.offer (setting config)).emission session = .ok (.value code rank) next) :
    Operand rank code.toList :=
  ((keeps_sound hindent node).of_ok (named_of_reachable hreach) hemission).1

theorem Operand.ne_empty {rank : Rank} {code : String}
    (h : Operand rank code.toList) : code ≠ "" := by
  rintro rfl
  obtain ⟨c, hhead, -⟩ := h.leads
  simp at hhead

theorem values_expose_no_looser_operator {config : Config}
    (hindent : IsIndent config.indentUnit.toList) {session next : Session}
    (hreach : Reachable (setting config) session) (node : Node) {code : String} {rank : Rank}
    (hemission : (node.offer (setting config)).emission session = .ok (.value code rank) next) :
    Exposes (fun operator => operator.level ≤ rank.level) code ∧
      (node.disabled = false → ∀ (place : Rank) (fallback : String),
        (setting config).renderValue (some node) place fallback session =
          .ok (wrap place rank code) next ∧
          Exposes (fun operator => place.needsParens operator = false) (wrap place rank code)) := by
  have hoperand := operand_of_emission hindent hreach hemission
  refine ⟨hoperand.outline?_eq, fun henabled place fallback =>
    ⟨?_, (fits_wrap hoperand place).outline?_eq⟩⟩
  exact renderValue_of_value (value_of_emission hemission henabled hoperand.ne_empty place) fallback

/-- A sum without operands stands in parentheses where a factor is asked for. -/
theorem sum_of_nothing_exposes_no_looser_operator :
    let node : Node := { kind := "math_arithmetic", fields := [("OP", .text "ADD")] }
    let start := (setting {}).session
    (node.offer (setting {})).emission start = .ok (.value "0 + 0" .additive) start ∧
      Exposes (fun operator => operator.level ≤ Rank.additive.level) "0 + 0" ∧
      (setting {}).renderValue (some node) .multiplicative "" start = .ok "(0 + 0)" start ∧
      Exposes (fun operator => Rank.multiplicative.needsParens operator = false) "(0 + 0)" := by
  intro node start
  have hemission : (node.offer (setting {})).emission start =
      .ok (.value "0 + 0" .additive) start := by
    have hfind : catalog.find? "math_arithmetic" = some ⟨operate, false⟩ :=
      (find?_catalog (by decide)).trans rfl
    rw [@emission_of_kind {} node "math_arithmetic" _ rfl hfind]
    rfl
  have hindent : IsIndent ({} : Config).indentUnit.toList := by decide
  have hstart : Reachable (setting {}) start := .start
  have hvalue := @values_expose_no_looser_operator {} hindent start start hstart node _ _ hemission
  have hrendered := hvalue.2 rfl .multiplicative ""
  have hwrap : wrap .multiplicative .additive "0 + 0" = "(0 + 0)" := rfl
  rw [hwrap] at hrendered
  exact ⟨hemission, hvalue.1, hrendered⟩

end BlockSynth.Zig
