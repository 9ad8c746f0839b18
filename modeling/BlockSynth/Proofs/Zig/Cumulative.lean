import BlockSynth.Proofs.Zig.Contract
import BlockSynth.Proofs.Zig.Emitted

/-! # Properties that add up over statements

Assignments, calls and changes of lists are single statements behind declarations of
their own. Whatever holds of such declarations, of such statements and of one text
after the other holds of all that these emitters write.
-/
namespace BlockSynth.Zig

/-- Whether text with the given pieces is one statement that only goes on and binds nothing. -/
def statementPieces (pieces : List Piece) : Bool :=
  closesAll pieces && (closedItems? pieces).any fun items => isStatement items && muteItems items

/-- A property of text that can be read off its statements. -/
structure Cumulative (own fine : String → Prop) : Prop where
  empty : fine ""
  append : ∀ {code more}, fine code → fine more → fine (code ++ more)
  statement : ∀ (code : String) {pieces : List Piece} [Spells code pieces],
    statementPieces pieces = true → fine code
  declare : ∀ {name : String},
    IsName name → own name → ∀ (code : String) {rank : Rank} [Spells code [.operand rank]],
    fine (declareConst name code)

theorem cumulative_contained {own : String → Prop} : Cumulative own (Contained own) where
  empty := .empty
  append := .append
  statement code _ _ hpieces := by
    simp only [statementPieces, Bool.and_eq_true, Option.any_eq_true] at hpieces
    obtain ⟨hcloses, items, hitems, -, hmute⟩ := hpieces
    exact ⟨closed_of_spells code hcloses,
      discreet_of_spells code ((Option.any_eq_true _ _).mpr ⟨items, hitems, hmute⟩)⟩
  declare hname hown code _ _ := contained_declareConst hname hown code

/-- The same under a condition. -/
theorem Cumulative.imp {own fine : String → Prop} (h : Cumulative own fine) (plain : Prop) :
    Cumulative own fun code => plain → fine code where
  empty _ := h.empty
  append hcode hmore hp := h.append (hcode hp) (hmore hp)
  statement code _ _ hpieces _ := h.statement code hpieces
  declare hname hown code _ _ _ := h.declare hname hown code

theorem cumulative_closing {plain : Prop} {own : String → Prop} :
    Cumulative own (Closing plain own) :=
  cumulative_contained.imp plain

theorem cumulative_idle {own : String → Prop} : Cumulative own Idle where
  empty := idle_empty
  append := .append
  statement code _ _ hpieces := by
    simp only [statementPieces, Bool.and_eq_true, Option.any_eq_true] at hpieces
    obtain ⟨-, items, hitems, hstatement, -⟩ := hpieces
    exact idle_of_spells code ((Option.any_eq_true _ _).mpr ⟨items, hitems, hstatement⟩)
  declare hname _ code _ _ := by
    have hword := hname.spells
    have hloose : Spells code [.operand .none] := spells_operand_none code
    unfold declareConst
    exact idle_of_spells _ (by decide)

variable {plain : Prop} {own fine : String → Prop} {config : Config}

theorem Cumulative.cache (h : Cumulative own fine) (code : String)
    {rank : Rank} [Spells code [.operand rank]] (name : String) :
    Fulfils plain own config (fun cached => Spells cached.expr [.operand rank] ∧ fine cached.setup)
      (Zig.cache code name) := by
  unfold Zig.cache Script.cache
  split
  · exact Fulfils.done ⟨inferInstance, h.empty⟩
  · refine (fulfils_freshName name).bind fun word hword => Fulfils.done ?_
    exact ⟨hword.1.atom.spells rank, h.declare hword.1 hword.2 code⟩

end BlockSynth.Zig
