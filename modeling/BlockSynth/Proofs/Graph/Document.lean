import BlockSynth.Graph.Document
import BlockSynth.Proofs.Json.Order
import BlockSynth.Render

/-! # Rearranged documents

What is decoded from a graph document or a configuration does not depend on the order in which the
members of its objects are written. Ids are given along the decoded nodes, whose slots are ordered
by name, so they do not depend on it either.
-/
namespace BlockSynth

open Json

/-! ### Graphs -/

theorem Field.respectful_ofJson (depth : Nat) : Respectful (Field.ofJson depth) := by
  intro value other hsame
  have hnone : ∀ json : Json,
      (do json.survey depth; throw .misshapen : Except Defect Field).toOption = none := by
    intro json
    cases json.survey depth <;> rfl
  cases hsame with
  | @number value other _ _ hvalue =>
    have hfinite : isFinite value = isFinite other := by rw [isFinite, isFinite, hvalue]
    simp only [Field.ofJson, hfinite, hvalue]
    split <;> rfl
  | array _ _ => exact (hnone _).trans (hnone _).symm
  | object _ _ _ => exact (hnone _).trans (hnone _).symm
  | _ => rfl

theorem Mutation.orderly_members (depth : Nat) : Orderly (Mutation.members depth) where
  respectful := by
    simp only [members, List.forall_mem_cons]
    exact ⟨Member.respectful_of respectful_asCount _ _, Member.respectful_of respectful_asCount _ _,
      Member.respectful_of respectful_asBool _ _,
      Member.respectful_of (respectful_asTexts depth) _ _,
      Member.respectful_of respectful_asBool _ _, List.forall_mem_nil _⟩
  commute := by simp [members, List.pairwise_cons, Member.commute_of]

theorem Mutation.respectful_ofJson (depth : Nat) : Respectful (Mutation.ofJson depth) :=
  Respectful.asRecord (forall_mem_inside orderly_members depth) .ignored _

theorem Node.orderly_members (depth : Nat)
    {slots : Option (Json → Except Defect Node)} {next : Json → Except Defect Node}
    (hslots : ∀ decode ∈ slots, Respectful decode) (hnext : Respectful next) :
    Orderly (Node.members depth slots next) where
  respectful := by
    have hfields : Respectful (asMap (inside Field.ofJson depth)) :=
      Respectful.asMap (forall_mem_inside Field.respectful_ofJson depth)
    have hcomment : Respectful (asOption asText) := Respectful.asOption respectful_asText
    simp only [members, List.forall_mem_cons]
    exact ⟨Member.respectful_of respectful_asText _ _, Member.respectful_of respectful_asText _ _,
      Member.respectful_of hfields _ _, Member.respectful_of (Respectful.asMap hslots) _ _,
      Member.respectful_of (Respectful.asMap hslots) _ _,
      Member.respectful_of (Respectful.asOption hnext) _ _,
      Member.respectful_of hcomment _ _, Member.respectful_of respectful_asBool _ _,
      Member.respectful_of (Mutation.respectful_ofJson depth) _ _, List.forall_mem_nil _⟩
  commute := by simp [members, List.pairwise_cons, Member.commute_of]

theorem Node.respectful_ofJson (depth : Nat) : Respectful (Node.ofJson depth) := by
  induction depth using Nat.strongRecOn with
  | ind depth ih =>
    -- At depth one there is a node, but no slot of it may be opened.
    match depth, ih with
    | 0, _ =>
      exact Respectful.asRecord
        (fun known hknown => absurd hknown (Option.not_mem_none _)) .ignored _
    | 1, ih =>
      have horderly : Orderly (members 0 none (Node.ofJson 0)) :=
        orderly_members 0
          (fun decode hdecode => absurd hdecode (Option.not_mem_none _)) (ih 0 (by omega))
      exact Respectful.asRecord
        (fun known hknown => Option.mem_some_iff.mp hknown ▸ horderly) .ignored _
    | inner + 2, ih =>
      have horderly : Orderly
          (members (inner + 1) (some (Node.ofJson inner)) (Node.ofJson (inner + 1))) := by
        refine orderly_members _ (fun decode hdecode => ?_) (ih (inner + 1) (by omega))
        obtain rfl := Option.mem_some_iff.mp hdecode
        exact ih inner (by omega)
      exact Respectful.asRecord
        (fun known hknown => Option.mem_some_iff.mp hknown ▸ horderly) .ignored _

theorem Workspace.orderly_members (depth : Nat) : Orderly (Workspace.members depth) where
  respectful := by
    have hroots : Respectful (asList (inside Node.ofJson depth)) :=
      Respectful.asList (forall_mem_inside Node.respectful_ofJson depth)
    simp only [members, List.forall_mem_cons]
    exact ⟨Member.respectful_of (respectful_asTexts depth) _ _, Member.respectful_of hroots _ _,
      List.forall_mem_nil _⟩
  commute := by simp [members, List.pairwise_cons, Member.commute_of]

theorem Workspace.respectful_ofJson (depth : Nat) : Respectful (Workspace.ofJson depth) :=
  Respectful.asRecord (forall_mem_inside orderly_members depth) .ignored _

/-! ### Configurations -/

theorem Config.orderly_members (depth : Nat) : Orderly (Config.members depth) where
  respectful := by
    have htemplate : Respectful (asOption asText) := Respectful.asOption respectful_asText
    simp only [members, List.forall_mem_cons]
    exact ⟨Member.respectful_of respectful_asText _ _,
      Member.respectful_of (respectful_asTexts depth) _ _, Member.respectful_of htemplate _ _,
      Member.respectful_of htemplate _ _, Member.respectful_of htemplate _ _,
      Member.respectful_of respectful_asBool _ _, List.forall_mem_nil _⟩
  commute := by simp [members, List.pairwise_cons, Member.commute_of]

theorem Config.respectful_ofJson : Respectful Config.ofJson :=
  Respectful.asRecord (forall_mem_inside orderly_members depthLimit) .refused _

/-! ### Texts -/

theorem Document.decode_of_complete {α : Type} (value : Json) (decode : Json → Except Defect α) :
    Document.decode ⟨value, false⟩ decode = decode value := by
  unfold Document.decode
  cases decode value <;> rfl

theorem Workspace.load_eq_ok_iff {value : Json} {workspace : Workspace} :
    Workspace.load ⟨value, false⟩ = .ok workspace ↔
      ∃ found, Workspace.ofJson depthLimit value = .ok found ∧ found.settle = .ok workspace := by
  unfold Workspace.load
  rw [Document.decode_of_complete]
  cases Workspace.ofJson depthLimit value with
  | error defect => simp
  | ok found => cases hsettle : found.settle <;> simp [hsettle]

end BlockSynth
