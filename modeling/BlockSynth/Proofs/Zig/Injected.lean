import BlockSynth.Proofs.Zig.Bracket
import BlockSynth.Proofs.Zig.Sound.Position
import BlockSynth.Proofs.Zig.Sound.Statement
import BlockSynth.Proofs.Zig.Sound.Text

/-! # Injected text

The templates of a configuration are calls of three words with the id of a node. What
is injected is then a probe, in the middle of a statement as well as around it.
Comments have no part in the flow of control.
-/
namespace BlockSynth.Zig

/-- A configuration whose templates call the words of the probes. -/
structure Probed (probes : Probes) (config : Config) : Prop where
  indent : IsIndent config.indentUnit.toList
  apt : probes.Apt
  before : config.beforeStatement = some (probes.before ++ "(%1);\n")
  after : config.afterStatement = some (probes.after ++ "(%1);\n")
  trap : config.loopTrap = some (probes.trap ++ "(%1);\n")

/-! ### Templates -/

theorem replaceAfter_append_of_not_mem {first : Char}
    {pattern new text : List Char} (h : first ∉ text) (rest : List Char) :
    Chars.replaceAfter (first :: pattern) new 0 (text ++ rest) =
      text ++ Chars.replaceAfter (first :: pattern) new 0 rest := by
  induction text with
  | nil => rfl
  | cons c text ih =>
    simp only [List.mem_cons, not_or] at h
    simp [Chars.replaceAfter, List.isPrefixOf, h.1, ih h.2]

theorem inject_template {word : String} (h : '%' ∉ word.toList) (id : String) :
    quotes.inject (word ++ "(%1);\n") id = word ++ "(" ++ quote id ++ ");\n" := by
  have htext : (word ++ "(%1);\n").toList = word.toList ++ ['('] ++ ['%', '1', ')', ';', '\n'] := by
    simp
  have hlead : '%' ∉ word.toList ++ ['('] := by
    simp [h]
  refine String.toList_inj.mp ?_
  show (String.ofList
    (Chars.replaceAfter ['%', '1'] (quote id).toList 0 (word ++ "(%1);\n").toList)).toList = _
  rw [String.toList_ofList, htext, replaceAfter_append_of_not_mem hlead]
  simp [Chars.replaceAfter, List.isPrefixOf]

theorem IsName.percent_not_mem {word : String} (h : IsName word) : '%' ∉ word.toList :=
  fun hmem => absurd (h.isPlain.isWordChar _ hmem) (by decide)

theorem IsName.startsSimple {word : String} (h : IsName word) :
    (Token.word word.toList).startsSimple = true :=
  h.atom.startsSimple (by decide) h.isPlain.tokens_eq

/-- The text of a call is read as a probe. -/
theorem written_call {word : String} (h : IsName word) (id : String) :
    Written (word ++ "(" ++ quote id ++ ");\n") (probe word id) := by
  have hplain := h.isPlain
  have hopen : Lexed ['('] [{ token := .opening '(' }] := by
    unfold Lexed
    decide
  have hclose : Lexed [')', ';', '\n'] [{ token := .closing ')' }, { token := .semicolon }] := by
    unfold Lexed
    decide
  have hlexed : Lexed (word ++ "(" ++ quote id ++ ");\n").toList
      (call word id ++ [{ token := .semicolon }]) := by
    simpa [call] using Lexed.word hplain.ne_nil hplain.isWordChar (by decide)
      (hopen.append ((lexed_quote id).append hclose))
  refine ⟨_, hlexed, forms_simple h.startsSimple ?_ rfl⟩
  simp [nestAll_cons, nest, Token.isTame, closer?, Token.isTame_word.mp hplain.isTame]

theorem written_injected {template : Option String} {word : String} (hword : IsName word)
    (h : template = some (word ++ "(%1);\n")) (id : String) :
    Written (Config.injected quotes template id) (probe word id) := by
  subst h
  show Written (quotes.inject (word ++ "(%1);\n") id) (probe word id)
  rw [inject_template hword.percent_not_mem]
  exact written_call hword id

namespace Probed

variable {probes : Probes} {config : Config}

theorem fair (h : Probed probes config) : Fair False config :=
  ⟨h.indent, False.elim⟩

theorem written_before (h : Probed probes config) (id : String) :
    Written (config.before quotes id) (probe probes.before id) :=
  written_injected h.apt.before h.before id

theorem written_after (h : Probed probes config) (id : String) :
    Written (config.after quotes id) (probe probes.after id) :=
  written_injected h.apt.after h.after id

theorem written_trap (h : Probed probes config) (id : String) :
    Written (config.trap quotes id) (probe probes.trap id) :=
  written_injected h.apt.trap h.trap id

theorem after_ne_empty (h : Probed probes config) (id : String) : config.after quotes id ≠ "" := by
  intro hempty
  have hread := (h.written_after id).program?_eq
  rw [hempty, written_empty.program?_eq] at hread
  simp [probe] at hread

end Probed

/-! ### Comments -/

theorem written_comments (node : Node) : Written (node.comments commentMark) .done :=
  written_of_run_nil (alike_comments node)

end BlockSynth.Zig
