import BlockSynth.Proofs.Text.Firm
import BlockSynth.Proofs.Text.Literal
import BlockSynth.Proofs.Zig.Session
import BlockSynth.Proofs.Zig.Sound.Text
import BlockSynth.Proofs.Zig.Written

/-! # What literals say in a program

Text of several lines is written as a concatenation of literals. Read back, it is the
text that was quoted, also when the code has been indented since. No layout of a
program breaks a literal or depends on what it says.
-/
namespace BlockSynth.Zig

/-! ### Reading concatenations -/

def Token.concat : Token :=
  .symbol ['+', '+']

/-- The text of a literal that is all there is. -/
def meaning? (text : List Char) : Option (List Char) :=
  match Chars.readLiteral '"' text with
  | some (meant, []) => some meant
  | _ => none

/-- The texts of literals that are joined by the operator of concatenation. -/
def readOperands : List Lexeme → Option (List (List Char))
  | [] => none
  | first :: rest =>
    if first.token = .literal then
      match rest with
      | [] => (meaning? first.text).map fun meant => [meant]
      | operator :: more =>
        if operator.token = .concat then do
          let meant ← meaning? first.text
          let others ← readOperands more
          return meant :: others
        else none
    else none

def operands? (code : String) : Option (List (List Char)) := do
  readOperands (← lexemes code.toList)

/-- The code joins literals to the text, and is a single one if the text is on one line. -/
def Joins (code text : String) : Prop :=
  ∃ parts, operands? code = some parts ∧ parts.flatten = text.toList ∧
    (parts.length = 1 ↔ '\n' ∉ text.toList)

/-! ### Lexemes of concatenations -/

def literalLexeme (raw : List Char) : Lexeme :=
  { token := .literal, text := Chars.quote '"' raw }

/-- Literals with the operator between them. -/
def concatenation : List (List Char) → List Lexeme
  | [] => []
  | [raw] => [literalLexeme raw]
  | raw :: next :: rest => literalLexeme raw :: { token := .concat } :: concatenation (next :: rest)

theorem concatenation_cons (raw : List Char) {rest : List (List Char)} (hne : rest ≠ []) :
    concatenation (raw :: rest) =
      literalLexeme raw :: { token := .concat } :: concatenation rest := by
  obtain ⟨next, more, rfl⟩ := List.exists_cons_of_ne_nil hne
  rfl

theorem toList_quote (raw : String) : (quote raw).toList = Chars.quote '"' raw.toList :=
  String.toList_ofList

theorem lexed_literal (raw : List Char) :
    Lexed (quotes.quote (String.ofList raw)).toList [literalLexeme raw] := by
  have htext : (quote (String.ofList raw)).toList = Chars.quote '"' raw := by
    rw [toList_quote, String.toList_ofList]
  have hlexed := lexed_quote (String.ofList raw)
  unfold literalLexeme
  rw [← htext]
  exact hlexed

theorem isDelimiter_quotes : Chars.IsDelimiter '"' := by
  decide

theorem meaning?_quote (raw : List Char) : meaning? (Chars.quote '"' raw) = some raw := by
  have hread := Chars.readLiteral_quote isDelimiter_quotes raw []
  rw [List.append_nil] at hread
  rw [meaning?, hread]

theorem readOperands_concatenation {raws : List (List Char)} (hne : raws ≠ []) :
    readOperands (concatenation raws) = some raws := by
  induction raws with
  | nil => exact absurd rfl hne
  | cons raw rest ih =>
    cases rest with
    | nil => simp [concatenation, literalLexeme, readOperands, meaning?_quote]
    | cons next more => simp [concatenation, literalLexeme, readOperands, meaning?_quote, ih]

theorem Lexed.operands?_eq {code : String} {raws : List (List Char)}
    (h : Lexed code.toList (concatenation raws)) (hne : raws ≠ []) :
    operands? code = some raws := by
  have hrun : Lexer.run {} code.toList = some (concatenation raws, {}) := h
  simp [operands?, lexemes, hrun, Mode.finish, readOperands_concatenation hne]

/-! ### Text of several lines -/

/-- The texts of the literals of which the lines are made: each line, and the newlines
between them. -/
def lineParts (text : List Char) : List (List Char) :=
  (Chars.splitLines text).intersperse ['\n']

theorem lexed_lineJoiner :
    Lexed quotes.lineJoiner.toList [{ token := .concat }, literalLexeme ['\n'],
      { token := .concat }] := by
  unfold Lexed
  decide

theorem lexed_join_lines (lines : List (List Char)) :
    Lexed
      (Text.join quotes.lineJoiner (lines.map fun line => quotes.quote (String.ofList line))).toList
      (concatenation (lines.intersperse ['\n'])) := by
  induction lines with
  | nil => exact lexed_nil
  | cons line rest ih =>
    cases rest with
    | nil => exact lexed_literal line
    | cons next more =>
      have hlexed := ((lexed_literal line).append lexed_lineJoiner).append ih
      rw [← String.toList_append, ← String.toList_append] at hlexed
      have hne : (next :: more).intersperse ['\n'] ≠ [] := by cases more <;> simp
      rw [List.intersperse_cons_cons, concatenation_cons line (by simp),
        concatenation_cons ['\n'] hne]
      exact hlexed

theorem lineParts_ne_nil (text : List Char) : lineParts text ≠ [] := by
  obtain ⟨line, rest, hlines⟩ := List.exists_cons_of_ne_nil (Chars.splitLines_ne_nil text)
  rw [lineParts, hlines]
  cases rest <;> simp

theorem flatten_lineParts (text : List Char) : (lineParts text).flatten = text := by
  unfold lineParts
  induction text using Chars.line_induction with
  | last line h => simp [Chars.splitLines_last h]
  | more line rest h ih =>
    obtain ⟨next, more, hlines⟩ := List.exists_cons_of_ne_nil (Chars.splitLines_ne_nil rest)
    rw [Chars.splitLines_line h, hlines, List.intersperse_cons_cons, ← hlines]
    simp [ih]

theorem length_lineParts_iff (text : List Char) : (lineParts text).length = 1 ↔ '\n' ∉ text := by
  unfold lineParts
  induction text using Chars.line_induction with
  | last line h => simp [Chars.splitLines_last h, h]
  | more line rest h _ =>
    obtain ⟨next, more, hlines⟩ := List.exists_cons_of_ne_nil (Chars.splitLines_ne_nil rest)
    rw [Chars.splitLines_line h, hlines, List.intersperse_cons_cons]
    simp

theorem lexed_quoteLines (raw : String) :
    Lexed (quotes.quoteLines raw).toList (concatenation (lineParts raw.toList)) :=
  lexed_join_lines (Chars.splitLines raw.toList)

/-- Code with the lexemes of quoted lines joins them to the text. -/
theorem Lexed.joins {code raw : String}
    (h : Lexed code.toList (concatenation (lineParts raw.toList))) :
    Joins code raw :=
  ⟨lineParts raw.toList, h.operands?_eq (lineParts_ne_nil _), flatten_lineParts _,
    length_lineParts_iff _⟩

/-! ### Newlines in code -/

theorem firm_quote (raw : String) : Chars.Firm (quote raw).toList where
  line hmem := by
    rw [toList_quote] at hmem
    exact absurd ((Chars.sealed_quote isDelimiter_quotes _).control '\n' hmem (by decide))
      (by decide)
  ends := ⟨'"' :: raw.toList.flatMap (Chars.escape '"'),
    '"', by simp [toList_quote, Chars.quote], by decide⟩

theorem quoteLines_of_not_mem {raw : String} (h : '\n' ∉ raw.toList) :
    quotes.quoteLines raw = quote raw := by
  rw [QuoteStyle.quoteLines, Chars.splitLines_last h, List.map_singleton, String.ofList_toList]
  rfl

theorem newline_mem_quoteLines_iff (raw : String) :
    '\n' ∈ (quotes.quoteLines raw).toList ↔ '\n' ∈ raw.toList := by
  constructor
  · intro hmem
    by_contra hraw
    rw [quoteLines_of_not_mem hraw] at hmem
    exact (firm_quote raw).line hmem
  · intro hmem
    obtain ⟨line, rest, hraw, hline⟩ := List.eq_append_cons_of_mem hmem
    obtain ⟨next, more, hlines⟩ := List.exists_cons_of_ne_nil (Chars.splitLines_ne_nil rest)
    rw [QuoteStyle.quoteLines, hraw, Chars.splitLines_line hline, hlines]
    simp only [List.map_cons, Text.join, String.toList_append, List.mem_append]
    exact .inl (.inr newline_mem_lineJoiner)

theorem quoteLines_eq_quote_iff (raw : String) :
    quotes.quoteLines raw = quote raw ↔ '\n' ∉ raw.toList := by
  constructor
  · intro heq
    rw [← newline_mem_quoteLines_iff, heq]
    exact (firm_quote raw).line
  · exact quoteLines_of_not_mem

theorem newline_mem_prefixLines_iff {mark : List Char} (hmark : '\n' ∉ mark) (text : List Char) :
    '\n' ∈ Chars.prefixLines mark text ↔ '\n' ∈ text := by
  induction text using Chars.line_induction with
  | last line h =>
    rw [Chars.prefixLines_last mark h]
    split <;> simp_all
  | more line rest h _ => simp [Chars.prefixLines_line mark h]

theorem prefixLines_quoteLines_iff {mark : String} (hmark : IsIndent mark.toList) (raw : String) :
    Text.prefixLines mark (quotes.quoteLines raw) = mark ++ quote raw ↔ '\n' ∉ raw.toList := by
  have hline : '\n' ∉ mark.toList := hmark.newline_not_mem
  constructor
  · intro heq
    rw [← newline_mem_quoteLines_iff, ← newline_mem_prefixLines_iff hline]
    have hchars := congrArg String.toList heq
    rw [Text.prefixLines, String.toList_ofList] at hchars
    rw [hchars, String.toList_append, List.mem_append, not_or]
    exact ⟨hline, (firm_quote raw).line⟩
  · intro h
    have hfirm := firm_quote raw
    rw [quoteLines_of_not_mem h, Text.prefixLines, Chars.prefixLines_last _ hfirm.line,
      if_neg hfirm.ne_nil, ← String.toList_append, String.ofList_toList]

theorem emission_textLines {config : Config} {node : Node} (hkind : node.kind = "text_multiline")
    {raw : String} (hraw : optionOr node "TEXT" "" = raw) (session : Session) :
    (node.offer (setting config)).emission session =
      .ok (.value (quotes.quoteLines raw) (if '\n' ∈ raw.toList then .additive else .atomic))
        session := by
  have hfind : catalog.find? "text_multiline" = some ⟨textLines, false⟩ :=
    (find?_catalog (by decide)).trans rfl
  have hrank : (if (quotes.quoteLines raw).toList.contains '\n' then Rank.additive else .atomic) =
      if '\n' ∈ raw.toList then .additive else .atomic := by
    simp [newline_mem_quoteLines_iff]
  subst hraw
  rw [emission_of_kind hkind hfind, ← hrank]
  rfl

/-! ### What is read back -/

theorem quoted_lines_mean_their_text {mark : String} (hmark : IsIndent mark.toList) (raw : String) :
    let code := quotes.quoteLines raw
    let indented := Text.prefixLines mark code
    (Joins code raw ∧ (code = quote raw ↔ '\n' ∉ raw.toList)) ∧
      (Joins indented raw ∧ (indented = mark ++ quote raw ↔ '\n' ∉ raw.toList)) ∧
      ∀ (config : Config) (node : Node) (session : Session), node.kind = "text_multiline" →
        optionOr node "TEXT" "" = raw → (node.offer (setting config)).emission session =
          .ok (.value code (if '\n' ∈ raw.toList then .additive else .atomic)) session := by
  intro code indented
  have hlexed := lexed_quoteLines raw
  refine ⟨⟨hlexed.joins, quoteLines_eq_quote_iff raw⟩,
    ⟨(hlexed.indent hmark).joins, prefixLines_quoteLines_iff hmark raw⟩, ?_⟩
  intro config node session hkind hraw
  exact emission_textLines hkind hraw session

/-- Lines at both ends and in the middle that are empty, one that looks like code, and
one with escapes. -/
theorem lines_like_code_mean_their_text :
    let raw := "\n\" ++\n\n\\n\t\n"
    let node : Node := { kind := "text_multiline", fields := [("TEXT", .text raw)] }
    let code := quotes.quoteLines raw
    IsIndent "\t  ".toList ∧ Joins code raw ∧ code ≠ quote raw ∧
    Joins (Text.prefixLines "\t  " code) raw ∧
      (node.offer (setting {})).emission (setting {}).session =
        .ok (.value code .additive) (setting {}).session := by
  intro raw node code
  have hmark : IsIndent "\t  ".toList := by decide
  have hline : '\n' ∈ raw.toList := by decide
  obtain ⟨⟨hjoins, hsingle⟩, ⟨hindented, -⟩, hemission⟩ := quoted_lines_mean_their_text hmark raw
  refine ⟨hmark, hjoins, fun heq => hsingle.mp heq hline, hindented, ?_⟩
  rw [hemission {} node _ rfl rfl, if_pos hline]

/-! ### Layout -/

theorem exists_around_literal {layout : List Char → List Char} {before after : String}
    (h : Chars.Spares layout before.toList after.toList) : ∃ front back : String, ∀ raw : String,
      String.ofList (layout (before ++ quote raw ++ after).toList) =
        front ++ quote raw ++ back := by
  obtain ⟨front, back, hspares⟩ := h
  refine ⟨String.ofList front, String.ofList back, fun raw => ?_⟩
  rw [String.toList_append, String.toList_append, hspares _ (firm_quote raw), String.ofList_append,
    String.ofList_append, String.ofList_toList]

/-- Indentation, the collapsing of blank lines and the final form leave every literal as it is, and
put the same around it whatever it says. -/
theorem layout_leaves_literals_unbroken (before after mark : String) :
    (∃ front back, ∀ raw,
      Text.prefixLines mark (before ++ quote raw ++ after) = front ++ quote raw ++ back) ∧
      (∃ front back, ∀ raw,
        Text.collapseBlankLines (before ++ quote raw ++ after) = front ++ quote raw ++ back) ∧
      ∃ front back, ∀ raw,
        Text.tidy (before ++ quote raw ++ after) = front ++ quote raw ++ back := by
  refine ⟨?_, ?_, ?_⟩
  · exact exists_around_literal (Chars.spares_prefixLines mark.toList before.toList after.toList)
  · exact exists_around_literal (Chars.spares_collapseBlankLines before.toList after.toList)
  · exact exists_around_literal (Chars.spares_tidy before.toList after.toList)

end BlockSynth.Zig
