import BlockSynth.Proofs.Zig.Lexeme
import BlockSynth.Proofs.Zig.Sound.Statement
import BlockSynth.Proofs.Zig.Supply

/-! # The local names of helpers and procedures

A text binds the words behind `const` and `var`, the words in front of a colon and the words between
bars. By whatever name, the text of a helper binds words of a fixed vocabulary, and the head of a
procedure binds its parameters and nothing else.
-/
namespace BlockSynth.Zig

/-! ### Heads -/

/-- The tokens of a text before its first brace. -/
def Mode.front : Mode → List Char → List Token
  | _, [] => []
  | mode, c :: rest =>
    match mode.step c with
    | none => []
    | some (emitted, next) =>
      if .opening '\x7b' ∈ emitted then emitted.takeWhile (· ≠ .opening '\x7b')
        else emitted ++ next.front rest

/-- The parameters of a procedure, which its head binds. -/
def parameters (text : String) : List String :=
  binders none false (Mode.code.front text.toList)

/-! ### Helpers -/

/-- The words that a template binds, its mark standing behind `fn` and nowhere else. -/
def templateBinders (template : List Char) : Option (List String) :=
  match Chars.between markChars 0 (Chars.trim template) with
  | [['f', 'n', ' '], '(' :: tail] => (tokens tail).map (binders (some (.opening '(')) false)
  | _ => none

theorem tokens_headed {name tail : List Char} (h : IsPlain name) :
    tokens (['f', 'n', ' '] ++ (name ++ '(' :: tail)) =
      (tokens tail).map ([.word ['f', 'n'], .word name, .opening '('] ++ ·) := by
  have hfn : Mode.code.run ['f', 'n', ' '] = some ([.word ['f', 'n']], .code) := by decide
  have hopen : Mode.code.run ['('] = some ([.opening '('], .code) := by decide
  have hbreaks : Breaks ('(' :: tail) := by
    intro c hc
    obtain rfl := Option.some.inj hc
    decide
  calc Mode.code.tokens (['f', 'n', ' '] ++ (name ++ '(' :: tail))
      = (Mode.code.tokens (name ++ '(' :: tail)).map ([.word ['f', 'n']] ++ ·) :=
    Mode.tokens_append hfn _
    _ = ((Mode.code.tokens (['('] ++ tail)).map ([.word name] ++ ·)).map
      ([.word ['f', 'n']] ++ ·) := by
        rw [h.lexes.tokens_append _ hbreaks]
        rfl
    _ = (tokens tail).map ([.word ['f', 'n'], .word name, .opening '('] ++ ·) := by
        rw [Mode.tokens_append hopen, Option.map_map, Option.map_map]
        rfl

theorem boundWords_realizeTemplate {template unit name : String}
    {chars : List Char} {bound : List String} [ht : Verbatim template chars]
    (h : templateBinders chars = some bound) (hunit : IsIndent unit.toList) (hname : IsName name) :
    boundWords (realizeTemplate unit template name) = some bound := by
  unfold templateBinders at h
  split at h
  · rename_i tail hparts
    have hreplaced : (Text.replace helperMark name (Text.trim template)).toList =
        ['f', 'n', ' '] ++ (name.toList ++ '(' :: tail) := by
      simp [Text.replace, Text.trim, Chars.replace, toList_helperMark, ht.eq,
        Chars.replaceAfter_eq, hparts]
    have htokens : tokens (realizeTemplate unit template name).toList =
        tokens (['f', 'n', ' '] ++ (name.toList ++ '(' :: tail)) := by
      rw [← hreplaced]
      unfold realizeTemplate Text.reindent
      split
      · rfl
      · rw [String.toList_ofList]
        exact (alike_reindent hunit _).tokens_eq
    rw [boundWords, htokens, tokens_headed hname.isPlain, Option.map_map, ← h]
    refine congrArg (fun read => (tokens tail).map read) (funext fun rest => ?_)
    simp [binders, Token.declares, Token.constWord, Token.varWord]
  · simp at h

/-- The local names of all helpers. -/
def vocabulary : List String :=
  ["values", "total", "v", "sorted", "mid", "modes", "best", "candidate", "count", "n",
    "mean", "variance", "x", "a", "b", "low", "high", "haystack", "needle", "text", "sub",
    "found", "item", "list", "where1", "at1", "where2", "at2", "start", "end", "out",
    "start_of_word", "ch", "i", "message", "line", "value", "delimiter", "parts", "it",
    "part", "r", "g", "red", "green", "blue", "c1", "c2", "ratio", "weight", "channels", "channel"]

/-- Templates whose helpers bind words of the vocabulary only. -/
def Bounded (template : String) : Prop :=
  ∀ unit name : String, IsIndent unit.toList → IsName name →
    ∃ bound, boundWords (realizeTemplate unit template name) = some bound ∧ bound ⊆ vocabulary

theorem bounded_of_verbatim {template : String} {chars : List Char} [Verbatim template chars]
    (h : (templateBinders chars).any (·.all vocabulary.contains) = true) : Bounded template := by
  intro unit name hunit hname
  cases hbound : templateBinders chars with
  | none => simp [hbound] at h
  | some bound =>
    refine ⟨bound, boundWords_realizeTemplate hbound hunit hname, fun word hword => ?_⟩
    rw [hbound, Option.any_some, List.all_eq_true] at h
    exact List.contains_iff_mem.mp (h word hword)

set_option synthInstance.maxSize 400 in
theorem bounded_unallocated : ∀ entry ∈ unallocated, Bounded entry.2 := by
  simp only [unallocated, List.forall_mem_cons, List.not_mem_nil,
    false_imp_iff, implies_true, and_true, isPrime, randomIntTemplate,
    sumTemplate, minTemplate, maxTemplate, meanTemplate, deviationTemplate,
    randomItemTemplate, guardEmpty, countTemplate, textFinder, itemFinder, findTemplate, if_true,
    Bool.false_eq_true, if_false, randomLetterTemplate, letterFromEndTemplate, itemFromEndTemplate,
    removeFromEndTemplate, anyItemTemplate, removeAnyTemplate, subtextTemplate,
    sliceBounds, sliceParameters]
  refine ⟨?_, ?_, ?_, ?_, ?_, ?_, ?_, ?_, ?_, ?_, ?_, ?_, ?_, ?_, ?_, ?_, ?_, ?_, ?_, ?_⟩
  all_goals exact bounded_of_verbatim (by decide +kernel)

set_option synthInstance.maxSize 400 in
theorem bounded_allocated : ∀ entry ∈ allocated, Bounded entry.2 := by
  simp only [allocated, List.forall_mem_cons, List.not_mem_nil, false_imp_iff,
    implies_true, and_true]
  refine ⟨?_, ?_, ?_, ?_, ?_, ?_, ?_, ?_, ?_, ?_, ?_, ?_, ?_, ?_, ?_⟩
  all_goals dsimp only [medianTemplate, modesTemplate, guardEmpty, titleCaseTemplate,
    promptTemplate, reverseTextTemplate, copyTemplate, repeatTemplate, sortTemplate, splitTemplate,
    reverseListTemplate, sublistTemplate, sliceBounds, sliceParameters, randomColourTemplate,
    mixTemplate, blendTemplate, printColour, List.map]
  all_goals exact bounded_of_verbatim (by decide +kernel)

/-! ### Procedures -/

/-- Tokens without a brace are read before the first one. -/
theorem Mode.front_of_run {mode next : Mode} {text : List Char}
    {emitted : List Token} (h : mode.run text = some (emitted, next))
    (hbrace : .opening '\x7b' ∉ emitted) (rest : List Char) :
    mode.front (text ++ rest) = emitted ++ next.front rest := by
  induction text generalizing mode emitted with
  | nil =>
    obtain ⟨rfl, rfl⟩ := Prod.mk.inj (Option.some.inj h)
    rfl
  | cons c text ih =>
    rw [run_cons] at h
    obtain ⟨⟨first, middle⟩, hstep, hmap⟩ := Option.bind_eq_some_iff.mp h
    obtain ⟨⟨more, last⟩, hrun, heq⟩ := Option.map_eq_some_iff.mp hmap
    obtain ⟨rfl, rfl⟩ := Prod.mk.inj heq
    rw [List.mem_append, not_or] at hbrace
    simp only [List.cons_append, front, hstep, if_neg hbrace.1, ih hrun hbrace.2, List.append_assoc]

theorem opening_not_mem_parameterTokens (words : List String) (bracket : Char) :
    .opening bracket ∉ parameterTokens words := by
  induction words with
  | nil => simp [parameterTokens]
  | cons word rest ih =>
    cases rest with
    | nil => simp [parameterTokens]
    | cons next more => simpa [parameterTokens] using ih

theorem front_returns {returns : String} (h : returns ∈ ["!f32", "!void"]) (rest : List Char) :
    ∃ type, Mode.code.front (' ' :: returns.toList ++ (' ' :: '\x7b' :: rest)) =
      [.symbol ['!'], .word type] := by
  have hbrace : Mode.code.front ('\x7b' :: rest) = [] := by
    have hstart : Mode.start '\x7b' = ([.opening '\x7b'], .code) := by decide
    simp [Mode.front, Mode.step, hstart]
  have hread : ∀ {text type : List Char},
      Mode.code.run (text ++ [' ']) = some ([.symbol ['!'], .word type], .code) →
      Mode.code.front (text ++ (' ' :: '\x7b' :: rest)) = [.symbol ['!'], .word type] := by
    intro text type hrun
    have hfront := Mode.front_of_run hrun (by simp) ('\x7b' :: rest)
    simpa [hbrace] using hfront
  simp only [List.mem_cons, List.not_mem_nil, or_false] at h
  rcases h with rfl | rfl
  · exact ⟨['f', '3', '2'], hread (by decide)⟩
  · exact ⟨['v', 'o', 'i', 'd'], hread (by decide)⟩

/-- The head of a procedure binds its parameters. -/
theorem parameters_of_isProcedure {name text : String} {words : List String}
    (h : IsProcedure name words text) (hname : IsName name) (hwords : ∀ word ∈ words, IsName word) :
    parameters text = words := by
  obtain ⟨node, returns, body, hreturns, rfl⟩ := h
  obtain ⟨front, hfront, hrun⟩ := run_procedureHead hname hwords returns
  obtain ⟨type, hend⟩ := front_returns hreturns ('\n' :: (body.toList ++ ['\x7d']))
  have htext : (node.comments commentMark ++ braces (procedureHead name words returns)
      body).toList = (node.comments commentMark).toList ++ (front ++
        (' ' :: returns.toList ++ (' ' :: '\x7b' :: '\n' :: (body.toList ++ ['\x7d'])))) := by
    show (node.comments commentMark ++
      (procedureHead name words returns ++ " \x7b\n" ++ body ++ "\x7d")).toList = _
    simp only [String.toList_append, hfront]
    simp
  have hbrace : .opening '\x7b' ∉ headTokens name words := by
    simp [headTokens, opening_not_mem_parameterTokens]
  unfold parameters
  rw [htext, Mode.front_of_run (alike_comments node) (by simp), Mode.front_of_run hrun hbrace, hend,
    List.nil_append, binders_headTokens]
  simp [binders, Token.declares, Token.constWord, Token.varWord]

end BlockSynth.Zig
