import BlockSynth.Proofs.Zig.Operand
import BlockSynth.Zig.Target

/-! # What a text binds

A text binds the words behind `const` and `var`, the words in front of a colon and the words between
bars. What is put together from texts that end between two tokens binds what the parts bind, as long
as no part begins with a colon or ends with a declaration that is open.
-/
namespace BlockSynth.Zig

/-! ### Binders -/

/-- The words that tokens bind, behind the last token and perhaps between bars. -/
def binders (last : Option Token) (captures : Bool) : List Token → List String
  | [] => []
  | token :: rest =>
    let bound := match token with
      | .word name =>
        if last.any Token.declares || captures || rest.head? = some (.symbol [':'])
          then [String.ofList name] else []
      | _ => []
    -- In the type of a slice, `const` declares nothing.
    let last := if token = .constWord ∧ last = some (.closing ']') then none else some token
    bound ++ binders last (captures ^^ token = .symbol ['|']) rest

/-- The words that a text binds, if all its literals close on their lines. -/
def boundWords (text : String) : Option (List String) :=
  (tokens text.toList).map (binders none false)

/-- Tokens that bind only words with a property. A colon is read with what stands before it, so that
none of the parts begins with one. -/
inductive BindsOnly (own : String → Prop) : List Token → Prop
  | nil : BindsOnly own []
  | mute {token : Token} {rest : List Token} :
    token.isMute = true → BindsOnly own rest → BindsOnly own (token :: rest)
  /-- The step of a loop, behind its condition. -/
  | step {rest : List Token} : BindsOnly own rest → BindsOnly own (.closing ')' :: .colon :: rest)
  | const {name : String} {rest : List Token} :
    IsName name → own name → BindsOnly own rest →
    BindsOnly own (.constWord :: .word name.toList :: rest)
  | var {name : String} {rest : List Token} :
    IsName name → own name → BindsOnly own rest →
    BindsOnly own (.varWord :: .word name.toList :: .colon :: rest)
  | capture {name : String} {rest : List Token} :
    IsName name → own name → BindsOnly own rest →
    BindsOnly own (.bar :: .word name.toList :: .bar :: rest)
  | typed {name : String} {rest : List Token} :
    IsName name → own name → BindsOnly own rest →
    BindsOnly own (.word name.toList :: .colon :: rest)

namespace BindsOnly

variable {own : String → Prop} {toks more : List Token}

theorem append (h : BindsOnly own toks) (hm : BindsOnly own more) :
    BindsOnly own (toks ++ more) := by
  induction h with
  | nil => exact hm
  | mute htoken _ ih => exact .mute htoken ih
  | step _ ih => exact .step ih
  | const hname hown _ ih => exact .const hname hown ih
  | var hname hown _ ih => exact .var hname hown ih
  | capture hname hown _ ih => exact .capture hname hown ih
  | typed hname hown _ ih => exact .typed hname hown ih

theorem mono {own' : String → Prop} (h : BindsOnly own toks) (himp : ∀ word, own word → own' word) :
    BindsOnly own' toks := by
  induction h with
  | nil => exact .nil
  | mute htoken _ ih => exact .mute htoken ih
  | step _ ih => exact .step ih
  | const hname hown _ ih => exact .const hname (himp _ hown) ih
  | var hname hown _ ih => exact .var hname (himp _ hown) ih
  | capture hname hown _ ih => exact .capture hname (himp _ hown) ih
  | typed hname hown _ ih => exact .typed hname (himp _ hown) ih

theorem of_isMute (h : ∀ token ∈ toks, token.isMute = true) : BindsOnly own toks := by
  induction toks with
  | nil => exact .nil
  | cons token rest ih =>
    rw [List.forall_mem_cons] at h
    exact .mute h.1 (ih h.2)

theorem head_ne_colon (h : BindsOnly own toks) : toks.head? ≠ some .colon := by
  cases h with
  | mute htoken =>
    rintro ⟨⟩
    exact absurd htoken (by decide)
  | _ => simp [Token.colon, Token.constWord, Token.varWord, Token.bar]

/-- A name is bound or it is not. -/
theorem binders_name {name : String} (h : IsName name)
    (last : Option Token) (captures : Bool) (rest : List Token) :
    binders last captures (.word name.toList :: rest) ⊆
      name :: binders (some (.word name.toList)) captures rest := by
  have hconst : Token.word name.toList ≠ .constWord :=
    fun heq => h.ne_keyword (by decide) (Token.word.inj heq)
  intro word hword
  simp only [binders, hconst, false_and, if_false, reduceCtorEq, decide_false, Bool.xor_false,
    List.mem_append, String.ofList_toList] at hword
  rcases hword with hbound | hlater
  · split at hbound
    · exact List.mem_cons.mpr (.inl (List.mem_singleton.mp hbound))
    · simp at hbound
  · exact List.mem_cons_of_mem _ hlater

/-- Behind a token that declares nothing, only words with the property are bound. -/
theorem of_mem_binders (h : BindsOnly own toks)
    {last : Option Token} (hlast : last.any Token.declares = false) :
    ∀ word ∈ binders last false toks, own word := by
  have hname : ∀ {name : String},
      IsName name → (some (Token.word name.toList)).any Token.declares = false := by
    intro name h
    have hmute := h.isMute
    simp only [Token.isMute, Bool.not_eq_true', Bool.or_eq_false_iff] at hmute
    exact hmute.1.1
  have hbound : ∀ {name : String} {last : Option Token}
      {captures : Bool} {rest : List Token}, IsName name → own name →
      (∀ word ∈ binders (some (.word name.toList)) captures rest, own word) →
        ∀ word ∈ binders last captures (.word name.toList :: rest), own word := by
    intro name last captures rest h hown hrest word hword
    rcases List.mem_cons.mp (binders_name h last captures rest hword) with rfl | hlater
    · exact hown
    · exact hrest word hlater
  induction h generalizing last with
  | nil => exact List.forall_mem_nil _
  | @mute token rest htoken hrest ih =>
    simp only [Token.isMute, Bool.not_eq_true', Bool.or_eq_false_iff,
      decide_eq_false_iff_not] at htoken
    obtain ⟨⟨hdeclares, hcolon⟩, hbar⟩ := htoken
    have hconst : token ≠ .constWord := by
      rintro rfl
      exact absurd hdeclares (by decide)
    have hlater := @ih (some token) hdeclares
    have hhead : rest.head? ≠ some (.symbol [':']) := hrest.head_ne_colon
    have hsymbol : token ≠ .symbol ['|'] := hbar
    cases token <;> simpa [binders, hlast, hconst, hhead, hsymbol] using hlater
  | step _ ih => simpa [binders, Token.colon, Token.constWord] using ih rfl
  | const h hown _ ih =>
    have hlater := fun last => @hbound _ last _ _ h hown (ih (hname h))
    simp only [Token.constWord]
    rw [binders]
    simpa [hlast] using hlater _
  | @var name rest h hown _ ih =>
    have hcolon : ∀ word ∈ binders (some (.word name.toList)) false (.colon :: rest), own word := by
      simpa [binders, Token.colon, Token.constWord] using ih rfl
    have hlater := fun last => @hbound _ last _ _ h hown hcolon
    simp only [Token.varWord]
    rw [binders]
    simpa [hlast, Token.constWord] using hlater _
  | @capture name rest h hown _ ih =>
    have hbar : ∀ word ∈ binders (some (.word name.toList)) true (.bar :: rest), own word := by
      simpa [binders, Token.bar, Token.constWord] using ih rfl
    have hlater := fun last => @hbound _ last _ _ h hown hbar
    rw [binders]
    · simpa [Token.bar, Token.constWord] using hlater (some .bar)
    · simp [Token.bar]
  | typed h hown _ ih =>
    refine hbound h hown ?_
    simpa [binders, Token.colon, Token.constWord] using ih rfl

end BindsOnly

variable {own : String → Prop}

/-! ### Text -/

/-- Text between two tokens that binds only words with the property. -/
def Discreet (own : String → Prop) (text : List Char) : Prop :=
  ∃ toks, Mode.code.run text = some (toks, .code) ∧ BindsOnly own toks

namespace Discreet

variable {text more : List Char}

theorem nil : Discreet own [] :=
  ⟨[], rfl, .nil⟩

theorem append (h : Discreet own text) (hm : Discreet own more) : Discreet own (text ++ more) := by
  obtain ⟨toks, hrun, hbinds⟩ := h
  obtain ⟨others, hmore, hothers⟩ := hm
  exact ⟨toks ++ others, by rw [Mode.run_of_run hrun, hmore]; rfl, hbinds.append hothers⟩

theorem mono {own' : String → Prop} (h : Discreet own text) (himp : ∀ word, own word → own' word) :
    Discreet own' text := by
  obtain ⟨toks, hrun, hbinds⟩ := h
  exact ⟨toks, hrun, hbinds.mono himp⟩

theorem of_alike {other : List Char} (halike : Alike text other) (h : Discreet own other) :
    Discreet own text := by
  obtain ⟨toks, hrun, hbinds⟩ := h
  exact ⟨toks, Eq.trans halike hrun, hbinds⟩

theorem exists_boundWords {text : String} (h : Discreet own text.toList) :
    ∃ bound, boundWords text = some bound ∧ ∀ word ∈ bound, own word := by
  obtain ⟨toks, hrun, hbinds⟩ := h
  refine ⟨binders none false toks, ?_, hbinds.of_mem_binders rfl⟩
  simp [boundWords, tokens, hrun, Mode.finish]

/-- A name between two texts. -/
theorem around {name : String} {front back : List Char} {before after : List Token}
    (hname : IsName name) (hfront : Mode.code.run front = some (before, .code))
    (hback : Mode.code.run back = some (after, .code))
    (hbreaks : ∃ c, back.head? = some c ∧ Chars.isWordChar c = false)
    (h : BindsOnly own (before ++ .word name.toList :: after)) :
    Discreet own (front ++ (name.toList ++ back)) := by
  refine ⟨_, ?_, h⟩
  obtain ⟨c, hhead, hc⟩ := hbreaks
  obtain ⟨rest, rfl⟩ := List.head?_eq_some_iff.mp hhead
  have hplain := hname.isPlain
  have hsettled : (Mode.word name.toList).IsSettled := trivial
  rw [Mode.run_of_run hfront, Mode.run_of_run (Mode.run_word hplain.ne_nil hplain.isWordChar),
    Mode.run_of_settled hsettled hc, hback]
  rfl

end Discreet

/-- Whether nothing is bound among fixed tokens and operands. Only the step of a loop
may have a colon. -/
def muteItems : List Item → Bool
  | [] => true
  | .fixed (.closing ')') :: .fixed (.symbol [':']) :: rest => muteItems rest
  | .fixed token :: rest => token.isMute && muteItems rest
  | .operand _ :: rest => muteItems rest

theorem Filled.bindsOnly {items : List Item} {toks : List Token} (h : Filled items toks)
    (hmute : muteItems items = true) : BindsOnly own toks := by
  induction items using muteItems.induct generalizing toks with
  | case1 =>
    obtain rfl : toks = [] := h
    exact .nil
  | case2 rest ih =>
    obtain ⟨_, _, rfl, rfl, _, more, rfl, rfl, hmore⟩ := h
    exact .step (ih hmore (by simpa [muteItems] using hmute))
  | case3 token rest hstep ih =>
    obtain ⟨_, more, rfl, rfl, hmore⟩ := h
    rw [muteItems, Bool.and_eq_true] at hmute
    · exact .mute hmute.1 (ih hmore hmute.2)
    · exact hstep
  | case4 bound rest ih =>
    obtain ⟨part, more, rfl, ⟨text, hoperand, htokens⟩, hmore⟩ := h
    refine BindsOnly.append (.of_isMute fun token htoken => ?_)
      (ih hmore (by simpa [muteItems] using hmute))
    exact Token.isMute_of_isBare (hoperand.tame part htokens token htoken)

/-- Whether text with the given pieces ends between two tokens and binds nothing. -/
def mutePieces (pieces : List Piece) : Bool :=
  (closedItems? pieces).any muteItems

theorem discreet_of_spells (code : String) {pieces : List Piece} [Spells code pieces]
    (hmute : mutePieces pieces = true) : Discreet own code.toList := by
  obtain ⟨items, hitems, hitemsMute⟩ := (Option.any_eq_true _ _).mp hmute
  obtain ⟨toks, hrun, hfilled⟩ := exists_run_of_spells code hitems
  exact ⟨toks, hrun, hfilled.bindsOnly hitemsMute⟩

instance (priority := high) spells_braces (head body : String)
    (pieces others : List Piece) [Spells head pieces] [Spells body others] :
    Spells (braces head body)
      (pieces ++ [.chars [' ', '\x7b', '\n']] ++ others ++ [.chars ['\x7d']]) :=
  inferInstanceAs
    (Spells (toString head ++ toString " \x7b\n" ++ toString body ++ toString "\x7d") _)

theorem Discreet.braces {head body : String} (hhead : Discreet own (head ++ " \x7b\n").toList)
    (hbody : Discreet own body.toList) : Discreet own (Zig.braces head body).toList := by
  have hclose : Discreet own "\x7d".toList := discreet_of_spells "\x7d" (by decide)
  show Discreet own (head ++ " \x7b\n" ++ body ++ "\x7d").toList
  rw [String.toList_append, String.toList_append]
  exact (hhead.append hbody).append hclose

/-! ### Whole statements -/

/-- Text that closes all it opens and binds only words with the property. -/
structure Contained (own : String → Prop) (code : String) : Prop where
  closed : Closed code.toList
  discreet : Discreet own code.toList

namespace Contained

variable {code more : String}

theorem empty : Contained own "" :=
  ⟨Closed.nil, Discreet.nil⟩

theorem append (h : Contained own code) (hm : Contained own more) :
    Contained own (code ++ more) where
  closed := by
    rw [String.toList_append]
    exact h.closed.append hm.closed
  discreet := by
    rw [String.toList_append]
    exact h.discreet.append hm.discreet

theorem mono {own' : String → Prop} (h : Contained own code) (himp : ∀ word, own word → own' word) :
    Contained own' code :=
  ⟨h.closed, h.discreet.mono himp⟩

theorem of_alike {other : List Char} (halike : Alike code.toList other) (hclosed : Closed other)
    (hdiscreet : Discreet own other) : Contained own code :=
  ⟨hclosed.of_alike halike, hdiscreet.of_alike halike⟩

theorem indent {unit : String} (hunit : IsIndent unit.toList) (h : Contained own code) :
    Contained own (Text.prefixLines unit code) := by
  refine of_alike ?_ h.closed h.discreet
  rw [Text.prefixLines, String.toList_ofList]
  exact alike_prefixLines hunit _

end Contained

theorem contained_of_spells (code : String) {pieces : List Piece} [Spells code pieces]
    (hpieces : (closesAll pieces && mutePieces pieces) = true) : Contained own code :=
  have ⟨hcloses, hmute⟩ := Bool.and_eq_true_iff.mp hpieces
  ⟨closed_of_spells code hcloses, discreet_of_spells code hmute⟩

/-- A body between braces, behind a head that binds nothing. -/
theorem contained_braces (head : String) {body : String}
    {pieces : List Piece} [Spells head pieces] (hbody : Contained own body)
    (hpieces : (closesAll (pieces ++ [.chars [' ', '\x7b', '\n']] ++ [.closed] ++
      [.chars ['\x7d']]) && mutePieces (pieces ++ [.chars [' ', '\x7b', '\n']])) = true) :
    Contained own (braces head body) := by
  have hclosed : Spells body [.closed] := spells_iff.mpr hbody.closed
  have ⟨hcloses, hmute⟩ := Bool.and_eq_true_iff.mp hpieces
  exact ⟨closed_of_spells _ hcloses,
    (discreet_of_spells (head ++ " \x7b\n") hmute).braces hbody.discreet⟩

variable {name : String}

theorem contained_declareConst (hname : IsName name) (hown : own name) (code : String) {rank : Rank}
    [Spells code [.operand rank]] : Contained own (declareConst name code) := by
  have hword := hname.spells
  have hloose : Spells code [.operand .none] := spells_operand_none code
  have hconst : Mode.code.run "const ".toList = some ([.constWord], .code) := by decide
  obtain ⟨toks, hback, hfilled⟩ := exists_run_of_spells (" = " ++ code ++ ";\n") (show closedItems?
      _ = some [.fixed (.symbol ['=']), .operand .none, .fixed (.symbol [';'])] by decide)
  have hbinds : BindsOnly own ([.constWord] ++ .word name.toList :: toks) :=
    .const hname hown (hfilled.bindsOnly (by decide))
  unfold declareConst
  refine ⟨closed_of_spells _ (by decide), ?_⟩
  simpa [toString] using Discreet.around hname hconst hback ⟨' ', by simp, by decide⟩ hbinds

theorem contained_declareVar (hname : IsName name) (hown : own name) (code : String) {rank : Rank}
    [Spells code [.operand rank]] : Contained own s!"var {name}: f32 = {code};\n" := by
  have hword := hname.spells
  have hloose : Spells code [.operand .none] := spells_operand_none code
  have hvar : Mode.code.run "var ".toList = some ([.varWord], .code) := by decide
  obtain ⟨_, hback, _, toks, rfl, rfl, hfilled⟩ :=
    exists_run_of_spells (": f32 = " ++ code ++ ";\n") (show closedItems? _ =
      some [.fixed .colon, .fixed (.word ['f', '3', '2']), .fixed (.symbol ['=']), .operand .none,
      .fixed (.symbol [';'])] by decide)
  have hbinds : BindsOnly own ([.varWord] ++ .word name.toList :: ([.colon] ++ toks)) :=
    .var hname hown (hfilled.bindsOnly (by decide))
  refine ⟨closed_of_spells _ (by decide), ?_⟩
  simpa [toString] using Discreet.around hname hvar hback ⟨':', by simp, by decide⟩ hbinds

/-- A loop over items that binds the current one. -/
theorem contained_each (hname : IsName name) (hown : own name) (items : String) {body : String}
    [Spells items [.operand .unaryPrefix]] (hbody : Contained own body) :
    Contained own (braces s!"for ({items}) |{name}|" body) := by
  have hword := hname.spells
  have hclosed : Spells body [.closed] := spells_iff.mpr hbody.closed
  refine ⟨closed_of_spells _ (by decide), Discreet.braces ?_ hbody.discreet⟩
  obtain ⟨_, hfront, hfilled⟩ := exists_run_of_spells ("for (" ++ items ++ ") |") (show closedItems?
      _ = some ([.fixed (.word ['f', 'o', 'r']), .fixed (.opening '('), .operand .unaryPrefix,
      .fixed (.closing ')')] ++ [.fixed .bar]) by decide)
  obtain ⟨toks, _, rfl, hhead, rfl⟩ := hfilled.split
  have hback : Mode.code.run "| \x7b\n".toList = some ([.bar, .opening '\x7b'], .code) := by decide
  have hbinds : BindsOnly own
      ((toks ++ [.bar]) ++ .word name.toList :: [.bar, .opening '\x7b']) := by
    rw [List.append_assoc]
    exact (hhead.bindsOnly (by decide)).append (.capture hname hown (.mute rfl .nil))
  simpa [toString] using Discreet.around hname hfront hback ⟨'|', by simp, by decide⟩ hbinds

/-! ### Procedures -/

def procedureHead (name : String) (words : List String) (returns : String) : String :=
  let params := Text.join ", " (words.map (· ++ ": f32"))
  s!"fn {name}({params}) {returns}"

/-- The text of a procedure with the given parameters, which may fail. -/
def IsProcedure (name : String) (words : List String) (text : String) : Prop :=
  ∃ (node : Node) (returns body : String), returns ∈ ["!f32", "!void"] ∧
    text = node.comments commentMark ++ braces (procedureHead name words returns) body

def parameterTokens : List String → List Token
  | [] => []
  | [word] => [.word word.toList, .symbol [':'], .word ['f', '3', '2']]
  | word :: rest =>
    [.word word.toList, .symbol [':'], .word ['f', '3', '2'], .symbol [',']] ++ parameterTokens rest

theorem run_typed {word : String} (h : IsName word) {mark : List Char} {emitted : List Token}
    (hmark : (Mode.word ['f', '3', '2']).run mark = some (emitted, .code)) :
    Mode.code.run (word.toList ++ (": f32".toList ++ mark)) =
      some ([.word word.toList, .symbol [':']] ++ emitted, .code) := by
  have hcolon : (Mode.word word.toList).run ": f32".toList =
      some ([.word word.toList, .symbol [':']], .word ['f', '3', '2']) := by
    have hstart : Mode.start ':' = ([.symbol [':']], .code) := by decide
    have hrest : Mode.code.run [' ', 'f', '3', '2'] = some ([], .word ['f', '3', '2']) := by decide
    show (Mode.word word.toList).run (':' :: [' ', 'f', '3', '2']) = _
    rw [Mode.run_cons]
    simp [Mode.step, Chars.isWordChar, hstart, hrest]
  rw [Mode.run_of_run (Mode.run_word h.isPlain.ne_nil h.isPlain.isWordChar),
    Mode.run_of_run hcolon, hmark]
  rfl

theorem run_parameters {words : List String} (h : ∀ word ∈ words, IsName word) :
    Mode.code.run ((Text.join ", " (words.map (· ++ ": f32"))).toList ++ [')']) =
      some (parameterTokens words ++ [.closing ')'], .code) := by
  induction words with
  | nil => decide
  | cons word rest ih =>
    rw [List.forall_mem_cons] at h
    cases rest with
    | nil =>
      have hword := @run_typed word h.1 [')'] [.word ['f', '3', '2'], .closing ')'] (by decide)
      simpa [Text.join, parameterTokens] using hword
    | cons next more =>
      have hword :=
        @run_typed word h.1 [',', ' '] [.word ['f', '3', '2'], .symbol [',']] (by decide)
      have hall :=
        Mode.run_of_run hword ((Text.join ", " ((next :: more).map (· ++ ": f32"))).toList ++ [')'])
      rw [ih h.2] at hall
      simpa [Text.join, parameterTokens] using hall

/-- The tokens of the head of a procedure, up to the end of its parameters. -/
def headTokens (name : String) (words : List String) : List Token :=
  [.word ['f', 'n'], .word name.toList, .opening '('] ++ parameterTokens words ++ [.closing ')']

theorem run_procedureHead {words : List String} (hname : IsName name)
    (hwords : ∀ word ∈ words, IsName word) (returns : String) :
    ∃ front, (procedureHead name words returns).toList = front ++ (' ' :: returns.toList) ∧
      Mode.code.run front = some (headTokens name words, .code) := by
  have hfn : Mode.code.run ['f', 'n', ' '] = some ([.word ['f', 'n']], .code) := by decide
  have hopen : (Mode.word name.toList).run ['('] =
      some ([.word name.toList, .opening '('], .code) := by
    have hstart : Mode.start '(' = ([.opening '('], .code) := by decide
    simp [Mode.run, Mode.step, Chars.isWordChar, hstart]
  refine ⟨['f', 'n', ' '] ++ (name.toList ++ (['('] ++
    ((Text.join ", " (words.map (· ++ ": f32"))).toList ++ [')']))), ?_, ?_⟩
  · show ("fn " ++ name ++ "(" ++ Text.join ", "
      (words.map (· ++ ": f32")) ++ ") " ++ returns).toList = _
    simp
  · rw [Mode.run_of_run hfn,
      Mode.run_of_run (Mode.run_word hname.isPlain.ne_nil hname.isPlain.isWordChar),
      Mode.run_of_run hopen, run_parameters hwords]
    simp [headTokens]

theorem binders_parameterTokens (words : List String) {last : Token}
    (hlast : last = .opening '(' ∨ last = .symbol [',']) (rest : List Token) :
    binders (some last) false (parameterTokens words ++ .closing ')' :: rest) =
      words ++ binders (some (.closing ')')) false rest := by
  have hdeclares : last.declares = false ∧ last ≠ .closing ']' := by
    rcases hlast with rfl | rfl <;> decide
  induction words generalizing last with
  | nil => simp [parameterTokens, binders, hdeclares]
  | cons word words ih =>
    cases words with
    | nil =>
      simp [parameterTokens, binders, hdeclares, Token.declares, Token.constWord, Token.varWord]
    | cons next more =>
      have hmore := @ih (.symbol [',']) (.inr rfl) (by decide)
      simpa [parameterTokens, binders, hdeclares, Token.declares, Token.constWord, Token.varWord]
        using hmore

theorem binders_headTokens (name : String) (words : List String) (rest : List Token) :
    binders none false (headTokens name words ++ rest) =
      words ++ binders (some (.closing ')')) false rest := by
  have hparameters := binders_parameterTokens words (.inl rfl) rest
  simpa [headTokens, binders, Token.declares, Token.constWord, Token.varWord] using hparameters

/-- A procedure binds its parameters first, and then what its body binds. -/
theorem boundWords_procedure {comments body returns : String}
    {words : List String} (hcomments : Alike comments.toList [])
    (hname : IsName name) (hwords : ∀ word ∈ words, IsName word)
    (hreturns : returns ∈ ["!f32", "!void"]) (hbody : Discreet own body.toList) :
    ∃ inner, boundWords (comments ++ braces (procedureHead name words returns) body) =
      some (words ++ inner) ∧
      ∀ word ∈ inner, own word := by
  obtain ⟨front, hfront, hrun⟩ := run_procedureHead hname hwords returns
  have htype : ∀ returns ∈ ["!f32", "!void"],
      Discreet own (" " ++ returns ++ " \x7b\n").toList := by
    rw [List.forall_mem_cons, List.forall_mem_singleton]
    exact ⟨discreet_of_spells " !f32 \x7b\n" (by decide),
      discreet_of_spells " !void \x7b\n" (by decide)⟩
  have hclose : Discreet own "\x7d".toList := discreet_of_spells "\x7d" (by decide)
  obtain ⟨toks, hrest, hbinds⟩ := ((htype returns hreturns).append hbody).append hclose
  have htext : (comments ++ braces (procedureHead name words returns) body).toList =
      comments.toList ++ (front ++
        ((" " ++ returns ++ " \x7b\n").toList ++ body.toList ++ "\x7d".toList)) := by
    show (comments ++ (procedureHead name words returns ++ " \x7b\n" ++ body ++ "\x7d")).toList = _
    simp only [String.toList_append, hfront]
    simp
  have hnone : Mode.code.run comments.toList = some ([], .code) := hcomments
  refine ⟨binders (some (.closing ')')) false toks, ?_, hbinds.of_mem_binders rfl⟩
  rw [← binders_headTokens name, boundWords, tokens, htext, Mode.run_of_run hnone,
    Mode.run_of_run hrun, hrest]
  simp [Mode.finish]

end BlockSynth.Zig
