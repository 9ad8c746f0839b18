import BlockSynth.Proofs.Rank
import BlockSynth.Proofs.Zig.Scan

/-! # Pieces of emitted text

Emitted text is put together from fixed characters and from code that is known only by what it is
like. Its pieces say which is which, and give its tokens up to those of the code.
-/
namespace BlockSynth.Zig

/-! ### Code that goes straight on -/

/-- The words that can lead a run elsewhere than on to the next statement. -/
def controlWords : List (List Char) :=
  [['b', 'r', 'e', 'a', 'k'], ['c', 'o', 'n', 't', 'i', 'n', 'u', 'e'],
    ['r', 'e', 't', 'u', 'r', 'n'], ['w', 'h', 'i', 'l', 'e'],
    ['f', 'o', 'r'], ['s', 'w', 'i', 't', 'c', 'h'], ['d', 'e', 'f', 'e', 'r'],
    ['e', 'r', 'r', 'd', 'e', 'f', 'e', 'r'],
    ['o', 'r', 'e', 'l', 's', 'e'], ['c', 'a', 't', 'c', 'h'],
    ['a', 's', 'y', 'n', 'c'], ['a', 'w', 'a', 'i', 't'], ['s', 'u', 's', 'p', 'e', 'n', 'd'],
    ['r', 'e', 's', 'u', 'm', 'e'], ['u', 'n', 'r', 'e', 'a', 'c', 'h', 'a', 'b', 'l', 'e']]

/-- Whether a token can stand inside a statement that only goes on to the next one. -/
def Token.isTame : Token → Bool
  | word text => !controlWords.contains text
  | symbol text => text != [';']
  | _ => true

theorem Token.isTame_word {text : List Char} : (word text).isTame = true ↔ text ∉ controlWords := by
  simp [isTame]

def Token.constWord : Token := .word ['c', 'o', 'n', 's', 't']

def Token.varWord : Token := .word ['v', 'a', 'r']

def Token.declares (token : Token) : Bool :=
  token = constWord || token = varWord

def Token.colon : Token := .symbol [':']

def Token.bar : Token := .symbol ['|']

/-- Whether no name is bound at a token. -/
def Token.isMute (token : Token) : Bool :=
  !(token.declares || token = colon || token = bar)

/-- Whether a token can stand inside a value, which goes straight on and binds nothing. -/
def Token.isBare (token : Token) : Bool :=
  token.isTame && token.isMute

theorem Token.isTame_of_isBare {token : Token} (h : token.isBare = true) : token.isTame = true :=
  (Bool.and_eq_true_iff.mp h).1

theorem Token.isMute_of_isBare {token : Token} (h : token.isBare = true) : token.isMute = true :=
  (Bool.and_eq_true_iff.mp h).2

def Tame (text : List Char) : Prop :=
  ∀ toks, tokens text = some toks → ∀ token ∈ toks, token.isBare = true

/-! ### Pieces -/

inductive Piece
  | chars (text : List Char)
  /-- Code that exposes nothing looser than the given rank. -/
  | operand (bound : Rank)
  /-- Text that closes all it opens. -/
  | closed
  /-- Spaces and tabs. -/
  | blank
  /-- Characters that end neither a literal nor a comment. -/
  | inner
  deriving DecidableEq, Repr

/-- Code that exposes nothing looser than the bound, goes straight on and binds nothing. -/
structure Operand (bound : Rank) (text : List Char) : Prop extends
    Fits (fun rank => rank.level ≤ bound.level) text where
  tame : Tame text

def IsIndent (text : List Char) : Prop :=
  ∀ c ∈ text, c = ' ' ∨ c = '\t'

instance (text : List Char) : Decidable (IsIndent text) :=
  List.decidableBAll _ text

def IsInner (text : List Char) : Prop :=
  ∀ c ∈ text, c ≠ '\n' ∧ c ≠ '\\' ∧ c ≠ '"' ∧ c ≠ '\''

instance (text : List Char) : Decidable (IsInner text) :=
  List.decidableBAll _ text

def Piece.Of : Piece → List Char → Prop
  | chars fixed, text => text = fixed
  | operand bound, text => Operand bound text
  | closed, text => Closed text
  | blank, text => IsIndent text
  | inner, text => IsInner text

/-- Text that is composed of the given pieces. -/
def Composed : List Piece → List Char → Prop
  | [], text => text = []
  | piece :: rest, text => ∃ part more, text = part ++ more ∧ piece.Of part ∧ Composed rest more

theorem Composed.append {pieces others : List Piece} {text more : List Char}
    (ht : Composed pieces text) (hm : Composed others more) :
    Composed (pieces ++ others) (text ++ more) := by
  induction pieces generalizing text with
  | nil =>
    obtain rfl : text = [] := ht
    exact hm
  | cons piece rest ih =>
    obtain ⟨part, tail, rfl, hpart, htail⟩ := ht
    exact ⟨part, tail ++ more, List.append_assoc .., hpart, ih htail⟩

theorem composed_singleton {piece : Piece} {text : List Char} :
    Composed [piece] text ↔ piece.Of text := by
  simp [Composed]

/-! ### Finding the pieces

The pieces of a string are found by instance search, from how the string is put together. -/

class Spells (code : String) (pieces : outParam (List Piece)) : Prop where
  composed : Composed pieces code.toList

/-- Lets instance search see the characters of a literal. -/
class Literal (code : String) (chars : outParam String) : Prop where
  eq : code = chars

instance (code : String) : Literal code code := ⟨rfl⟩

instance (priority := low) spells_literal (code : String) (chars : List Char)
    [h : Literal code (String.ofList chars)] : Spells code [.chars chars] where
  composed := by
    rw [composed_singleton, h.eq]
    exact String.toList_ofList

instance (priority := high) spells_append (code more : String)
    (pieces others : List Piece) [hc : Spells code pieces] [hm : Spells more others] :
    Spells (code ++ more) (pieces ++ others) where
  composed := by
    rw [String.toList_append]
    exact hc.composed.append hm.composed

instance (priority := high) spells_toString (code : String) (pieces : List Piece)
    [h : Spells code pieces] : Spells (toString code) pieces := h

theorem spells_iff {code : String} {piece : Piece} : Spells code [piece] ↔ piece.Of code.toList :=
  ⟨fun h => composed_singleton.mp h.composed, fun h => ⟨composed_singleton.mpr h⟩⟩

/-! ### Reading pieces -/

/-- The token of a word that is being read. -/
def Mode.pending : Mode → List Token
  | word text => [.word text]
  | _ => []

theorem Mode.IsSettled.finish_eq {mode : Mode} (h : mode.IsSettled) :
    mode.finish = some mode.pending := by
  cases mode with
  | code => rfl
  | word text => rfl
  | operator first => exact h.elim
  | literal quote => exact h.elim
  | escape quote => exact h.elim
  | comment => exact h.elim

namespace Mode

theorem run_of_settled {mode : Mode} (h : mode.IsSettled) {c : Char}
    (hc : Chars.isWordChar c = false) (rest : List Char) :
    mode.run (c :: rest) = (code.run (c :: rest)).map fun last =>
      (mode.pending ++ last.1, last.2) := by
  cases mode with
  | code => simp [pending]
  | word text =>
    rw [run_cons, run_cons]
    simp [step, hc, pending, Function.comp_def]
  | operator first => exact h.elim
  | literal quote => exact h.elim
  | escape quote => exact h.elim
  | comment => exact h.elim

theorem run_operator (first : Char) {text : List Char}
    (h : ∃ c, text.head? = some c ∧ leads c = true) :
    (operator first).run text = (code.run text).map fun last =>
      (.symbol [first] :: last.1, last.2) := by
  obtain ⟨c, hhead, hc⟩ := h
  obtain ⟨rest, rfl⟩ := List.head?_eq_some_iff.mp hhead
  simp only [leads, Bool.not_eq_true', Bool.or_eq_false_iff, beq_eq_false_iff_ne] at hc
  obtain ⟨⟨heq, hplus⟩, hslash⟩ := hc
  have hpair : isPair first c = false := by simp [isPair, heq, hplus]
  rw [run_cons, run_cons]
  simp [step, hslash, hpair, Function.comp_def]

theorem run_indent {text : List Char} (h : IsIndent text) : code.run text = some ([], code) := by
  induction text with
  | nil => rfl
  | cons c rest ih =>
    have hc : start c = ([], code) := by
      rcases h c List.mem_cons_self with rfl | rfl <;> decide
    rw [run_cons]
    simp [step, hc, ih fun d hd => h d (List.mem_cons_of_mem _ hd)]

theorem run_inner {mode : Mode} (hmode : mode = .comment ∨ ∃ quote, mode = .literal quote)
    {text : List Char} (h : IsInner text) : mode.run text = some ([], mode) := by
  induction text with
  | nil => rfl
  | cons c rest ih =>
    obtain ⟨hbreak, hslash, hdouble, hsingle⟩ := h c List.mem_cons_self
    have hstep : mode.step c = some ([], mode) := by
      rcases hmode with rfl | ⟨quote, rfl⟩
      · simp [step, hbreak]
      · cases quote <;> simp [step, hbreak, hslash, Quote.mark, hdouble, hsingle]
    rw [run_cons, hstep]
    simp [ih fun d hd => h d (List.mem_cons_of_mem _ hd)]

end Mode

/-- How an operand is read. -/
theorem Fits.run_eq {fine : Rank → Prop} {text : List Char} (h : Fits fine text) :
    ∃ emitted mode, Mode.code.run text = some (emitted, mode) ∧ mode.IsSettled ∧
      tokens text = some (emitted ++ mode.pending) := by
  obtain ⟨⟨mode, outline⟩, hset, hread, -⟩ := h.outside {} rfl rfl
  obtain ⟨emitted, hrun, -⟩ := Scan.read_eq_some.mp hread
  refine ⟨emitted, mode, hrun, hset, ?_⟩
  simp [tokens, hrun, Mode.IsSettled.finish_eq hset]

/-! ### The tokens of pieces -/

/-- A token, or what stands for the tokens of an operand. -/
inductive Item
  | fixed (token : Token)
  | operand (bound : Rank)
  deriving DecidableEq, Repr

def Item.Of : Item → List Token → Prop
  | fixed token, toks => toks = [token]
  | operand bound, toks => ∃ text, Operand bound text ∧ tokens text = some toks

/-- Tokens that the items stand for. -/
def Filled : List Item → List Token → Prop
  | [], toks => toks = []
  | item :: rest, toks => ∃ part more, toks = part ++ more ∧ item.Of part ∧ Filled rest more

theorem Filled.append {items others : List Item} {toks more : List Token} (h : Filled items toks)
    (hm : Filled others more) : Filled (items ++ others) (toks ++ more) := by
  induction items generalizing toks with
  | nil =>
    obtain rfl : toks = [] := h
    exact hm
  | cons item rest ih =>
    obtain ⟨part, tail, rfl, hpart, htail⟩ := h
    exact ⟨part, tail ++ more, List.append_assoc .., hpart, ih htail⟩

theorem filled_tokens (toks : List Token) : Filled (toks.map .fixed) toks := by
  induction toks with
  | nil => rfl
  | cons token rest ih => exact ⟨[token], rest, rfl, rfl, ih⟩

theorem Filled.split {items : List Item} {item : Item}
    {toks : List Token} (h : Filled (items ++ [item]) toks) :
    ∃ part last, toks = part ++ last ∧ Filled items part ∧ item.Of last := by
  induction items generalizing toks with
  | nil =>
    obtain ⟨part, more, rfl, hpart, rfl⟩ := h
    exact ⟨[], part, by simp, rfl, hpart⟩
  | cons first rest ih =>
    obtain ⟨part, more, rfl, hpart, hmore⟩ := h
    obtain ⟨init, last, rfl, hinit, hlast⟩ := ih hmore
    exact ⟨part ++ init, last, by simp, ⟨part, init, rfl, hpart, hinit⟩, hlast⟩

theorem filled_singleton {item : Item} {toks : List Token} (h : item.Of toks) :
    Filled [item] toks :=
  ⟨toks, [], by simp, h, rfl⟩

/-- The items of the pieces that have been read. -/
structure Draft where
  mode : Mode := .code
  /-- Directly behind an operand, which a word character must not continue. -/
  behind : Bool := false
  items : List Item := []
  deriving DecidableEq, Repr

def Draft.read (draft : Draft) : Piece → Option Draft
  | .chars text =>
    if draft.behind && (text.head?.all Chars.isWordChar) then none
    else (draft.mode.run text).map fun result =>
      ⟨result.2, false, draft.items ++ result.1.map .fixed⟩
  | .operand bound =>
    if draft.behind then none
    else match draft.mode with
      | .code => some ⟨.code, true, draft.items ++ [.operand bound]⟩
      | .operator first =>
        some ⟨.code, true, draft.items ++ ([.fixed (.symbol [first])] ++ [.operand bound])⟩
      | _ => none
  | .closed => none
  | .blank => if draft.mode = .code ∧ draft.behind = false then some draft else none
  | .inner =>
    if draft.behind then none
    else match draft.mode with
      | .literal _ => some draft
      | .comment => some draft
      | _ => none

def Draft.readAll (draft : Draft) (pieces : List Piece) : Option Draft :=
  pieces.foldlM read draft

/-- The items of text with the given pieces, which ends between two tokens or with a word. -/
def items? (pieces : List Piece) : Option (List Item) :=
  match Draft.readAll {} pieces with
  | some ⟨.code, _, items⟩ => some items
  | some ⟨.word text, false, items⟩ => some (items ++ [.fixed (.word text)])
  | _ => none

/-- The items of text with the given pieces, if it ends between two tokens. -/
def closedItems? (pieces : List Piece) : Option (List Item) :=
  match Draft.readAll {} pieces with
  | some ⟨.code, false, items⟩ => some items
  | _ => none

/-- A draft of the text that has been read. -/
def Draft.Covers (draft : Draft) (text : List Char) : Prop :=
  ∃ emitted mode, Mode.code.run text = some (emitted, mode) ∧
    if draft.behind then draft.mode = .code ∧ mode.IsSettled ∧
    Filled draft.items (emitted ++ mode.pending)
    else mode = draft.mode ∧ Filled draft.items emitted

/-- The text of a draft with nothing pending ends in the mode of the draft. -/
theorem Draft.covers_iff {mode : Mode} {items : List Item} {text : List Char} :
    Covers ⟨mode, false, items⟩ text ↔ ∃ emitted,
      Mode.code.run text = some (emitted, mode) ∧ Filled items emitted := by
  constructor
  · rintro ⟨emitted, mode, hrun, rfl, hfilled⟩
    exact ⟨emitted, hrun, hfilled⟩
  · rintro ⟨emitted, hrun, hfilled⟩
    exact ⟨emitted, mode, hrun, rfl, hfilled⟩

theorem Draft.Covers.chars {draft next : Draft} {text part : List Char} (h : draft.Covers text)
    (hread : draft.read (.chars part) = some next) : next.Covers (text ++ part) := by
  obtain ⟨mode, behind, items⟩ := draft
  simp only [Draft.read] at hread
  split at hread
  · simp at hread
  · rename_i hword
    obtain ⟨⟨more, last⟩, hmore, rfl⟩ := Option.map_eq_some_iff.mp hread
    cases behind with
    | true =>
      obtain ⟨emitted, actual, hrun, rfl, hset, hfilled⟩ := h
      cases part with
      | nil => simp at hword
      | cons c rest =>
        refine ⟨emitted ++ (actual.pending ++ more), last, ?_, rfl, ?_⟩
        · rw [Mode.run_of_run hrun, Mode.run_of_settled hset (by simpa using hword), hmore]
          rfl
        · simpa using hfilled.append (filled_tokens more)
    | false =>
      obtain ⟨emitted, hrun, hfilled⟩ := covers_iff.mp h
      refine covers_iff.mpr ⟨emitted ++ more, ?_, hfilled.append (filled_tokens more)⟩
      rw [Mode.run_of_run hrun, hmore]
      rfl

/-- An operand behind text that ends with the given tokens still to come. -/
theorem Draft.Covers.fill {mode : Mode} {items : List Item} {text part : List Char} {bound : Rank}
    (h : Covers ⟨mode, false, items⟩ text) (before : List Token)
    (hpart : mode.run part = (Mode.code.run part).map fun last => (before ++ last.1, last.2))
    (hoperand : Operand bound part) :
    Covers ⟨.code, true, items ++ (before.map .fixed ++ [.operand bound])⟩ (text ++ part) := by
  obtain ⟨emitted, hrun, hfilled⟩ := covers_iff.mp h
  obtain ⟨inner, next, hinner, hset, htokens⟩ := hoperand.run_eq
  refine ⟨emitted ++ (before ++ inner), next, ?_, rfl, hset, ?_⟩
  · rw [Mode.run_of_run hrun, hpart, hinner]
    rfl
  · have hlast : Filled [.operand bound] (inner ++ next.pending) :=
      filled_singleton ⟨part, hoperand, htokens⟩
    simpa using hfilled.append ((filled_tokens before).append hlast)

theorem Draft.Covers.operand {draft next : Draft} {bound : Rank} {text part : List Char}
    (h : draft.Covers text) (hread : draft.read (.operand bound) = some next)
    (hpart : Operand bound part) : next.Covers (text ++ part) := by
  obtain ⟨mode, behind, items⟩ := draft
  cases behind with
  | true => simp [Draft.read] at hread
  | false =>
    simp only [Draft.read, Bool.false_eq_true, if_false] at hread
    split at hread
    · obtain rfl := Option.some.inj hread
      exact h.fill [] (by simp) hpart
    · rename_i first
      obtain rfl := Option.some.inj hread
      exact h.fill [.symbol [first]] (Mode.run_operator first hpart.leads) hpart
    · simp at hread

/-- Text that leaves the mode as it is adds no item. -/
theorem Draft.Covers.keep {mode : Mode} {items : List Item} {text part : List Char}
    (h : Covers ⟨mode, false, items⟩ text) (hpart : mode.run part = some ([], mode)) :
    Covers ⟨mode, false, items⟩ (text ++ part) := by
  obtain ⟨emitted, hrun, hfilled⟩ := covers_iff.mp h
  refine covers_iff.mpr ⟨emitted, ?_, hfilled⟩
  simp [Mode.run_of_run hrun, hpart]

theorem Draft.Covers.blank {draft next : Draft} {text part : List Char}
    (h : draft.Covers text) (hread : draft.read .blank = some next) (hpart : IsIndent part) :
    next.Covers (text ++ part) := by
  obtain ⟨mode, behind, items⟩ := draft
  simp only [Draft.read] at hread
  split at hread
  · rename_i hcode
    obtain ⟨rfl, rfl⟩ : mode = .code ∧ behind = false := hcode
    obtain rfl := Option.some.inj hread
    exact h.keep (Mode.run_indent hpart)
  · simp at hread

theorem Draft.Covers.inner {draft next : Draft} {text part : List Char}
    (h : draft.Covers text) (hread : draft.read .inner = some next) (hpart : IsInner part) :
    next.Covers (text ++ part) := by
  obtain ⟨mode, behind, items⟩ := draft
  cases behind with
  | true => simp [Draft.read] at hread
  | false =>
    simp only [Draft.read, Bool.false_eq_true, if_false] at hread
    split at hread
    · rename_i quote
      obtain rfl := Option.some.inj hread
      exact h.keep (Mode.run_inner (.inr ⟨quote, rfl⟩) hpart)
    · obtain rfl := Option.some.inj hread
      exact h.keep (Mode.run_inner (.inl rfl) hpart)
    · simp at hread

/-- What a draft says of a piece holds of every text of that kind. -/
theorem Draft.Covers.read {draft next : Draft} {piece : Piece} {text part : List Char}
    (h : draft.Covers text) (hread : draft.read piece = some next) (hpart : piece.Of part) :
    next.Covers (text ++ part) := by
  cases piece with
  | chars fixed =>
    obtain rfl : part = fixed := hpart
    exact h.chars hread
  | operand bound => exact h.operand hread hpart
  | closed => simp [Draft.read] at hread
  | blank => exact h.blank hread hpart
  | inner => exact h.inner hread hpart

theorem Draft.Covers.readAll {draft next : Draft} {pieces : List Piece}
    {text more : List Char} (h : draft.Covers text)
    (hread : draft.readAll pieces = some next) (hmore : Composed pieces more) :
    next.Covers (text ++ more) := by
  induction pieces generalizing draft text more with
  | nil =>
    obtain rfl : more = [] := hmore
    obtain rfl : draft = next := by simpa [Draft.readAll] using hread
    simpa using h
  | cons piece rest ih =>
    obtain ⟨part, tail, rfl, hpart, htail⟩ := hmore
    simp only [Draft.readAll, List.foldlM_cons, Option.bind_eq_bind] at hread
    obtain ⟨middle, hfirst, hrest⟩ := Option.bind_eq_some_iff.mp hread
    rw [← List.append_assoc]
    exact ih (h.read hfirst hpart) hrest htail

theorem covers_of_composed {pieces : List Piece} {text : List Char} {draft : Draft}
    (hread : Draft.readAll {} pieces = some draft) (htext : Composed pieces text) :
    draft.Covers text := by
  have hstart : Draft.Covers {} [] := ⟨[], .code, rfl, rfl, rfl⟩
  exact hstart.readAll hread htext

/-- The tokens of composed text are those of its items. -/
theorem exists_filled_of_composed {pieces : List Piece} {text : List Char} {items : List Item}
    (hitems : items? pieces = some items) (htext : Composed pieces text) :
    ∃ toks, tokens text = some toks ∧ Filled items toks := by
  unfold items? at hitems
  split at hitems
  · rename_i behind drafted hread
    obtain rfl := Option.some.inj hitems
    obtain ⟨emitted, mode, hrun, hstate⟩ := covers_of_composed hread htext
    cases behind with
    | true =>
      obtain ⟨-, hset, hfilled⟩ := hstate
      exact ⟨_, by simp [tokens, hrun, Mode.IsSettled.finish_eq hset], hfilled⟩
    | false =>
      obtain ⟨rfl, hfilled⟩ := hstate
      exact ⟨emitted, by simp [tokens, hrun, Mode.finish], hfilled⟩
  · rename_i word drafted hread
    obtain rfl := Option.some.inj hitems
    obtain ⟨emitted, mode, hrun, rfl, hfilled⟩ := covers_of_composed hread htext
    exact ⟨_, by simp [tokens, hrun, Mode.finish], hfilled.append (filled_tokens [.word word])⟩
  · simp at hitems

/-- Composed text that ends between two tokens is read as its items. -/
theorem exists_run_of_composed {pieces : List Piece} {text : List Char} {items : List Item}
    (hitems : closedItems? pieces = some items) (htext : Composed pieces text) :
    ∃ toks, Mode.code.run text = some (toks, .code) ∧ Filled items toks := by
  unfold closedItems? at hitems
  split at hitems
  · rename_i drafted hread
    obtain rfl := Option.some.inj hitems
    obtain ⟨toks, mode, hrun, rfl, hfilled⟩ := covers_of_composed hread htext
    exact ⟨toks, hrun, hfilled⟩
  · simp at hitems

theorem exists_run_of_spells (code : String) {pieces : List Piece} [h : Spells code pieces]
    {items : List Item} (hitems : closedItems? pieces = some items) :
    ∃ toks, Mode.code.run code.toList = some (toks, .code) ∧ Filled items toks :=
  exists_run_of_composed hitems h.composed

def Item.isBare : Item → Bool
  | fixed token => token.isBare
  | operand _ => true

/-- Whether text with the given pieces goes straight on and binds nothing. -/
def tamePieces (pieces : List Piece) : Bool :=
  (items? pieces).any (·.all Item.isBare)

theorem Filled.isBare {items : List Item} {toks : List Token} (h : Filled items toks)
    (htame : items.all Item.isBare = true) : ∀ token ∈ toks, token.isBare = true := by
  induction items generalizing toks with
  | nil =>
    obtain rfl : toks = [] := h
    exact List.forall_mem_nil _
  | cons item rest ih =>
    obtain ⟨part, more, rfl, hpart, hmore⟩ := h
    rw [List.all_cons, Bool.and_eq_true] at htame
    refine List.forall_mem_append.mpr ⟨?_, ih hmore htame.2⟩
    cases item with
    | fixed token =>
      obtain rfl : part = [token] := hpart
      exact List.forall_mem_singleton.mpr htame.1
    | operand bound =>
      obtain ⟨text, hoperand, htokens⟩ := hpart
      exact hoperand.tame part htokens

theorem tame_of_composed {pieces : List Piece} {text : List Char} (h : tamePieces pieces = true)
    (htext : Composed pieces text) : Tame text := by
  obtain ⟨items, hitems, htame⟩ := (Option.any_eq_true _ _).mp h
  obtain ⟨toks, htokens, hfilled⟩ := exists_filled_of_composed hitems htext
  intro others hothers
  obtain rfl := Option.some.inj (htokens.symm.trans hothers)
  exact hfilled.isBare htame

end BlockSynth.Zig
