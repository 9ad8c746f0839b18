import BlockSynth.Proofs.Rank
import BlockSynth.Proofs.Zig.Grammar
import BlockSynth.Proofs.Zig.Lexeme
import BlockSynth.Zig.Arithmetic

/-! # Phrases

Which tokens the reader takes for which tree, whatever follows them. Chains of one connective come
out grouped to the left, so trees are compared up to regrouping such chains.
-/
namespace BlockSynth.Zig

/-- The operators whose chains mean the same in every grouping. -/
def Operator.IsConnective (operator : Operator) : Prop :=
  operator = .and ∨ operator = .or

instance (operator : Operator) : Decidable operator.IsConnective :=
  inferInstanceAs (Decidable (_ ∨ _))

/-- Trees that differ in the grouping of chains of one connective only. -/
inductive Regrouped : Expr → Expr → Prop
  | refl (tree : Expr) : Regrouped tree tree
  | symm {tree other : Expr} : Regrouped tree other → Regrouped other tree
  | trans {tree other third : Expr} : Regrouped tree other → Regrouped other third →
    Regrouped tree third
  | signed (sign : Sign) {operand operand' : Expr} : Regrouped operand operand' →
    Regrouped (.signed sign operand) (.signed sign operand')
  | binary (operator : Operator) {left left' right right' : Expr} : Regrouped left left' →
    Regrouped right right' → Regrouped (.binary operator left right) (.binary operator left' right')
  | choice {condition condition' consequence consequence' otherwise otherwise' : Expr} :
    Regrouped condition condition' →
    Regrouped consequence consequence' → Regrouped otherwise otherwise' →
    Regrouped (.choice condition consequence otherwise) (.choice condition' consequence' otherwise')
  | assoc {operator : Operator} (h : operator.IsConnective) (first second third : Expr) :
    Regrouped (.binary operator (.binary operator first second) third)
      (.binary operator first (.binary operator second third))

/-! ### Where a phrase ends -/

/-- What follows continues no phrase of the given level. -/
def Stops (level : Nat) : List Token → Prop
  | [] => True
  | token :: _ => token ≠ .symbol ['.'] ∧
    ∀ operator, Operator.ofToken? token = some operator → level < operator.level

theorem Stops.mono {level lower : Nat} {rest : List Token}
    (h : Stops level rest) (hle : lower ≤ level) :
    Stops lower rest := by
  cases rest with
  | nil => trivial
  | cons token rest => exact ⟨h.1, fun operator hoperator => hle.trans_lt (h.2 operator hoperator)⟩

theorem Operator.ofToken?_token (operator : Operator) :
    ofToken? operator.token = some operator := by
  cases operator <;> decide

theorem Operator.level_pos (operator : Operator) : 0 < operator.level := by
  cases operator <;> decide

theorem Sign.ofToken?_token (sign : Sign) : ofToken? sign.token = some sign := by
  cases sign <;> decide

theorem stops_operator {operator : Operator} {level : Nat}
    (h : level < operator.level) (rest : List Token) :
    Stops level (operator.token :: rest) := by
  refine ⟨by cases operator <;> decide, fun other hother => ?_⟩
  rw [Operator.ofToken?_token] at hother
  obtain rfl := Option.some.inj hother
  exact h

theorem stops_closing (level : Nat) (rest : List Token) : Stops level (.closing ')' :: rest) :=
  ⟨by decide, fun operator hoperator => absurd hoperator (by decide +revert)⟩

theorem stops_else (level : Nat) (rest : List Token) : Stops level (.elseWord :: rest) :=
  ⟨by decide, fun operator hoperator => absurd hoperator (by decide +revert)⟩

theorem length_lt_append {tokens : List Token} (h : tokens ≠ []) (rest : List Token) :
    rest.length < (tokens ++ rest).length := by
  have hpos := List.length_pos_iff.mpr h
  rw [List.length_append]
  omega

theorem shorter_some {tokens rest : List Token} (h : rest.length < tokens.length) (tree : Expr) :
    shorter tokens (some (tree, rest)) = some (tree, ⟨rest, h⟩) :=
  dif_pos h

theorem readMore_of_stops {level : Nat} {rest : List Token} (h : Stops level rest) (left : Expr) :
    readMore level left rest = some (left, rest) := by
  cases rest with
  | nil => rw [readMore]
  | cons token rest =>
    rw [readMore]
    cases hoperator : Operator.ofToken? token with
    | none => rfl
    | some operator =>
      have hne : operator.level ≠ level := (h.2 operator hoperator).ne'
      simp only [hne, if_false]

theorem readLevel_succ {level : Nat} {tokens rest : List Token} {tree : Expr} (hne : tokens ≠ [])
    (h : readLevel level (tokens ++ rest) = some (tree, rest)) :
    readLevel (level + 1) (tokens ++ rest) = readMore (level + 1) tree rest := by
  rw [readLevel, h, shorter_some (length_lt_append hne rest)]
  rfl

theorem readMore_operator {operator : Operator} {tokens rest : List Token}
    (left : Expr) {right : Expr} (hne : tokens ≠ [])
    (h : readLevel (operator.level - 1) (tokens ++ rest) = some (right, rest)) :
    readMore operator.level left (operator.token :: (tokens ++ rest)) =
      if operator.level = Operator.comparing then some (.binary operator left right, rest)
      else readMore operator.level (.binary operator left right) rest := by
  rw [readMore, Operator.ofToken?_token]
  simp only [if_true, h, shorter_some (length_lt_append hne rest)]
  rfl

/-! ### Phrases of a level -/

/-- Tokens that are read as the given tree on the given level. -/
structure Reads (level : Nat) (tokens : List Token) (tree : Expr) : Prop where
  ne_nil : tokens ≠ []
  reads : ∃ result, Regrouped result tree ∧ ∀ rest, Stops level rest →
    readLevel level (tokens ++ rest) = some (result, rest)

variable {level : Nat} {tokens more : List Token} {tree left right : Expr} {operator : Operator}

theorem Reads.succ (h : Reads level tokens tree) : Reads (level + 1) tokens tree := by
  obtain ⟨result, hresult, hreads⟩ := h.reads
  refine ⟨h.ne_nil, result, hresult, fun rest hrest => ?_⟩
  rw [readLevel_succ h.ne_nil (hreads rest (hrest.mono (Nat.le_succ level)))]
  exact readMore_of_stops hrest result

theorem Reads.mono {looser : Nat} (h : Reads level tokens tree) (hle : level ≤ looser) :
    Reads looser tokens tree := by
  induction hle with
  | refl => exact h
  | step _ ih => exact ih.succ

/-- An operator that does not chain with itself on the right. -/
theorem Reads.binary (hleft : Reads (operator.level - 1) tokens left)
    (hright : Reads (operator.level - 1) more right) :
    Reads operator.level (tokens ++ operator.token :: more) (.binary operator left right) := by
  obtain ⟨result, hresult, hreads⟩ := hleft.reads
  obtain ⟨result', hresult', hreads'⟩ := hright.reads
  refine ⟨by simp, _, .binary operator hresult hresult', fun rest hrest => ?_⟩
  have hlevel := operator.level_pos
  have hlower : operator.level - 1 < operator.level := by omega
  have hstart := hreads (operator.token :: (more ++ rest)) (stops_operator hlower _)
  have hfollow := hreads' rest (hrest.mono (Nat.sub_le _ _))
  have hsucc := readLevel_succ hleft.ne_nil hstart
  rw [Nat.sub_add_cancel hlevel] at hsucc
  rw [List.append_assoc, List.cons_append, hsucc, readMore_operator result hright.ne_nil hfollow]
  split
  · rfl
  · exact readMore_of_stops hrest _

/-! ### Chains of a connective -/

/-- Tokens that are read as a part of a chain, first or behind what has been read so far. -/
structure Links (operator : Operator) (tokens : List Token) (tree : Expr) : Prop where
  ne_nil : tokens ≠ []
  first : ∃ result, Regrouped result tree ∧ ∀ rest, Stops (operator.level - 1) rest →
    readLevel operator.level (tokens ++ rest) = readMore operator.level result rest
  next : ∀ left, ∃ result, Regrouped result (.binary operator left tree) ∧
    ∀ rest, Stops (operator.level - 1) rest →
      readMore operator.level left (operator.token :: (tokens ++ rest)) =
        readMore operator.level result rest

theorem Operator.IsConnective.ne_comparing (h : operator.IsConnective) :
    operator.level ≠ comparing := by
  rcases h with rfl | rfl <;> decide

theorem Links.of_reads (hoperator : operator.IsConnective)
    (h : Reads (operator.level - 1) tokens tree) :
    Links operator tokens tree := by
  obtain ⟨result, hresult, hreads⟩ := h.reads
  refine ⟨h.ne_nil, ⟨result, hresult, fun rest hrest => ?_⟩, fun left =>
    ⟨_, .binary operator (.refl left) hresult, fun rest hrest => ?_⟩⟩
  · have hsucc := readLevel_succ h.ne_nil (hreads rest hrest)
    rw [Nat.sub_add_cancel operator.level_pos] at hsucc
    exact hsucc
  · rw [readMore_operator left h.ne_nil (hreads rest hrest), if_neg hoperator.ne_comparing]

theorem Links.binary (hoperator : operator.IsConnective) (hleft : Links operator tokens left)
    (hright : Links operator more right) :
    Links operator (tokens ++ operator.token :: more) (.binary operator left right) := by
  have hlower : operator.level - 1 < operator.level := by
    have hpos := operator.level_pos
    omega
  refine ⟨by simp, ?_, fun before => ?_⟩
  · obtain ⟨first, hfirst, hreads⟩ := hleft.first
    obtain ⟨result, hresult, hnext⟩ := hright.next first
    refine ⟨result, hresult.trans (.binary operator hfirst (.refl right)), fun rest hrest => ?_⟩
    rw [List.append_assoc, List.cons_append, hreads _ (stops_operator hlower _), hnext rest hrest]
  · obtain ⟨middle, hmiddle, hreads⟩ := hleft.next before
    obtain ⟨result, hresult, hnext⟩ := hright.next middle
    have hgrouped : Regrouped result (.binary operator before (.binary operator left right)) :=
      (hresult.trans (.binary operator hmiddle (.refl right))).trans
        (.assoc hoperator before left right)
    refine ⟨result, hgrouped, fun rest hrest => ?_⟩
    rw [List.append_assoc, List.cons_append, hreads _ (stops_operator hlower _), hnext rest hrest]

theorem Links.reads (h : Links operator tokens tree) : Reads operator.level tokens tree := by
  obtain ⟨result, hresult, hreads⟩ := h.first
  refine ⟨h.ne_nil, result, hresult, fun rest hrest => ?_⟩
  rw [hreads rest (hrest.mono (Nat.sub_le _ _))]
  exact readMore_of_stops hrest result

/-! ### Primaries -/

theorem readSigned_word {text : List Char} (h : (Token.word text) ≠ .ifWord) (rest : List Token) :
    readSigned (.word text :: rest) = readAtom (.word text :: rest) := by
  have hsign : Sign.ofToken? (.word text) = none := by
    simp [Sign.ofToken?, Sign.token, Token.minus]
  rw [readSigned, hsign]
  simp [h]

theorem reads_word {text : List Char}
    (hif : (Token.word text) ≠ .ifWord) (h : readWord text = some tree) :
    Reads 0 [.word text] tree := by
  refine ⟨by simp, tree, .refl tree, fun rest hrest => ?_⟩
  rw [readLevel, List.singleton_append, readSigned_word hif]
  cases rest with
  | nil => simp [readAtom, h]
  | cons token rest =>
    have hpoint := hrest.1
    unfold readAtom
    split
    · rename_i heq
      simp only [List.cons.injEq] at heq
      exact absurd heq.2.1 hpoint
    · rename_i heq
      simp only [List.cons.injEq, Token.word.injEq] at heq
      obtain ⟨rfl, rfl⟩ := heq
      simp [h]
    · rename_i hword
      exact absurd rfl (hword text (token :: rest))

theorem reads_point {whole fraction : List Char} (hwhole : Chars.isDigits whole = true)
    (hfraction : Chars.isDigits fraction = true) :
    Reads 0 [.word whole, .symbol ['.'], .word fraction] (numeral whole fraction) := by
  refine ⟨by simp, _, .refl _, fun rest _ => ?_⟩
  have hif : (Token.word whole) ≠ .ifWord := by
    intro heq
    obtain rfl := Token.word.inj heq
    exact absurd hwhole (by decide)
  rw [readLevel, List.cons_append, readSigned_word hif]
  simp [readAtom, hwhole, hfraction]

theorem Reads.signed (sign : Sign) (h : Reads 0 tokens tree) :
    Reads 0 (sign.token :: tokens) (.signed sign tree) := by
  obtain ⟨result, hresult, hreads⟩ := h.reads
  refine ⟨by simp, _, .signed sign hresult, fun rest hrest => ?_⟩
  have hoperand := hreads rest hrest
  rw [readLevel] at hoperand
  rw [readLevel, List.cons_append, readSigned, Sign.ofToken?_token]
  simp [hoperand]

theorem Reads.readGroup (h : Reads Operator.loosest tokens tree) :
    ∃ result, Regrouped result tree ∧ ∀ rest,
      readGroup (.opening '(' :: (tokens ++ .closing ')' :: rest)) = some (result, rest) := by
  obtain ⟨result, hresult, hreads⟩ := h.reads
  refine ⟨result, hresult, fun rest => ?_⟩
  rw [Zig.readGroup, hreads _ (stops_closing _ rest)]
  rfl

theorem Reads.parens (h : Reads Operator.loosest tokens tree) :
    Reads 0 (.opening '(' :: (tokens ++ [.closing ')'])) tree := by
  obtain ⟨result, hresult, hgroup⟩ := h.readGroup
  refine ⟨by simp, result, hresult, fun rest _ => ?_⟩
  have hsign : Sign.ofToken? (.opening '(') = none := by decide
  rw [readLevel, List.cons_append, readSigned, hsign, List.append_assoc, List.singleton_append]
  simp only [if_true]
  exact hgroup rest

theorem readLevel_of_zero {rest : List Token} (hne : tokens ≠ [])
    (h : readLevel 0 (tokens ++ rest) = some (tree, rest)) (hrest : Stops level rest) :
    readLevel level (tokens ++ rest) = some (tree, rest) := by
  induction level with
  | zero => exact h
  | succ level ih =>
    rw [readLevel_succ hne (ih (hrest.mono (Nat.le_succ level)))]
    exact readMore_of_stops hrest tree

/-- The last branch takes all that an expression can take, so nothing of that kind may follow. -/
theorem Reads.choice {test consequent alternate : List Token}
    {condition consequence otherwise : Expr} (hcondition : Reads Operator.loosest test condition)
    (hconsequence : Reads Operator.loosest consequent consequence)
    (hotherwise : Reads Operator.loosest alternate otherwise) :
    Reads Operator.loosest
      (.ifWord :: .opening '(' :: (test ++ .closing ')' :: (consequent ++ .elseWord :: alternate)))
      (.choice condition consequence otherwise) := by
  obtain ⟨first, hfirst, hgroup⟩ := hcondition.readGroup
  obtain ⟨second, hsecond, hreads⟩ := hconsequence.reads
  obtain ⟨third, hthird, hlast⟩ := hotherwise.reads
  refine ⟨by simp, _, .choice hfirst hsecond hthird, fun rest hrest => ?_⟩
  refine readLevel_of_zero (by simp) ?_ hrest
  have hsign : Sign.ofToken? .ifWord = none := by decide
  have hopening : Token.ifWord ≠ .opening '(' := by decide
  have htest := hgroup (consequent ++ .elseWord :: (alternate ++ rest))
  have hbranch := hreads (.elseWord :: (alternate ++ rest)) (stops_else _ _)
  have hlt : (consequent ++ .elseWord :: (alternate ++ rest)).length < (.opening '(' ::
        (test ++ .closing ')' :: (consequent ++ .elseWord :: (alternate ++ rest)))).length := by
    simp only [List.length_cons, List.length_append]
    omega
  simp only [List.cons_append, List.append_assoc]
  rw [readLevel, readSigned, hsign]
  simp only [hopening, if_false, if_true, htest, shorter_some hlt, Option.bind_eq_bind,
    Option.bind_some, hbranch, shorter_some (length_lt_append hconsequence.ne_nil _)]
  simp only [Token.elseWord, hlast rest hrest]
  rfl

/-! ### Code at a place -/

/-- The level on which code of a rank is read. -/
def grade : Rank → Nat
  | .atomic => 0
  | .unaryPostfix => 0
  | .unaryPrefix => 0
  | .multiplicative => 1
  | .additive => 2
  | .relational => 3
  | .equality => 3
  | .logicalAnd => 4
  | _ => Operator.loosest

namespace Operator

def rank : Operator → Rank
  | multiply => .multiplicative
  | divide => .multiplicative
  | add => .additive
  | subtract => .additive
  | equal => .equality
  | unequal => .equality
  | and => .logicalAnd
  | or => .logicalOr
  | _ => .relational

/-- The rank that the operands are asked for. -/
def place (operator : Operator) : Rank :=
  if operator.level = comparing then .relational else operator.rank

theorem grade_rank (operator : Operator) : grade operator.rank = operator.level := by
  cases operator <;> rfl

theorem grade_le_of_place (h : ¬operator.IsConnective) {rank : Rank}
    (hrank : operator.place.needsParens rank = false) : grade rank ≤ operator.level - 1 := by
  unfold IsConnective at h
  cases operator <;> cases rank <;> first | decide | exact absurd hrank (by decide) | simp at h

theorem grade_le_of_rank (h : operator.IsConnective) {rank : Rank}
    (hrank : operator.rank.needsParens rank = false) :
    operator.rank = rank ∨ grade rank ≤ operator.level - 1 := by
  rcases h with rfl | rfl <;> cases rank <;>
    first | exact .inl rfl | exact .inr (by decide) | exact absurd hrank (by decide)

end Operator

theorem grade_le_loosest (rank : Rank) : grade rank ≤ Operator.loosest := by
  cases rank <;> decide

/-- Code of the given rank that is read as a tree, and as a part of a chain if its
rank is a connective's. -/
def Says (rank : Rank) (code : String) (tree : Expr) : Prop :=
  ∃ tokens, Lexes code.toList tokens ∧ Reads (grade rank) tokens tree ∧
    ∀ operator : Operator, operator.IsConnective → operator.rank = rank → Links operator tokens tree

/-- Such code with the parentheses that its place asks for. -/
def Placed (place : Rank) (text : String) (tree : Expr) : Prop :=
  ∃ rank code, text = wrap place rank code ∧ Says rank code tree

theorem Lexes.parens {text : List Char} (h : Lexes text tokens) :
    Lexes ('(' :: (text ++ [')'])) (.opening '(' :: (tokens ++ [.closing ')'])) := by
  have hopening : Mode.code.run ['('] = some ([.opening '('], .code) := rfl
  have hclosing : Mode.code.run [')'] = some ([.closing ')'], .code) := rfl
  exact (h.before hclosing ⟨')', rfl, by decide⟩).behind hopening ⟨'(', rfl, by decide⟩

theorem toList_wrapped (code : String) : (s!"({code})").toList = '(' :: (code.toList ++ [')']) := by
  show ("(" ++ code ++ ")").toList = _
  simp

theorem Says.lexes_parens {rank : Rank} {code : String} (h : Says rank code tree) :
    ∃ tokens, Lexes (s!"({code})").toList tokens ∧ Reads 0 tokens tree := by
  obtain ⟨tokens, hlexes, hreads, -⟩ := h
  rw [toList_wrapped]
  exact ⟨_, hlexes.parens, (hreads.mono (grade_le_loosest rank)).parens⟩

theorem Placed.reads {place : Rank} {text : String} (h : Placed place text tree)
    (hgrade : ∀ rank, place.needsParens rank = false → grade rank ≤ level) :
    ∃ tokens, Lexes text.toList tokens ∧ Reads level tokens tree := by
  obtain ⟨rank, code, rfl, hsays⟩ := h
  unfold wrap
  split
  · obtain ⟨tokens, hlexes, hreads⟩ := hsays.lexes_parens
    exact ⟨tokens, hlexes, hreads.mono (Nat.zero_le level)⟩
  · rename_i hparens
    obtain ⟨tokens, hlexes, hreads, -⟩ := hsays
    exact ⟨tokens, hlexes, hreads.mono (hgrade rank (by simpa using hparens))⟩

theorem Placed.links {text : String} (hoperator : operator.IsConnective)
    (h : Placed operator.rank text tree) :
    ∃ tokens, Lexes text.toList tokens ∧ Links operator tokens tree := by
  obtain ⟨rank, code, rfl, hsays⟩ := h
  unfold wrap
  split
  · obtain ⟨tokens, hlexes, hreads⟩ := hsays.lexes_parens
    exact ⟨tokens, hlexes, .of_reads hoperator (hreads.mono (Nat.zero_le _))⟩
  · rename_i hparens
    obtain ⟨tokens, hlexes, hreads, hlinks⟩ := hsays
    refine ⟨tokens, hlexes, ?_⟩
    rcases Operator.grade_le_of_rank hoperator (by simpa using hparens) with hrank | hgrade
    · exact hlinks operator hoperator hrank
    · exact .of_reads hoperator (hreads.mono hgrade)

theorem Says.of_reads {rank : Rank} {code : String}
    (hlexes : Lexes code.toList tokens) (hreads : Reads (grade rank) tokens tree)
    (hand : rank ≠ .logicalAnd) (hor : rank ≠ .logicalOr) :
    Says rank code tree := by
  refine ⟨tokens, hlexes, hreads, fun operator hoperator hrank => ?_⟩
  rcases hoperator with rfl | rfl
  · exact absurd hrank.symm hand
  · exact absurd hrank.symm hor

/-! ### Composed code -/

theorem Operator.run_text (operator : Operator) :
    Mode.code.run (" " ++ operator.text ++ " ").toList = some ([operator.token], .code) := by
  cases operator <;> rfl

theorem Lexes.joined {a b : List Char} {tokens more : List Token}
    (ha : Lexes a tokens) (hb : Lexes b more) (operator : Operator) :
    Lexes (a ++ ((" " ++ operator.text ++ " ").toList ++ b))
      (tokens ++ operator.token :: more) :=
  ha.between hb operator.run_text ⟨' ', by simp, by decide⟩

theorem toList_joined (a b : String) (operator : Operator) :
    (a ++ " " ++ operator.text ++ " " ++ b).toList =
      a.toList ++ ((" " ++ operator.text ++ " ").toList ++ b.toList) := by
  simp

theorem Placed.binary {a b : String} (hoperator : ¬operator.IsConnective)
    (ha : Placed operator.place a left) (hb : Placed operator.place b right) :
    Says operator.rank (a ++ " " ++ operator.text ++ " " ++ b) (.binary operator left right) := by
  obtain ⟨tokens, hlexes, hreads⟩ := ha.reads fun _ => Operator.grade_le_of_place hoperator
  obtain ⟨more, hlexes', hreads'⟩ := hb.reads fun _ => Operator.grade_le_of_place hoperator
  refine ⟨tokens ++ operator.token :: more, ?_, ?_, fun other hother hrank => ?_⟩
  · rw [toList_joined]
    exact hlexes.joined hlexes' operator
  · rw [Operator.grade_rank]
    exact Reads.binary hreads hreads'
  · refine absurd ?_ hoperator
    rcases hother with rfl | rfl
    · exact .inl (by cases operator <;> first | rfl | exact absurd hrank (by decide))
    · exact .inr (by cases operator <;> first | rfl | exact absurd hrank (by decide))

theorem Placed.connect {a b : String} (hoperator : operator.IsConnective)
    (ha : Placed operator.rank a left) (hb : Placed operator.rank b right) :
    Says operator.rank (a ++ " " ++ operator.text ++ " " ++ b) (.binary operator left right) := by
  obtain ⟨tokens, hlexes, hlinks⟩ := ha.links hoperator
  obtain ⟨more, hlexes', hlinks'⟩ := hb.links hoperator
  have hchain := Links.binary hoperator hlinks hlinks'
  refine ⟨tokens ++ operator.token :: more, ?_, ?_, fun other hother hrank => ?_⟩
  · rw [toList_joined]
    exact hlexes.joined hlexes' operator
  · rw [Operator.grade_rank]
    exact hchain.reads
  · have heq : other = operator := by
      rcases hother with rfl | rfl <;> rcases hoperator with rfl | rfl <;>
        first | rfl | exact absurd hrank (by decide)
    rw [heq]
    exact hchain

theorem Placed.choice {a b c : String} {condition consequence otherwise : Expr}
    (ha : Placed .none a condition) (hb : Placed .conditional b consequence)
    (hc : Placed .conditional c otherwise) :
    Says .conditional ("if (" ++ a ++ ") " ++ b ++ " else " ++ c)
      (.choice condition consequence otherwise) := by
  obtain ⟨test, hlexes, hreads⟩ := ha.reads fun rank _ => grade_le_loosest rank
  obtain ⟨consequent, hlexes', hreads'⟩ := hb.reads fun rank _ => grade_le_loosest rank
  obtain ⟨alternate, hlexes'', hreads''⟩ := hc.reads fun rank _ => grade_le_loosest rank
  have hlead : Mode.code.run "if (".toList = some ([.ifWord, .opening '('], .code) := rfl
  have hthen : Mode.code.run ") ".toList = some ([.closing ')'], .code) := rfl
  have helse : Mode.code.run " else ".toList = some ([.elseWord], .code) := rfl
  have hbranches := hlexes'.between hlexes'' helse ⟨' ', rfl, by decide⟩
  have hall :=
    (hlexes.between hbranches hthen ⟨')', rfl, by decide⟩).behind hlead ⟨'i', rfl, by decide⟩
  have htext : ("if (" ++ a ++ ") " ++ b ++ " else " ++ c).toList = "if (".toList ++
        (a.toList ++ (") ".toList ++ (b.toList ++ (" else ".toList ++ c.toList)))) := by
    simp
  rw [← htext] at hall
  exact .of_reads hall (hreads.choice hreads' hreads'') (by decide) (by decide)

theorem Placed.not {a : String} (ha : Placed .unaryPrefix a tree) :
    Says .unaryPrefix ("!" ++ a) (.signed .not tree) := by
  obtain ⟨tokens, hlexes, hreads⟩ := ha.reads fun rank hrank =>
    (by cases rank <;> first | decide | exact absurd hrank (by decide) : grade rank ≤ 0)
  have htext : ("!" ++ a).toList = '!' :: a.toList := by simp
  have hall := hlexes.not
  rw [← htext] at hall
  exact .of_reads hall (hreads.signed .not) (by decide) (by decide)

theorem Placed.minus {a : String} (ha : Placed .unaryPrefix a tree) :
    Says .unaryPrefix (Zig.minus a) (.signed .minus tree) := by
  obtain ⟨tokens, hlexes, hreads⟩ := ha.reads fun rank hrank =>
    (by cases rank <;> first | decide | exact absurd hrank (by decide) : grade rank ≤ 0)
  have hlexes' : Lexes (Zig.minus a).toList (.minus :: tokens) := by
    have htight : Mode.code.run ['-'] = some ([.minus], .code) := rfl
    have hloose : Mode.code.run ['-', ' '] = some ([.minus], .code) := rfl
    unfold Zig.minus
    split
    · have htext : (s!"- {a}").toList = ['-', ' '] ++ a.toList := by
        show ("- " ++ a).toList = _
        simp
      rw [htext]
      exact hlexes.behind hloose ⟨'-', rfl, by decide⟩
    · have htext : (s!"-{a}").toList = ['-'] ++ a.toList := by
        show ("-" ++ a).toList = _
        simp
      rw [htext]
      exact hlexes.behind htight ⟨'-', rfl, by decide⟩
  exact .of_reads hlexes' (hreads.signed .minus) (by decide) (by decide)

end BlockSynth.Zig
