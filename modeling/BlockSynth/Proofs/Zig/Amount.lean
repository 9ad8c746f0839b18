import BlockSynth.Proofs.Zig.Phrase

/-! # Amounts

Expressions over whole numbers. Numerals are exact, however long they are; names,
calls and accesses are units, which a reckoning prices. The grammar is unambiguous:
its reader finds every phrase, whatever ends it.
-/
namespace BlockSynth.Zig

inductive Amount
  | whole (value : Nat)
  /-- A name, a call or an access. -/
  | unit (code : List Token)
  | magnitude (operand : Amount)
  | signed (sign : Sign) (operand : Amount)
  | binary (operator : Operator) (left right : Amount)
  | choice (condition consequence otherwise : Amount)
  deriving DecidableEq, Repr

/-! ### Values -/

/-- What units are worth, and what division gives. -/
structure Reckoning where
  unit : List Token → Int
  quotient : Int → Int → Int

def Sign.eval : Sign → Int → Int
  | minus, value => -value
  | not, value => (decide (value = 0)).toInt

/-- Comparisons and connectives are one or zero. -/
def Operator.eval (quotient : Int → Int → Int) : Operator → Int → Int → Int
  | multiply, left, right => left * right
  | divide, left, right => quotient left right
  | add, left, right => left + right
  | subtract, left, right => left - right
  | equal, left, right => (decide (left = right)).toInt
  | unequal, left, right => (decide (left ≠ right)).toInt
  | less, left, right => (decide (left < right)).toInt
  | lessOrEqual, left, right => (decide (left ≤ right)).toInt
  | greater, left, right => (decide (left > right)).toInt
  | greaterOrEqual, left, right => (decide (left ≥ right)).toInt
  | and, left, right => (decide (left ≠ 0 ∧ right ≠ 0)).toInt
  | or, left, right => (decide (left ≠ 0 ∨ right ≠ 0)).toInt

def Amount.eval (reckoning : Reckoning) : Amount → Int
  | whole value => value
  | unit code => reckoning.unit code
  | magnitude operand => ((operand.eval reckoning).natAbs : Int)
  | signed sign operand => sign.eval (operand.eval reckoning)
  | binary operator left right =>
    operator.eval reckoning.quotient (left.eval reckoning) (right.eval reckoning)
  | choice condition consequence otherwise =>
    if condition.eval reckoning = 0 then otherwise.eval reckoning else consequence.eval reckoning

/-! ### The grammar -/

/-- Tokens whose brackets match, such as stand in brackets. -/
inductive Nested : List Token → Prop
  | nil : Nested []
  | word (text : List Char) {rest : List Token} : Nested rest → Nested (.word text :: rest)
  | symbol (text : List Char) {rest : List Token} : Nested rest → Nested (.symbol text :: rest)
  | literal {rest : List Token} : Nested rest → Nested (.literal :: rest)
  | group {bracket closer : Char} {inner rest : List Token} : closer? bracket = some closer →
    Nested inner →
    Nested rest → Nested (.opening bracket :: (inner ++ .closing closer :: rest))

/-- Fields, arguments and indices, one behind the other. -/
inductive Suffixes : List Token → Prop
  | nil : Suffixes []
  | field {name : List Char} {rest : List Token} : operators.lookup (.word name) = none →
    Suffixes rest →
    Suffixes (.symbol ['.'] :: .word name :: rest)
  | group {bracket closer : Char} {inner rest : List Token} : bracket ≠ '\x7b' →
    closer? bracket = some closer →
    Nested inner → Suffixes rest → Suffixes (.opening bracket :: (inner ++ .closing closer :: rest))

def Token.tryWord : Token := .word ['t', 'r', 'y']

def Token.builtin : Token := .symbol ['@']

def Token.absWord : Token := .word ['a', 'b', 's']

inductive IsUnit : List Token → Prop
  | word {text : List Char} {tail : List Token} : operators.lookup (.word text) = none →
    Suffixes tail →
    (tail = [] → Chars.isDigits text = false) → IsUnit (.word text :: tail)
  | literal {tail : List Token} : Suffixes tail → IsUnit (.literal :: tail)
  | builtin {name : List Char} {tail : List Token} : Token.word name ≠ .absWord →
    operators.lookup (.word name) = none → Suffixes tail → IsUnit (.builtin :: .word name :: tail)
  | group {inner tail : List Token} : Nested inner → Suffixes tail → tail ≠ [] →
    IsUnit (.opening '(' :: (inner ++ .closing ')' :: tail))

/-- The level of whole expressions, choices among them. -/
def sentence : Nat := Operator.loosest + 1

/-- Phrases of a level. Operators group to the left, and comparisons do not chain. -/
inductive Phrase : Nat → List Token → Amount → Prop
  | whole {text : List Char} : Chars.isDigits text = true →
    Phrase 0 [.word text] (.whole (Chars.natOfDigits text))
  | unit {tokens : List Token} : IsUnit tokens → Phrase 0 tokens (.unit tokens)
  | magnitude {tokens : List Token} {operand : Amount} : Phrase sentence tokens operand →
    Phrase 0 (.builtin :: .absWord :: .opening '(' :: (tokens ++ [.closing ')']))
    (.magnitude operand)
  | parens {tokens : List Token} {tree : Amount} : Phrase sentence tokens tree →
    Phrase 0 (.opening '(' :: (tokens ++ [.closing ')'])) tree
  | signed (sign : Sign) {tokens : List Token} {operand : Amount} : Phrase 0 tokens operand →
    Phrase 0 (sign.token :: tokens) (.signed sign operand)
  | attempt {tokens : List Token} {tree : Amount} : Phrase 0 tokens tree →
    Phrase 0 (.tryWord :: tokens) tree
  | looser {level : Nat} {tokens : List Token} {tree : Amount} : Phrase level tokens tree →
    Phrase (level + 1) tokens tree
  | binary {operator : Operator} {tokens more : List Token} {left right : Amount} :
    operator.level ≠ Operator.comparing → Phrase operator.level tokens left →
    Phrase (operator.level - 1) more right →
    Phrase operator.level (tokens ++ operator.token :: more) (.binary operator left right)
  | compare {operator : Operator} {tokens more : List Token} {left right : Amount} :
    operator.level = Operator.comparing → Phrase (operator.level - 1) tokens left →
    Phrase (operator.level - 1) more right →
    Phrase operator.level (tokens ++ operator.token :: more) (.binary operator left right)
  | choice {test consequent alternate : List Token} {condition consequence otherwise : Amount} :
    Phrase sentence test condition → Phrase sentence consequent consequence →
    Phrase sentence alternate otherwise →
    Phrase sentence
    (.ifWord :: .opening '(' :: (test ++ .closing ')' :: (consequent ++ .elseWord :: alternate)))
      (.choice condition consequence otherwise)

/-! ### The reader -/

def Token.isSuffix : Token → Bool
  | symbol text => text == ['.']
  | opening bracket => bracket != '\x7b'
  | _ => false

/-- The tokens behind the brackets that are open, innermost first, and behind the suffixes that
follow if the reader is to go on. -/
def skip (goesOn : Bool) : List Char → List Token → Option (List Token)
  | [], [] => some []
  | [], token :: rest =>
    if goesOn && token.isSuffix then
      match token with
      | .opening bracket => skip goesOn [bracket] rest
      | _ =>
        match rest with
        | .word _ :: more => skip goesOn [] more
        | _ => none
    else some (token :: rest)
  | _ :: _, [] => none
  | innermost :: opened, token :: rest =>
    match token with
    | .opening bracket => skip goesOn (bracket :: innermost :: opened) rest
    | .closing bracket => if closer? innermost = some bracket then skip goesOn opened rest else none
    | _ => skip goesOn (innermost :: opened) rest

def beginsSuffix (tokens : List Token) : Bool :=
  tokens.head?.any Token.isSuffix

/-- The tokens behind a unit, and whether it has suffixes. -/
def unitEnd : List Token → Option (Bool × List Token)
  | .word text :: rest =>
    if operators.lookup (.word text) = none
      then (skip true [] rest).map (beginsSuffix rest, ·) else none
  | .literal :: rest => (skip true [] rest).map (true, ·)
  | .symbol ['@'] :: .word _ :: rest => (skip true [] rest).map (true, ·)
  | .opening '(' :: rest => (skip true ['('] rest).map (true, ·)
  | _ => none

def readUnit (tokens : List Token) : Option (Amount × List Token) := do
  let (suffixed, rest) ← unitEnd tokens
  match tokens with
  | .word text :: _ =>
    if !suffixed && Chars.isDigits text then some (.whole (Chars.natOfDigits text), rest)
    else some (.unit (tokens.take (tokens.length - rest.length)), rest)
  | _ => some (.unit (tokens.take (tokens.length - rest.length)), rest)

/-- What has been read, if that has left fewer than the given tokens. -/
def fewer (tokens : List Token) (result : Option (Amount × List Token)) :
    Option (Amount × { rest : List Token // rest.length < tokens.length }) := do
  let (tree, rest) ← result
  if h : rest.length < tokens.length then some (tree, ⟨rest, h⟩) else none

mutual

def readAmount (level : Nat) (tokens : List Token) : Option (Amount × List Token) :=
  match level with
  | 0 => readPrimary tokens
  | level + 1 => do
    let (left, ⟨rest, _⟩) ← fewer tokens (readAmount level tokens)
    readFurther (level + 1) left rest
termination_by (tokens.length, level + 2)

/-- The operators of the given level that follow a phrase, each with its right operand. -/
def readFurther (level : Nat) (left : Amount) : List Token → Option (Amount × List Token)
  | [] => some (left, [])
  | token :: rest =>
    match Operator.ofToken? token with
    | none => some (left, token :: rest)
    | some operator =>
      if operator.level = level then do
        let (right, ⟨more, _⟩) ← fewer rest (readAmount (level - 1) rest)
        if level = Operator.comparing then some (.binary operator left right, more)
        else readFurther level (.binary operator left right) more
      else some (left, token :: rest)
termination_by tokens => (tokens.length, 0)

def readPrimary : List Token → Option (Amount × List Token)
  | [] => none
  | token :: rest =>
    match Sign.ofToken? token with
    | some sign => do
      let (operand, more) ← readPrimary rest
      return (.signed sign operand, more)
    | none =>
      if token = .tryWord then readPrimary rest
      else if token = .ifWord then readChoice rest
      else if token = .opening '(' ∧
        (skip false ['('] rest).any beginsSuffix = false then readParens (token :: rest)
      else if token = .builtin ∧ rest.head? = some .absWord then do
        let (operand, more) ← readParens rest.tail
        return (.magnitude operand, more)
      else readUnit (token :: rest)
termination_by tokens => (tokens.length, 1)
decreasing_by
  all_goals simp only [Prod.lex_def, List.length_cons, List.length_tail, true_and] at *
  all_goals omega

/-- The condition and the branches of a choice. -/
def readChoice (tokens : List Token) : Option (Amount × List Token) := do
  let (condition, ⟨more, _⟩) ← fewer tokens (readParens tokens)
  let (consequence, more) ← fewer more (readAmount sentence more)
  match more with
  | ⟨.word ['e', 'l', 's', 'e'] :: more, _⟩ => do
    let (otherwise, more) ← readAmount sentence more
    return (.choice condition consequence otherwise, more)
  | _ => none
termination_by (tokens.length, 1)
decreasing_by
  all_goals simp only [Prod.lex_def, List.length_cons, true_and] at *
  all_goals omega

def readParens : List Token → Option (Amount × List Token)
  | .opening '(' :: rest => do
    let (tree, more) ← readAmount sentence rest
    match more with
    | .closing ')' :: more => some (tree, more)
    | _ => none
  | _ => none
termination_by tokens => (tokens.length, 0)

end

/-- The tree of a text that is one expression over whole numbers. -/
def amount? (text : String) : Option Amount := do
  let (tree, rest) ← readAmount sentence (← tokens text.toList)
  if rest = [] then some tree else none

/-! ### Brackets -/

theorem Nested.append {tokens more : List Token} (h : Nested tokens) (hmore : Nested more) :
    Nested (tokens ++ more) := by
  induction h with
  | nil => exact hmore
  | word text _ ih => exact .word text ih
  | symbol text _ ih => exact .symbol text ih
  | literal _ ih => exact .literal ih
  | group hcloser hinner _ _ ih =>
    rw [List.cons_append, List.append_assoc, List.cons_append]
    exact .group hcloser hinner ih

theorem Suffixes.nested {tokens : List Token} (h : Suffixes tokens) : Nested tokens := by
  induction h with
  | nil => exact .nil
  | field _ _ ih => exact .symbol _ (.word _ ih)
  | group _ hcloser hinner _ ih => exact .group hcloser hinner ih

theorem IsUnit.nested {tokens : List Token} (h : IsUnit tokens) : Nested tokens := by
  cases h with
  | word _ htail _ => exact .word _ htail.nested
  | literal htail => exact .literal htail.nested
  | builtin _ _ htail => exact .symbol _ (.word _ htail.nested)
  | group hinner htail _ => exact .group rfl hinner htail.nested

theorem nested_parens {tokens : List Token} (h : Nested tokens) :
    Nested (.opening '(' :: (tokens ++ [.closing ')'])) :=
  .group rfl h .nil

theorem Operator.nested_token (operator : Operator) : Nested [operator.token] := by
  cases operator with
  | and => exact .word _ .nil
  | or => exact .word _ .nil
  | _ => exact .symbol _ .nil

theorem Sign.nested_token (sign : Sign) : Nested [sign.token] := by
  cases sign <;> exact .symbol _ .nil

theorem Phrase.nested {level : Nat} {tokens : List Token}
    {tree : Amount} (h : Phrase level tokens tree) :
    Nested tokens := by
  induction h with
  | whole _ => exact .word _ .nil
  | unit hunit => exact hunit.nested
  | magnitude _ ih => exact .symbol _ (.word _ (nested_parens ih))
  | parens _ ih => exact nested_parens ih
  | signed sign _ ih => exact sign.nested_token.append ih
  | attempt _ ih => exact .word _ ih
  | looser _ ih => exact ih
  | @binary operator _ _ _ _ _ _ _ ih ih' => exact ih.append (operator.nested_token.append ih')
  | @compare operator _ _ _ _ _ _ _ ih ih' => exact ih.append (operator.nested_token.append ih')
  | choice _ _ _ ih ih' ih'' => exact .word _ (.group rfl ih (ih'.append (.word _ ih'')))

theorem Phrase.ne_nil {level : Nat} {tokens : List Token}
    {tree : Amount} (h : Phrase level tokens tree) :
    tokens ≠ [] := by
  induction h with
  | unit hunit => cases hunit <;> simp
  | looser _ ih => exact ih
  | _ => simp

/-- Matching brackets are passed over. -/
theorem Nested.skip {inner : List Token} (h : Nested inner) (goesOn : Bool)
    (innermost : Char) (opened : List Char) (rest : List Token) :
    skip goesOn (innermost :: opened) (inner ++ rest) = skip goesOn (innermost :: opened) rest := by
  induction h generalizing innermost opened rest with
  | nil => rfl
  | word text _ ih => exact ih innermost opened rest
  | symbol text _ ih => exact ih innermost opened rest
  | literal _ ih => exact ih innermost opened rest
  | group hcloser _ _ ih ih' =>
    rw [List.cons_append, List.append_assoc, List.cons_append]
    refine (ih _ _ _).trans ?_
    rw [Zig.skip, if_pos hcloser]
    exact ih' innermost opened rest

theorem skip_group {inner : List Token} (h : Nested inner) (goesOn : Bool) {bracket closer : Char}
    (hcloser : closer? bracket = some closer) (rest : List Token) :
    skip goesOn [bracket] (inner ++ .closing closer :: rest) = skip goesOn [] rest := by
  rw [h.skip, skip, if_pos hcloser]

theorem skip_parens {inner : List Token} (h : Nested inner) (goesOn : Bool) (rest : List Token) :
    skip goesOn ['('] (inner ++ .closing ')' :: rest) = skip goesOn [] rest :=
  skip_group h goesOn rfl rest

theorem skip_of_not_beginsSuffix {rest : List Token}
    (h : beginsSuffix rest = false) (goesOn : Bool) :
    skip goesOn [] rest = some rest := by
  cases rest with
  | nil => rfl
  | cons token rest =>
    have htoken : token.isSuffix = false := h
    unfold skip
    simp [htoken]

theorem skip_false (rest : List Token) : skip false [] rest = some rest := by
  cases rest with
  | nil => rfl
  | cons token rest =>
    unfold skip
    simp

theorem Suffixes.skip {tail rest : List Token}
    (h : Suffixes tail) (hrest : beginsSuffix rest = false) :
    skip true [] (tail ++ rest) = some rest := by
  induction h with
  | nil => exact skip_of_not_beginsSuffix hrest true
  | field _ _ ih => exact ih
  | @group bracket closer _ _ hbrace hcloser hinner _ ih =>
    have hsuffix : (Token.opening bracket).isSuffix = true := by simp [Token.isSuffix, hbrace]
    rw [List.cons_append, List.append_assoc, List.cons_append, Zig.skip]
    simp only [hsuffix, Bool.and_self, if_true]
    exact (skip_group hinner true hcloser _).trans ih

theorem Suffixes.beginsSuffix {tail : List Token}
    (h : Suffixes tail) (hne : tail ≠ []) (rest : List Token) :
    beginsSuffix (tail ++ rest) = true := by
  cases h with
  | nil => exact absurd rfl hne
  | field _ _ => rfl
  | group hbrace _ _ _ => simp [Zig.beginsSuffix, Token.isSuffix, hbrace]

/-! ### Where a phrase ends -/

/-- What follows continues no phrase of the given level. -/
def Halts (level : Nat) (rest : List Token) : Prop :=
  beginsSuffix rest = false ∧
    ∀ operator, rest.head?.bind Operator.ofToken? = some operator → level < operator.level

theorem Halts.mono {level lower : Nat} {rest : List Token}
    (h : Halts level rest) (hle : lower ≤ level) :
    Halts lower rest :=
  ⟨h.1, fun operator hoperator => hle.trans_lt (h.2 operator hoperator)⟩

theorem halts_nil (level : Nat) : Halts level [] :=
  ⟨rfl, fun _ h => by simp at h⟩

theorem halts_operator {operator : Operator} {level : Nat}
    (h : level < operator.level) (rest : List Token) :
    Halts level (operator.token :: rest) := by
  refine ⟨by cases operator <;> rfl, fun other hother => ?_⟩
  rw [List.head?_cons, Option.bind_some, Operator.ofToken?_token] at hother
  obtain rfl := Option.some.inj hother
  exact h

theorem halts_closing (level : Nat) (rest : List Token) : Halts level (.closing ')' :: rest) :=
  ⟨rfl, fun operator hoperator => by cases hoperator⟩

theorem halts_else (level : Nat) (rest : List Token) : Halts level (.elseWord :: rest) :=
  ⟨rfl, fun operator hoperator => by cases hoperator⟩

/-! ### The reader finds every phrase -/

theorem fewer_some {tokens rest : List Token} (h : rest.length < tokens.length) (tree : Amount) :
    fewer tokens (some (tree, rest)) = some (tree, ⟨rest, h⟩) :=
  dif_pos h

theorem readFurther_of_halts {level : Nat} {rest : List Token}
    (h : Halts level rest) (left : Amount) :
    readFurther level left rest = some (left, rest) := by
  cases rest with
  | nil => rw [readFurther]
  | cons token rest =>
    rw [readFurther]
    cases hoperator : Operator.ofToken? token with
    | none => rfl
    | some operator =>
      have hne : operator.level ≠ level := (h.2 operator hoperator).ne'
      simp only [hne, if_false]

/-- Tokens that the reader takes for the given tree on the given level, whatever ends them. -/
structure Takes (level : Nat) (tokens : List Token) (tree : Amount) : Prop where
  ne_nil : tokens ≠ []
  reads : ∀ rest, Halts level rest → readAmount level (tokens ++ rest) = some (tree, rest)

variable {level : Nat} {tokens more rest : List Token} {tree left right : Amount}
    {operator : Operator}

theorem readAmount_succ (hne : tokens ≠ [])
    (h : readAmount level (tokens ++ rest) = some (tree, rest)) :
    readAmount (level + 1) (tokens ++ rest) = readFurther (level + 1) tree rest := by
  rw [readAmount, h, fewer_some (length_lt_append hne rest)]
  rfl

theorem readFurther_operator (left : Amount) (h : Takes (operator.level - 1) more right)
    (hrest : Halts (operator.level - 1) rest) :
    readFurther operator.level left (operator.token :: (more ++ rest)) =
      if operator.level = Operator.comparing then some (.binary operator left right, rest)
      else readFurther operator.level (.binary operator left right) rest := by
  rw [readFurther, Operator.ofToken?_token]
  simp only [if_true, h.reads rest hrest, fewer_some (length_lt_append h.ne_nil rest)]
  rfl

theorem Takes.succ (h : Takes level tokens tree) : Takes (level + 1) tokens tree := by
  refine ⟨h.ne_nil, fun rest hrest => ?_⟩
  rw [readAmount_succ h.ne_nil (h.reads rest (hrest.mono (Nat.le_succ level)))]
  exact readFurther_of_halts hrest tree

/-- Tokens that the reader takes for an operand, behind which it goes on with the
operators of the level. -/
def Chains (level : Nat) (tokens : List Token) (tree : Amount) : Prop :=
  ∀ rest, Halts (level - 1) rest → readAmount level (tokens ++ rest) = readFurther level tree rest

theorem Takes.chains (h : Takes level tokens tree) : Chains (level + 1) tokens tree :=
  fun rest hrest => readAmount_succ h.ne_nil (h.reads rest hrest)

theorem Operator.pred_level_lt (operator : Operator) : operator.level - 1 < operator.level := by
  have hpos := operator.level_pos
  omega

theorem Chains.behind (h : Chains operator.level tokens left)
    (hright : Takes (operator.level - 1) more right) (hrest : Halts (operator.level - 1) rest) :
    readAmount operator.level (tokens ++ operator.token :: more ++ rest) =
      if operator.level = Operator.comparing then some (.binary operator left right, rest)
      else readFurther operator.level (.binary operator left right) rest := by
  rw [List.append_assoc, List.cons_append, h _ (halts_operator operator.pred_level_lt _)]
  exact readFurther_operator left hright hrest

theorem Takes.binary (h : Chains operator.level tokens left)
    (hright : Takes (operator.level - 1) more right) :
    Takes operator.level (tokens ++ operator.token :: more) (.binary operator left right) := by
  refine ⟨by simp, fun rest hrest => ?_⟩
  rw [h.behind hright (hrest.mono (Nat.sub_le _ _))]
  split
  · rfl
  · exact readFurther_of_halts hrest _

theorem Chains.binary (hchain : operator.level ≠ Operator.comparing)
    (h : Chains operator.level tokens left) (hright : Takes (operator.level - 1) more right) :
    Chains operator.level (tokens ++ operator.token :: more) (.binary operator left right) := by
  intro rest hrest
  rw [h.behind hright hrest, if_neg hchain]

/-! ### Primaries -/

theorem readPrimary_cons {token : Token} (hsign : Sign.ofToken? token = none)
    (htry : token ≠ .tryWord) (hif : token ≠ .ifWord) (hparens : token ≠ .opening '(')
    (hbuiltin : token ≠ .builtin) (rest : List Token) :
    readPrimary (token :: rest) = readUnit (token :: rest) := by
  rw [readPrimary, hsign]
  simp [htry, hif, hparens, hbuiltin]

theorem Takes.of_primary (hne : tokens ≠ [])
    (h : ∀ rest, beginsSuffix rest = false → readPrimary (tokens ++ rest) = some (tree, rest)) :
    Takes 0 tokens tree := by
  refine ⟨hne, fun rest hrest => ?_⟩
  rw [readAmount]
  exact h rest hrest.1

theorem Takes.primary (h : Takes 0 tokens tree) (hrest : Halts 0 rest) :
    readPrimary (tokens ++ rest) = some (tree, rest) := by
  have hread := h.reads rest hrest
  rw [readAmount] at hread
  exact hread

theorem sign_ofToken?_word (text : List Char) : Sign.ofToken? (.word text) = none := by
  simp [Sign.ofToken?, Sign.token, Token.minus]

/-- A word that is no operator leads to a unit or a numeral. -/
theorem readPrimary_word {text : List Char}
    (h : operators.lookup (.word text) = none) (rest : List Token) :
    readPrimary (.word text :: rest) = readUnit (.word text :: rest) := by
  have hne : ∀ token : Token, operators.lookup token ≠ none → Token.word text ≠ token := by
    rintro token htoken rfl
    exact htoken h
  exact readPrimary_cons (sign_ofToken?_word text) (hne _ (by decide)) (hne _ (by decide)) (by simp)
    (by simp [Token.builtin]) rest

theorem lookup_digits {text : List Char} (h : Chars.isDigits text = true) :
    operators.lookup (.word text) = none :=
  (isPlain_of_isDigits h).lookup

theorem Takes.whole {text : List Char} (h : Chars.isDigits text = true) :
    Takes 0 [.word text] (.whole (Chars.natOfDigits text)) := by
  refine Takes.of_primary (by simp) fun rest hrest => ?_
  rw [List.singleton_append, readPrimary_word (lookup_digits h)]
  simp [readUnit, unitEnd, lookup_digits h, skip_of_not_beginsSuffix hrest, hrest, h]

theorem take_unit (tokens rest : List Token) :
    (tokens ++ rest).take ((tokens ++ rest).length - rest.length) = tokens := by
  rw [List.length_append, Nat.add_sub_cancel, List.take_left]

theorem Takes.unit (h : IsUnit tokens) : Takes 0 tokens (.unit tokens) := by
  refine Takes.of_primary (by cases h <;> simp) fun rest hrest => ?_
  have htake := take_unit tokens rest
  cases h with
  | @word text tail hlookup htail hdigits =>
    rw [List.cons_append] at htake ⊢
    rw [readPrimary_word hlookup]
    have hnumeral : (!beginsSuffix (tail ++ rest) && Chars.isDigits text) = false := by
      cases tail with
      | nil => simp [hdigits rfl]
      | cons token tail =>
        rw [htail.beginsSuffix (by simp) rest]
        rfl
    simp only [readUnit, unitEnd, hlookup, if_true, htail.skip hrest, Option.map_some,
      Option.bind_eq_bind, Option.bind_some, hnumeral, Bool.false_eq_true, if_false, htake]
  | @literal tail htail =>
    rw [List.cons_append] at htake ⊢
    rw [readPrimary_cons (by decide) (by decide) (by decide) (by decide) (by decide)]
    simp only [readUnit, unitEnd, htail.skip hrest, Option.map_some, Option.bind_eq_bind,
      Option.bind_some, htake]
  | @builtin name tail hname _ htail =>
    rw [List.cons_append, List.cons_append] at htake ⊢
    have hsign : Sign.ofToken? .builtin = none := by decide
    have hunit : readPrimary (.builtin :: .word name :: (tail ++ rest)) =
        readUnit (.builtin :: .word name :: (tail ++ rest)) := by
      rw [readPrimary, hsign]
      simp [hname, Token.builtin, Token.tryWord, Token.ifWord]
    rw [hunit]
    simp only [Token.builtin] at htake ⊢
    simp only [readUnit, unitEnd, htail.skip hrest, Option.map_some, Option.bind_eq_bind,
      Option.bind_some, htake]
  | @group inner tail hinner htail hne =>
    simp only [List.cons_append, List.append_assoc] at htake ⊢
    have hsign : Sign.ofToken? (.opening '(') = none := by decide
    have hgroup := skip_parens hinner false (tail ++ rest)
    have hskip := skip_parens hinner true (tail ++ rest)
    rw [skip_false] at hgroup
    rw [htail.skip hrest] at hskip
    have hunit : readPrimary (.opening '(' :: (inner ++ .closing ')' :: (tail ++ rest))) =
        readUnit (.opening '(' :: (inner ++ .closing ')' :: (tail ++ rest))) := by
      rw [readPrimary, hsign]
      simp [hgroup, htail.beginsSuffix hne, Token.builtin, Token.tryWord, Token.ifWord]
    rw [hunit]
    simp only [readUnit, unitEnd, hskip, Option.map_some, Option.bind_eq_bind,
      Option.bind_some, htake]

theorem Takes.readParens (h : Takes sentence tokens tree) (rest : List Token) :
    readParens (.opening '(' :: (tokens ++ .closing ')' :: rest)) = some (tree, rest) := by
  rw [Zig.readParens, h.reads _ (halts_closing _ rest)]
  rfl

theorem Takes.parens (h : Takes sentence tokens tree) (hnested : Nested tokens) :
    Takes 0 (.opening '(' :: (tokens ++ [.closing ')'])) tree := by
  refine Takes.of_primary (by simp) fun rest hrest => ?_
  have hsign : Sign.ofToken? (.opening '(') = none := by decide
  have hgroup := skip_parens hnested false rest
  rw [skip_false] at hgroup
  rw [List.cons_append, List.append_assoc, List.singleton_append, readPrimary, hsign]
  simp only [hgroup, Option.any_some, hrest, and_self, if_true, h.readParens rest]
  simp [Token.tryWord, Token.ifWord]

theorem Takes.magnitude (h : Takes sentence tokens tree) :
    Takes 0 (.builtin :: .absWord :: .opening '(' :: (tokens ++ [.closing ')']))
      (.magnitude tree) := by
  refine Takes.of_primary (by simp) fun rest _ => ?_
  have hsign : Sign.ofToken? .builtin = none := by decide
  simp only [List.cons_append, List.append_assoc, List.nil_append]
  rw [readPrimary, hsign]
  simp [Token.builtin, Token.tryWord, Token.ifWord, h.readParens rest]

theorem Takes.signed (sign : Sign) (h : Takes 0 tokens tree) :
    Takes 0 (sign.token :: tokens) (.signed sign tree) := by
  refine ⟨by simp, fun rest hrest => ?_⟩
  rw [readAmount, List.cons_append, readPrimary, Sign.ofToken?_token]
  simp [h.primary hrest]

theorem Takes.attempt (h : Takes 0 tokens tree) : Takes 0 (.tryWord :: tokens) tree := by
  refine ⟨by simp, fun rest hrest => ?_⟩
  have hsign : Sign.ofToken? .tryWord = none := by decide
  rw [readAmount, List.cons_append, readPrimary, hsign]
  simp [h.primary hrest]

theorem readAmount_of_zero (hne : tokens ≠ [])
    (h : readAmount 0 (tokens ++ rest) = some (tree, rest)) (hrest : Halts level rest) :
    readAmount level (tokens ++ rest) = some (tree, rest) := by
  induction level with
  | zero => exact h
  | succ level ih =>
    rw [readAmount_succ hne (ih (hrest.mono (Nat.le_succ level)))]
    exact readFurther_of_halts hrest tree

/-- The last branch takes all that an expression can take, so nothing of that kind may follow. -/
theorem Takes.choice {test consequent alternate : List Token}
    {condition consequence otherwise : Amount} (hcondition : Takes sentence test condition)
    (hconsequence : Takes sentence consequent consequence)
    (hotherwise : Takes sentence alternate otherwise) :
    Takes sentence
      (.ifWord :: .opening '(' :: (test ++ .closing ')' :: (consequent ++ .elseWord :: alternate)))
      (.choice condition consequence otherwise) := by
  refine ⟨by simp, fun rest hrest => readAmount_of_zero (by simp) ?_ hrest⟩
  have hsign : Sign.ofToken? .ifWord = none := by decide
  have hlt : (consequent ++ .elseWord :: (alternate ++ rest)).length < (.opening '(' ::
        (test ++ .closing ')' :: (consequent ++ .elseWord :: (alternate ++ rest)))).length := by
    simp only [List.length_cons, List.length_append]
    omega
  have hread : readChoice (.opening '(' ::
      (test ++ .closing ')' :: (consequent ++ .elseWord :: (alternate ++ rest)))) =
      some (.choice condition consequence otherwise, rest) := by
    rw [readChoice, hcondition.readParens, fewer_some hlt]
    simp only [Option.bind_eq_bind, Option.bind_some, hconsequence.reads _ (halts_else _ _),
      fewer_some (length_lt_append hconsequence.ne_nil _)]
    simp only [Token.elseWord, hotherwise.reads rest hrest]
    rfl
  simp only [List.cons_append, List.append_assoc]
  rw [readAmount, readPrimary, hsign, ← hread]
  simp [Token.tryWord, Token.ifWord]

/-! ### Phrases -/

/-- A phrase is read as its tree, and as an operand of its level where operators chain. -/
theorem Phrase.takes (h : Phrase level tokens tree) :
    Takes level tokens tree ∧
      (0 < level → level ≠ Operator.comparing → level ≠ sentence → Chains level tokens tree) := by
  induction h with
  | whole hdigits => exact ⟨.whole hdigits, fun h => absurd h (by decide)⟩
  | unit hunit => exact ⟨.unit hunit, fun h => absurd h (by decide)⟩
  | magnitude _ ih => exact ⟨ih.1.magnitude, fun h => absurd h (by decide)⟩
  | parens h ih => exact ⟨ih.1.parens h.nested, fun h => absurd h (by decide)⟩
  | signed sign _ ih => exact ⟨ih.1.signed sign, fun h => absurd h (by decide)⟩
  | attempt _ ih => exact ⟨ih.1.attempt, fun h => absurd h (by decide)⟩
  | looser _ ih => exact ⟨ih.1.succ, fun _ _ _ => ih.1.chains⟩
  | @binary operator _ _ _ _ hchain _ _ ih ih' =>
    have hlevel : operator.level ≠ sentence := by cases operator <;> decide
    have hleft := ih.2 operator.level_pos hchain hlevel
    exact ⟨.binary hleft ih'.1, fun _ _ _ => .binary hchain hleft ih'.1⟩
  | @compare operator _ _ _ _ hcompare _ _ ih ih' =>
    have hleft := ih.1.chains
    rw [Nat.sub_add_cancel operator.level_pos] at hleft
    exact ⟨.binary hleft ih'.1, fun _ hne => absurd hcompare hne⟩
  | choice _ _ _ ih ih' ih'' => exact ⟨.choice ih.1 ih'.1 ih''.1, fun _ _ h => absurd rfl h⟩

theorem Phrase.mono {looser : Nat} (h : Phrase level tokens tree) (hle : level ≤ looser) :
    Phrase looser tokens tree := by
  induction hle with
  | refl => exact h
  | step _ ih => exact ih.looser

/-- Tokens are a phrase of one tree only. -/
theorem Phrase.unique {other : Amount}
    (h : Phrase level tokens tree) (h' : Phrase level tokens other) :
    tree = other := by
  have hread := h.takes.1.reads [] (halts_nil level)
  rw [h'.takes.1.reads [] (halts_nil level)] at hread
  simpa using hread.symm

theorem amount?_of_phrase {text : String} (htokens : Zig.tokens text.toList = some tokens)
    (h : Phrase sentence tokens tree) : amount? text = some tree := by
  have hread := h.takes.1.reads [] (halts_nil sentence)
  rw [List.append_nil] at hread
  simp [amount?, htokens, hread]

end BlockSynth.Zig
