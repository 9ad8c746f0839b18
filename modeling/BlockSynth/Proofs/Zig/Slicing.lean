import BlockSynth.Proofs.Zig.Loop
import BlockSynth.Proofs.Zig.Unsigned

/-! # Slices and what they select

A slice has its bounds around two dots. It is read in whole or in unsigned numbers, in
which it has to stay within its owner. Expressions have no two dots in a row outside
of their brackets, so the bounds can be told apart.
-/
namespace BlockSynth.Zig

def Token.dot : Token := .symbol ['.']

/-- What a slice of `n` elements selects. In unsigned numbers its bounds have to be in
order and within the length. -/
def Computing.range (computing : Computing) (n : Int) (low high : Option Int) :
    Option (Int × Int) := do
  let low ← low
  let high ← high
  match computing with
  | whole => some (low, high)
  | unsigned => if 0 ≤ low ∧ low ≤ high ∧ high ≤ n then some (low, high) else none

/-- A bound of a slice of an owner of `n` elements. Behind the length of the owner
stands a distance from the end. -/
inductive Bound (computing : Computing) (reckoning : Reckoning) (n : Int) (owner : String) :
    String → Option Int → Prop
  | index {text : String} {tree : Amount} : Denotes sentence text tree →
    Bound computing reckoning n owner text (tree.compute computing reckoning)
  | distance {back : String} {length : List Token}
    {tree : Amount} : Denotes 0 s!"{owner}.len" (.unit length) →
    Denotes (reach .additive) back tree → Bound computing reckoning n owner s!"{owner}.len - {back}"
      (do computing.keep (n - (← tree.compute computing reckoning)))

/-- A slice of an owner of `n` elements, and the range that it selects. Its bounds
have their own reckonings. -/
inductive Slices (computing : Computing) (first second : Reckoning) (n : Int) (owner : String) :
    String → Option (Int × Int) → Prop
  | between {low high : String} {start finish : Option Int} : Bound
    computing first n owner low start →
    Bound computing second n owner high finish →
    Slices computing first second n owner s!"{owner}[{low}..{high}]"
    (computing.range n start finish)
  | onwards {low : String} {start : Option Int} : Bound computing first n owner low start →
    Slices computing first second n owner s!"{owner}[{low}..]" (computing.range n start (some n))

/-! ### Dots outside of brackets -/

/-- How many brackets are opened and not closed. -/
def balance : List Token → Int
  | [] => 0
  | .opening _ :: rest => balance rest + 1
  | .closing _ :: rest => balance rest - 1
  | _ :: rest => balance rest

theorem balance_append (tokens more : List Token) :
    balance (tokens ++ more) = balance tokens + balance more := by
  induction tokens with
  | nil => simp [balance]
  | cons token rest ih => cases token <;> simp only [List.cons_append, balance, ih] <;> omega

theorem Nested.balance_eq {tokens : List Token} (h : Nested tokens) : balance tokens = 0 := by
  induction h with
  | nil => rfl
  | word text _ ih => exact ih
  | symbol text _ ih => exact ih
  | literal _ ih => exact ih
  | group _ _ _ ihinner ihrest =>
    simp only [balance, balance_append, ihinner, ihrest]
    omega

/-- Nothing is closed before it is opened. -/
theorem Nested.balance_nonneg {tokens before after : List Token} (h : Nested tokens)
    (hsame : tokens = before ++ after) : 0 ≤ balance before := by
  induction h generalizing before after with
  | nil =>
    obtain ⟨rfl, -⟩ := List.nil_eq_append_iff.mp hsame
    exact Int.le_refl 0
  | word text _ ih | symbol text _ ih | literal _ ih =>
    rcases List.cons_eq_append_iff.mp hsame with ⟨rfl, -⟩ | ⟨tail, rfl, hrest⟩
    · exact Int.le_refl 0
    · simpa only [balance] using ih hrest
  | @group bracket closer inner rest _ hinner _ ihinner ihrest =>
    rcases List.cons_eq_append_iff.mp hsame with ⟨rfl, -⟩ | ⟨tail, rfl, hrest⟩
    · exact Int.le_refl 0
    rcases List.append_eq_append_iff.mp hrest with ⟨more, rfl, hmore⟩ | ⟨more, rfl, hmore⟩
    · rcases List.cons_eq_append_iff.mp hmore with ⟨rfl, -⟩ | ⟨last, rfl, hlast⟩
      · simp [balance, hinner.balance_eq]
      · have hnonneg := ihrest hlast
        simp only [balance, balance_append, hinner.balance_eq]
        omega
    · have hnonneg := ihinner rfl
      simp only [balance]
      omega

/-- Tokens that neither start nor end with a dot, nor have two of them in a row
outside of brackets. -/
structure Undotted (tokens : List Token) : Prop where
  sparse : ∀ before after, tokens = before ++ .dot :: .dot :: after → 0 < balance before
  starts : tokens.head? ≠ some .dot
  ends : tokens.getLast? ≠ some .dot

theorem undotted_singleton {token : Token} (h : token ≠ .dot) : Undotted [token] := by
  refine ⟨fun before after hsame => ?_, by simpa using h, by simpa using h⟩
  have hlength := congrArg List.length hsame
  simp only [List.length_append, List.length_cons, List.length_nil] at hlength
  omega

theorem sparse_append {tokens more : List Token} (hnested : Nested tokens)
    (h : ∀ before after, tokens = before ++ .dot :: .dot :: after → 0 < balance before)
    (hmore : ∀ before after, more = before ++ .dot :: .dot :: after → 0 < balance before)
    (hends : tokens.getLast? ≠ some .dot) (before after : List Token)
    (hsame : tokens ++ more = before ++ .dot :: .dot :: after) : 0 < balance before := by
  rcases List.append_eq_append_iff.mp hsame with ⟨rest, rfl, hrest⟩ | ⟨rest, htokens, hrest⟩
  · rw [balance_append, hnested.balance_eq, Int.zero_add]
    exact hmore rest after hrest
  · rcases List.cons_eq_append_iff.mp hrest with ⟨rfl, hrest⟩ | ⟨tail, rfl, htail⟩
    · rw [List.append_nil] at htokens
      rw [← htokens, hnested.balance_eq]
      exact absurd (hmore [] after hrest.symm) (by simp [balance])
    · rcases List.cons_eq_append_iff.mp htail with ⟨rfl, -⟩ | ⟨last, rfl, -⟩
      · exact absurd (htokens ▸ List.getLast?_concat) hends
      · exact h before last htokens

theorem Undotted.append {tokens more : List Token} (hnested : Nested tokens) (h : Undotted tokens)
    (hmore : Undotted more) : Undotted (tokens ++ more) := by
  refine ⟨sparse_append hnested h.sparse hmore.sparse h.ends, ?_, ?_⟩
  · cases tokens with
    | nil => exact hmore.starts
    | cons token rest => exact h.starts
  · rw [List.getLast?_append]
    cases hlast : more.getLast? with
    | none => simpa using h.ends
    | some last => simpa [hlast] using hmore.ends

theorem Undotted.group {inner : List Token} (h : Nested inner) (bracket closer : Char) :
    Undotted (.opening bracket :: (inner ++ [.closing closer])) := by
  refine ⟨fun before after hsame => ?_, by simp [Token.dot], ?_⟩
  · rcases List.cons_eq_append_iff.mp hsame with ⟨rfl, hrest⟩ | ⟨tail, rfl, hrest⟩
    · simp [Token.dot] at hrest
    · rcases List.append_eq_append_iff.mp hrest with ⟨more, rfl, hmore⟩ | ⟨more, hinner, -⟩
      · have hlength := congrArg List.length hmore
        simp at hlength
        omega
      · have hnonneg := h.balance_nonneg hinner
        simp only [balance]
        omega
  · rw [← List.cons_append, List.getLast?_concat]
    simp [Token.dot]

theorem Undotted.suffixes {tail : List Token} (htail : Suffixes tail) {tokens : List Token}
    (hne : tokens ≠ []) (hnested : Nested tokens) (h : Undotted tokens) :
    Undotted (tokens ++ tail) := by
  induction htail generalizing tokens with
  | nil => rwa [List.append_nil]
  | @field name rest _ _ ih =>
    have hfield : Undotted (tokens ++ [.symbol ['.'], .word name]) := by
      refine ⟨sparse_append hnested h.sparse (fun before after hsame => ?_) h.ends, ?_, ?_⟩
      · have hlength := congrArg List.length hsame
        simp only [List.length_append, List.length_cons, List.length_nil] at hlength
        obtain ⟨rfl, rfl⟩ : before = [] ∧ after = [] := by
          constructor <;> exact List.length_eq_zero_iff.mp (by omega)
        simp [Token.dot] at hsame
      · rw [List.head?_append_of_ne_nil _ hne]
        exact h.starts
      · rw [List.getLast?_append_of_ne_nil _ (by simp)]
        simp [Token.dot]
    have hall := ih (by simp) (hnested.append (.symbol _ (.word _ .nil))) hfield
    rwa [List.append_assoc] at hall
  | @group bracket closer inner rest _ hcloser hinner _ ih =>
    have hgroup := h.append hnested (Undotted.group hinner bracket closer)
    have hall := ih (by simp) (hnested.append (.group hcloser hinner .nil)) hgroup
    rwa [List.append_assoc, List.cons_append, List.append_assoc] at hall

theorem IsUnit.undotted {tokens : List Token} (h : IsUnit tokens) : Undotted tokens := by
  cases h with
  | word _ htail =>
    exact (undotted_singleton (by simp [Token.dot])).suffixes htail (by simp) (.word _ .nil)
  | literal htail =>
    exact (undotted_singleton (by simp [Token.dot])).suffixes htail (by simp) (.literal .nil)
  | @builtin name tail _ _ htail =>
    have hbuiltin : Undotted ([.builtin] ++ [.word name]) := (undotted_singleton (by decide)).append
      (.symbol _ .nil) (undotted_singleton (by simp [Token.dot]))
    exact hbuiltin.suffixes htail (by simp) (.symbol _ (.word _ .nil))
  | @group inner tail hinner htail _ =>
    have hall := (Undotted.group hinner '(' ')').suffixes htail (by simp) (.group rfl hinner .nil)
    rwa [List.cons_append, List.append_assoc] at hall

theorem Operator.token_ne_dot (operator : Operator) : operator.token ≠ .dot := by
  cases operator <;> decide

/-- An expression has its dots between names, and its slices in brackets. -/
theorem Phrase.undotted {level : Nat} {tokens : List Token}
    {tree : Amount} (h : Phrase level tokens tree) :
    Undotted tokens := by
  have hjoined : ∀ {first second : List Token} (operator : Operator),
      Nested first → Undotted first →
      Undotted second → Undotted (first ++ operator.token :: second) :=
    fun operator hnested hfirst hsecond => hfirst.append hnested
      ((undotted_singleton operator.token_ne_dot).append operator.nested_token hsecond)
  induction h with
  | whole _ => exact undotted_singleton (by simp [Token.dot])
  | unit hunit => exact hunit.undotted
  | magnitude hoperand _ =>
    exact (undotted_singleton (by decide)).append (.symbol _ .nil)
      ((undotted_singleton (by decide)).append (.word _ .nil)
        (Undotted.group hoperand.nested '(' ')'))
  | parens htree _ => exact Undotted.group htree.nested '(' ')'
  | signed sign _ ih =>
    exact (undotted_singleton (by cases sign <;> decide)).append sign.nested_token ih
  | attempt _ ih => exact (undotted_singleton (by decide)).append (.word _ .nil) ih
  | looser _ ih => exact ih
  | binary _ hleft _ ihleft ihright => exact hjoined _ hleft.nested ihleft ihright
  | compare _ hleft _ ihleft ihright => exact hjoined _ hleft.nested ihleft ihright
  | @choice test consequent alternate _ _ _ htest hconsequent _ _ ihconsequent ihalternate =>
    have hbranches := ihconsequent.append hconsequent.nested
      ((undotted_singleton (show Token.elseWord ≠ .dot by decide)).append
        (.word _ .nil) ihalternate)
    have hall :=
      (Undotted.group htest.nested '(' ')').append (.group rfl htest.nested .nil) hbranches
    rw [List.cons_append, List.append_assoc] at hall
    exact (undotted_singleton (show Token.ifWord ≠ .dot by decide)).append (.word _ .nil) hall

/-- Two lists that are continued to the same one are the same, unless one of them
begins the other. -/
theorem eq_of_append_eq_append {α : Type} {list other rest rest' : List α}
    (hsame : list ++ rest = other ++ rest')
    (h : ∀ more, other = list ++ more → rest = more ++ rest' → more = [])
    (h' : ∀ more, list = other ++ more → rest' = more ++ rest → more = []) : list = other := by
  rcases List.append_eq_append_iff.mp hsame with ⟨more, hmore, hrest⟩ | ⟨more, hmore, hrest⟩
  · rw [hmore, h more hmore hrest, List.append_nil]
  · rw [hmore, h' more hmore hrest, List.append_nil]

/-- Two dots behind an expression end it in one way only. -/
theorem Phrase.split_dots {tokens tokens' rest rest' : List Token} {tree tree' : Amount}
    (h : Phrase sentence tokens tree) (h' : Phrase sentence tokens' tree')
    (hsame : tokens ++ .dot :: .dot :: rest = tokens' ++ .dot :: .dot :: rest') :
    tree = tree' ∧ rest = rest' := by
  have hnil : ∀ {tokens tokens' rest rest' : List Token} {tree tree' : Amount},
      Phrase sentence tokens tree →
      Phrase sentence tokens' tree' → ∀ more, tokens' = tokens ++ more →
      .dot :: .dot :: rest = more ++ .dot :: .dot :: rest' → more = [] := by
    intro tokens tokens' rest rest' tree tree' h h' more hmore hrest
    rcases List.cons_eq_append_iff.mp hrest with ⟨rfl, -⟩ | ⟨tail, rfl, htail⟩
    · rfl
    rcases List.cons_eq_append_iff.mp htail with ⟨rfl, -⟩ | ⟨last, rfl, -⟩
    · exact absurd (hmore ▸ List.getLast?_concat) h'.undotted.ends
    · have hpositive := h'.undotted.sparse tokens last hmore
      rw [h.nested.balance_eq] at hpositive
      exact absurd hpositive (Int.lt_irrefl 0)
  obtain rfl := eq_of_append_eq_append hsame (hnil h h') (hnil h' h)
  exact ⟨h.unique h', by simpa using hsame⟩

/-! ### Slices are read in one way -/

variable {computing : Computing} {reckoning first second : Reckoning} {n : Int}
    {owner code : String}

def difference (left right : String) : String :=
  s!"{left} - {right}"

theorem denotes_difference {left right : String} {a b : Amount} (hleft : Denotes 2 left a)
    (hright : Denotes 1 right b) : Denotes 2 (difference left right) (.binary .subtract a b) := by
  have hjoined := @Denotes.joined _ _ .subtract left right (by decide) hleft hright
  have htext : left ++ " " ++ Operator.subtract.text ++ " " ++ right = difference left right := by
    rw [← String.toList_inj, toList_joined]
    simp [difference, Operator.text, Operator.token, Token.minus, toString]
  rwa [htext] at hjoined

theorem difference_length (owner back : String) :
    difference s!"{owner}.len" back = s!"{owner}.len - {back}" := by
  rw [← String.toList_inj]
  simp [difference, toString]

/-- A bound is an expression of its outcome, if the length is reckoned as the number of elements. -/
theorem Bound.exists_denotes {text : String} {outcome : Option Int}
    (hlength : Computes computing reckoning s!"{owner}.len" (some n))
    (h : Bound computing reckoning n owner text outcome) :
    ∃ tree, Denotes sentence text tree ∧ tree.compute computing reckoning = outcome := by
  cases h with
  | index htree => exact ⟨_, htree, rfl⟩
  | distance hunit htree =>
    have hvalue := (hunit.computes (Nat.zero_le _) computing reckoning).unique hlength
    have hminus :=
      (denotes_difference (hunit.mono (Nat.zero_le 2)) htree).mono (show 2 ≤ sentence by decide)
    refine ⟨_, difference_length owner _ ▸ hminus, ?_⟩
    simp only [Amount.compute, Option.bind_eq_bind] at hvalue ⊢
    rw [hvalue]
    rfl

theorem Lexes.tokens_dots {text : List Char} {toks : List Token}
    (h : Lexes text toks) (rest : List Char) :
    tokens (text ++ '.' :: '.' :: rest) = (tokens rest).map (toks ++ .dot :: .dot :: ·) := by
  have hdots : Mode.code.run ['.', '.'] = some ([.dot, .dot], .code) := rfl
  have hrest := Mode.tokens_append hdots rest
  have hall := h.tokens_append ('.' :: '.' :: rest) fun c hc => Option.some.inj hc ▸ by decide
  refine hall.trans ((congrArg (Option.map (toks ++ ·)) hrest).trans ?_)
  rw [Option.map_map]
  rfl

theorem Denotes.split_dots {low low' : String} {rest rest' : List Char}
    {more : List Token} {tree tree' : Amount} (h : Denotes sentence low tree)
    (h' : Denotes sentence low' tree') (hmore : tokens rest = some more)
    (hsame : low.toList ++ '.' :: '.' :: rest = low'.toList ++ '.' :: '.' :: rest') :
    tree = tree' ∧ tokens rest' = some more := by
  obtain ⟨toks, hlexes, hphrase⟩ := h
  obtain ⟨toks', hlexes', hphrase'⟩ := h'
  have htokens := congrArg tokens hsame
  rw [hlexes.tokens_dots, hlexes'.tokens_dots, hmore] at htokens
  obtain ⟨more', hmore', hall⟩ := Option.map_eq_some_iff.mp htokens.symm
  obtain ⟨rfl, rfl⟩ := hphrase.split_dots hphrase' hall.symm
  exact ⟨rfl, hmore'⟩

/-- What the tokens behind the dots come to. Without any, a slice goes on to the last
of its `n` elements. -/
inductive Ending (computing : Computing) (reckoning : Reckoning) (n : Int) :
    List Token → Option Int → Prop
  | onwards : Ending computing reckoning n [] (some n)
  | before {tokens : List Token} {tree : Amount} : Phrase sentence tokens tree →
    Ending computing reckoning n tokens (tree.compute computing reckoning)

theorem Ending.unique {tokens : List Token} {outcome other : Option Int}
    (h : Ending computing reckoning n tokens outcome)
    (h' : Ending computing reckoning n tokens other) :
    outcome = other := by
  cases h with
  | onwards =>
    cases h' with
    | onwards => rfl
    | before hphrase => exact absurd rfl hphrase.ne_nil
  | before hphrase =>
    cases h' with
    | onwards => exact absurd rfl hphrase.ne_nil
    | before hphrase' => rw [hphrase.unique hphrase']

/-- A slice has an expression in front of its dots and an ending behind them. -/
theorem Slices.exists_dots {outcome : Option (Int × Int)}
    (hfirst : Computes computing first s!"{owner}.len" (some n))
    (hsecond : Computes computing second s!"{owner}.len" (some n))
    (h : Slices computing first second n owner code outcome) :
    ∃ (low : String) (start : Amount) (rest : List Char) (toks : List Token) (finish : Option Int),
      code.toList = owner.toList ++ '[' :: ((low.toList ++ '.' :: '.' :: rest) ++ [']']) ∧
      Denotes sentence low start ∧ tokens rest = some toks ∧ Ending computing second n toks finish ∧
      outcome = computing.range n (start.compute computing first) finish := by
  cases h with
  | @between low high _ _ hlow hhigh =>
    obtain ⟨start, hstart, rfl⟩ := hlow.exists_denotes hfirst
    obtain ⟨finish, ⟨toks, hlexes, hfinish⟩, rfl⟩ := hhigh.exists_denotes hsecond
    exact ⟨low, start, high.toList, toks, _, by simp [toString], hstart, hlexes.tokens_eq,
      .before hfinish, rfl⟩
  | @onwards low _ hlow =>
    obtain ⟨start, hstart, rfl⟩ := hlow.exists_denotes hfirst
    exact ⟨low, start, [], [], _, by simp [toString], hstart, rfl, .onwards, rfl⟩

/-- A slice selects one range only, if the length is reckoned as the number of elements. -/
theorem Slices.unique {outcome other : Option (Int × Int)}
    (hfirst : Computes computing first s!"{owner}.len" (some n))
    (hsecond : Computes computing second s!"{owner}.len" (some n))
    (h : Slices computing first second n owner code outcome)
    (h' : Slices computing first second n owner code other) : outcome = other := by
  obtain ⟨low, start, rest, toks, finish, hcode, hstart, hrest, hfinish, rfl⟩ :=
    h.exists_dots hfirst hsecond
  obtain ⟨low', start', rest', toks', finish', hcode', hstart', hrest', hfinish', rfl⟩ :=
    h'.exists_dots hfirst hsecond
  have hinner : low.toList ++ '.' :: '.' :: rest = low'.toList ++ '.' :: '.' :: rest' :=
    List.append_cancel_right (List.cons.inj (List.append_cancel_left (hcode.symm.trans hcode'))).2
  obtain ⟨rfl, htokens⟩ := hstart.split_dots hstart' hrest hinner
  obtain rfl := Option.some.inj (htokens.symm.trans hrest')
  rw [hfinish.unique hfinish']

/-! ### Words and quoted words -/

/-- A word, or a literal of one, that the delimiter opens and closes or not. -/
theorem cases_of_isQuotedWord {text : List Char} (h : Chars.isQuotedWord '"' text = true) :
    ∃ word, Chars.isWord word = true ∧
      (text = word ∨ text = '"' :: word ∨ text = word ++ ['"'] ∨
        text = '"' :: (word ++ ['"'])) := by
  refine ⟨_, h, ?_⟩
  have hclosed : ∀ opened : List Char,
      opened = (if opened.getLast? == some '"' then opened.dropLast else opened) ∨
      opened = (if opened.getLast? == some '"' then opened.dropLast else opened) ++ ['"'] := by
    intro opened
    split
    · rename_i hlast
      obtain ⟨front, rfl⟩ := List.getLast?_eq_some_iff.mp (beq_iff_eq.mp hlast)
      exact .inr (by rw [List.dropLast_concat])
    · exact .inl rfl
  by_cases hhead : (text.head? == some '"') = true
  · obtain ⟨opened, rfl⟩ := List.head?_eq_some_iff.mp (beq_iff_eq.mp hhead)
    simp only [hhead, if_true, List.tail_cons]
    exact (hclosed opened).elim (fun hsame => .inr (.inl (congrArg _ hsame)))
      fun hsame => .inr (.inr (.inr (congrArg _ hsame)))
  · simp only [hhead]
    exact (hclosed text).elim .inl fun hsame => .inr (.inr (.inl hsame))

theorem isQuotedWord_of_isWord {text : List Char} (h : Chars.isWord text = true) :
    Chars.isQuotedWord '"' text = true := by
  have hword : ∀ c ∈ text, c ≠ '"' := by
    rintro c hc rfl
    rw [Chars.isWord, Bool.and_eq_true, List.all_eq_true] at h
    exact absurd (h.2 _ hc) (by decide)
  have hhead : (text.head? == some '"') = false :=
    beq_eq_false_iff_ne.mpr fun hhead => hword _ (List.mem_of_mem_head? hhead) rfl
  have hlast : (text.getLast? == some '"') = false :=
    beq_eq_false_iff_ne.mpr fun hlast => hword _ (List.mem_of_getLast? hlast) rfl
  simpa [Chars.isQuotedWord, hhead, hlast] using h

theorem Mode.run_literal_word {word : List Char} (h : ∀ c ∈ word, Chars.isWordChar c = true) :
    (literal .double).run word = some ([], literal .double) := by
  induction word with
  | nil => rfl
  | cons c rest ih =>
    have hc : ∀ d : Char, Chars.isWordChar d = false → c ≠ d := by
      rintro d hd rfl
      exact absurd (h c List.mem_cons_self) (by simp [hd])
    have hstep : (literal .double).step c = some ([], literal .double) := by
      simp [step, Quote.mark, hc '\n' (by decide), hc '\\' (by decide), hc '"' (by decide)]
    rw [run_cons, hstep, Option.bind_some, ih fun d hd => h d (List.mem_cons_of_mem _ hd)]
    rfl

/-- A word or quoted word that is an operand is one token, which begins a unit with
what follows it. -/
theorem exists_unit_of_isQuotedWord (hoperand : Operand .unaryPostfix owner.toList)
    (hquoted : Chars.isQuotedWord '"' owner.toList = true) :
    ∃ token, Lexes owner.toList [token] ∧ ∀ tail,
      Suffixes tail → tail ≠ [] → IsUnit (token :: tail) := by
  obtain ⟨outline, houtline, -, hexposed⟩ := hoperand.outline?_eq
  have hlexes : ∀ toks, tokens owner.toList = some toks → Lexes owner.toList toks := fun toks =>
    hoperand.toFits.lexes
  have hsome : (tokens owner.toList).isSome = true := by
    obtain ⟨toks, htokens, -⟩ := Option.bind_eq_some_iff.mp houtline
    rw [htokens, Option.isSome_some]
  obtain ⟨word, hword, htext⟩ := cases_of_isQuotedWord hquoted
  rw [Chars.isWord, Bool.and_eq_true, Bool.not_eq_true', List.isEmpty_eq_false_iff,
    List.all_eq_true] at hword
  have hliteral := Mode.run_literal_word hword.2
  have hopen : Mode.code.run ['"'] = some ([], .literal .double) := rfl
  rcases htext with htext | htext | htext | htext
  · have htokens : tokens owner.toList = some [.word word] := by
      simp [tokens, htext, Mode.run_word hword.1 hword.2, Mode.finish]
    refine ⟨_, hlexes _ htokens, fun tail htail hne => .word ?_ htail fun hnil => absurd hnil hne⟩
    -- All words that are operators are looser than an operand.
    by_contra hlookup
    obtain ⟨rank, hrank⟩ := Option.ne_none_iff_exists'.mp hlookup
    have hoperators : ∀ entry ∈ operators, ¬entry.2.level ≤ Rank.unaryPostfix.level := by decide
    have hadded : Outline.addAll {} [.word word] = some outline := by
      simpa only [outline?, htokens, Option.bind_eq_bind, Option.bind_some] using houtline
    obtain rfl := Option.some.inj hadded
    exact hoperators _ (Keyed.mem_of_lookup hrank)
      (hexposed rank (by simp [Outline.put, Token.rank?, hrank]))
  · rw [htext, tokens, ← List.singleton_append, Mode.run_of_run hopen, hliteral] at hsome
    exact absurd hsome Bool.false_ne_true
  · rw [htext, tokens, Mode.run_of_run (Mode.run_word hword.1 hword.2)] at hsome
    exact absurd hsome Bool.false_ne_true
  · have hclose : (Mode.literal .double).run ['"'] = some ([.literal], .code) := rfl
    have htokens : tokens owner.toList = some [.literal] := by
      rw [htext, tokens, ← List.singleton_append, Mode.run_of_run hopen,
        Mode.run_of_run hliteral, hclose]
      rfl
    exact ⟨_, hlexes _ htokens, fun tail htail _ => .literal htail⟩

theorem Lexes.field {text name : List Char} {toks : List Token}
    (h : Lexes text toks) (hname : IsPlain name) :
    Lexes (text ++ '.' :: name) (toks ++ [.dot, .word name]) :=
  h.between hname.lexes (show Mode.code.run ['.'] = some ([.dot], .code) from rfl)
    ⟨'.', rfl, by decide⟩

theorem isPlain_len : IsPlain "len".toList := by
  decide

theorem isPlain_items : IsPlain "items".toList := by
  decide

theorem toList_length (owner : String) :
    (s!"{owner}.len").toList = owner.toList ++ '.' :: "len".toList := by
  simp [toString]

theorem exists_denotes_length (hoperand : Operand .unaryPostfix owner.toList)
    (hquoted : Chars.isQuotedWord '"' owner.toList = true) :
    ∃ length, Denotes 0 s!"{owner}.len" (.unit length) := by
  obtain ⟨token, hlexes, hunit⟩ := exists_unit_of_isQuotedWord hoperand hquoted
  refine ⟨_, _, ?_, .unit (hunit _ (.field isPlain_len.lookup .nil) (by simp))⟩
  rw [toList_length]
  exact hlexes.field isPlain_len

/-- The length of the items of a list. -/
theorem exists_denotes_items {items : String} (hitems : items = owner ++ ".items")
    (hoperand : Operand .unaryPostfix owner.toList)
    (hquoted : Chars.isQuotedWord '"' owner.toList = true) :
    ∃ length, Denotes 0 s!"{items}.len" (.unit length) := by
  obtain ⟨token, hlexes, hunit⟩ := exists_unit_of_isQuotedWord hoperand hquoted
  refine ⟨_, _, ?_,
    .unit (hunit _ (.field isPlain_items.lookup (.field isPlain_len.lookup .nil)) (by simp))⟩
  have hlist : items.toList = owner.toList ++ '.' :: "items".toList := by simp [hitems]
  rw [toList_length, hlist]
  exact (hlexes.field isPlain_items).field isPlain_len

end BlockSynth.Zig
