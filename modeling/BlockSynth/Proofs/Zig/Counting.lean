import BlockSynth.Proofs.Zig.Loop

/-! # What counting loops run through

The code of a counting loop is read as a loop whose rounds are a progression: up or down to the last
value if its direction is known, and otherwise up or down as its increment is negative or not.
-/
namespace BlockSynth.Zig

/-! ### Texts that end between tokens -/

/-- A text that leaves off between two tokens. -/
def Tells (text : List Char) (toks : List Token) : Prop :=
  ∀ rest, Mode.code.tokens (text ++ rest) = (Mode.code.tokens rest).map (toks ++ ·)

section

variable {text more mark : List Char} {toks toks' emitted : List Token}

theorem Tells.tokens_eq (h : Tells text toks) : tokens text = some toks := by
  have hall := h []
  rw [List.append_nil] at hall
  exact hall.trans (congrArg some (List.append_nil toks))

theorem Tells.append (h : Tells text toks) (h' : Tells more toks') :
    Tells (text ++ more) (toks ++ toks') := by
  intro rest
  rw [List.append_assoc, h, h', Option.map_map]
  cases Mode.code.tokens rest <;> simp

theorem tells_of_run (h : Mode.code.run mark = some (emitted, .code)) : Tells mark emitted :=
  Mode.tokens_append h

theorem Lexes.tells (h : Lexes text toks) (hmark : Mode.code.run mark = some (emitted, .code))
    (hbreaks : ∃ c, mark.head? = some c ∧ Chars.isWordChar c = false) :
    Tells (text ++ mark) (toks ++ emitted) := by
  intro rest
  rw [List.append_assoc, h.tokens_append _ (breaks_append hbreaks rest),
    Mode.tokens_append hmark, Option.map_map]
  cases Mode.code.tokens rest <;> simp

end

/-- Code that is the head of a loop, a body and the end of its block. -/
structure IsLoop (code body : String) (loop : Loop) : Prop where
  head :
    ∃ head toks, code = head ++ body ++ "\x7d\n" ∧ tokens head.toList = some toks ∧ Heads toks loop

/-! ### Number literals -/

/-- What takes characters of words only is a number literal if it is digits. -/
theorem isNumberLiteral_eq {code : String} {negative : Bool} {text : List Char}
    (hsplit : Chars.splitSign (Chars.trim code.toList) = (negative, text))
    (htext : ∀ c ∈ text, Chars.isWordChar c = true) :
    Text.isNumberLiteral code = Chars.isDigits text := by
  have hpoint : ∀ c ∈ text, (c != '.') = true := by
    intro c hc
    rw [bne_iff_ne]
    rintro rfl
    exact absurd (htext '.' hc) (by decide)
  unfold Text.isNumberLiteral
  simp only [hsplit, List.dropWhile_eq_nil_iff.mpr hpoint, List.takeWhile_eq_self_iff.mpr hpoint]

theorem literal?_of_isName {word : String} (h : IsName word) :
    Text.isNumberLiteral word = false ∧ literal? word = none := by
  have hword := h.isPlain.isWordChar
  have hidentifier := h.isIdentifier
  have hliteral : Text.isNumberLiteral word = false := by
    have htrim : Chars.trim word.toList = word.toList := by
      refine trim_eq_self fun c hc => Bool.eq_false_iff.mpr fun hblank => ?_
      have hnone := isWordChar_of_isBlank hblank
      rw [hword c hc] at hnone
      exact absurd hnone (by simp)
    cases hlist : word.toList with
    | nil =>
      rw [hlist] at hidentifier
      exact absurd hidentifier (by decide)
    | cons c rest =>
      have hsign : c ≠ '-' := by
        rintro rfl
        exact absurd (hword '-' (hlist ▸ List.mem_cons_self)) (by decide)
      have hsplit : Chars.splitSign (Chars.trim word.toList) = (false, word.toList) := by
        rw [htrim, hlist]
        unfold Chars.splitSign
        split
        · rename_i heq
          exact absurd (List.cons.inj heq).1 hsign
        · rfl
      rw [isNumberLiteral_eq hsplit hword, hlist]
      rw [hlist, Chars.isIdentifier, Bool.and_eq_true] at hidentifier
      simp [Chars.isDigits, Chars.isDigit_of_isIdentifierStart hidentifier.1]
  exact ⟨hliteral, by simp [literal?, hliteral]⟩

theorem literal?_toString (z : Int) : literal? (toString z) = Binary64.ofText? (toString z) := by
  have hdigits := Chars.isDigits_toString z.natAbs
  have hsplit : Chars.splitSign (Chars.trim (toString z).toList) =
      (decide (z < 0), (toString z.natAbs).toList) := by
    rw [trim_toString, splitSign_toString]
  have hliteral : Text.isNumberLiteral (toString z) = true := by
    rw [isNumberLiteral_eq hsplit (isPlain_of_isDigits hdigits).isWordChar]
    exact hdigits
  have htrim : Text.trim (toString z) = toString z := by
    rw [Text.trim, trim_toString, String.ofList_toList]
  rw [literal?, if_pos hliteral, htrim]

/-! ### The heads of counting loops -/

/-- A loop in a direction that is known. -/
def literalLoop (name : String) (up : Bool) (first last step : Amount) : Loop where
  lines := [.set ⟨name.toList, first⟩]
  condition := .binary (if up then .lessOrEqual else .greaterOrEqual) (.word name) last
  change := ⟨name.toList, .binary (if up then .add else .subtract) (.word name) step⟩

/-- A loop between words that finds its direction when it starts. -/
def computedLoop (name increment start finish stride : String) : Loop where
  lines := [.set ⟨increment.toList, .magnitude (.word stride)⟩,
    .when (.binary .greater (.word start) (.word finish)) ⟨increment.toList,
      .signed .minus (.word increment)⟩, .set ⟨name.toList, .word start⟩]
  condition := .choice (.binary .greaterOrEqual (.word increment) (.whole 0))
    (.binary .lessOrEqual (.word name) (.word finish))
    (.binary .greaterOrEqual (.word name) (.word finish))
  change := ⟨name.toList, .binary .add (.word name) (.word increment)⟩

theorem IsName.tells {name : String} (h : IsName name) {mark : List Char} {emitted : List Token}
    (hmark : Mode.code.run mark = some (emitted, .code))
    (hbreaks : ∃ c, mark.head? = some c ∧ Chars.isWordChar c = false) :
    Tells (name.toList ++ mark) (.word name.toList :: emitted) :=
  h.isPlain.lexes.tells hmark hbreaks

theorem phrase_compare {operator : Operator} {tokens more : List Token}
    {left right : Amount} (hcompare : operator.level = Operator.comparing)
    (hleft : Phrase 0 tokens left) (hright : Phrase 0 more right) :
    Phrase sentence (tokens ++ operator.token :: more) (.binary operator left right) := by
  refine (Phrase.compare hcompare (hleft.mono (Nat.zero_le _)) (hright.mono (Nat.zero_le _))).mono
    ?_
  rw [hcompare]
  decide

theorem phrase_word {word : String} (h : IsName word) :
    Phrase 0 [.word word.toList] (.word word) := by
  obtain ⟨toks, hlexes, hphrase⟩ := denotes_word h
  obtain rfl := Option.some.inj (hlexes.tokens_eq.symm.trans h.isPlain.tokens_eq)
  exact hphrase

theorem isLoop_literalCount {name start finish size : String}
    {first last step : Amount} (hname : IsName name) (hfirst : Denotes 0 start first)
    (hlast : Denotes 0 finish last) (hstep : Denotes 0 size step) (body : String)
    {lower upper stride : Binary64} (hsize : stride.abs.codeText = size) :
    IsLoop (literalCount name start finish lower upper stride body) body
      (literalLoop name (lower.le upper) first last step) := by
  obtain ⟨starts, hstarts, hfirst⟩ := hfirst
  obtain ⟨ends, hends, hlast⟩ := hlast
  obtain ⟨steps, hsteps, hstep⟩ := hstep
  have hword := phrase_word hname
  unfold literalCount literalLoop
  rw [hsize]
  generalize lower.le upper = up
  have hassign : Tells (name.toList ++ " = ".toList) [.word name.toList, .equals] :=
    hname.tells (by decide) ⟨' ', by decide, by decide⟩
  have hopen : Tells (start.toList ++ ";\nwhile (".toList)
      (starts ++ [.semicolon, .whileWord, .opening '(']) :=
    hstarts.tells (by decide) ⟨';', by decide, by decide⟩
  have hcompare : Tells (name.toList ++ (if up then " <= " else " >= ").toList)
      [.word name.toList, (if up then Operator.lessOrEqual else .greaterOrEqual).token] := by
    cases up <;> exact hname.tells (by decide) ⟨' ', by decide, by decide⟩
  have hclose : Tells (finish.toList ++ ") : (".toList)
      (ends ++ [.closing ')', .colon, .opening '(']) :=
    hends.tells (by decide) ⟨')', by decide, by decide⟩
  have hchange : Tells (name.toList ++ (if up then " += " else " -= ").toList)
      [.word name.toList, (if up then Operator.add else .subtract).token, .equals] := by
    cases up <;> exact hname.tells (by decide) ⟨' ', by decide, by decide⟩
  have hbrace : Tells (size.toList ++ ") \x7b\n".toList) (steps ++ [.closing ')', .brace]) :=
    hsteps.tells (by decide) ⟨')', by decide, by decide⟩
  have hall :=
    hassign.append (hopen.append (hcompare.append (hclose.append (hchange.append hbrace))))
  refine ⟨name ++ " = " ++ start ++ ";\nwhile (" ++ name ++ (if up then " <= " else " >= ") ++
    finish ++ ") : (" ++ name ++ (if up then " += " else " -= ") ++ size ++ ") \x7b\n", _, ?_, ?_,
    .set (hfirst.mono (Nat.zero_le _))
    (.loop ?_ (phrase_compare ?_ hword hlast) (hstep.mono (Nat.zero_le _)))⟩
  · show name ++ " = " ++ start ++ ";\n" ++
      ("while (" ++ name ++ " " ++ (if up then "<=" else ">=") ++ " " ++ finish ++
      ") : (" ++ name ++ " " ++ (if up then "+=" else "-=") ++ " " ++ size ++ ")" ++ " \x7b\n" ++
        body ++ "\x7d") ++ "\n" = _
    rw [← String.toList_inj]
    cases up <;> simp
  · have htokens := hall.tokens_eq
    simpa using htokens
  · cases up <;> simp
  · cases up <;> rfl

/-- Words with marks between them, and what the marks are read as. -/
theorem tells_woven {words : List String} {marks : List (String × List Token)}
    (hwords : ∀ word ∈ words, IsName word)
    (hmarks : ∀ mark ∈ marks, Mode.code.run mark.1.toList = some (mark.2, .code) ∧
      mark.1.toList.head?.any (!Chars.isWordChar ·) = true) :
    Tells ((words.zip marks).flatMap fun part => part.1.toList ++ part.2.1.toList)
      ((words.zip marks).flatMap fun part => .word part.1.toList :: part.2.2) := by
  induction words generalizing marks with
  | nil => exact fun rest => by simp
  | cons word words ih =>
    cases marks with
    | nil => exact fun rest => by simp
    | cons mark marks =>
      obtain ⟨hrun, hbreaks⟩ := hmarks mark List.mem_cons_self
      obtain ⟨c, hhead, hc⟩ := (Option.any_eq_true _ _).mp hbreaks
      have hfirst := (hwords word List.mem_cons_self).tells hrun ⟨c, hhead, by simpa using hc⟩
      have hrest := @ih marks (fun word hword => hwords word (List.mem_cons_of_mem _ hword))
        fun mark hmark => hmarks mark (List.mem_cons_of_mem _ hmark)
      exact hfirst.append hrest

theorem isLoop_computedCount {config : Config} (hindent : IsIndent config.indentUnit.toList)
    {name increment start finish stride : String} (hname : IsName name)
    (hincrement : IsName increment) (hstart : IsName start)
    (hfinish : IsName finish) (hstride : IsName stride) (body : String) :
    IsLoop (computedCount config name increment ⟨start, ""⟩ ⟨finish, ""⟩ stride body) body
      (computedLoop name increment start finish stride) := by
  have hvar : Tells "var ".toList [.varWord] := tells_of_run (by decide)
  have hturn := @tells_woven [increment, stride, start, finish]
    [(": f32 = @abs(", [.colon, .word ['f', '3', '2'], .equals, .builtin, .absWord, .opening '(']),
      (");\nif (", [.closing ')', .semicolon, .ifWord, .opening '(']),
      (" > ", [Operator.greater.token]),
      (") \x7b\n", [.closing ')', .brace])] (by simp [*]) (by decide)
  have hunit : Tells config.indentUnit.toList [] := tells_of_run (Mode.run_indent hindent)
  have hloop := @tells_woven
    [increment, increment, name, start, increment, name, finish, name, finish, name, increment]
    [(" = -", [.equals, Sign.minus.token]),
      (";\n\x7d\n", [.semicolon, .closing '\x7d']), (" = ", [.equals]),
      (";\nwhile (if (", [.semicolon, .whileWord, .opening '(', .ifWord, .opening '(']),
      (" >= 0) ", [Operator.greaterOrEqual.token, .word ['0'], .closing ')']),
      (" <= ", [Operator.lessOrEqual.token]),
      (" else ", [.elseWord]), (" >= ", [Operator.greaterOrEqual.token]),
      (") : (", [.closing ')', .colon, .opening '(']), (" += ", [Operator.add.token, .equals]),
      (") \x7b\n", [.closing ')', .brace])] (by simp [*]) (by decide)
  have hall := (hvar.append hturn).append (hunit.append hloop)
  have hword : ∀ {word : String}, IsName word → Phrase sentence [.word word.toList] (.word word) :=
    fun h => (phrase_word h).mono (Nat.zero_le _)
  have hzero : Phrase 0 [.word ['0']] (.whole 0) := .whole (by decide)
  have hrises :=
    phrase_compare (show Operator.greaterOrEqual.level = _ from rfl) (phrase_word hincrement) hzero
  have hbelow := phrase_compare (show Operator.lessOrEqual.level = _ from rfl) (phrase_word hname)
    (phrase_word hfinish)
  have habove :=
    phrase_compare (show Operator.greaterOrEqual.level = _ from rfl) (phrase_word hname)
    (phrase_word hfinish)
  have hgreater := phrase_compare (show Operator.greater.level = _ from rfl) (phrase_word hstart)
    (phrase_word hfinish)
  refine ⟨"var " ++ increment ++ ": f32 = @abs(" ++ stride ++ ");\nif (" ++ start ++
    " > " ++ finish ++ ") \x7b\n" ++ config.indentUnit ++ increment ++ " = -" ++
      increment ++ ";\n\x7d\n" ++ name ++ " = " ++ start ++ ";\nwhile (if (" ++ increment ++
      " >= 0) " ++ name ++ " <= " ++ finish ++ " else " ++ name ++ " >= " ++ finish ++
    ") : (" ++ name ++ " += " ++ increment ++ ") \x7b\n", _, ?_, ?_, @Heads.declare _
    ['f', '3', '2'] _ _ _ _ ((hword hstride).magnitude.mono (Nat.zero_le _)) (.when hgreater
      (((phrase_word hincrement).signed .minus).mono (Nat.zero_le _)) (.set (hword hstart)
        (.loop (by simp) (.choice hrises hbelow habove) (hword hincrement))))⟩
  · unfold computedCount
    rw [(literal?_of_isName hstride).2]
    show "" ++ "" ++ ("var " ++ increment ++ ": f32 = " ++ ("@abs(" ++ stride ++ ")") ++ ";\n") ++
      ("if (" ++ start ++ " > " ++ finish ++ ")" ++ " \x7b\n" ++
        (config.indentUnit ++ increment ++ " = -" ++ increment ++ ";\n") ++ "\x7d") ++ "\n" ++
      (name ++ " = " ++ start ++ ";\n") ++ ("while (" ++ ("if (" ++ increment ++ " >= 0) " ++
        name ++ " <= " ++ finish ++ " else " ++ name ++ " >= " ++ finish) ++ ") : (" ++ name ++
          " += " ++ increment ++ ")" ++ " \x7b\n" ++ body ++ "\x7d") ++ "\n" = _
    rw [← String.toList_inj]
    simp
  · have htokens := hall.tokens_eq
    simpa using htokens

/-! ### The rounds of counting loops -/

/-- By how much a counting loop moves. -/
def stride (up : Bool) (step : Int) : Int :=
  if up then step.natAbs else -(step.natAbs : Int)

/-- Values that are not past the last one. -/
def UpTo (up : Bool) (last value : Int) : Prop :=
  if up then value ≤ last else last ≤ value

instance (up : Bool) (last : Int) : DecidablePred (UpTo up last) := fun value =>
  inferInstanceAs (Decidable (if up then value ≤ last else last ≤ value))

/-- The words in an expression. -/
def Amount.words : Amount → List (List Char)
  | .whole _ => []
  | .unit [.word word] => [word]
  | .unit _ => []
  | .magnitude operand => operand.words
  | .signed _ operand => operand.words
  | .binary _ left right => left.words ++ right.words
  | .choice condition consequence otherwise =>
    condition.words ++ (consequence.words ++ otherwise.words)

/-- A body that assigns none of the words that are read between its rounds. -/
def Loop.Spared (loop : Loop) (body : Store → Store) : Prop :=
  ∀ word ∈ loop.change.word :: (loop.condition.words ++ loop.change.value.words), ∀ store,
    body store word = store word

theorem Loop.spared_id (loop : Loop) : loop.Spared id := fun _ _ _ => rfl

theorem eval_word (store : Store) (word : String) :
    (Amount.word word).eval store.reckoning = store word.toList := rfl

theorem toInt_ne_zero {p : Prop} [Decidable p] : (decide p).toInt ≠ 0 ↔ p := by
  by_cases h : p <;> simp [h]

theorem entries_literalLoop {name : String} {first last step : Int}
    {up : Bool} {body : Store → Store} (store : Store)
    (hbody : (literalLoop name up (integerTree first)
      (integerTree last) (.whole step.natAbs)).Spared body) :
    (literalLoop name up (integerTree first) (integerTree last) (.whole step.natAbs)).entries
      body store =
      progression first (stride up step) (UpTo up last) := by
  have hspared : ∀ store, body store name.toList = store name.toList :=
    hbody name.toList List.mem_cons_self
  funext n
  refine @Loop.entries_eq _ body store (fun _ => True) _ _ _ _ trivial ?_ (fun now _ => ?_)
    (fun now _ => ⟨trivial, ?_⟩) n
  · simp [literalLoop, Loop.start, Line.run, Assignment.run, eval_integerTree]
  · cases up <;> simp only [Loop.Holds, literalLoop, Amount.eval, eval_word, eval_integerTree,
      Operator.eval, toInt_ne_zero, UpTo, if_true, Bool.false_eq_true, if_false, ge_iff_le]
  · cases up <;> simp [literalLoop, Assignment.run, Amount.eval, eval_word, Operator.eval,
      hspared, stride, Int.sub_eq_add_neg]

theorem entries_computedLoop {name increment start finish size : String}
    {first last step : Int} (hstart : increment ≠ start) (hfinish : increment ≠ finish)
    (hname : name ≠ finish) (hincrement : name ≠ increment) {body : Store → Store}
    {store : Store} (hbody : (computedLoop name increment start finish size).Spared body)
    (hfirst : store start.toList = first)
    (hlast : store finish.toList = last) (hstep : store size.toList = step) :
    (computedLoop name increment start finish size).entries body store =
      progression first (stride (decide (first ≤ last)) step)
        (UpTo (decide (0 ≤ stride (decide (first ≤ last)) step)) last) := by
  have hlist : ∀ {word other : String}, word ≠ other → other.toList ≠ word.toList :=
    fun hne heq => hne (String.toList_inj.mp heq).symm
  have hspared : ∀ word ∈ [name, increment, finish], ∀ store,
      body store word.toList = store word.toList := by
    intro word hword
    refine hbody word.toList ?_
    simp only [List.mem_cons, List.not_mem_nil, or_false] at hword
    rcases hword with rfl | rfl | rfl <;> simp [computedLoop, Amount.words, Amount.word]
  simp only [List.forall_mem_cons, List.not_mem_nil, false_imp_iff, implies_true, and_true]
    at hspared
  obtain ⟨hsparedName, hsparedIncrement, hsparedFinish⟩ := hspared
  have hbegin : (computedLoop name increment start finish size).start store = Function.update
        (Function.update (Function.update store increment.toList step.natAbs) increment.toList
        (stride (decide (first ≤ last)) step)) name.toList first := by
    by_cases hrises : first ≤ last
    · simp [computedLoop, Loop.start, Line.run, Assignment.run,
        Amount.eval, eval_word, Operator.eval, hlist hstart,
        hlist hfinish, hfirst, hlast, hstep, hrises, Int.not_lt.mpr hrises, stride]
    · simp [computedLoop, Loop.start, Line.run, Assignment.run,
        Amount.eval, eval_word, Operator.eval, Sign.eval,
        hlist hstart, hlist hfinish, hfirst, hlast, hstep, hrises, Int.not_le.mp hrises, stride]
  funext n
  refine @Loop.entries_eq _ body store (fun now => now finish.toList = last ∧
    now increment.toList = stride (decide (first ≤ last)) step) _ _ _ _ ?_ ?_ (fun now hnow => ?_)
    (fun now hnow => ?_) n
  · rw [hbegin]
    simp [hlist hfinish, hlist hname, hlist hincrement, hlast]
  · rw [hbegin]
    simp [computedLoop]
  · obtain ⟨hend, hmove⟩ := hnow
    by_cases hrises : 0 ≤ stride (decide (first ≤ last)) step
    · simp [Loop.Holds, computedLoop, Amount.eval, eval_word, Operator.eval, hend,
        hmove, hrises, UpTo]
      exact toInt_ne_zero
    · simp [Loop.Holds, computedLoop, Amount.eval, eval_word, Operator.eval, hend,
        hmove, hrises, UpTo]
      exact toInt_ne_zero
  · obtain ⟨hend, hmove⟩ := hnow
    simp [computedLoop, Assignment.run, Amount.eval, eval_word, Operator.eval, hlist hname,
      hlist hincrement, hsparedName, hsparedIncrement, hsparedFinish, hend, hmove]

theorem progressions_agree_iff {first last step : Int} :
    progression first (stride (decide (first ≤ last)) step) (UpTo (decide (first ≤ last)) last) =
      progression first (stride (decide (first ≤ last)) step)
        (UpTo (decide (0 ≤ stride (decide (first ≤ last)) step)) last) ↔
        (step = 0 → first ≤ last) := by
  constructor
  · intro hsame hzero
    by_contra hfalls
    have hnow := congrFun hsame 0
    subst hzero
    simp [progression, stride, hfalls, UpTo, Int.le_of_not_le hfalls] at hnow
  · intro hstep
    have hup : decide (0 ≤ stride (decide (first ≤ last)) step) = decide (first ≤ last) := by
      by_cases hrises : first ≤ last
      · simp [stride, hrises]
      · have hne : step ≠ 0 := fun hzero => hrises (hstep hzero)
        simp [stride, hrises, hne]
    rw [hup]

end BlockSynth.Zig
