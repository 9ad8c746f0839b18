import BlockSynth.Proofs.Zig.Slicing
import BlockSynth.Zig.Slice

/-! # Slicing helpers

A slicing helper works out its bounds from tags and positions, statement by statement, and then
slices its first parameter. Its template is built from the expressions of its bounds, so what it
selects is read off the same text.
-/
namespace BlockSynth.Zig

/-- An expression and its tree. -/
structure Parsed where
  text : String
  tree : Amount
  denotes : Denotes sentence text tree

/-- A statement that sets a variable of a helper: to the value of an expression, or
anew if a parameter is one of two tags. -/
inductive Statement
  | declare (name : String) (value : Parsed)
  | revise (name parameter tag : String) (value : Parsed) (otherTag : String) (otherValue : Parsed)

def Statement.lines : Statement → List String
  | declare name value => [s!"var {name} = {value.text};"]
  | revise name parameter tag value otherTag otherValue =>
    let isTag := fun (tag : String) => s!"if (std.mem.eql(u8, {parameter}, \"{tag}\"))"
    blockElse (isTag tag) [s!"{name} = {value.text};"] (isTag otherTag)
      [s!"{name} = {otherValue.text};"]

/-- The same reckoning but for a variable. -/
def Reckoning.set (reckoning : Reckoning) (name : String) (value : Int) : Reckoning :=
  { reckoning with unit := fun code => if code = [.word name.toList] then value else reckoning.unit code }

def Statement.run (computing : Computing) (tags : String → String) (reckoning : Reckoning) :
    Statement → Option Reckoning
  | declare name value => return reckoning.set name (← value.tree.compute computing reckoning)
  | revise name parameter tag value otherTag otherValue =>
    if tags parameter = tag
      then return reckoning.set name (← value.tree.compute computing reckoning)
    else if tags parameter = otherTag
      then return reckoning.set name (← otherValue.tree.compute computing reckoning)
    else some reckoning

/-- A helper that sets some variables and then slices its first parameter. -/
structure Slicer where
  /-- The types of the first parameter and of the result. -/
  type : String
  result : String
  parameter : String
  statements : List Statement
  low : Parsed
  high : Parsed
  /-- What is written around the slice. -/
  lead : List String
  opening : String
  closing : String
  trail : List String

def Slicer.template (slicer : Slicer) : String :=
  routine s!"({slicer.parameter}: {slicer.type}, {sliceParameters}) {slicer.result}"
    (slicer.statements.flatMap Statement.lines ++ slicer.lead ++
      [s!"{slicer.opening}{slicer.parameter}[{slicer.low.text} .. {slicer.high.text}]{slicer.closing}"] ++
      slicer.trail)

def Amount.lengthOf (owner : String) : Amount :=
  .unit [.word owner.toList, .dot, .word "len".toList]

/-- The reckoning of the parameters, the first of which has `n` elements. -/
def Slicer.frame (slicer : Slicer) (n at1 at2 : Int) : Reckoning :=
  let owner : Reckoning :=
    ⟨fun code => if .unit code = Amount.lengthOf slicer.parameter then n else 0, (· / ·)⟩
  (owner.set "at1" at1).set "at2" at2

/-- What the helper selects of `n` elements for the given tags and positions. -/
def Slicer.range (slicer : Slicer) (computing : Computing) (n : Int) (where1 : String) (at1 : Int)
    (where2 : String) (at2 : Int) : Option (Int × Int) := do
  let tags := fun parameter => if parameter = "where1" then where1 else where2
  let reckoning ← slicer.statements.foldlM (Statement.run computing tags) (slicer.frame n at1 at2)
  computing.range n (slicer.low.tree.compute computing reckoning)
    (slicer.high.tree.compute computing reckoning)

/-! ### The bounds of the slicing helpers -/

theorem denotes_plain {word : String} (h : IsPlain word.toList)
    (hdigits : Chars.isDigits word.toList = false) :
    Denotes 0 word (.word word) :=
  ⟨_, h.lexes, .unit (.word h.lookup .nil fun _ => hdigits)⟩

theorem denotes_length {owner : String} (h : IsPlain owner.toList) :
    Denotes 0 s!"{owner}.len" (.lengthOf owner) := by
  refine ⟨_, ?_, .unit (.word h.lookup (.field isPlain_len.lookup .nil) (by simp))⟩
  rw [toList_length]
  exact h.lexes.field isPlain_len

def parsedWord (word : String) (h : IsPlain word.toList)
    (hdigits : Chars.isDigits word.toList = false) : Parsed :=
  ⟨word, .word word, (denotes_plain h hdigits).mono (Nat.zero_le _)⟩

theorem denotes_last {owner : String} (h : IsPlain owner.toList) :
    Denotes 2 (difference s!"{owner}.len" "1") (.binary .subtract (.lengthOf owner) (.whole 1)) :=
  denotes_difference ((denotes_length h).mono (by decide)) ((denotes_toString 1).mono (by decide))

/-- The last position. -/
def parsedLast (owner : String) (h : IsPlain owner.toList) : Parsed :=
  ⟨_, _, (denotes_last h).mono (by decide)⟩

/-- A position that is counted from the last one. -/
def parsedBack (owner : String) (h : IsPlain owner.toList) (word : String)
    (hword : IsPlain word.toList) (hdigits : Chars.isDigits word.toList = false) : Parsed :=
  ⟨_, _, (denotes_difference (denotes_last h) ((denotes_plain hword hdigits).mono (by decide))).mono
    (by decide)⟩

def parsedZero : Parsed :=
  ⟨"0", .whole 0, (denotes_toString 0).mono (Nat.zero_le _)⟩

theorem isPlain_at1 : IsPlain "at1".toList := by
  decide

theorem isPlain_at2 : IsPlain "at2".toList := by
  decide

theorem isPlain_start : IsPlain "start".toList := by
  decide

theorem isPlain_end : IsPlain "end".toList := by
  decide

/-- The statements that both helpers start with. -/
def boundStatements (owner : String) (h : IsPlain owner.toList) : List Statement :=
  [.declare "start" (parsedWord "at1" isPlain_at1 (by decide)), .revise "start" "where1"
    "FROM_END" (parsedBack owner h "at1" isPlain_at1 (by decide)) "FIRST" parsedZero,
    .declare "end" (parsedWord "at2" isPlain_at2 (by decide)), .revise "end" "where2" "FROM_END"
    (parsedBack owner h "at2" isPlain_at2 (by decide)) "LAST" (parsedLast owner h)]

/-- The position behind the last one of a range. -/
def parsedBehind : Parsed where
  text := "end + 1"
  tree := .binary .add (.word "end") (.whole 1)
  denotes := by
    have hjoined := @Denotes.joined _ _ .add "end" "1" (by decide)
      ((denotes_plain isPlain_end (by decide)).mono (by decide))
        ((denotes_toString 1).mono (by decide))
    exact hjoined.mono (by decide)

theorem isPlain_text : IsPlain "text".toList := by
  decide

theorem isPlain_values : IsPlain "values".toList := by
  decide

def subtextSlicer : Slicer where
  type := "[]const u8"
  result := "[]const u8"
  parameter := "text"
  statements := boundStatements "text" isPlain_text
  low := parsedWord "start" isPlain_start (by decide)
  high := parsedBehind
  lead := []
  opening := "return "
  closing := ";"
  trail := []

def sublistSlicer : Slicer where
  type := "[]const f32"
  result := "!std.ArrayList(f32)"
  parameter := "values"
  statements := boundStatements "values" isPlain_values
  low := parsedWord "start" isPlain_start (by decide)
  high := parsedBehind
  lead := ["var list = std.ArrayList(f32).init(allocator);"]
  opening := "try list.appendSlice("
  closing := ");"
  trail := ["return list;"]

theorem template_subtextSlicer : subtextSlicer.template = subtextTemplate := by decide +kernel

theorem template_sublistSlicer : sublistSlicer.template = sublistTemplate := by decide +kernel

/-! ### What the helpers select -/

/-- What is left of a length behind a position that is counted from the last one. -/
def Computing.back (computing : Computing) (n position : Int) : Option Int := do
  let last ← computing.keep ((← computing.keep n) - 1)
  computing.keep (last - position)

/-- The first position that a helper selects. -/
def SliceStart.called (computing : Computing) (n position : Int) : SliceStart → Option Int
  | fromStart => some position
  | fromEnd => computing.back n position
  | first => some 0

/-- The last position that a helper selects. -/
def SliceEnd.called (computing : Computing) (n position : Int) : SliceEnd → Option Int
  | fromStart => some position
  | fromEnd => computing.back n position
  | last => do computing.keep ((← computing.keep n) - 1)

section

variable {computing : Computing} {reckoning : Reckoning} {n position value : Int}
    {owner name word : String}

theorem Reckoning.set_set (reckoning : Reckoning) (name : String) (value other : Int) :
    (reckoning.set name value).set name other = reckoning.set name other := by
  unfold set
  congr 1
  funext code
  by_cases hcode : code = [.word name.toList] <;> simp [hcode]

theorem Amount.compute_word_set (name : String) :
    (Amount.word name).compute computing (reckoning.set name value) = computing.keep value :=
  congrArg computing.keep (if_pos rfl)

theorem Amount.compute_word_set_of_ne (h : word ≠ name) :
    (Amount.word word).compute computing (reckoning.set name value) =
      (Amount.word word).compute computing reckoning :=
  congrArg computing.keep (if_neg (by simpa [String.toList_inj] using h))

theorem Amount.compute_lengthOf_set (owner : String) :
    (Amount.lengthOf owner).compute computing (reckoning.set name value) =
      (Amount.lengthOf owner).compute computing reckoning :=
  congrArg computing.keep (if_neg (by simp))

/-- A variable is set to a position, and then perhaps anew. -/
theorem run_declare_revise (hplain : IsPlain owner.toList) (hword : IsPlain word.toList)
    (hdigits : Chars.isDigits word.toList = false) (hne : word ≠ name)
    (hlength : (Amount.lengthOf owner).compute computing reckoning = computing.keep n)
    (hposition : (Amount.word word).compute computing reckoning = some position)
    (tags : String → String) (parameter otherTag : String) (other : Parsed) :
    [Statement.declare name (parsedWord word hword hdigits), .revise name parameter "FROM_END"
      (parsedBack owner hplain word hword hdigits) otherTag other].foldlM
        (Statement.run computing tags) reckoning =
      (if tags parameter = "FROM_END" then computing.back n position
        else if tags parameter = otherTag
          then other.tree.compute computing (reckoning.set name position)
        else some position).map (reckoning.set name) := by
  have hback : (parsedBack owner hplain word hword hdigits).tree.compute computing
      (reckoning.set name position) = computing.back n position := by
    simp only [parsedBack, Amount.compute, Amount.compute_lengthOf_set,
      Amount.compute_word_set_of_ne hne, hlength, hposition, Operator.eval, Computing.back,
      Option.bind_eq_bind, Option.bind_some, Option.bind_assoc]
    rfl
  simp only [List.foldlM_cons, List.foldlM_nil, Statement.run, parsedWord, hposition, hback,
    Option.bind_eq_bind, Option.bind_some, Option.pure_def]
  split
  · simp [Option.map_eq_bind, Reckoning.set_set]
  · split
    · simp [Option.map_eq_bind, Reckoning.set_set]
    · rfl

theorem Computing.keep_back {kept : Int} (h : computing.back n position = some kept) :
    computing.keep kept = some kept := by
  obtain ⟨length, -, hrest⟩ := Option.bind_eq_some_iff.mp h
  obtain ⟨last, -, hlast⟩ := Option.bind_eq_some_iff.mp hrest
  exact (Computing.eq_of_keep hlast).2

theorem SliceStart.keep_called {start : SliceStart} {low : Int}
    (hposition : computing.keep position = some position)
    (h : start.called computing n position = some low) : computing.keep low = some low := by
  cases start with
  | fromStart => exact Option.some.inj h ▸ hposition
  | fromEnd => exact Computing.keep_back h
  | first => exact Option.some.inj h ▸ Computing.keep_of_nonneg (Int.le_refl 0)

theorem SliceEnd.keep_called {finish : SliceEnd} {last : Int}
    (hposition : computing.keep position = some position)
    (h : finish.called computing n position = some last) : computing.keep last = some last := by
  cases finish with
  | fromStart => exact Option.some.inj h ▸ hposition
  | fromEnd => exact Computing.keep_back h
  | last =>
    obtain ⟨length, -, hlast⟩ := Option.bind_eq_some_iff.mp h
    exact (Computing.eq_of_keep hlast).2

/-- What a helper knows from its parameters. -/
structure Entered (computing : Computing) (owner : String) (n at1 at2 : Int)
    (reckoning : Reckoning) : Prop where
  length : (Amount.lengthOf owner).compute computing reckoning = computing.keep n
  at1 : (Amount.word "at1").compute computing reckoning = some at1
  at2 : (Amount.word "at2").compute computing reckoning = some at2

variable {at1 at2 : Int}

theorem Entered.set (h : Entered computing owner n at1 at2 reckoning)
    (hfirst : "at1" ≠ name) (hsecond : "at2" ≠ name) (value : Int) :
    Entered computing owner n at1 at2 (reckoning.set name value) where
  length := (Amount.compute_lengthOf_set owner).trans h.length
  at1 := (Amount.compute_word_set_of_ne hfirst).trans h.at1
  at2 := (Amount.compute_word_set_of_ne hsecond).trans h.at2

/-- The first two statements set the start, the others the end. -/
theorem run_boundStatements (hplain : IsPlain owner.toList)
    (h : Entered computing owner n at1 at2 reckoning)
    {tags : String → String} {start : SliceStart} {finish : SliceEnd}
    (hstart : tags "where1" = start.tag) (hfinish : tags "where2" = finish.tag) :
    (boundStatements owner hplain).foldlM (Statement.run computing tags) reckoning = (do
      let low ← start.called computing n at1
      let last ← finish.called computing n at2
      return (reckoning.set "start" low).set "end" last) := by
  have hlow := run_declare_revise hplain isPlain_at1 (by decide) (show "at1" ≠ "start" by decide)
    h.length h.at1 tags "where1" "FIRST" parsedZero
  have hhigh : ∀ low, _ := fun low =>
    run_declare_revise hplain isPlain_at2 (by decide) (show "at2" ≠ "end" by decide)
    (h.set (by decide) (by decide) low).length
      (h.set (show "at1" ≠ "start" by decide) (by decide) low).at2 tags
    "where2" "LAST" (parsedLast owner hplain)
  have hlast : ∀ low,
      (parsedLast owner hplain).tree.compute computing ((reckoning.set "start" low).set "end" at2) =
      (do computing.keep ((← computing.keep n) - 1)) := by
    intro low
    simp only [parsedLast, Amount.compute, Amount.compute_lengthOf_set, h.length, Operator.eval,
      Option.bind_eq_bind, Option.bind_some]
    rfl
  have hcalled : (if tags "where1" = "FROM_END" then computing.back n at1
      else if tags "where1" = "FIRST"
        then parsedZero.tree.compute computing (reckoning.set "start" at1)
      else some at1) = start.called computing n at1 := by
    rw [hstart]
    cases start <;> rfl
  have hcalled' : ∀ low, (if tags "where2" = "FROM_END" then computing.back n at2
      else if tags "where2" = "LAST" then
        (parsedLast owner hplain).tree.compute computing ((reckoning.set "start" low).set "end" at2)
      else some at2) = finish.called computing n at2 := by
    intro low
    rw [hfinish, hlast]
    cases finish <;> rfl
  have happend : boundStatements owner hplain =
      [.declare "start" (parsedWord "at1" isPlain_at1 (by decide)), .revise "start" "where1"
          "FROM_END" (parsedBack owner hplain "at1" isPlain_at1 (by decide)) "FIRST"
          parsedZero] ++ [.declare "end" (parsedWord "at2" isPlain_at2 (by decide)), .revise
          "end" "where2" "FROM_END" (parsedBack owner hplain "at2" isPlain_at2 (by decide)) "LAST"
          (parsedLast owner hplain)] := rfl
  rw [happend, List.foldlM_append, hlow, hcalled]
  cases start.called computing n at1 with
  | none => rfl
  | some low =>
    simp only [Option.map_some, Option.bind_eq_bind, Option.bind_some]
    rw [hhigh low, hcalled' low]
    cases finish.called computing n at2 <;> rfl

/-- The helpers work out the last position and go one further at the end. -/
theorem range_boundStatements {slicer : Slicer} (hplain : IsPlain slicer.parameter.toList)
    (hstatements : slicer.statements = boundStatements slicer.parameter hplain)
    (hlow : slicer.low = parsedWord "start" isPlain_start (by decide))
    (hhigh : slicer.high = parsedBehind) (hat1 : computing.keep at1 = some at1)
    (hat2 : computing.keep at2 = some at2) (n : Int) (start : SliceStart) (finish : SliceEnd) :
    slicer.range computing n start.tag at1 finish.tag at2 = (do
      let low ← start.called computing n at1
      let last ← finish.called computing n at2
      computing.range n (some low) (computing.keep (last + 1))) := by
  have hentered : Entered computing slicer.parameter n at1 at2 (slicer.frame n at1 at2) := by
    refine ⟨?_, ?_, ?_⟩
    · rw [Slicer.frame, Amount.compute_lengthOf_set, Amount.compute_lengthOf_set]
      exact congrArg computing.keep (if_pos rfl)
    · rw [Slicer.frame, Amount.compute_word_set_of_ne (by decide), Amount.compute_word_set, hat1]
    · rw [Slicer.frame, Amount.compute_word_set, hat2]
  simp only [Slicer.range, hstatements, hlow, hhigh]
  rw [run_boundStatements hplain hentered rfl rfl]
  cases hstart : start.called computing n at1 with
  | none => rfl
  | some low =>
    cases hfinish : finish.called computing n at2 with
    | none => rfl
    | some last =>
      have hbound := SliceStart.keep_called hat1 hstart
      have hlast := SliceEnd.keep_called hat2 hfinish
      have hstored : (Amount.word "start").compute computing
          (((slicer.frame n at1 at2).set "start" low).set "end" last) = some low := by
        rw [Amount.compute_word_set_of_ne (by decide), Amount.compute_word_set, hbound]
      have hended : (Amount.word "end").compute computing
          (((slicer.frame n at1 at2).set "start" low).set "end" last) = some last := by
        rw [Amount.compute_word_set, hlast]
      simp only [parsedWord, parsedBehind, Amount.compute, Option.bind_eq_bind, Option.bind_some,
        Option.pure_def, hstored, hended, Operator.eval]
      rfl

end

end BlockSynth.Zig
