import BlockSynth.Proofs.Zig.Worth

/-! # Whole and unsigned arithmetic

Code is read in whole numbers, or in unsigned ones, in which nothing may go below
zero. What comes out in unsigned numbers is the same as in whole ones, as long as
every part of the code stays in them.
-/
namespace BlockSynth.Zig

inductive Computing
  | whole
  | unsigned
  deriving DecidableEq, Repr

/-- A result, if there is such a number. -/
def Computing.keep : Computing → Int → Option Int
  | whole, value => some value
  | unsigned, value => if 0 ≤ value then some value else none

/-- What an expression comes to, or nothing if a part of it is no such number. -/
def Amount.compute (computing : Computing) (reckoning : Reckoning) : Amount → Option Int
  | whole value => some value
  | unit code => computing.keep (reckoning.unit code)
  | magnitude operand => return ((← operand.compute computing reckoning).natAbs : Int)
  | signed sign operand => do computing.keep (sign.eval (← operand.compute computing reckoning))
  | binary operator left right => do
    let first ← left.compute computing reckoning
    let second ← right.compute computing reckoning
    computing.keep (operator.eval reckoning.quotient first second)
  | choice condition consequence otherwise => do
    if (← condition.compute computing reckoning) = 0 then otherwise.compute computing reckoning
    else consequence.compute computing reckoning

/-- A text that is one expression, and what it comes to. -/
def Computes (computing : Computing) (reckoning : Reckoning) (text : String)
    (outcome : Option Int) : Prop :=
  ∃ toks tree, Zig.tokens text.toList = some toks ∧ Phrase sentence toks tree ∧
    tree.compute computing reckoning = outcome

/-- An index of the given value. A literal may be moved while the code is written, so it need not be
a number of the kind that the program computes with. -/
def Indicates (computing : Computing) (reckoning : Reckoning) (raw : String) (k : Int) : Prop :=
  Text.intLiteral? raw = some k ∨
    Text.intLiteral? raw = none ∧ Computes computing reckoning raw (some k)

variable {computing : Computing} {reckoning : Reckoning} {text raw : String}
    {tree : Amount} {level : Nat}
  {value k delta : Int}

/-! ### Numbers that are kept -/

theorem Computing.keep_of_nonneg (h : 0 ≤ value) : computing.keep value = some value := by
  cases computing with
  | whole => rfl
  | unsigned => exact if_pos h

theorem Computing.keep_unsigned_of_neg (h : value < 0) : Computing.unsigned.keep value = none :=
  if_neg (by omega)

theorem Computing.eq_of_keep {kept : Int} (h : computing.keep value = some kept) :
    kept = value ∧ computing.keep kept = some kept := by
  cases computing with
  | whole => exact ⟨(Option.some.inj h).symm, rfl⟩
  | unsigned =>
    simp only [keep, Option.ite_none_right_eq_some, Option.some.injEq] at h
    obtain ⟨hvalue, rfl⟩ := h
    exact ⟨rfl, if_pos hvalue⟩

/-! ### Expressions -/

theorem Amount.compute_whole (tree : Amount) (reckoning : Reckoning) :
    tree.compute .whole reckoning = some (tree.eval reckoning) := by
  induction tree with
  | whole value => rfl
  | unit code => rfl
  | magnitude operand ih => simp [compute, eval, ih]
  | signed sign operand ih => simp [compute, eval, ih, Computing.keep]
  | binary operator left right ihl ihr => simp [compute, eval, ihl, ihr, Computing.keep]
  | choice condition consequence otherwise ihc iht ihe =>
    simp only [compute, eval, ihc, iht, ihe, Option.bind_eq_bind, Option.bind_some]
    split <;> rfl

/-- What an expression comes to is a number that is kept. -/
theorem Amount.keep_of_compute (h : tree.compute computing reckoning = some value) :
    computing.keep value = some value := by
  induction tree generalizing value with
  | whole number =>
    obtain rfl := Option.some.inj h
    exact Computing.keep_of_nonneg (by omega)
  | unit code => exact (Computing.eq_of_keep h).2
  | magnitude operand ih =>
    obtain ⟨inner, -, hinner⟩ := Option.bind_eq_some_iff.mp h
    obtain rfl := Option.some.inj hinner
    exact Computing.keep_of_nonneg (by omega)
  | signed sign operand ih =>
    obtain ⟨inner, -, hkeep⟩ := Option.bind_eq_some_iff.mp h
    exact (Computing.eq_of_keep hkeep).2
  | binary operator left right ihl ihr =>
    obtain ⟨first, -, hrest⟩ := Option.bind_eq_some_iff.mp h
    obtain ⟨second, -, hkeep⟩ := Option.bind_eq_some_iff.mp hrest
    exact (Computing.eq_of_keep hkeep).2
  | choice condition consequence otherwise ihc iht ihe =>
    obtain ⟨test, -, hbranch⟩ := Option.bind_eq_some_iff.mp h
    split at hbranch
    · exact ihe hbranch
    · exact iht hbranch

theorem compute_integerTree (z : Int) :
    (integerTree z).compute computing reckoning = computing.keep z := by
  unfold integerTree
  split
  · rename_i hnegative
    show computing.keep (-(z.natAbs : Int)) = computing.keep z
    congr 1
    omega
  · rw [Computing.keep_of_nonneg (by omega)]
    exact congrArg some (by omega)

theorem Amount.compute_moved (delta : Int) (h : tree.compute computing reckoning = some value) :
    (tree.moved delta).compute computing reckoning = computing.keep (value + delta) := by
  unfold moved
  split
  · rename_i hpositive
    have hdelta : computing.keep delta = some delta :=
      Computing.keep_of_nonneg (Int.le_of_lt hpositive)
    simp only [compute, h, compute_integerTree, hdelta, Operator.eval,
      Option.bind_eq_bind, Option.bind_some]
  · split
    · simp only [compute, h, Operator.eval, Option.bind_eq_bind, Option.bind_some]
      congr 1
      omega
    · obtain rfl : delta = 0 := by omega
      rw [h, Int.add_zero, keep_of_compute h]

/-! ### Texts -/

theorem Denotes.computes (h : Denotes level text tree)
    (hle : level ≤ sentence) (computing : Computing) (reckoning : Reckoning) :
    Computes computing reckoning text (tree.compute computing reckoning) := by
  obtain ⟨toks, hlexes, hphrase⟩ := h.mono hle
  exact ⟨toks, tree, hlexes.tokens_eq, hphrase, rfl⟩

theorem Computes.unique {outcome other : Option Int} (h : Computes computing reckoning text outcome)
    (h' : Computes computing reckoning text other) : outcome = other := by
  obtain ⟨toks, tree, htokens, hphrase, rfl⟩ := h
  obtain ⟨toks', tree', htokens', hphrase', rfl⟩ := h'
  obtain rfl := Option.some.inj (htokens.symm.trans htokens')
  rw [hphrase.unique hphrase']

theorem computes_whole_iff :
    Computes .whole reckoning text (some value) ↔ Worth reckoning text value := by
  constructor
  · rintro ⟨toks, tree, htokens, hphrase, houtcome⟩
    exact ⟨toks, tree, htokens, hphrase, Option.some.inj (tree.compute_whole reckoning ▸ houtcome)⟩
  · rintro ⟨toks, tree, htokens, hphrase, rfl⟩
    exact ⟨toks, tree, htokens, hphrase, tree.compute_whole reckoning⟩

theorem Worth.indicates (h : Worth reckoning raw k) : Indicates .whole reckoning raw k := by
  cases hliteral : Text.intLiteral? raw with
  | none => exact .inr ⟨hliteral, computes_whole_iff.mpr h⟩
  | some z =>
    exact .inl (hliteral.trans (congrArg some ((worth_of_literal hliteral reckoning).unique h)))

/-! ### Moved indices -/

/-- Code that comes to as much more than an index as it is moved, and fits its place. -/
def Shifts (place : Rank) (raw : String) (delta : Int) (text : String) : Prop :=
  ∀ computing reckoning k, Indicates computing reckoning raw k →
    ∃ tree, Denotes (reach place) text tree ∧
      tree.compute computing reckoning = computing.keep (k + delta)

theorem shifts_adjust {place : Rank}
    (hfits : Fits (fun rank =>
      (IndexOperand.operandRank delta false place).needsParens rank = false) raw.toList)
    (hunsaturated : Unsaturated delta false (IndexOperand.ofCode raw)) :
    Shifts place raw delta ((IndexOperand.ofCode raw).adjust delta false place) := by
  intro computing reckoning k hk
  unfold IndexOperand.ofCode at hunsaturated ⊢
  rcases hk with hliteral | ⟨hliteral, toks, tree, htokens, hphrase, hvalue⟩
  · simp only [hliteral] at hunsaturated ⊢
    refine ⟨integerTree (k + delta), ?_, compute_integerTree _⟩
    rw [adjust_literal hunsaturated]
    exact (denotes_integer _).mono (Nat.zero_le _)
  · simp only [hliteral]
    have hdenotes := hphrase.denotes htokens hfits fun rank => height_le_reach
    exact ⟨tree.moved delta, denotes_adjust_code hdenotes, Amount.compute_moved delta hvalue⟩

end BlockSynth.Zig
