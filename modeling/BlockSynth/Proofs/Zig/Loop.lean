import BlockSynth.Proofs.Zig.Flow
import BlockSynth.Proofs.Zig.Locals
import BlockSynth.Proofs.Zig.Worth
import Mathlib.Logic.Function.Basic
import Mathlib.Tactic.Ring

/-! # Loops that are run

The code of a loop up to its body is a head: assignments, a condition and what changes
after every round. A head is run from what the words of the program stand for, the
body being whatever it does to them.
-/
namespace BlockSynth.Zig

/-! ### Heads -/

/-- A word and what it is set to. -/
structure Assignment where
  word : List Char
  value : Amount
  deriving DecidableEq, Repr

inductive Line
  | set (assignment : Assignment)
  | when (condition : Amount) (assignment : Assignment)
  deriving DecidableEq, Repr

/-- The lines before a loop, the condition of its rounds, and what changes after each of them. -/
structure Loop where
  lines : List Line
  condition : Amount
  change : Assignment
  deriving DecidableEq, Repr

def Loop.behind (loop : Loop) (line : Line) : Loop :=
  { loop with lines := line :: loop.lines }

def Token.whileWord : Token := .word ['w', 'h', 'i', 'l', 'e']

def Token.equals : Token := .symbol ['=']

/-- Tokens from before a loop to the brace that opens its body. -/
inductive Heads : List Token → Loop → Prop
  | set {word : List Char} {tokens rest : List Token} {value : Amount} {loop : Loop} :
    Phrase sentence tokens value → Heads rest loop →
    Heads (.word word :: .equals :: (tokens ++ .semicolon :: rest))
    (loop.behind (.set ⟨word, value⟩))
  | declare {word type : List Char} {tokens rest : List Token} {value : Amount} {loop : Loop} :
    Phrase sentence tokens value → Heads rest loop →
    Heads
    (.varWord :: .word word :: .colon :: .word type :: .equals :: (tokens ++ .semicolon :: rest))
      (loop.behind (.set ⟨word, value⟩))
  | when {word : List Char} {test tokens rest : List Token}
    {condition value : Amount} {loop : Loop} :
    Phrase sentence test condition → Phrase sentence tokens value → Heads rest loop →
    Heads (.ifWord :: .opening '(' :: (test ++ .closing ')' :: .brace :: .word word :: .equals ::
      (tokens ++ .semicolon :: .closing '\x7d' :: rest)))
      (loop.behind (.when condition ⟨word, value⟩))
  | loop {word : List Char} {test tokens : List Token}
    {condition value : Amount} {operator : Operator} :
    operator ∈ [.add, .subtract] → Phrase sentence test condition → Phrase sentence tokens value →
    Heads
    (.whileWord :: .opening '(' :: (test ++ .closing ')' :: .colon :: .opening '(' :: .word word ::
      operator.token :: .equals :: (tokens ++ [.closing ')', .brace])))
      ⟨[], condition, ⟨word, .binary operator (.unit [.word word]) value⟩⟩

/-! ### Heads are read in one way -/

theorem Phrase.read {level : Nat} {tokens : List Token} {tree : Amount}
    (h : Phrase level tokens tree) {rest : List Token} (hrest : Halts level rest) :
    readAmount level (tokens ++ rest) = some (tree, rest) :=
  h.takes.1.reads rest hrest

theorem halts_semicolon (level : Nat) (rest : List Token) : Halts level (.semicolon :: rest) :=
  ⟨rfl, fun operator hoperator => by cases hoperator⟩

theorem Operator.token_injective : Function.Injective Operator.token := by
  intro operator other h
  have hread := congrArg Operator.ofToken? h
  rw [Operator.ofToken?_token, Operator.ofToken?_token] at hread
  exact Option.some.inj hread

/-- Two expressions at the start of the same tokens, each before what ends it, are the same. -/
theorem Phrase.split {level : Nat} {tokens tokens' rest rest' : List Token} {tree tree' : Amount}
    (h : Phrase level tokens tree) (h' : Phrase level tokens' tree') (hrest : Halts level rest)
    (hrest' : Halts level rest') (hsame : tokens ++ rest = tokens' ++ rest') :
    tree = tree' ∧ rest = rest' := by
  have hread := h.read hrest
  rw [hsame, h'.read hrest'] at hread
  obtain ⟨rfl, rfl⟩ := Prod.mk.inj (Option.some.inj hread)
  exact ⟨rfl, rfl⟩

theorem Heads.unique {tokens : List Token} {loop loop' : Loop}
    (h : Heads tokens loop) (h' : Heads tokens loop') :
    loop = loop' := by
  induction h generalizing loop' with
  | @set word tokens rest value loop hvalue hrest ih =>
    generalize hsame : Token.word
      word :: Token.equals :: (tokens ++ Token.semicolon :: rest) = all at h'
    cases h' with
    | set hvalue' hrest' =>
      simp only [List.cons.injEq, Token.word.injEq, true_and] at hsame
      obtain ⟨rfl, hsame⟩ := hsame
      obtain ⟨rfl, hmore⟩ := hvalue.split hvalue' (halts_semicolon _ _) (halts_semicolon _ _) hsame
      obtain rfl := (List.cons.inj hmore).2
      rw [ih hrest']
    | declare => simp [Token.equals] at hsame
    | when => simp [Token.equals] at hsame
    | loop => simp [Token.equals] at hsame
  | @declare word type tokens rest value loop hvalue hrest ih =>
    generalize hsame : Token.varWord :: .word word :: .colon :: .word type :: .equals ::
      (tokens ++ Token.semicolon :: rest) = all at h'
    cases h' with
    | set => simp [Token.equals] at hsame
    | declare hvalue' hrest' =>
      simp only [List.cons.injEq, Token.word.injEq, true_and] at hsame
      obtain ⟨rfl, rfl, hsame⟩ := hsame
      obtain ⟨rfl, hmore⟩ := hvalue.split hvalue' (halts_semicolon _ _) (halts_semicolon _ _) hsame
      obtain rfl := (List.cons.inj hmore).2
      rw [ih hrest']
    | when => simp at hsame
    | loop => simp at hsame
  | @when word test tokens rest condition value loop hcondition hvalue hrest ih =>
    generalize hsame : Token.ifWord :: .opening
      '(' :: (test ++ .closing ')' :: .brace :: .word word :: .equals ::
      (tokens ++ .semicolon :: .closing '\x7d' :: rest)) = all at h'
    cases h' with
    | set => simp [Token.equals] at hsame
    | declare => simp at hsame
    | when hcondition' hvalue' hrest' =>
      simp only [List.cons.injEq, true_and] at hsame
      obtain ⟨rfl, hmore⟩ :=
        hcondition.split hcondition' (halts_closing _ _) (halts_closing _ _) hsame
      simp only [List.cons.injEq, Token.word.injEq, true_and] at hmore
      obtain ⟨rfl, hmore⟩ := hmore
      obtain ⟨rfl, hmore⟩ := hvalue.split hvalue' (halts_semicolon _ _) (halts_semicolon _ _) hmore
      simp only [List.cons.injEq, true_and] at hmore
      subst hmore
      rw [ih hrest']
    | loop => simp [Token.ifWord, Token.whileWord] at hsame
  | @loop word test tokens condition value operator _ hcondition hvalue =>
    generalize hsame : Token.whileWord :: .opening
      '(' :: (test ++ .closing ')' :: .colon :: .opening '(' ::
      .word word :: operator.token :: .equals :: (tokens ++ [.closing ')', .brace])) = all at h'
    cases h' with
    | set => simp [Token.equals] at hsame
    | declare => simp at hsame
    | when => simp [Token.ifWord, Token.whileWord] at hsame
    | loop _ hcondition' hvalue' =>
      simp only [List.cons.injEq, true_and] at hsame
      obtain ⟨rfl, hmore⟩ :=
        hcondition.split hcondition' (halts_closing _ _) (halts_closing _ _) hsame
      simp only [List.cons.injEq, Token.word.injEq, true_and] at hmore
      obtain ⟨rfl, hoperator, hmore⟩ := hmore
      obtain rfl := Operator.token_injective hoperator
      obtain ⟨rfl, -⟩ := hvalue.split hvalue' (halts_closing _ _) (halts_closing _ _) hmore
      rfl

/-! ### Runs -/

/-- An arithmetic sequence up to the first value that is out of bounds. -/
def progression (first step : Int) (within : Int → Prop) [DecidablePred within]
    (n : Nat) : Option Int :=
  if ∀ k ≤ n, within (first + k * step) then some (first + n * step) else none

section Progression

variable (first step : Int) (within : Int → Prop) [DecidablePred within]

theorem progression_zero :
    progression first step within 0 = if within first then some first else none := by
  simp [progression]

theorem progression_succ (n : Nat) : progression first step within (n + 1) =
    (progression first step within n).bind fun value =>
      if within (value + step) then some (value + step) else none := by
  have hnext : first + (n + 1 : Nat) * step = first + n * step + step := by
    push_cast
    ring
  have hsplit : (∀ k ≤ n + 1, within (first + k * step)) ↔
      (∀ k ≤ n, within (first + k * step)) ∧ within (first + n * step + step) := by
    rw [← hnext]
    exact ⟨fun hall => ⟨fun k hk => hall k (Nat.le_succ_of_le hk), hall (n + 1) (Nat.le_refl _)⟩,
      fun hall k hk => (Nat.le_succ_iff.mp hk).elim (hall.1 k) fun heq => heq ▸ hall.2⟩
  unfold progression
  rw [hnext]
  by_cases hall : ∀ k ≤ n, within (first + k * step)
  · rw [if_pos hall, Option.bind_some]
    exact if_congr (hsplit.trans (and_iff_right hall)) rfl rfl
  · rw [if_neg hall, if_neg fun hmore => hall (hsplit.mp hmore).1]
    rfl

end Progression

/-- What the words of a program stand for. -/
abbrev Store := List Char → Int

/-- Expressions over words; whatever else is a unit in them is not known. -/
def Store.reckoning (store : Store) : Reckoning where
  unit
    | [.word word] => store word
    | _ => 0
  quotient := Int.tdiv

def Assignment.run (assignment : Assignment) (store : Store) : Store :=
  Function.update store assignment.word (assignment.value.eval store.reckoning)

def Line.run : Line → Store → Store
  | set assignment, store => assignment.run store
  | when condition assignment, store =>
    if condition.eval store.reckoning = 0 then store else assignment.run store

namespace Loop

/-- The store in which the condition is tested first. -/
def start (loop : Loop) (store : Store) : Store :=
  loop.lines.foldl (fun store line => line.run store) store

def Holds (loop : Loop) (store : Store) : Prop :=
  loop.condition.eval store.reckoning ≠ 0

instance (loop : Loop) (store : Store) : Decidable (loop.Holds store) :=
  inferInstanceAs (Decidable (_ ≠ _))

/-- The store that a round begins with, if there is such a round; `body` is what the
body does in one. -/
def round (loop : Loop) (body : Store → Store) (store : Store) : Nat → Option Store
  | 0 => if loop.Holds (loop.start store) then some (loop.start store) else none
  | n + 1 => do
    let before ← loop.round body store n
    let after := loop.change.run (body before)
    if loop.Holds after then some after else none

/-- The values with which the body is entered, of the word that is changed after every round. -/
def entries (loop : Loop) (body : Store → Store) (store : Store) (n : Nat) : Option Int :=
  (loop.round body store n).map (· loop.change.word)

/-- In a loop whose word moves by the same step in every round, the entries are those of an
arithmetic sequence, up to the first one that is not within the bounds. -/
theorem entries_eq {loop : Loop} {body : Store → Store} {store : Store}
    {steady : Store → Prop} {first step : Int} {within : Int → Prop} [DecidablePred within]
    (hstart : steady (loop.start store)) (hfirst : loop.start store loop.change.word = first)
    (hholds : ∀ store, steady store → (loop.Holds store ↔ within (store loop.change.word)))
    (hchange : ∀ store, steady store → steady (loop.change.run (body store)) ∧
      loop.change.run (body store) loop.change.word = store loop.change.word + step) (n : Nat) :
    loop.entries body store n = progression first step within n := by
  -- A store in which a round is entered is steady, so the next round moves its word by the step.
  have hround : (∀ now, loop.round body store n = some now → steady now) ∧
      loop.entries body store n = progression first step within n := by
    induction n with
    | zero =>
      simp only [entries, round, progression_zero, hholds _ hstart, hfirst]
      by_cases hwithin : within first
      · simp [hwithin, hstart, hfirst]
      · simp [hwithin]
    | succ n ih =>
      obtain ⟨hsteady, hentries⟩ := ih
      rw [progression_succ, ← hentries]
      simp only [entries, round]
      cases hbefore : loop.round body store n with
      | none => simp
      | some before =>
        obtain ⟨hafter, hmoved⟩ := hchange before (hsteady before hbefore)
        simp only [Option.bind_eq_bind, Option.bind_some, Option.map_some, hholds _ hafter, hmoved]
        by_cases hwithin : within (before loop.change.word + step)
        · simp [hwithin, hafter, hmoved]
        · simp [hwithin]
  exact hround.2

end Loop

end BlockSynth.Zig
