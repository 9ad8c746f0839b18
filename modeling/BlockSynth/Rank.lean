/-! # Binding ranks

A rank is how tightly a piece of code holds together, or how tightly the place it is put into holds
it. The scale is that of the usual operator languages, from literals and names, which never come
apart, to code that stands on its own.
-/
namespace BlockSynth

/-- The scale, tightest first. -/
inductive Rank
  | atomic
  | unaryPostfix
  | unaryPrefix
  | multiplicative
  | additive
  | relational
  | equality
  | logicalAnd
  | logicalOr
  | conditional
  | assignment
  | none
  deriving DecidableEq, Repr

namespace Rank

def all : List Rank :=
  [atomic, unaryPostfix, unaryPrefix, multiplicative, additive, relational, equality, logicalAnd,
    logicalOr, conditional, assignment, none]

/-- A lower level binds tighter. -/
def level : Rank → Nat
  | atomic => 0
  | unaryPostfix => 1
  | unaryPrefix => 2
  | multiplicative => 3
  | additive => 4
  | relational => 5
  | equality => 6
  | logicalAnd => 7
  | logicalOr => 8
  | conditional => 9
  | assignment => 10
  | none => 99

def name : Rank → String
  | atomic => "atomic"
  | unaryPostfix => "unary-postfix"
  | unaryPrefix => "unary-prefix"
  | multiplicative => "multiplicative"
  | additive => "additive"
  | relational => "relational"
  | equality => "equality"
  | logicalAnd => "logical-and"
  | logicalOr => "logical-or"
  | conditional => "conditional"
  | assignment => "assignment"
  | none => "none"

/-- Spellings that stand at a rank, for the reader of the reference page. -/
def examples : Rank → List String
  | atomic => ["0", "x", ".\x7b a, b \x7d"]
  | unaryPostfix => ["f()", "a.b", "a[i]"]
  | unaryPrefix => ["-x", "!x"]
  | multiplicative => ["*", "/", "%"]
  | additive => ["+", "-", "++"]
  | relational => ["<", "<=", ">", ">="]
  | equality => ["==", "!="]
  | logicalAnd => ["and"]
  | logicalOr => ["or"]
  | conditional => ["if (c) a else b"]
  | assignment => ["="]
  | none => []

def ofName? (name : String) : Option Rank :=
  all.find? (·.name == name)

def bindsTighter (a b : Rank) : Bool :=
  a.level < b.level

instance : Ord Rank where
  compare a b := compare a.level b.level

/-- Pairs of one level that read the same under either grouping: chains of calls and accesses, and
chains of one logical connective. -/
def chains : List (Rank × Rank) :=
  [(unaryPostfix, unaryPostfix), (logicalAnd, logicalAnd), (logicalOr, logicalOr)]

/-- Whether code of rank `inner` has to be wrapped where `outer` is asked for. At one level it has
to, unless it cannot come apart, nothing surrounds it, or the pair chains. -/
def needsParens (outer inner : Rank) : Bool :=
  if outer.level > inner.level then false
  else if outer = inner ∧ (outer = atomic ∨ outer = none) then false
  else !chains.contains (outer, inner)

end Rank

end BlockSynth
