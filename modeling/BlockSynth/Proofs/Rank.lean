import BlockSynth.Rank

/-! # Wrapping

Code that stands at a place without parentheses is nowhere looser than the place, and whatever is
not looser than that code does not need them there either.
-/
namespace BlockSynth.Rank

theorem level_injective : Function.Injective level := by
  intro a b h
  cases a <;> cases b <;> first | rfl | exact absurd h (by decide)

theorem needsParens_of_lt {place rank : Rank} (h : rank.level < place.level) :
    place.needsParens rank = false :=
  if_pos h

theorem level_le_of_needsParens {place rank : Rank} (h : place.needsParens rank = false) :
    rank.level ≤ place.level := by
  cases place <;> cases rank <;> first | decide | exact absurd h (by decide)

theorem needsParens_atomic (place : Rank) : place.needsParens atomic = false := by
  cases place <;> rfl

theorem level_le_none (rank : Rank) : rank.level ≤ none.level := by
  cases rank <;> decide

theorem needsParens_of_le {place rank tighter : Rank} (h : place.needsParens rank = false)
    (hle : tighter.level ≤ rank.level) : place.needsParens tighter = false := by
  rcases Nat.lt_or_ge tighter.level place.level with hlt | hge
  · exact needsParens_of_lt hlt
  · have hrank := level_le_of_needsParens h
    have heq : tighter = rank := level_injective (Nat.le_antisymm hle (Nat.le_trans hrank hge))
    rw [heq, h]

end BlockSynth.Rank
