import BlockSynth.Proofs.Name.Registry
import Mathlib.Order.Bounds.Defs

/-! # The search for a free identifier

For a name that is taken, one numeral after the other is tried behind it. The numerals are counted
in 32 bits, so it matters how far the search goes: the words it tries are all different, hence it
tries at most one more than there are taken words.
-/
namespace BlockSynth.Registry

/-- A run of the search from a word on, with the words that it tries and the one that it ends with.
The numeral of the word, 1 if it has none, is counted in 32 bits and must not overflow. -/
inductive Searches (names : Registry) (base : String) :
    UInt32 → String → List String → String → Prop
  | free {counter : UInt32} {word : String} : names.isTaken word = false →
    Searches names base counter word [word] word
  | taken {counter : UInt32} {word result : String}
    {tried : List String} : names.isTaken word = true →
    counter.toNat + 1 < UInt32.size →
    Searches names base (counter + 1) (base ++ toString (counter + 1)) tried result →
    Searches names base counter word (word :: tried) result

variable {names : Registry} {base : String}

theorem toString_counter {n : Nat} (h : n < UInt32.size) :
    toString (UInt32.ofNat n) = toString n := by
  show toString (UInt32.ofNat n).toNat = toString n
  rw [UInt32.toNat_ofNat_of_lt' h]

/-- The search goes through the candidates up to the first free one. -/
theorem searches_candidates {i k : Nat} (hi : i ≤ k) (hsize : k + 1 < UInt32.size)
    (hfree : names.isTaken (candidate base k) = false)
    (htaken : ∀ j, i ≤ j → j < k → names.isTaken (candidate base j) = true) :
    Searches names base (UInt32.ofNat (i + 1)) (candidate base i)
      ((List.range' i (k + 1 - i)).map (candidate base)) (candidate base k) := by
  induction hlength : k - i generalizing i with
  | zero =>
    obtain rfl : i = k := by omega
    simpa using Searches.free hfree
  | succ n ih =>
    have hrest := ih (i := i + 1) (by omega) (fun j hj => htaken j (by omega)) (by omega)
    have hcounter : UInt32.ofNat (i + 1) + 1 = UInt32.ofNat (i + 1 + 1) :=
      (UInt32.ofNat_add (i + 1) 1).symm
    have hword : candidate base (i + 1) = base ++ toString (UInt32.ofNat (i + 1) + 1) := by
      rw [hcounter, toString_counter (by omega), candidate]
    have hrange : List.range' i (k + 1 - i) = i :: List.range' (i + 1) (k + 1 - (i + 1)) := by
      rw [← List.range'_succ]
      congr 1
      omega
    rw [hrange, List.map_cons]
    refine .taken (htaken i (Nat.le_refl i) (by omega)) ?_ ?_
    · rw [UInt32.toNat_ofNat_of_lt' (by omega)]
      omega
    · rwa [← hword, hcounter]

/-- With less than `2 ^ 32 - 2` words taken, the search for a free identifier ends before its
counter overflows, after at most one more word than are taken. It ends with the sanitized name if
that is free, and otherwise with the least numeral from 2 on behind it that makes it free. That word
is issued, and nothing else changes. -/
theorem search_ends_with_least_free_numeral (names : Registry)
    (name : String) (h : names.taken.card < UInt32.size - 2) :
    let base := Text.sanitize name
    let word := (names.fresh name).1
    (∃ tried, Searches names base 1 base tried word ∧ tried.length ≤ names.taken.card + 1) ∧
      (names.isTaken base = false → word = base) ∧
      (names.isTaken base = true →
        ∃ k, IsLeast {n | 2 ≤ n ∧ names.isTaken (base ++ toString n) = false} k ∧
          word = base ++ toString k) ∧
      (names.fresh name).2 = { names with issued := word :: names.issued } ∧
      word ∉ names.issued := by
  intro base word
  obtain ⟨k, hle, hword, hfree, htaken⟩ := names.distinct_eq_candidate name
  have hsize : k + 1 < UInt32.size := by omega
  refine ⟨⟨(List.range' 0 (k + 1 - 0)).map (candidate base), ?_, ?_⟩, fun hbase => ?_,
    fun hbase => ?_, rfl, (names.distinct_not_mem name).1⟩
  · have hsearch := searches_candidates (Nat.zero_le k) hsize hfree fun j _ => htaken j
    rwa [← hword] at hsearch
  · simpa using hle
  · cases k with
    | zero => exact hword
    | succ k =>
      have hzero : names.isTaken base = true := htaken 0 (Nat.succ_pos k)
      exact absurd hbase (by simp [hzero])
  · cases k with
    | zero =>
      have hzero : names.isTaken base = false := hfree
      exact absurd hbase (by simp [hzero])
    | succ k =>
      refine ⟨k + 2, ⟨⟨by omega, hfree⟩, fun n hn => ?_⟩, hword⟩
      -- A lesser numeral belongs to a candidate that has been tried before.
      by_contra hlt
      obtain ⟨i, rfl⟩ := Nat.exists_eq_add_of_le' hn.1
      have htried : names.isTaken (base ++ toString (i + 2)) = true := htaken (i + 1) (by omega)
      exact absurd hn.2 (Bool.not_eq_false _ ▸ htried)

/-- A name between its own numerals: two of them are taken, and a third would be free. -/
theorem search_behind_taken_numerals_ends :
    let names : Registry := { reserved := ["x", "x2"], issued := ["x3", "x5"] }
    names.taken.card < UInt32.size - 2 ∧ (names.fresh "x").1 = "x4" ∧
      (∃ tried, Searches names "x" 1 "x" tried "x4" ∧ tried.length ≤ names.taken.card + 1) ∧
      ∃ k, IsLeast {n | 2 ≤ n ∧ names.isTaken ("x" ++ toString n) = false} k ∧
        "x4" = "x" ++ toString k := by
  intro names
  have hcard : names.taken.card < UInt32.size - 2 := by
    have hle := names.card_taken_le
    have hlength : names.issued.length + names.reserved.length = 4 := rfl
    unfold UInt32.size
    omega
  have hword : (names.fresh "x").1 = "x4" := by decide +kernel
  have hbase : Text.sanitize "x" = "x" := by decide +kernel
  have hsearch := search_ends_with_least_free_numeral names "x" hcard
  rw [hbase, hword] at hsearch
  exact ⟨hcard, hword, hsearch.1, hsearch.2.2.1 (by decide)⟩

end BlockSynth.Registry
