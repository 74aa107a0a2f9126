/-!
Sets of numbers below a bound, packed into 64-bit words.

Number `i` is bit `i % 64` of word `i / 64`. The last word may have bits past the bound. These are
padding and always clear, so the set is counted and searched by whole words.
-/

namespace DemandPaging

namespace Bitmap

/-- A bit of a row of words; past the row all bits are clear. -/
def bit (words : Array (BitVec 64)) (index : Nat) : Bool :=
  (words[index / 64]?.getD 0).getLsbD (index % 64)

def setBit (words : Array (BitVec 64)) (index : Nat) (on : Bool) : Array (BitVec 64) :=
  let word := words[index / 64]?.getD 0
  let mask := BitVec.twoPow 64 (index % 64)
  words.setIfInBounds (index / 64) (if on then word ||| mask else word &&& ~~~mask)

theorem bit_setBit {words : Array (BitVec 64)} {index : Nat} (on : Bool) (other : Nat)
    (h : index / 64 < words.size) :
    bit (setBit words index on) other = if index = other then on else bit words other := by
  have hindex : index % 64 < 64 := Nat.mod_lt _ (by decide)
  have hother : other % 64 < 64 := Nat.mod_lt _ (by decide)
  simp only [bit, setBit, Array.getElem?_setIfInBounds]
  by_cases hword : index / 64 = other / 64
  · by_cases hbit : index % 64 = other % 64
    · have heq : index = other := by omega
      subst heq
      cases on <;> simp [h, hindex]
    · have hne : index ≠ other := fun he => hbit (by rw [he])
      have hlt : other / 64 < words.size := hword ▸ h
      cases on <;> simp [hword, hlt, Ne.symm hbit, hne, hother]
  · have hne : index ≠ other := fun he => hword (by rw [he])
    simp [hword, hne]

/-- The number of ones in front of the first zero, from the lowest bit on. -/
def trailingOnes (word : BitVec 64) : Nat := (List.range 64).findIdx fun i => !word.getLsbD i

def ones (word : BitVec 64) : Nat := (List.range 64).countP word.getLsbD

end Bitmap

/-- A set of numbers below `size`. -/
structure Bitmap where
  words : Array (BitVec 64)
  /-- The bound of the numbers in the set. -/
  size : Nat
  size_words : words.size = (size + 63) / 64
  padding : ∀ index, size ≤ index → Bitmap.bit words index = false

namespace Bitmap

def empty (size : Nat) : Bitmap where
  words := Array.replicate ((size + 63) / 64) 0
  size := size
  size_words := Array.size_replicate
  padding := fun index _ => by
    simp only [bit, Array.getElem?_replicate]
    split <;> simp

def get (bits : Bitmap) (index : Nat) : Bool := bit bits.words index

theorem div_lt_size_words (bits : Bitmap) {index : Nat} (h : index < bits.size) :
    index / 64 < bits.words.size := by
  have hsize := bits.size_words
  omega

def set (bits : Bitmap) (index : Nat) (h : index < bits.size) (on : Bool) : Bitmap where
  words := setBit bits.words index on
  size := bits.size
  size_words := by simp [setBit, bits.size_words]
  padding := fun other hother => by
    rw [bit_setBit on other (bits.div_lt_size_words h), if_neg (by omega), bits.padding other hother]

/-- The lowest number that is not in the set. It is in the first word that has a zero, and there is
none if that zero is padding. -/
def lowestClear? (bits : Bitmap) : Option Nat :=
  match bits.words.findIdx? (· != BitVec.allOnes 64) with
  | none => none
  | some word =>
      let index := word * 64 + trailingOnes (bits.words[word]?.getD 0)
      if index < bits.size then some index else none

def count (bits : Bitmap) : Nat := (bits.words.toList.map ones).foldr (· + ·) 0

@[simp] theorem get_empty (size index : Nat) : (empty size).get index = false := by
  simp only [get, empty, bit, Array.getElem?_replicate]
  split <;> simp

theorem get_eq_false_of_le {bits : Bitmap} {index : Nat} (h : bits.size ≤ index) :
    bits.get index = false := bits.padding index h

theorem lt_size_of_get {bits : Bitmap} {index : Nat} (h : bits.get index = true) :
    index < bits.size := by
  apply Nat.lt_of_not_le
  intro hle
  rw [get_eq_false_of_le hle] at h
  cases h

@[simp] theorem size_set (bits : Bitmap) (index : Nat) (h : index < bits.size) (on : Bool) :
    (bits.set index h on).size = bits.size := rfl

theorem get_set (bits : Bitmap) {index : Nat} (h : index < bits.size) (on : Bool) (other : Nat) :
    (bits.set index h on).get other = if index = other then on else bits.get other :=
  bit_setBit on other (bits.div_lt_size_words h)

/-! ### Searching -/

/-- The ones in front of the first zero end in front of a zero, unless the word is all ones. -/
theorem trailingOnes_of_ne {word : BitVec 64} (h : word ≠ BitVec.allOnes 64) :
    trailingOnes word < 64 ∧ word.getLsbD (trailingOnes word) = false ∧
      ∀ i < trailingOnes word, word.getLsbD i = true := by
  have hzero : ∃ i ∈ List.range 64, (!word.getLsbD i) = true := by
    apply Decidable.byContradiction
    intro hnone
    refine h (BitVec.eq_of_getLsbD_eq fun i hi => ?_)
    rw [BitVec.getLsbD_allOnes, decide_eq_true hi]
    apply Decidable.byContradiction
    intro hclear
    exact hnone ⟨i, List.mem_range.2 hi, by simpa using hclear⟩
  have hlt : (List.range 64).findIdx (fun i => !word.getLsbD i) < (List.range 64).length :=
    List.findIdx_lt_length.2 hzero
  refine ⟨by simpa [trailingOnes] using hlt, ?_, fun i hi => ?_⟩
  · simpa [trailingOnes] using List.findIdx_getElem (w := hlt)
  · have hbefore := List.not_of_lt_findIdx hi
    rw [List.getElem_range] at hbefore
    simpa using hbefore

theorem bit_of_allOnes {words : Array (BitVec 64)} {index : Nat}
    (h : words[index / 64]? = some (BitVec.allOnes 64)) : bit words index = true := by
  rw [bit, h, Option.getD_some, BitVec.getLsbD_allOnes]
  exact decide_eq_true (Nat.mod_lt _ (by decide))

theorem lowestClear?_eq_some {bits : Bitmap} {index : Nat} (h : bits.lowestClear? = some index) :
    index < bits.size ∧ bits.get index = false ∧ ∀ lower < index, bits.get lower = true := by
  unfold lowestClear? at h
  split at h
  · cases h
  · next word hword =>
    obtain ⟨hlt, hne, hones⟩ := Array.findIdx?_eq_some_iff_getElem.1 hword
    simp only [Array.getElem?_eq_getElem hlt, Option.getD_some] at h
    obtain ⟨htrailing, hclear, hbefore⟩ := trailingOnes_of_ne (by simpa using hne)
    split at h
    · next hsize =>
      cases h
      refine ⟨hsize, ?_, fun lower hlower => ?_⟩
      · have hdiv : (word * 64 + trailingOnes bits.words[word]) / 64 = word := by omega
        have hmod : (word * 64 + trailingOnes bits.words[word]) % 64 =
          trailingOnes bits.words[word] := by omega
        rw [get, bit, hdiv, hmod, Array.getElem?_eq_getElem hlt, Option.getD_some, hclear]
      · by_cases hin : lower / 64 = word
        · have hmod : lower % 64 < trailingOnes bits.words[word] := by omega
          rw [get, bit, hin, Array.getElem?_eq_getElem hlt, Option.getD_some, hbefore _ hmod]
        · have hearlier : lower / 64 < word := by omega
          have hword : bits.words[lower / 64]? = some (BitVec.allOnes 64) := by
            rw [Array.getElem?_eq_getElem (by omega)]
            simpa using hones _ hearlier
          exact bit_of_allOnes hword
    · cases h

theorem lowestClear?_eq_none {bits : Bitmap} (h : bits.lowestClear? = none) {index : Nat}
    (hindex : index < bits.size) : bits.get index = true := by
  have hall : ∀ {word} (hlt : word < bits.words.size), bits.words[word] = BitVec.allOnes 64 →
      word = index / 64 → bits.get index = true := by
    intro word hlt hones hword
    subst hword
    exact bit_of_allOnes (by rw [Array.getElem?_eq_getElem hlt, hones])
  have hlt := bits.div_lt_size_words hindex
  unfold lowestClear? at h
  split at h
  · next hnone =>
    rw [Array.findIdx?_eq_none_iff] at hnone
    exact hall hlt (by simpa using hnone _ (Array.getElem_mem hlt)) rfl
  · next word hword =>
    obtain ⟨hltword, hne, hones⟩ := Array.findIdx?_eq_some_iff_getElem.1 hword
    simp only [Array.getElem?_eq_getElem hltword, Option.getD_some] at h
    obtain ⟨htrailing, -, hbefore⟩ := trailingOnes_of_ne (by simpa using hne)
    split at h
    · cases h
    · next hpast =>
      -- the first zero is padding, so everything below the bound lies in front of it
      by_cases hin : index / 64 = word
      · have hmod : index % 64 < trailingOnes bits.words[word] := by omega
        rw [get, bit, hin, Array.getElem?_eq_getElem hltword, Option.getD_some, hbefore _ hmod]
      · exact hall hlt (by simpa using hones _ (show index / 64 < word by
          omega)) rfl

end Bitmap

end DemandPaging
