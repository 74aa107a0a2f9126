import DemandPaging.Proofs.PageTable.Grant
import Mathlib.Algebra.BigOperators.Intervals

/-!
Virtual addresses split into the indices of a walk and an offset, and rejoin without loss.

A walk looks at 48 bits of an address only, nine for each level and twelve for the offset in the page.
The indices are the digits of the page number to the base of the table size, so those below a level
make up the page number cut off at that level, and all of them its low 36 bits. For a canonical
address that is the whole of it: the upper 16 bits repeat bit 47 and come back when the word is made
canonical again. So the four indices say which page an address lies in, although they leave the upper
bits out.
-/

namespace DemandPaging

/-! ### Canonical words -/

theorem testBit_canonicalize (word : Nat) {i : Nat} (hi : i < 64) :
    (canonicalize word).testBit i = word.testBit (min i 47) := by
  change ((BitVec.ofNat 48 word).signExtend 64).getLsbD i = _
  rw [BitVec.getLsbD_signExtend, decide_eq_true hi, Bool.true_and]
  -- the word's own bits first, then the copies of the highest of them
  split
  · next hlow =>
    rw [BitVec.getLsbD_ofNat, decide_eq_true hlow, Bool.true_and, Nat.min_eq_left (by omega)]
  · next hhigh =>
    rw [BitVec.msb_eq_getLsbD_last, BitVec.getLsbD_ofNat, Nat.min_eq_right (by omega)]
    rfl

/-- Bit 47 can be copied upward by a shift to the top of the word and an arithmetic shift back. -/
theorem canonicalize_eq_sshiftRight (word : Nat) :
    canonicalize word = ((BitVec.ofNat 64 word <<< 16).sshiftRight 16).toNat := by
  refine congrArg BitVec.toNat (BitVec.eq_of_getLsbD_eq fun i hi => ?_)
  refine (testBit_canonicalize word hi).trans ?_
  rw [BitVec.getLsbD_sshiftRight, BitVec.msb_eq_getLsbD_last]
  simp only [BitVec.getLsbD_shiftLeft, BitVec.getLsbD_ofNat]
  split
  · next hlow =>
    rw [Nat.min_eq_left (by omega), Nat.add_sub_cancel_left]
    simp [hlow, hi]
  · next hhigh =>
    rw [Nat.min_eq_right (by omega)]
    simp [hi]

theorem canonicalize_mod (word : Nat) : canonicalize (word % 2 ^ 48) = canonicalize word := by
  have hmod : word % 2 ^ 48 % 0x1000000000000 = word % 0x1000000000000 := Nat.mod_mod _ _
  rw [canonicalize_eq, canonicalize_eq, hmod]

theorem canonicalize_canonicalize (word : Nat) :
    canonicalize (canonicalize word) = canonicalize word := by
  have hlow : canonicalize word % 2 ^ 48 = word % 2 ^ 48 := by
    rw [canonicalize_eq]
    split <;> omega
  rw [← canonicalize_mod, hlow, canonicalize_mod]

theorem isCanonical_iff {word : Nat} (hword : word < Word.limit) :
    isCanonical word = true ↔ word < 2 ^ 47 ∨ 2 ^ 64 - 2 ^ 47 ≤ word := by
  rw [isCanonical, beq_iff_eq]
  refine AddressKind.valid_virtual_iff.trans ?_
  simp only [Word.limit] at hword
  omega

structure MadeCanonical (word : Nat) : Prop where
  shifted : canonicalize word = ((BitVec.ofNat 64 word <<< 16).sshiftRight 16).toNat
  idempotent : canonicalize (canonicalize word) = canonicalize word
  isCanonical_iff : isCanonical word = true ↔ word < 2 ^ 47 ∨ 2 ^ 64 - 2 ^ 47 ≤ word

theorem madeCanonical {word : Nat} (hword : word < Word.limit) : MadeCanonical word where
  shifted := canonicalize_eq_sshiftRight word
  idempotent := canonicalize_canonicalize word
  isCanonical_iff := isCanonical_iff hword

/-! ### The parts of a word -/

theorem pageIndex_eq_ok {address level : Nat} (hlevel : level < pageTableLevels) :
    pageIndex address level = .ok (indexAt address level).val := if_pos hlevel

/-- The indices of the lowest levels are the page number cut off above them. -/
theorem sum_indexAt (word levels : Nat) :
    ∑ level ∈ Finset.range levels, (indexAt word level).val * entryCount ^ level =
      word / pageSize % entryCount ^ levels := by
  induction levels with
  | zero => rw [Finset.sum_range_zero, Nat.pow_zero, Nat.mod_one]
  | succ levels ih =>
      -- cutting off one level higher up adds the digit of that level
      rw [Finset.sum_range_succ, ih, Nat.pow_succ, Nat.mod_mul, val_indexAt, Nat.mul_comm (_ % _)]

/-- The four indices and the offset at their places are the low 48 bits. -/
theorem join_indexAt (word : Nat) :
    (indexAt word 3).val * 2 ^ 39 + (indexAt word 2).val * 2 ^ 30 + (indexAt word 1).val * 2 ^ 21 +
      (indexAt word 0).val * 2 ^ 12 + word % pageSize = word % 2 ^ 48 := by
  have hdigits := sum_indexAt word pageTableLevels
  simp only [pageTableLevels, entryCount, pageSize, Finset.sum_range_succ,
    Finset.sum_range_zero] at hdigits ⊢
  omega

/-! ### Addresses -/

namespace Address

/-- A virtual address is no more than its parts. -/
structure Splits (a : VirtualAddress) : Prop where
  /-- The indices and the offset, put back at their places, make up the address again. -/
  rejoins : ∃ i₃ i₂ i₁ i₀, pageIndex a.toNat 3 = .ok i₃ ∧ pageIndex a.toNat 2 = .ok i₂ ∧
    pageIndex a.toNat 1 = .ok i₁ ∧ pageIndex a.toNat 0 = .ok i₀ ∧
    i₃ < 512 ∧ i₂ < 512 ∧ i₁ < 512 ∧ i₀ < 512 ∧
    canonicalize (i₃ * 2 ^ 39 + i₂ * 2 ^ 30 + i₁ * 2 ^ 21 + i₀ * 2 ^ 12 + a.pageOffset) = a.toNat
  /-- The indices tell pages apart. -/
  sameIndices_iff : ∀ b : VirtualAddress,
    (∀ level < pageTableLevels, pageIndex a.toNat level = pageIndex b.toNat level) ↔
      a.number = b.number
  start : a.number.start = .ok a.roundDown
  toNat_roundDown : a.roundDown.toNat = a.toNat / pageSize * pageSize
  isCanonical_roundDown : isCanonical a.roundDown.toNat = true

theorem sameIndices_iff {a b : VirtualAddress} :
    (∀ level < pageTableLevels, pageIndex a.toNat level = pageIndex b.toNat level) ↔
      a.number = b.number := by
  rw [← Directory.samePage_iff]
  constructor
  · intro h level hlevel
    have hlt : level < pageTableLevels := Nat.lt_of_le_of_lt hlevel (by decide)
    have hindex := h level hlt
    rw [pageIndex_eq_ok hlt, pageIndex_eq_ok hlt] at hindex
    exact Fin.ext (Except.ok.inj hindex)
  · intro h level hlevel
    rw [pageIndex_eq_ok hlevel, pageIndex_eq_ok hlevel, h level (Nat.le_pred_of_lt hlevel)]

theorem canonicalize_join (a : VirtualAddress) :
    canonicalize ((indexAt a.toNat 3).val * 2 ^ 39 + (indexAt a.toNat 2).val * 2 ^ 30 +
      (indexAt a.toNat 1).val * 2 ^ 21 + (indexAt a.toNat 0).val * 2 ^ 12 + a.pageOffset) =
      a.toNat := by
  rw [pageOffset, join_indexAt, canonicalize_mod]
  exact a.valid

theorem splits (a : VirtualAddress) : a.Splits where
  rejoins := ⟨_, _, _, _, pageIndex_eq_ok (by decide), pageIndex_eq_ok (by decide),
    pageIndex_eq_ok (by decide), pageIndex_eq_ok (by decide), Fin.isLt _, Fin.isLt _, Fin.isLt _,
    Fin.isLt _, a.canonicalize_join⟩
  sameIndices_iff _ := Address.sameIndices_iff
  start := start_number a
  toNat_roundDown := by
    have hdigits : a.toNat / pageSize * pageSize + a.pageOffset = a.toNat := Nat.div_add_mod' _ _
    exact Nat.add_right_cancel (a.roundDown_add_pageOffset.trans hdigits.symm)
  isCanonical_roundDown := beq_iff_eq.2 a.roundDown.valid

/-- Every canonical word is an address, and every address is no more than its parts. -/
theorem splits_of_isCanonical {word : Nat} (hword : word < Word.limit) :
    MadeCanonical word ∧ (isCanonical word = true →
      ∃ a : VirtualAddress, ofNat .virtual word = .ok a ∧ a.toNat = word ∧ a.Splits) := by
  refine ⟨madeCanonical hword, fun hcanonical => ?_⟩
  have hvalid : AddressKind.virtual.Valid word := beq_iff_eq.1 hcanonical
  exact ⟨⟨word, hvalid⟩, dif_pos hvalid, rfl, splits _⟩

/-- An address of the upper half, whose upper bits take no part in a walk. -/
theorem splits_of_upperHalf :
    0xFFFF8123456789AB < Word.limit ∧ isCanonical 0xFFFF8123456789AB = true ∧
      MadeCanonical 0xFFFF8123456789AB ∧
      ∃ a : VirtualAddress, ofNat .virtual 0xFFFF8123456789AB = .ok a ∧
        a.toNat = 0xFFFF8123456789AB ∧ pageIndex a.toNat 3 = .ok 258 ∧ a.Splits := by
  have hword : 0xFFFF8123456789AB < Word.limit := by decide
  have hcanonical : isCanonical 0xFFFF8123456789AB = true := by decide
  obtain ⟨hmade, hsplits⟩ := splits_of_isCanonical hword
  obtain ⟨a, ha, hvalue, hparts⟩ := hsplits hcanonical
  refine ⟨hword, hcanonical, hmade, a, ha, hvalue, ?_, hparts⟩
  rw [hvalue]
  decide

end Address

end DemandPaging
