import DemandPaging.Layout

/-!
Byte strings of a fixed length: the contents of pages, sectors and buffers.

Every operation is given by saying what each byte of its result is, so its effect is read off one
position at a time. Where a shorter string is laid over a longer one, the bytes it does not reach
stay as they were.
-/

namespace DemandPaging

abbrev Bytes (n : Nat) := Vector UInt8 n

abbrev PageBytes := Bytes pageSize

namespace Bytes

variable {n : Nat}

def fill (n : Nat) (byte : UInt8) : Bytes n := Vector.replicate n byte

def zeros (n : Nat) : Bytes n := fill n 0

/-- `target` with `source` laid over it from `offset` on. -/
def overlay (target : Bytes n) (offset : Nat) (source : Array UInt8) : Bytes n :=
  Vector.ofFn fun i =>
    if offset ≤ i.val then source[i.val - offset]?.getD target[i] else target[i]

def clearFrom (target : Bytes n) (start : Nat) : Bytes n :=
  Vector.ofFn fun i => if start ≤ i.val then 0 else target[i]

/-- `source` cut to `n` bytes, or extended to `n` bytes with zeros. -/
def zeroExtend (n : Nat) (source : Array UInt8) : Bytes n := (zeros n).overlay 0 source

/-- The `length` bytes from `offset` on, as far as there are any. -/
def slice (source : Bytes n) (offset length : Nat) : Array UInt8 :=
  source.toArray.extract offset (offset + length)

@[simp] theorem getElem_fill {byte : UInt8} {i : Nat} (h : i < n) : (fill n byte)[i] = byte := by
  simp [fill]

@[simp] theorem getElem_zeros {i : Nat} (h : i < n) : (zeros n)[i] = 0 := by
  simp [zeros]

theorem getElem_overlay (target : Bytes n) (offset : Nat) (source : Array UInt8) {i : Nat}
    (h : i < n) :
    (target.overlay offset source)[i] =
      if offset ≤ i then source[i - offset]?.getD target[i] else target[i] := by
  simp [overlay]

theorem getElem_clearFrom (target : Bytes n) (start : Nat) {i : Nat} (h : i < n) :
    (target.clearFrom start)[i] = if start ≤ i then 0 else target[i] := by
  simp [clearFrom]

theorem getElem_zeroExtend (source : Array UInt8) {i : Nat} (h : i < n) :
    (zeroExtend n source)[i] = source[i]?.getD 0 := by
  simp [zeroExtend, getElem_overlay]

/-- Nothing shows through of a buffer that is filled from the front and cleared from there on. -/
theorem clearFrom_overlay (target : Bytes n) (source : Array UInt8) :
    (target.overlay 0 source).clearFrom source.size = zeroExtend n source := by
  apply Vector.ext
  intro i hi
  rw [getElem_clearFrom, getElem_zeroExtend]
  split
  · next hle => rw [Array.getElem?_eq_none hle, Option.getD_none]
  · next hlt =>
    rw [getElem_overlay, if_pos (Nat.zero_le i), Nat.sub_zero,
      Array.getElem?_eq_getElem (Nat.lt_of_not_le hlt), Option.getD_some, Option.getD_some]

theorem getElem?_slice (source : Bytes n) {offset length i : Nat} (hi : i < length)
    (hn : offset + i < n) : (source.slice offset length)[i]? = some source[offset + i] := by
  have h : i < min (offset + length) n - offset := by omega
  simp [slice, h]

end Bytes

end DemandPaging
