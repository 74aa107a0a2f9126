import DemandPaging.Layout
import DemandPaging.Word

/-!
Addresses, and the numbers of the pages and frames they lie in.

Virtual and physical addresses differ in one point only: which words are addresses at all. A
physical address fits 52 bits and a virtual address is canonical. An address therefore carries its
kind and a proof that it is valid, and everything else is said once for both. The same holds for the
page-sized blocks of the two spaces: a block of virtual memory is a page and one of physical memory
a frame.
-/

namespace DemandPaging

inductive AddressKind where
  | physical
  | virtual
deriving DecidableEq

namespace AddressKind

def Valid : AddressKind → Nat → Prop
  | physical, a => a < physicalLimit
  | virtual, a => canonicalize a = a

instance (kind : AddressKind) (a : Nat) : Decidable (kind.Valid a) := by
  cases kind <;> unfold Valid <;> infer_instance

def invalid : AddressKind → Panic
  | physical => .physicalAddressTooWide
  | virtual => .addressNotCanonical

def addressName : AddressKind → String
  | physical => "PhysicalAddress"
  | virtual => "VirtualAddress"

def numberName : AddressKind → String
  | physical => "FrameNumber"
  | virtual => "PageNumber"

theorem valid_virtual_iff {a : Nat} :
    virtual.Valid a ↔ a < 0x800000000000 ∨ (0xFFFF800000000000 ≤ a ∧ a < 0x10000000000000000) := by
  change canonicalize a = a ↔ _
  rw [canonicalize_eq]
  split <;> omega

theorem valid_zero (kind : AddressKind) : kind.Valid 0 := by
  cases kind with
  | physical => exact (by decide : 0 < physicalLimit)
  | virtual => exact valid_virtual_iff.2 (by omega)

theorem Valid.lt_limit {kind : AddressKind} {a : Nat} (h : kind.Valid a) : a < Word.limit := by
  cases kind with
  | physical => exact Nat.lt_trans h (by decide)
  | virtual =>
      have h := valid_virtual_iff.1 h
      simp only [Word.limit]
      omega

/-- Rounding down to a page never leaves the valid addresses. -/
theorem Valid.roundDown {kind : AddressKind} {a : Nat} (h : kind.Valid a) :
    kind.Valid (a - a % pageSize) := by
  cases kind with
  | physical => exact Nat.lt_of_le_of_lt (Nat.sub_le _ _) h
  | virtual =>
      have h := valid_virtual_iff.1 h
      apply valid_virtual_iff.2
      simp only [pageSize]
      omega

end AddressKind

structure Address (kind : AddressKind) where
  toNat : Nat
  valid : kind.Valid toNat
deriving DecidableEq

abbrev PhysicalAddress := Address .physical

abbrev VirtualAddress := Address .virtual

structure Number (kind : AddressKind) where
  toNat : Nat
deriving DecidableEq

abbrev FrameNumber := Number .physical

abbrev PageNumber := Number .virtual

namespace Address

variable {kind : AddressKind}

theorem ext {a b : Address kind} (h : a.toNat = b.toNat) : a = b := by
  cases a
  cases b
  cases h
  rfl

def ofNat? (kind : AddressKind) (a : Nat) : Option (Address kind) :=
  if h : kind.Valid a then some ⟨a, h⟩ else none

/-- The address of a word that has to be one. -/
def ofNat (kind : AddressKind) (a : Nat) : Except Panic (Address kind) :=
  if h : kind.Valid a then .ok ⟨a, h⟩ else .error kind.invalid

def null (kind : AddressKind) : Address kind := ⟨0, kind.valid_zero⟩

def isNull (a : Address kind) : Bool := a.toNat == 0

def isAligned (a : Address kind) (alignment : Nat) : Except Panic Bool :=
  if alignment ≠ 0 ∧ alignment &&& (alignment - 1) = 0 then .ok (a.toNat % alignment == 0)
  else .error .alignmentNotPowerOfTwo

def isPageAligned (a : Address kind) : Bool := a.toNat % pageSize == 0

def roundDown (a : Address kind) : Address kind := ⟨a.toNat - a.toNat % pageSize, a.valid.roundDown⟩

def pageOffset (a : Address kind) : Nat := a.toNat % pageSize

def add (a : Address kind) (bytes : Nat) : Except Panic (Address kind) := do
  ofNat kind (← Word.add a.toNat bytes)

def sub (a : Address kind) (bytes : Nat) : Except Panic (Address kind) := do
  ofNat kind (← Word.sub a.toNat bytes)

/-- The bytes from `b` up to `a`. -/
def diff (a b : Address kind) : Except Panic Nat := Word.sub a.toNat b.toNat

def add? (a : Address kind) (bytes : Nat) : Option (Address kind) :=
  (Word.add? a.toNat bytes).bind (ofNat? kind)

def number (a : Address kind) : Number kind := ⟨a.toNat / pageSize⟩

def isKernel (a : VirtualAddress) : Bool := kernelBase ≤ a.toNat

def isUser (a : VirtualAddress) : Bool := !a.isKernel

def text (a : Address kind) : String := Word.hex a.toNat

def describe (a : Address kind) : String := kind.addressName ++ "(" ++ a.text ++ ")"

instance : Ord (Address kind) := ⟨compareOn toNat⟩

instance : Std.TransOrd (Address kind) := inferInstanceAs (Std.TransCmp (compareOn toNat))

instance : Std.LawfulEqOrd (Address kind) where
  eq_of_compare h := ext (Nat.compare_eq_eq.1 h)

@[simp] theorem toNat_null : (null kind).toNat = 0 := rfl

@[simp] theorem toNat_roundDown (a : Address kind) :
    a.roundDown.toNat = a.toNat - a.toNat % pageSize := rfl

@[simp] theorem toNat_number (a : Address kind) : a.number.toNat = a.toNat / pageSize := rfl

theorem pageOffset_lt (a : Address kind) : a.pageOffset < pageSize :=
  Nat.mod_lt _ (by decide)

theorem roundDown_add_pageOffset (a : Address kind) :
    a.roundDown.toNat + a.pageOffset = a.toNat :=
  Nat.sub_add_cancel (Nat.mod_le _ _)

end Address

namespace Number

variable {kind : AddressKind}

theorem ext {a b : Number kind} (h : a.toNat = b.toNat) : a = b := by
  cases a
  cases b
  cases h
  rfl

theorem number_roundDown (a : Address kind) : a.roundDown.number = a.number :=
  ext (by simp only [Address.toNat_number, Address.toNat_roundDown, pageSize]; omega)

def start (n : Number kind) : Except Panic (Address kind) := do
  Address.ofNat kind (← Word.mul n.toNat pageSize)

def add (n : Number kind) (count : Nat) : Except Panic (Number kind) := do
  return ⟨← Word.add n.toNat count⟩

def sub (n : Number kind) (count : Nat) : Except Panic (Number kind) := do
  return ⟨← Word.sub n.toNat count⟩

def diff (a b : Number kind) : Except Panic Nat := Word.sub a.toNat b.toNat

def add? (n : Number kind) (count : Nat) : Option (Number kind) :=
  (Word.add? n.toNat count).map Number.mk

def sub? (n : Number kind) (count : Nat) : Option (Number kind) :=
  (Word.sub? n.toNat count).map Number.mk

/-- The number of steps from one block to another, if the second is not below the first. -/
def distance? (a b : Number kind) : Option Nat := Word.sub? b.toNat a.toNat

/-- The blocks from `a` up to, but not including, `b`. -/
def range (a b : Number kind) : List (Number kind) :=
  (List.range' a.toNat (b.toNat - a.toNat)).map Number.mk

def text (n : Number kind) : String := toString n.toNat

def describe (n : Number kind) : String := kind.numberName ++ "(" ++ n.text ++ ")"

instance : Ord (Number kind) := ⟨compareOn toNat⟩

instance : Std.TransOrd (Number kind) := inferInstanceAs (Std.TransCmp (compareOn toNat))

instance : Std.LawfulEqOrd (Number kind) where
  eq_of_compare h := ext (Nat.compare_eq_eq.1 h)

end Number

end DemandPaging
