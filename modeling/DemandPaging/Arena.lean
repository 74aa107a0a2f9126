import DemandPaging.Failure

/-!
Arenas: growing stores whose keys are never used twice.

A key is the position at which its value was added, and a removed value leaves a hole behind. So a
key that outlives its value never finds another one, which is what makes a stored key a weak
reference: looking it up tells whether the value is still there.
-/

namespace DemandPaging

structure Key (α : Type) where
  index : Nat

theorem Key.ext {α : Type} {a b : Key α} (h : a.index = b.index) : a = b := by
  cases a
  cases b
  cases h
  rfl

instance {α : Type} : DecidableEq (Key α) := fun a b =>
  decidable_of_iff (a.index = b.index) ⟨Key.ext, congrArg Key.index⟩

/-- A store of values, addressed by keys. -/
structure Arena (α : Type) where
  cells : Array (Option α)

namespace Arena

variable {α : Type}

def empty : Arena α := ⟨#[]⟩

def get? (arena : Arena α) (key : Key α) : Option α := arena.cells[key.index]?.join

def get (arena : Arena α) (key : Key α) : Except Panic α :=
  match arena.get? key with
  | some value => .ok value
  | none => .error .outOfBounds

def nextKey (arena : Arena α) : Key α := ⟨arena.cells.size⟩

def add (arena : Arena α) (value : α) : Arena α := ⟨arena.cells.push (some value)⟩

def modify (arena : Arena α) (key : Key α) (change : α → α) : Arena α :=
  ⟨arena.cells.modify key.index (Option.map change)⟩

def erase (arena : Arena α) (key : Key α) : Arena α :=
  ⟨arena.cells.modify key.index fun _ => none⟩

/-- The values that are there, oldest first. -/
def values (arena : Arena α) : List α := arena.cells.toList.filterMap id

@[simp] theorem get?_empty (key : Key α) : (empty : Arena α).get? key = none := rfl

theorem get?_add (arena : Arena α) (value : α) (key : Key α) :
    (arena.add value).get? key = if key = arena.nextKey then some value else arena.get? key := by
  by_cases h : key = arena.nextKey
  · subst h
    simp [get?, add, nextKey]
  · have hindex : key.index ≠ arena.cells.size := fun he => h (Key.ext he)
    simp only [get?, add, Array.getElem?_push, if_neg hindex, if_neg h]

theorem get?_modify (arena : Arena α) (key : Key α) (change : α → α) (other : Key α) :
    (arena.modify key change).get? other =
      if key = other then (arena.get? other).map change else arena.get? other := by
  by_cases h : key = other
  · subst h
    simp only [get?, modify, Array.getElem?_modify, if_true]
    cases arena.cells[key.index]? with
    | none => rfl
    | some cell => cases cell <;> rfl
  · have hindex : key.index ≠ other.index := fun he => h (Key.ext he)
    simp only [get?, modify, Array.getElem?_modify, if_neg hindex, if_neg h]

/-- Two changes that do the same to the value that is there. -/
theorem modify_congr {arena : Arena α} {key : Key α} {change change' : α → α}
    (h : ∀ value, arena.get? key = some value → change value = change' value) :
    arena.modify key change = arena.modify key change' := by
  simp only [modify, Arena.mk.injEq]
  refine Array.ext_getElem? fun i => ?_
  simp only [Array.getElem?_modify]
  split
  · next hi =>
    subst hi
    simp only [get?] at h
    cases hcell : arena.cells[key.index]? with
    | none => rfl
    | some cell =>
        rw [hcell, Option.join_some] at h
        cases cell with
        | none => rfl
        | some value => simp only [Option.map_some, h value rfl]
  · rfl

theorem get?_erase (arena : Arena α) (key other : Key α) :
    (arena.erase key).get? other = if key = other then none else arena.get? other := by
  by_cases h : key = other
  · subst h
    simp only [get?, erase, Array.getElem?_modify, if_true]
    cases arena.cells[key.index]? <;> rfl
  · have hindex : key.index ≠ other.index := fun he => h (Key.ext he)
    simp only [get?, erase, Array.getElem?_modify, if_neg hindex, if_neg h]

theorem get?_nextKey (arena : Arena α) : arena.get? arena.nextKey = none := by
  simp [get?, nextKey]

theorem index_lt_of_get? {arena : Arena α} {key : Key α} (h : arena.get? key ≠ none) :
    key.index < arena.nextKey.index := by
  rw [nextKey, ← Nat.not_le]
  exact fun hge => h (by rw [get?, Array.getElem?_eq_none hge, Option.join_none])

@[simp] theorem nextKey_modify (arena : Arena α) (key : Key α) (change : α → α) :
    (arena.modify key change).nextKey = arena.nextKey := by
  simp [nextKey, modify]

@[simp] theorem nextKey_erase (arena : Arena α) (key : Key α) :
    (arena.erase key).nextKey = arena.nextKey := by
  simp [nextKey, erase]

theorem index_nextKey_add (arena : Arena α) (value : α) :
    (arena.add value).nextKey.index = arena.nextKey.index + 1 := by
  simp [nextKey, add]

theorem mem_values_iff (arena : Arena α) (value : α) :
    value ∈ arena.values ↔ ∃ key, arena.get? key = some value := by
  simp only [values, List.mem_filterMap, id_eq, exists_eq_right, Array.mem_toList_iff,
    Array.mem_iff_getElem?]
  constructor
  · rintro ⟨i, hi⟩
    exact ⟨⟨i⟩, by simp [get?, hi]⟩
  · rintro ⟨key, hkey⟩
    refine ⟨key.index, ?_⟩
    unfold get? at hkey
    cases h : arena.cells[key.index]? with
    | none => simp [h] at hkey
    | some cell => simpa [h] using hkey

end Arena

end DemandPaging
