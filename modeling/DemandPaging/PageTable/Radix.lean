import DemandPaging.PageTable.Entry

/-!
Page tables of every level.

A table of level 0 holds 512 entries and a table of level `n + 1` holds up to 512 tables of level
`n`. A table is walked along the indices of an address, from its own level down to 0; a walk ends
early where a table is missing. Storing an entry makes the tables it needs and leaves every other
path as it was.
-/

namespace DemandPaging

@[reducible] def Table : Nat → Type
  | 0 => Vector PageEntry entryCount
  | level + 1 => Vector (Option (Table level)) entryCount

namespace Table

def empty : (level : Nat) → Table level
  | 0 => Vector.replicate entryCount PageEntry.empty
  | _ + 1 => Vector.replicate entryCount none

/-- The entry for an address, if every table on the way to it exists. -/
def find? : (level : Nat) → Table level → (address : Nat) → Option PageEntry
  | 0, table, address => some table[indexAt address 0]
  | level + 1, table, address =>
      match table[indexAt address (level + 1)] with
      | some child => find? level child address
      | none => none

/-- Stores the entry for an address, making the tables on the way to it. -/
def store : (level : Nat) → Table level → (address : Nat) → PageEntry → Table level
  | 0, table, address, entry => table.set (indexAt address 0) entry
  | level + 1, table, address, entry =>
      let index := indexAt address (level + 1)
      let child := table[index].getD (empty level)
      table.set index (some (store level child address entry))

def presentCount : (level : Nat) → Table level → Nat
  | 0, table => table.toList.countP PageEntry.isPresent
  | level + 1, table =>
      (table.toList.map fun child => child.elim 0 (presentCount level)).foldr (· + ·) 0

/-- Two addresses take the same path from a level down. -/
def SamePath (level a b : Nat) : Prop := ∀ l ≤ level, indexAt a l = indexAt b l

instance (level a b : Nat) : Decidable (SamePath level a b) :=
  inferInstanceAs (Decidable (∀ l ≤ level, _))

theorem samePath_zero {a b : Nat} : SamePath 0 a b ↔ indexAt a 0 = indexAt b 0 :=
  ⟨fun h => h 0 (Nat.le_refl 0), fun h l hl => by rw [Nat.le_zero.1 hl]; exact h⟩

theorem samePath_succ {level a b : Nat} :
    SamePath (level + 1) a b ↔
      indexAt a (level + 1) = indexAt b (level + 1) ∧ SamePath level a b := by
  constructor
  · intro h
    exact ⟨h (level + 1) (Nat.le_refl _), fun l hl => h l (Nat.le_succ_of_le hl)⟩
  · rintro ⟨htop, hrest⟩ l hl
    rcases Nat.lt_or_ge l (level + 1) with hlt | hge
    · exact hrest l (Nat.le_of_lt_succ hlt)
    · rw [Nat.le_antisymm hl hge]
      exact htop

theorem find?_congr (level : Nat) (table : Table level) {a b : Nat} (h : SamePath level a b) :
    find? level table a = find? level table b := by
  induction level with
  | zero =>
      rw [samePath_zero] at h
      simp only [find?, h]
  | succ level ih =>
      obtain ⟨htop, hrest⟩ := samePath_succ.1 h
      simp only [find?, htop]
      cases table[indexAt b (level + 1)] with
      | none => rfl
      | some child => exact ih child hrest

theorem getD_find?_empty (level address : Nat) :
    (find? level (empty level) address).getD PageEntry.empty = PageEntry.empty := by
  cases level with
  | zero => simp [find?, empty]
  | succ level => simp [find?, empty]

theorem find?_store_self (level : Nat) (table : Table level) (address : Nat) (entry : PageEntry) :
    find? level (store level table address entry) address = some entry := by
  induction level with
  | zero => simp [find?, store]
  | succ level ih => simp [find?, store, ih]

/-- Storing an entry leaves the entries on other paths alone; where a table was missing there is
now an empty entry. -/
theorem find?_store_of_not_samePath (level : Nat) (table : Table level) {a b : Nat}
    (entry : PageEntry) (h : ¬SamePath level a b) :
    (find? level (store level table a entry) b).getD PageEntry.empty =
      (find? level table b).getD PageEntry.empty := by
  induction level with
  | zero =>
      rw [samePath_zero] at h
      have hindex : (indexAt a 0).val ≠ (indexAt b 0).val := fun he => h (Fin.ext he)
      simp [find?, store, Vector.getElem_set_ne, hindex]
  | succ level ih =>
      by_cases htop : indexAt a (level + 1) = indexAt b (level + 1)
      · have hrest : ¬SamePath level a b := fun hp => h (samePath_succ.2 ⟨htop, hp⟩)
        simp only [find?, store, htop]
        have hself : (table.set (indexAt b (level + 1))
            (some (store level (table[indexAt b (level + 1)].getD (empty level)) a entry)))[
              indexAt b (level + 1)] =
            some (store level (table[indexAt b (level + 1)].getD (empty level)) a entry) := by
          simp
        rw [hself]
        simp only []
        rw [ih _ hrest]
        cases table[indexAt b (level + 1)] with
        | none => simp [getD_find?_empty]
        | some child => rfl
      · have hindex : (indexAt a (level + 1)).val ≠ (indexAt b (level + 1)).val :=
          fun he => htop (Fin.ext he)
        simp [find?, store, Vector.getElem_set_ne, hindex]

end Table

end DemandPaging
