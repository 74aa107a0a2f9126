import DemandPaging.Proofs.PageTable.Grant
import Mathlib.Data.Nat.Count

/-!
How many pages a page directory maps.

A directory counts its mapped pages by going through its tables. The pages that it can tell apart are
numbered by the 36 bits of an address that take part in a walk, so the count is that of the numbers
whose walk ends at a present entry, and a list that names every mapped page once is as long.
-/

namespace DemandPaging

/-! ### Counting along a list -/

section

variable {α : Type} {q : Nat → Prop} [DecidablePred q]

theorem count_congr {q' : Nat → Prop} [DecidablePred q'] {n : Nat}
    (h : ∀ k < n, q k ↔ q' k) : Nat.count q n = Nat.count q' n :=
  Nat.le_antisymm (Nat.count_mono_left fun k hk => (h k hk).1)
    (Nat.count_mono_left fun k hk => (h k hk).2)

theorem countP_eq_count (xs : List α) (p : α → Bool)
    (h : ∀ i (hi : i < xs.length), p xs[i] = true ↔ q i) : xs.countP p = Nat.count q xs.length := by
  induction xs using List.reverseRecOn with
  | nil => rfl
  | append_singleton xs x ih =>
      have hlast := h xs.length (by simp)
      rw [List.getElem_concat_length rfl] at hlast
      rw [List.countP_append, List.length_append, List.length_singleton, Nat.count_succ,
        List.countP_singleton, ih fun i hi => ?_]
      · simp only [hlast]
      · rw [← h i (by simp; omega), List.getElem_append_left hi]

theorem sum_map_eq_count (xs : List α) (f : α → Nat) (size : Nat)
    (h : ∀ i (hi : i < xs.length), f xs[i] = Nat.count (fun k => q (i * size + k)) size) :
    (xs.map f).sum = Nat.count q (xs.length * size) := by
  induction xs using List.reverseRecOn with
  | nil => simp
  | append_singleton xs x ih =>
      have hlast := h xs.length (by simp)
      rw [List.getElem_concat_length rfl] at hlast
      rw [List.map_append, List.sum_append, List.map_singleton, List.sum_singleton, hlast,
        List.length_append, List.length_singleton, Nat.add_mul, Nat.one_mul, Nat.count_add,
        ih fun i hi => ?_]
      rw [← h i (by simp; omega), List.getElem_append_left hi]

end

/-! ### Tables -/

namespace Table

def HasPresent (level : Nat) (table : Table level) (n : Nat) : Prop :=
  (find? level table (n * pageSize)).any PageEntry.isPresent = true

instance (level : Nat) (table : Table level) : DecidablePred (HasPresent level table) :=
  fun _ => inferInstanceAs (Decidable (_ = true))

theorem val_indexAt_mul (n level : Nat) :
    (indexAt (n * pageSize) level).val = n / entryCount ^ level % entryCount := by
  rw [val_indexAt, Nat.mul_div_cancel n (by decide)]

theorem hasPresent_succ {level : Nat} {table : Table (level + 1)} {i k : Nat} (hi : i < entryCount)
    (hk : k < entryCount ^ (level + 1)) :
    HasPresent (level + 1) table (i * entryCount ^ (level + 1) + k) ↔
      ∃ child, table[i] = some child ∧ HasPresent level child k := by
  have hindex : indexAt ((i * entryCount ^ (level + 1) + k) * pageSize) (level + 1) = ⟨i, hi⟩ := by
    apply Fin.ext
    rw [val_indexAt_mul, Nat.mul_comm i, Nat.mul_add_div (Nat.pow_pos (by decide)),
      Nat.div_eq_of_lt hk, Nat.add_zero, Nat.mod_eq_of_lt hi]
  have hpath : SamePath level ((i * entryCount ^ (level + 1) + k) * pageSize) (k * pageSize) := by
    intro l hl
    apply Fin.ext
    have hsplit : entryCount ^ (level + 1) =
        entryCount ^ l * (entryCount * entryCount ^ (level - l)) := by
      rw [← Nat.pow_succ', ← Nat.pow_add]
      congr 1
      omega
    rw [val_indexAt_mul, val_indexAt_mul, hsplit, Nat.mul_left_comm,
      Nat.mul_add_div (Nat.pow_pos (by decide)), Nat.mul_left_comm, Nat.mul_add_mod]
  simp only [HasPresent, find?, hindex]
  cases hchild : table[i] with
  | none => simp
  | some child => simp [find?_congr level child hpath]

theorem presentCount_eq_count (level : Nat) (table : Table level) :
    presentCount level table = Nat.count (HasPresent level table) (entryCount ^ (level + 1)) := by
  induction level with
  | zero =>
      rw [presentCount, countP_eq_count (q := HasPresent 0 table)]
      · simp
      · intro i hi
        have hlt : i < entryCount := by simpa using hi
        have hindex : indexAt (i * pageSize) 0 = ⟨i, hlt⟩ :=
          Fin.ext (by rw [val_indexAt_mul, Nat.pow_zero, Nat.div_one, Nat.mod_eq_of_lt hlt])
        simp [HasPresent, find?, hindex]
  | succ level ih =>
      rw [presentCount, ← List.sum_eq_foldr, sum_map_eq_count (q := HasPresent (level + 1) table) _ _
        (entryCount ^ (level + 1))]
      · rw [Vector.length_toList, ← Nat.pow_succ']
      · intro i hi
        have hlt : i < entryCount := by simpa using hi
        have hsame : ∀ k < entryCount ^ (level + 1),
            HasPresent (level + 1) table (i * entryCount ^ (level + 1) + k) ↔
              ∃ child, table[i] = some child ∧ HasPresent level child k := fun k hk =>
          hasPresent_succ hlt hk
        rw [Vector.getElem_toList]
        cases hchild : table[i] with
        | none =>
            rw [Option.elim_none, count_congr hsame]
            simp [hchild]
        | some child =>
            rw [Option.elim_some, ih]
            refine count_congr fun k hk => ?_
            simp [hsame k hk, hchild]

end Table

/-! ### Directories -/

namespace Directory

/-- The bits of an address that take part in a walk. -/
def walkNumber (va : VirtualAddress) : Nat := va.number.toNat % entryCount ^ pageTableLevels

theorem walkNumber_lt (va : VirtualAddress) : walkNumber va < entryCount ^ pageTableLevels :=
  Nat.mod_lt _ (Nat.pow_pos (by decide))

theorem number_eq_of_walkNumber_eq {a b : VirtualAddress} (h : walkNumber a = walkNumber b) :
    a.number = b.number := by
  have ha := AddressKind.valid_virtual_iff.1 a.valid
  have hb := AddressKind.valid_virtual_iff.1 b.valid
  rw [Address.number_eq_number_iff]
  simp only [walkNumber, Address.toNat_number, entryCount, pageTableLevels, pageSize] at *
  norm_num at h ha hb ⊢
  omega

theorem exists_walkNumber_eq {n : Nat} (h : n < entryCount ^ pageTableLevels) :
    ∃ va, walkNumber va = n := by
  have hvalid : AddressKind.virtual.Valid (canonicalize (n * pageSize)) := by
    rw [AddressKind.valid_virtual_iff, canonicalize_eq]
    split <;> omega
  refine ⟨⟨_, hvalid⟩, ?_⟩
  simp only [entryCount, pageTableLevels] at h
  norm_num at h
  simp only [walkNumber, Address.toNat_number, canonicalize_eq, entryCount,
    pageTableLevels, pageSize]
  norm_num
  split <;> omega

theorem isMapped_iff_hasPresent (directory : Directory) (va : VirtualAddress) :
    directory.isMapped va = true ↔ Table.HasPresent _ directory.root (walkNumber va) := by
  have hpath : Table.SamePath (pageTableLevels - 1) (walkNumber va * pageSize) va.toNat := by
    intro l hl
    apply Fin.ext
    rw [Table.val_indexAt_mul, val_indexAt]
    have hlevels : l + (pageTableLevels - 1 - l + 1) = pageTableLevels := by
      simp only [pageTableLevels] at *
      omega
    have hsplit : entryCount ^ pageTableLevels =
        entryCount ^ l * (entryCount * entryCount ^ (pageTableLevels - 1 - l)) := by
      rw [← Nat.pow_succ', ← Nat.pow_add, hlevels]
    rw [walkNumber, Address.toNat_number, hsplit, Nat.mod_mul_right_div_self,
      Nat.mod_mul_right_mod]
  rw [Table.HasPresent, Table.find?_congr _ _ hpath, isMapped, find?, Option.isSome_filter]

/-- A list that names every mapped page once is as long as the count of mapped pages. -/
theorem mappedPages_eq_length {directory : Directory} {addresses : List VirtualAddress}
    (hnodup : (addresses.map Address.number).Nodup)
    (hmem : ∀ va, directory.isMapped va = true ↔ va.number ∈ addresses.map Address.number) :
    directory.mappedPages = addresses.length := by
  have hcodes : (addresses.map walkNumber).Nodup := by
    rw [List.Nodup, List.pairwise_map] at hnodup ⊢
    exact hnodup.imp fun hne he => hne (number_eq_of_walkNumber_eq he)
  have hsame : (Finset.range (entryCount ^ pageTableLevels)).filter
      (Table.HasPresent _ directory.root) = (addresses.map walkNumber).toFinset := by
    ext n
    rw [Finset.mem_filter, Finset.mem_range, List.mem_toFinset, List.mem_map]
    constructor
    · rintro ⟨hlt, hpresent⟩
      obtain ⟨va, rfl⟩ := exists_walkNumber_eq hlt
      obtain ⟨a, ha, hnumber⟩ :=
        List.mem_map.1 ((hmem va).1 ((isMapped_iff_hasPresent _ _).2 hpresent))
      exact ⟨a, ha, by rw [walkNumber, walkNumber, hnumber]⟩
    · rintro ⟨a, ha, rfl⟩
      exact ⟨walkNumber_lt a, (isMapped_iff_hasPresent _ _).1
        ((hmem a).2 (List.mem_map_of_mem ha))⟩
  rw [mappedPages, Table.presentCount_eq_count, Nat.count_eq_card_filter_range]
  exact (congrArg Finset.card hsame).trans
    ((List.toFinset_card_of_nodup hcodes).trans (List.length_map _))

end Directory

end DemandPaging
