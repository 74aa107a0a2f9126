import DemandPaging.Backing.Swap
import DemandPaging.Proofs.Computation
import Mathlib.Tactic

/-!
What the slots of the swap area hold.

The eight sectors of a slot, read one after the other, are the page in it. A transfer to or from the
device goes sector by sector and may be refused half way; one that is not refused moves the page as
a whole. Slots have no sector in common, so a page that is written to one slot leaves the pages in
all others as they were, and reading changes no page at all.
-/

namespace DemandPaging

namespace Disk

/-- The page in the sectors from `first` on; sectors that the medium does not have count as
zeros. -/
def pageAt (disk : Disk) (first : Nat) : PageBytes :=
  Vector.ofFn fun j =>
    (disk.sectors[first + j.val / sectorSize]?.getD (Bytes.zeros sectorSize)).get
      ⟨j.val % sectorSize, Nat.mod_lt _ (by decide)⟩

theorem getElem_pageAt (disk : Disk) (first : Nat) {j : Nat} (h : j < pageSize) :
    (disk.pageAt first)[j] =
      (disk.sectors[first + j / sectorSize]?.getD (Bytes.zeros sectorSize)).get
        ⟨j % sectorSize, Nat.mod_lt _ (by decide)⟩ := by
  simp [pageAt]

theorem pageAt_congr {disk disk' : Disk} (first : Nat)
    (h : ∀ i < sectorsPerPage, disk'.sectors[first + i]? = disk.sectors[first + i]?) :
    disk'.pageAt first = disk.pageAt first := by
  apply Vector.ext
  intro j hj
  have hi : j / sectorSize < sectorsPerPage := by
    simp only [sectorSize, sectorsPerPage, pageSize] at *
    omega
  simp only [getElem_pageAt, h _ hi]

end Disk

/-- Replacing a sector of a page changes the bytes of that sector only. -/
theorem Bytes.getElem_setSector (page : PageBytes) (i : Fin sectorsPerPage) (bytes : Sector)
    {j : Nat} (h : j < pageSize) :
    (page.setSector i bytes)[j] =
      if j / sectorSize = i.val then bytes.get ⟨j % sectorSize, Nat.mod_lt _ (by decide)⟩
      else page[j] := by
  have hi := i.isLt
  simp only [Bytes.setSector, Bytes.getElem_overlay, sectorsPerPage, sectorSize, pageSize] at *
  by_cases hin : j / 512 = i.val
  · have hle : i.val * 512 ≤ j := by omega
    have hsub : j - i.val * 512 = j % 512 := by omega
    have hlt : j % 512 < 512 := by omega
    rw [if_pos hle, if_pos hin, hsub]
    simp [hlt, Vector.get]
  · rw [if_neg hin]
    split
    · next hle =>
      have hge : 512 ≤ j - i.val * 512 := by omega
      rw [Array.getElem?_eq_none (by simpa using hge), Option.getD_none]
    · rfl

theorem Bytes.get_sector (page : PageBytes) (i : Fin sectorsPerPage) {j : Nat}
    (hj : j < sectorSize) (h : i.val * sectorSize + j < pageSize) :
    (page.sector i).get ⟨j, hj⟩ = page[i.val * sectorSize + j] := by
  rw [sector]
  exact (Vector.getElem_ofFn hj).trans rfl

namespace Disk

variable {disk disk' : Disk}

/-! ### Reading -/

theorem sectors_readSector (disk : Disk) (sector : Nat) :
    (disk.readSector sector).2.sectors = disk.sectors := by
  unfold readSector
  split <;> rfl

theorem readSector_eq_ok {sector : Nat} {bytes : Sector}
    (h : disk.readSector sector = (.ok bytes, disk')) : disk.sectors[sector]? = some bytes := by
  unfold readSector at h
  split at h
  · cases h
  · have hpeek := congrArg Prod.fst h
    simp only [peek] at hpeek
    split at hpeek
    · next found hfound =>
      cases hpeek
      exact hfound
    · cases hpeek

/-- Reading changes no sector; what it leaves in the page are the sectors that were read. -/
theorem readSectors_eq {first : Nat} {page page' : PageBytes} {result : Except BlockError Unit}
    (indices : List (Fin sectorsPerPage))
    (h : disk.readSectors first page indices = (result, page', disk')) :
    disk'.sectors = disk.sectors ∧ (result = .ok () → ∀ (j : Nat) (hj : j < pageSize),
      page'[j] = if ∃ i ∈ indices, j / sectorSize = i.val then (disk.pageAt first)[j]
        else page[j]) := by
  induction indices generalizing disk page with
  | nil =>
      cases h
      exact ⟨rfl, fun _ j hj => by simp⟩
  | cons i rest ih =>
      simp only [readSectors] at h
      cases hread : disk.readSector (first + i) with
      | mk answer after =>
      rw [hread] at h
      have hsame : after.sectors = disk.sectors := by
        have hsectors := sectors_readSector disk (first + i)
        rwa [hread] at hsectors
      cases answer with
      | error cause =>
          cases h
          exact ⟨hsame, fun hok => by cases hok⟩
      | ok bytes =>
          obtain ⟨hrest, hbytes⟩ := ih h
          refine ⟨hrest.trans hsame, fun hok j hj => ?_⟩
          have hpage : after.pageAt first = disk.pageAt first :=
            pageAt_congr first fun k _ => by rw [hsame]
          rw [hbytes hok j hj, hpage, Bytes.getElem_setSector]
          by_cases hin : ∃ k ∈ rest, j / sectorSize = k.val
          · obtain ⟨k, hk, hjk⟩ := hin
            rw [if_pos ⟨k, hk, hjk⟩, if_pos ⟨k, List.mem_cons_of_mem _ hk, hjk⟩]
          · rw [if_neg hin]
            by_cases hi : j / sectorSize = i.val
            · rw [if_pos hi, if_pos ⟨i, List.mem_cons_self, hi⟩, getElem_pageAt]
              simp only [hi, readSector_eq_ok hread, Option.getD_some]
            · rw [if_neg hi, if_neg]
              rintro ⟨k, hk, hjk⟩
              rcases List.mem_cons.1 hk with rfl | hk
              · exact hi hjk
              · exact hin ⟨k, hk, hjk⟩

/-- Reading a page changes no sector. One that was read in full is the one in the sectors. -/
theorem readPage_eq {first : Nat} {page page' : PageBytes} {result : Except BlockError Unit}
    (h : disk.readPage first page = (result, page', disk')) :
    disk'.sectors = disk.sectors ∧ (result = .ok () → page' = disk.pageAt first) := by
  obtain ⟨hsame, hbytes⟩ := readSectors_eq _ h
  refine ⟨hsame, fun hok => ?_⟩
  apply Vector.ext
  intro j hj
  have hi : j / sectorSize < sectorsPerPage := by
    simp only [sectorSize, sectorsPerPage, pageSize] at *
    omega
  rw [hbytes hok j hj, if_pos ⟨⟨j / sectorSize, hi⟩, List.mem_finRange _, rfl⟩]

/-- The device does not see the buffer that it reads into. -/
theorem exists_readSectors {first : Nat} {page page' : PageBytes} {result : Except BlockError Unit}
    (indices : List (Fin sectorsPerPage))
    (h : disk.readSectors first page indices = (result, page', disk')) (old : PageBytes) :
    ∃ left, disk.readSectors first old indices = (result, left, disk') := by
  induction indices generalizing disk page old with
  | nil =>
      cases h
      exact ⟨old, rfl⟩
  | cons i rest ih =>
      simp only [readSectors] at h ⊢
      cases hread : disk.readSector (first + i) with
      | mk answer after =>
      rw [hread] at h
      cases answer with
      | ok bytes => exact ih h _
      | error cause =>
          cases h
          exact ⟨old, rfl⟩

/-- A page that was read in full is there whatever was in the buffer. -/
theorem readPage_of_ok {first : Nat} {page page' : PageBytes}
    (h : disk.readPage first page = (.ok (), page', disk')) (old : PageBytes) :
    disk.readPage first old = (.ok (), page', disk') := by
  obtain ⟨left, hleft⟩ := exists_readSectors _ h old
  rw [show disk.readPage first old = _ from hleft, (readPage_eq h).2 rfl, (readPage_eq hleft).2 rfl]

/-! ### Writing -/

theorem writeSector_eq_ok {sector : Nat} {bytes : Sector}
    (h : disk.writeSector sector bytes = (.ok (), disk')) (other : Nat) :
    disk'.sectors[other]? = if sector = other then some bytes else disk.sectors[other]? := by
  unfold writeSector at h
  split at h
  · cases h
  · unfold poke at h
    split at h
    · next written hwritten =>
      split at hwritten
      · next hlt =>
        cases hwritten
        cases h
        simp only [asked, Array.getElem?_setIfInBounds]
        split
        · next heq =>
          subst heq
          simp
        · rfl
      · cases hwritten
    · cases h

/-- Writing that was not refused replaced the sectors of the page and no others. -/
theorem writeSectors_eq_ok {first : Nat} {page : PageBytes} (indices : List (Fin sectorsPerPage))
    (h : disk.writeSectors first page indices = (.ok (), disk')) (s : Nat) :
    (∀ i ∈ indices, s = first + i.val → disk'.sectors[s]? = some (page.sector i)) ∧
      ((∀ i ∈ indices, s ≠ first + i.val) → disk'.sectors[s]? = disk.sectors[s]?) := by
  induction indices generalizing disk with
  | nil =>
      cases h
      exact ⟨fun i hi => absurd hi List.not_mem_nil, fun _ => rfl⟩
  | cons i rest ih =>
      simp only [writeSectors] at h
      cases hwrite : disk.writeSector (first + i) (page.sector i) with
      | mk result after =>
      rw [hwrite] at h
      cases result with
      | error cause => cases h
      | ok u =>
          obtain ⟨hin, hout⟩ := ih h
          have hafter := writeSector_eq_ok hwrite s
          constructor
          · intro k hk hs
            rcases List.mem_cons.1 hk with rfl | hk
            · by_cases hrest : ∃ l ∈ rest, s = first + l.val
              · obtain ⟨l, hl, hsl⟩ := hrest
                have hlk : l = k := Fin.ext (by omega)
                rw [← hlk]
                exact hin l hl hsl
              · rw [hout fun l hl hsl => hrest ⟨l, hl, hsl⟩, hafter, if_pos hs.symm]
            · exact hin k hk hs
          · intro hne
            rw [hout fun k hk => hne k (List.mem_cons_of_mem _ hk), hafter,
              if_neg fun heq => hne i List.mem_cons_self heq.symm]

theorem pageAt_writePage {first : Nat} {page : PageBytes}
    (h : disk.writePage first page = (.ok (), disk')) : disk'.pageAt first = page := by
  apply Vector.ext
  intro j hj
  have hi : j / sectorSize < sectorsPerPage := by
    simp only [sectorSize, sectorsPerPage, pageSize] at *
    omega
  have hsector := (writeSectors_eq_ok _ h (first + j / sectorSize)).1 ⟨j / sectorSize, hi⟩
    (List.mem_finRange _) rfl
  have hsplit : j / sectorSize * sectorSize + j % sectorSize = j := by
    simp only [sectorSize]
    omega
  rw [getElem_pageAt, hsector, Option.getD_some,
    Bytes.get_sector _ _ _ (by simp only [hsplit]; exact hj)]
  simp only [hsplit]

theorem pageAt_writePage_of_apart {first other : Nat} {page : PageBytes}
    (h : disk.writePage first page = (.ok (), disk'))
    (hapart : first + sectorsPerPage ≤ other ∨ other + sectorsPerPage ≤ first) :
    disk'.pageAt other = disk.pageAt other := by
  apply pageAt_congr
  intro i hi
  apply (writeSectors_eq_ok _ h (other + i)).2
  intro k _
  have hk := k.isLt
  omega

end Disk

/-! ### The set of occupied slots -/

namespace Bitmap

theorem bit_cons (word : BitVec 64) (words : List (BitVec 64)) (index : Nat) :
    bit (word :: words).toArray index =
      if index < 64 then word.getLsbD index else bit words.toArray (index - 64) := by
  by_cases h : index < 64
  · simp [bit, h, Nat.div_eq_of_lt h, Nat.mod_eq_of_lt h]
  · have hdiv : index / 64 = (index - 64) / 64 + 1 := by omega
    have hmod : index % 64 = (index - 64) % 64 := by omega
    simp only [bit, List.getElem?_toArray, hdiv, hmod, List.getElem?_cons_succ, if_neg h]

theorem ones_eq_count (word : BitVec 64) :
    ones word = Nat.count (fun i => word.getLsbD i = true) 64 := by
  unfold ones Nat.count
  exact List.countP_congr fun i _ => by rw [decide_eq_true_iff]

theorem sum_ones (words : List (BitVec 64)) :
    (words.map ones).sum = Nat.count (fun i => bit words.toArray i = true) (64 * words.length) := by
  induction words with
  | nil => rfl
  | cons word words ih =>
      have hfirst : Nat.count (fun i => bit (word :: words).toArray i = true) 64 =
          Nat.count (fun i => word.getLsbD i = true) 64 := by
        unfold Nat.count
        refine List.countP_congr fun i hi => ?_
        simp only [bit_cons, if_pos (List.mem_range.1 hi)]
      have hrest : ∀ i, bit (word :: words).toArray (64 + i) = bit words.toArray i := fun i => by
        rw [bit_cons, if_neg (by omega), Nat.add_sub_cancel_left]
      rw [List.map_cons, List.sum_cons, ih, ones_eq_count, List.length_cons, Nat.mul_add,
        Nat.mul_one, Nat.add_comm (64 * words.length), Nat.count_add, hfirst]
      simp only [hrest]

/-- Padding is clear, so counting whole words counts the elements. -/
theorem count_eq (bits : Bitmap) :
    bits.count = ((Finset.range bits.size).filter fun i => bits.get i = true).card := by
  have hle : bits.size ≤ 64 * bits.words.size := by
    have hsize := bits.size_words
    omega
  rw [count, ← List.sum_eq_foldr, sum_ones, Array.toArray_toList, Array.length_toList,
    Nat.count_eq_card_filter_range]
  congr 1
  ext i
  simp only [Finset.mem_filter, Finset.mem_range]
  exact ⟨fun ⟨_, hget⟩ => ⟨lt_size_of_get hget, hget⟩, fun ⟨hlt, hget⟩ => ⟨by omega, hget⟩⟩

theorem count_le_size (bits : Bitmap) : bits.count ≤ bits.size := by
  rw [count_eq]
  exact (Finset.card_filter_le _ _).trans_eq (Finset.card_range _)

end Bitmap

/-! ### Slots -/

namespace Swap

variable {swap swap' : Swap} {slot : SwapSlot} {page page' : PageBytes}

def pageIn (swap : Swap) (slot : SwapSlot) : PageBytes := swap.disk.pageAt slot.firstSector

/-- Nothing was moved between two states of the swap area; the device may have been asked. -/
structure Unmoved (swap swap' : Swap) : Prop where
  sectors : swap'.disk.sectors = swap.disk.sectors
  occupied : swap'.occupied = swap.occupied

theorem Unmoved.pageIn (h : Unmoved swap swap') (slot : SwapSlot) :
    swap'.pageIn slot = swap.pageIn slot :=
  Disk.pageAt_congr _ fun _ _ => by rw [h.sectors]

theorem Unmoved.isOccupied (h : Unmoved swap swap') (slot : SwapSlot) :
    swap'.isOccupied slot = swap.isOccupied slot := by
  rw [Swap.isOccupied, Swap.isOccupied, h.occupied]

@[simp] theorem slotCount_mark (swap : Swap) (slot : SwapSlot) (on : Bool) :
    (swap.mark slot on).slotCount = swap.slotCount := by
  unfold slotCount mark
  dsimp only
  split <;> rfl

theorem isOccupied_mark (swap : Swap) (slot other : SwapSlot) (on : Bool)
    (h : slot.index < swap.slotCount) :
    (swap.mark slot on).isOccupied other = if slot = other then on else swap.isOccupied other := by
  have hlt : slot.index < swap.occupied.size := h
  have hindex : slot.index = other.index ↔ slot = other :=
    ⟨fun he => by cases slot; cases other; cases he; rfl, congrArg SwapSlot.index⟩
  simp only [isOccupied, mark, dif_pos hlt, Bitmap.get_set, hindex]

theorem isOccupied_given_back (disk : Disk) (hlt : slot.index < swap.slotCount)
    (hfree : swap.isOccupied slot = false) :
    ({ swap.mark slot true with disk }.mark slot false).isOccupied = swap.isOccupied := by
  funext other
  have hlt' : slot.index < { swap.mark slot true with disk }.slotCount :=
    (slotCount_mark swap slot true).symm ▸ hlt
  rw [isOccupied_mark _ _ _ _ hlt']
  by_cases heq : slot = other
  · rw [if_pos heq, ← heq, hfree]
  · rw [if_neg heq]
    exact (isOccupied_mark _ _ _ _ hlt).trans (if_neg heq)

theorem index_lt_of_isOccupied (h : swap.isOccupied slot = true) :
    slot.index < swap.slotCount := Bitmap.lt_size_of_get h

theorem lowestFree?_eq_some (h : swap.lowestFree? = some slot) :
    slot.index < swap.slotCount ∧ swap.isOccupied slot = false ∧
      ∀ lower : SwapSlot, lower.index < slot.index → swap.isOccupied lower = true := by
  obtain ⟨index, hindex, rfl⟩ := Option.map_eq_some_iff.1 h
  obtain ⟨hlt, hfree, hlower⟩ := Bitmap.lowestClear?_eq_some hindex
  exact ⟨hlt, hfree, fun lower => hlower lower.index⟩

theorem isOccupied_of_lowestFree? (h : swap.lowestFree? = none)
    (hlt : slot.index < swap.slotCount) : swap.isOccupied slot = true :=
  Bitmap.lowestClear?_eq_none (Option.map_eq_none_iff.1 h) hlt

theorem count_occupied (swap : Swap) : swap.occupied.count =
    ((Finset.range swap.slotCount).filter fun index => swap.isOccupied ⟨index⟩ = true).card :=
  swap.occupied.count_eq

theorem firstSector_apart {other : SwapSlot} (h : slot ≠ other) :
    slot.firstSector + sectorsPerPage ≤ other.firstSector ∨
      other.firstSector + sectorsPerPage ≤ slot.firstSector := by
  have hindex : slot.index ≠ other.index := fun he => h (by cases slot; cases other; simp_all)
  simp only [SwapSlot.firstSector, sectorsPerPage, pageSize, sectorSize]
  omega

/-- A stored page is in a slot that was free before, and no other slot changes. -/
theorem store_eq_ok (h : swap.store page = (.ok slot, swap')) :
    swap.isOccupied slot = false ∧
      (∀ other, swap'.isOccupied other = if slot = other then true else swap.isOccupied other) ∧
      (∀ other, swap'.pageIn other = if slot = other then page else swap.pageIn other) ∧
      swap'.slotCount = swap.slotCount := by
  unfold store at h
  split at h
  · cases h
  · next free hfree =>
    obtain ⟨hlt, hunoccupied, -⟩ := lowestFree?_eq_some hfree
    dsimp only at h
    split at h
    · next disk hwrite =>
      cases h
      refine ⟨hunoccupied, fun other => isOccupied_mark _ _ _ _ hlt, fun other => ?_, ?_⟩
      · by_cases heq : slot = other
        · subst heq
          rw [if_pos rfl]
          exact Disk.pageAt_writePage hwrite
        · rw [if_neg heq]
          exact Disk.pageAt_writePage_of_apart hwrite (firstSector_apart heq)
      · exact slotCount_mark swap slot true
    · cases h

/-- Reading a slot moves nothing; what was read in full is the page in the slot. -/
theorem read_eq_ok {result : Except SwapError Unit}
    (h : swap.read slot page = .ok (result, page', swap')) :
    swap.isOccupied slot = true ∧ Unmoved swap swap' ∧
      (result = .ok () → page' = swap.pageIn slot) := by
  simp only [read, require_eq_ok] at h
  obtain ⟨hoccupied, h⟩ := h
  cases hread : swap.disk.readPage slot.firstSector page with
  | mk answer rest =>
  obtain ⟨bytes, disk⟩ := rest
  rw [hread] at h
  cases pure_eq_ok.1 h
  obtain ⟨hsame, hbytes⟩ := Disk.readPage_eq hread
  refine ⟨hoccupied, ⟨hsame, rfl⟩, fun hok => hbytes ?_⟩
  cases answer with
  | error cause => cases hok
  | ok u => rfl

theorem read_of_ok (h : swap.read slot page = .ok (.ok (), page', swap')) (old : PageBytes) :
    swap.read slot old = .ok (.ok (), page', swap') := by
  simp only [read, require_eq_ok] at h ⊢
  obtain ⟨hoccupied, h⟩ := h
  refine ⟨hoccupied, ?_⟩
  cases hread : swap.disk.readPage slot.firstSector page with
  | mk answer rest =>
  obtain ⟨bytes, disk⟩ := rest
  rw [hread] at h
  cases answer with
  | error cause => cases h
  | ok u =>
      rw [Disk.readPage_of_ok hread]
      exact h

theorem free_eq_ok (h : swap.free slot = .ok swap') :
    swap.isOccupied slot = true ∧
      (∀ other, swap'.isOccupied other = if slot = other then false else swap.isOccupied other) ∧
      swap'.disk = swap.disk ∧ swap'.slotCount = swap.slotCount := by
  simp only [free, require_eq_ok, pure_eq_ok] at h
  obtain ⟨hoccupied, rfl⟩ := h
  exact ⟨hoccupied, fun other => isOccupied_mark _ _ _ _ (index_lt_of_isOccupied hoccupied), rfl,
    slotCount_mark swap slot false⟩

/-- A slot that is loaded in full is free afterwards; one that could not be read keeps its
page. -/
theorem load_eq_ok {result : Except SwapError Unit}
    (h : swap.load slot page = .ok (result, page', swap')) :
    swap.isOccupied slot = true ∧ swap'.disk.sectors = swap.disk.sectors ∧
      swap'.slotCount = swap.slotCount ∧
      (result = .ok () → page' = swap.pageIn slot ∧
        ∀ other, swap'.isOccupied other =
          if slot = other then false else swap.isOccupied other) ∧
      (result ≠ .ok () → Unmoved swap swap') := by
  simp only [load, bind_eq_ok] at h
  obtain ⟨⟨answer, bytes, read⟩, hread, h⟩ := h
  obtain ⟨hoccupied, hunmoved, hbytes⟩ := read_eq_ok hread
  cases answer with
  | ok u =>
      simp only [bind_eq_ok, pure_eq_ok] at h
      obtain ⟨freed, hfree, heq⟩ := h
      cases heq
      obtain ⟨-, hothers, hdisk, hcount⟩ := free_eq_ok hfree
      refine ⟨hoccupied, by rw [hdisk, hunmoved.sectors], ?_, fun _ => ⟨hbytes rfl, ?_⟩,
        fun hne => absurd rfl hne⟩
      · rw [hcount, slotCount, slotCount, hunmoved.occupied]
      · intro other
        rw [hothers, hunmoved.isOccupied]
  | error cause =>
      cases pure_eq_ok.1 h
      exact ⟨hoccupied, hunmoved.sectors, by rw [slotCount, slotCount, hunmoved.occupied],
        fun hok => (by cases hok), fun _ => hunmoved⟩

theorem load_of_ok (h : swap.load slot page = .ok (.ok (), page', swap')) (old : PageBytes) :
    swap.load slot old = .ok (.ok (), page', swap') := by
  simp only [load, bind_eq_ok] at h ⊢
  obtain ⟨⟨answer, bytes, read⟩, hread, h⟩ := h
  cases answer with
  | error cause => cases h
  | ok u => exact ⟨_, read_of_ok hread old, h⟩

end Swap

end DemandPaging
