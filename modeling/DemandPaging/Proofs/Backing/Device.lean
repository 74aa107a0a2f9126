import DemandPaging.Proofs.Backing.SlotStore

/-!
The device under the swap area.

No operation changes what the device refuses or how large it is. So a device that has room for every
slot and takes every write goes on doing so, and as long as it does there is one reason for a page not
to be stored: no slot is free.

What a device grants may depend on how many requests were made before. So it is also counted how many
an operation makes, which is all of a transfer if it is granted.
-/

namespace DemandPaging

namespace Disk

variable {disk disk' : Disk} {first : Nat} {page : PageBytes}

theorem length_requests_writeSectors (indices : List (Fin sectorsPerPage))
    (h : disk.writeSectors first page indices = (.ok (), disk')) :
    disk'.requests.length = disk.requests.length + indices.length := by
  induction indices generalizing disk with
  | nil =>
      cases h
      rfl
  | cons i rest ih =>
      simp only [writeSectors] at h
      cases hwrite : disk.writeSector (first + i) (page.sector i) with
      | mk answer after =>
      rw [hwrite] at h
      cases answer with
      | error cause => cases h
      | ok u =>
          rw [ih h, (asked_writeSector hwrite).1.requests, List.length_cons, List.length_cons]
          omega

end Disk

namespace Swap

variable {swap swap' : Swap} {slot : SwapSlot} {page page' : PageBytes}

/-! ### The device stays -/

theorem sameDevice_store {result : Except SwapError SwapSlot}
    (h : swap.store page = (result, swap')) : swap.disk.SameDevice swap'.disk := by
  unfold store at h
  split at h
  · cases h
    exact .refl _
  · next slot hlowest =>
    dsimp only at h
    split at h
    · next disk hwrite =>
      cases h
      exact (Disk.transferred_writeSectors _ hwrite).device
    · next cause disk hwrite =>
      cases h
      exact (Disk.transferred_writeSectors _ hwrite).device

theorem slotCount_of_store {result : Except SwapError SwapSlot}
    (h : swap.store page = (result, swap')) : swap'.slotCount = swap.slotCount := by
  unfold store at h
  split at h
  · cases h
    rfl
  · dsimp only at h
    split at h
    · cases h
      exact slotCount_mark swap _ _
    · next disk _ =>
      cases h
      exact (slotCount_mark { swap.mark _ true with disk } _ _).trans (slotCount_mark swap _ _)

theorem sameDevice_read {result : Except SwapError Unit}
    (h : swap.read slot page = .ok (result, page', swap')) : swap.disk.SameDevice swap'.disk := by
  simp only [read, require_eq_ok] at h
  obtain ⟨-, h⟩ := h
  cases hread : swap.disk.readPage slot.firstSector page with
  | mk answer rest =>
  obtain ⟨bytes, disk⟩ := rest
  rw [hread] at h
  cases pure_eq_ok.1 h
  exact (Disk.transferred_readSectors _ hread).device

theorem sameDevice_free (h : swap.free slot = .ok swap') : swap.disk.SameDevice swap'.disk := by
  obtain ⟨-, -, hdisk, -⟩ := free_eq_ok h
  rw [hdisk]
  exact .refl _

theorem sameDevice_load {result : Except SwapError Unit}
    (h : swap.load slot page = .ok (result, page', swap')) : swap.disk.SameDevice swap'.disk := by
  simp only [load, bind_eq_ok] at h
  obtain ⟨⟨answer, bytes, swap₁⟩, hread, h⟩ := h
  cases answer with
  | error cause =>
      cases pure_eq_ok.1 h
      exact sameDevice_read hread
  | ok u =>
      simp only [bind_eq_ok, pure_eq_ok] at h
      obtain ⟨swap₂, hfree, he⟩ := h
      cases he
      exact (sameDevice_read hread).trans (sameDevice_free hfree)

/-! ### A device that fails no write -/

def TakesWrites (swap : Swap) : Prop :=
  ∀ earlier sector, sector < swap.slotCount * sectorsPerPage →
    ¬swap.disk.Refuses earlier .write sector

theorem TakesWrites.of_sameDevice (h : swap.TakesWrites)
    (hdevice : swap.disk.SameDevice swap'.disk) (hslots : swap'.slotCount = swap.slotCount) :
    swap'.TakesWrites := by
  intro earlier sector hlt
  rw [Disk.Refuses, hdevice.refuses, hdevice.size]
  exact h earlier sector (by rwa [← hslots])

theorem takesWrites_ofSize (slots : Nat) :
    (ofDisk (.ofSize (slots * sectorsPerPage))).TakesWrites := by
  intro earlier sector hlt hrefused
  have hslots : (ofDisk (.ofSize (slots * sectorsPerPage))).slotCount = slots :=
    Nat.mul_div_cancel slots (by decide)
  rcases hrefused with he | hle
  · cases he
  · rw [hslots] at hlt
    simp only [ofDisk, Disk.ofSize, Array.size_replicate] at hle
    omega

/-! ### What the device grants -/

/-- The device grants each request of a transfer, if `later` other requests are made before it. -/
def Grants (swap : Swap) (later : Nat) (direction : Direction) (slot : SwapSlot) : Prop :=
  ∀ i < sectorsPerPage, ¬swap.disk.Refuses (swap.disk.requests.length + later + i) direction
    (slot.firstSector + i)

instance (swap : Swap) (later : Nat) (direction : Direction) (slot : SwapSlot) :
    Decidable (swap.Grants later direction slot) :=
  inferInstanceAs (Decidable (∀ i < sectorsPerPage, ¬(_ = true ∨ _ ≤ _)))

/-- Swap takes one more page: a slot is free, and the device grants that the lowest one is written. -/
def TakesPage (swap : Swap) : Prop :=
  ∃ slot, swap.lowestFree? = some slot ∧ swap.Grants 0 .write slot

instance (swap : Swap) : Decidable swap.TakesPage :=
  decidable_of_iff ((swap.lowestFree?.any fun slot => decide (swap.Grants 0 .write slot)) = true)
    (by simp only [Option.any_eq_true, decide_eq_true_eq, TakesPage])

theorem grants_zero_iff {direction : Direction} :
    swap.Grants 0 direction slot ↔ ¬swap.Fails direction slot := by
  simp only [Grants, Fails, Nat.add_zero, not_exists, not_and]

theorem grants_iff_of_requests {direction : Direction} {made later : Nat}
    (hdevice : swap.disk.SameDevice swap'.disk)
    (hmade : swap'.disk.requests.length = swap.disk.requests.length + made) :
    swap'.Grants later direction slot ↔ swap.Grants (made + later) direction slot := by
  simp only [Grants, Disk.Refuses, hdevice.refuses, hdevice.size, hmade, Nat.add_assoc]

theorem isOk_store_iff : (swap.store page).1.isOk = true ↔ swap.TakesPage := by
  unfold store TakesPage
  cases hlowest : swap.lowestFree? with
  | none => exact ⟨nofun, nofun⟩
  | some slot =>
      cases hwrite : (swap.mark slot true).disk.writePage slot.firstSector page with
      | mk result disk =>
      have hgranted : _ ↔ ¬swap.Fails .write slot :=
        granted_iff_not_fails (Disk.transferred_writeSectors _ hwrite)
      rw [← grants_zero_iff] at hgranted
      simp only [hwrite, Option.some.injEq, exists_eq_left', ← hgranted]
      cases result <;> simp [Except.isOk, Except.toBool]

/-- Why swap does not take a page: no slot is free, or the device refuses a sector of the slot that
the page was to go to, which is the lowest free one. -/
inductive Refuses (swap : Swap) : SwapError → Prop where
  | full (h : ∀ slot : SwapSlot, slot.index < swap.slotCount → swap.isOccupied slot = true) :
      Refuses swap .full
  | device {slot : SwapSlot} {cause : BlockError} (hlowest : swap.lowestFree? = some slot)
      (hfails : swap.Fails .write slot) : Refuses swap (.device cause)

theorem refuses_of_store {cause : SwapError} (h : swap.store page = (.error cause, swap')) :
    swap.Refuses cause ∧ swap'.isOccupied = swap.isOccupied := by
  unfold store at h
  split at h
  · next hfull =>
    cases h
    exact ⟨.full fun _ => isOccupied_of_lowestFree? hfull, rfl⟩
  · next slot hlowest =>
    obtain ⟨hlt, hfree, -⟩ := lowestFree?_eq_some hlowest
    dsimp only at h
    split at h
    · cases h
    · next device disk hwrite =>
      cases h
      have hgranted : _ ↔ ¬swap.Fails .write slot :=
        granted_iff_not_fails (Disk.transferred_writeSectors _ hwrite)
      refine ⟨.device hlowest (not_not.1 fun hnot => ?_), isOccupied_given_back disk hlt hfree⟩
      cases hgranted.2 hnot

theorem Refuses.not_takesPage {cause : SwapError} (h : swap.Refuses cause) : ¬swap.TakesPage := by
  rintro ⟨slot, hlowest, hgrants⟩
  cases h with
  | full hfull =>
      obtain ⟨hlt, hfree, -⟩ := lowestFree?_eq_some hlowest
      rw [hfull slot hlt] at hfree
      cases hfree
  | device hlowest' hfails =>
      cases hlowest.symm.trans hlowest'
      exact grants_zero_iff.1 hgrants hfails

/-- A device that fails no write refuses a page only for want of a free slot. -/
theorem Refuses.full_of_takesWrites {cause : SwapError} (h : swap.Refuses cause)
    (hwrites : swap.TakesWrites) :
    ∀ slot : SwapSlot, slot.index < swap.slotCount → swap.isOccupied slot = true := by
  cases h with
  | full hfull => exact hfull
  | @device slot _ hlowest hfails =>
      obtain ⟨i, hi, hrefused⟩ := hfails
      have hroom := Nat.mul_le_mul_right sectorsPerPage
        (Nat.succ_le_of_lt (lowestFree?_eq_some hlowest).1)
      rw [Nat.succ_mul] at hroom
      refine absurd hrefused (hwrites _ _ ?_)
      rw [SwapSlot.firstSector]
      omega

theorem length_requests_store (h : swap.store page = (.ok slot, swap')) :
    swap'.disk.requests.length = swap.disk.requests.length + sectorsPerPage := by
  unfold store at h
  split at h
  · cases h
  · next lowest hlowest =>
    dsimp only at h
    split at h
    · next disk hwrite =>
      cases h
      exact (Disk.length_requests_writeSectors _ hwrite).trans (by rw [List.length_finRange]; rfl)
    · cases h

theorem isOk_load_iff {result : Except SwapError Unit} {bytes : PageBytes}
    (h : swap.load slot page = .ok (result, bytes, swap')) :
    result = .ok () ↔ swap.Grants 0 .read slot := by
  obtain ⟨hoccupied, -⟩ := load_eq_ok h
  obtain ⟨answer, _, read, hread, -, -, hanswer⟩ := exists_read hoccupied page
  obtain ⟨⟨answer', bytes', read'⟩, hread', hrest⟩ := bind_eq_ok.1 h
  cases hread.symm.trans hread'
  rw [grants_zero_iff]
  obtain ⟨rfl, -, hgranted⟩ | ⟨cause, rfl, hfails⟩ := hanswer
  · obtain ⟨freed, -, he⟩ := bind_eq_ok.1 hrest
    cases pure_eq_ok.1 he
    simp [hgranted]
  · cases pure_eq_ok.1 hrest
    simp [hfails]

end Swap

end DemandPaging
