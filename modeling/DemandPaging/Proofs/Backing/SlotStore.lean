import DemandPaging.Proofs.Backing.Slots

/-!
Swap as a store of pages.

What the swap area holds is a partial map from slots to pages. Storing puts the page into the lowest
slot that is not in the map, reading gives the page back, and loading and freeing take the slot out.
The device decides which requests it refuses. A transfer is eight requests, one after the other, and
comes to nothing if one of them is refused; whatever that leaves in the sectors, the map stays as it
was. No operation asks for a sector outside the slot it is about.
-/

namespace DemandPaging

/-! ### Requests and transfers -/

namespace Disk

/-- Whether a request is refused if `earlier` ones were made before it. -/
def Refuses (disk : Disk) (earlier : Nat) (direction : Direction) (sector : Nat) : Prop :=
  disk.refuses earlier direction sector = true ∨ disk.sectors.size ≤ sector

structure Asked (direction : Direction) (sector : Nat) (disk disk' : Disk) : Prop where
  requests : disk'.requests = (direction, sector) :: disk.requests
  refuses : disk'.refuses = disk.refuses
  size : disk'.sectors.size = disk.sectors.size
  kept : ∀ other, other ≠ sector → disk'.sectors[other]? = disk.sectors[other]?

/-- One device at two times: what it refuses and its size are the same. -/
structure SameDevice (disk disk' : Disk) : Prop where
  refuses : disk'.refuses = disk.refuses
  size : disk'.sectors.size = disk.sectors.size

theorem SameDevice.refl (disk : Disk) : SameDevice disk disk := ⟨rfl, rfl⟩

theorem SameDevice.trans {disk disk₁ disk' : Disk} (h : SameDevice disk disk₁)
    (h' : SameDevice disk₁ disk') : SameDevice disk disk' :=
  ⟨h'.refuses.trans h.refuses, h'.size.trans h.size⟩

theorem SameDevice.symm {disk disk' : Disk} (h : SameDevice disk disk') : SameDevice disk' disk :=
  ⟨h.refuses.symm, h.size.symm⟩

theorem Asked.sameDevice {direction : Direction} {sector : Nat} {disk disk' : Disk}
    (h : Asked direction sector disk disk') : SameDevice disk disk' := ⟨h.refuses, h.size⟩

/-- The device before and after a transfer, which asked for consecutive sectors up to the first
refusal and was granted if there was none. -/
structure Transferred (direction : Direction) (first : Nat) (indices : List (Fin sectorsPerPage))
    (granted : Prop) (disk disk' : Disk) : Prop where
  granted_iff : granted ↔ ∀ k (h : k < indices.length),
    ¬disk.Refuses (disk.requests.length + k) direction (first + indices[k].val)
  asked : ∃ made, disk'.requests = made ++ disk.requests ∧
    ∀ request ∈ made, request.1 = direction ∧ ∃ i ∈ indices, request.2 = first + i.val
  kept : ∀ sector, (∀ i ∈ indices, sector ≠ first + i.val) →
    disk'.sectors[sector]? = disk.sectors[sector]?
  device : SameDevice disk disk'

variable {disk disk₁ disk' : Disk} {direction : Direction} {first sector : Nat}
  {i : Fin sectorsPerPage} {rest : List (Fin sectorsPerPage)} {granted : Prop}

theorem asked_readSector {result : Except BlockError Sector}
    (h : disk.readSector sector = (result, disk')) : Asked .read sector disk disk' ∧
      ((∃ bytes, result = .ok bytes) ↔ ¬disk.Refuses disk.requests.length .read sector) := by
  unfold readSector peek at h
  split at h
  · next hrefused =>
    cases h
    exact ⟨⟨rfl, rfl, rfl, fun _ _ => rfl⟩, by simp [Refuses, hrefused]⟩
  · next hgranted =>
    cases h
    refine ⟨⟨rfl, rfl, rfl, fun _ _ => rfl⟩, ?_⟩
    split
    · next found hfound =>
      obtain ⟨hlt, -⟩ := Array.getElem?_eq_some_iff.1 hfound
      simp [Refuses, hgranted, hlt]
    · next hmissing => simp [Refuses, Array.getElem?_eq_none_iff.1 hmissing]

theorem asked_writeSector {bytes : Sector} {result : Except BlockError Unit}
    (h : disk.writeSector sector bytes = (result, disk')) : Asked .write sector disk disk' ∧
      (result = .ok () ↔ ¬disk.Refuses disk.requests.length .write sector) := by
  unfold writeSector poke at h
  split at h
  · next hrefused =>
    cases h
    exact ⟨⟨rfl, rfl, rfl, fun _ _ => rfl⟩, by simp [Refuses, hrefused]⟩
  · next hgranted =>
    by_cases hlt : sector < disk.sectors.size
    · rw [if_pos hlt] at h
      cases h
      refine ⟨⟨rfl, rfl, Array.size_setIfInBounds, fun other hne => ?_⟩, ?_⟩
      · exact Array.getElem?_setIfInBounds_ne (Ne.symm hne)
      · simp [Refuses, hgranted, hlt]
    · rw [if_neg hlt] at h
      cases h
      exact ⟨⟨rfl, rfl, rfl, fun _ _ => rfl⟩, by simp [Refuses, Nat.not_lt.1 hlt]⟩

theorem Asked.refused (h : Asked direction (first + i.val) disk disk')
    (hrefused : disk.Refuses disk.requests.length direction (first + i.val)) (hnot : ¬granted) :
    Transferred direction first (i :: rest) granted disk disk' where
  granted_iff := ⟨fun hgranted => absurd hgranted hnot, fun hall =>
    absurd hrefused (hall 0 (Nat.zero_lt_succ _))⟩
  asked := ⟨[(direction, first + i.val)], h.requests, fun request hmem => by
    rw [List.mem_singleton.1 hmem]
    exact ⟨rfl, i, List.mem_cons_self, rfl⟩⟩
  kept := fun sector hne => h.kept sector (hne i List.mem_cons_self)
  device := h.sameDevice

/-- A request that is granted is followed by the rest of the transfer. -/
theorem Asked.transferred (h : Asked direction (first + i.val) disk disk₁)
    (hgranted : ¬disk.Refuses disk.requests.length direction (first + i.val))
    (hrest : Transferred direction first rest granted disk₁ disk') :
    Transferred direction first (i :: rest) granted disk disk' where
  granted_iff := by
    have hlater : ∀ k sector, disk₁.Refuses (disk₁.requests.length + k) direction sector ↔
        disk.Refuses (disk.requests.length + (k + 1)) direction sector := by
      intro k sector
      rw [Refuses, Refuses, h.refuses, h.size, h.requests, List.length_cons, Nat.add_right_comm,
        Nat.add_assoc]
    rw [hrest.granted_iff]
    constructor
    · intro hall k hk
      cases k with
      | zero => exact hgranted
      | succ k =>
          rw [← hlater]
          exact hall k (Nat.lt_of_succ_lt_succ hk)
    · intro hall k hk
      rw [hlater]
      exact hall (k + 1) (Nat.succ_lt_succ hk)
  asked := by
    obtain ⟨made, hmade, hwithin⟩ := hrest.asked
    refine ⟨made ++ [(direction, first + i.val)], by rw [hmade, h.requests]; simp, ?_⟩
    intro request hmem
    rcases List.mem_append.1 hmem with hmem | hmem
    · obtain ⟨hdirection, k, hk, heq⟩ := hwithin request hmem
      exact ⟨hdirection, k, List.mem_cons_of_mem _ hk, heq⟩
    · rw [List.mem_singleton.1 hmem]
      exact ⟨rfl, i, List.mem_cons_self, rfl⟩
  kept := fun sector hne => (hrest.kept sector fun k hk => hne k (List.mem_cons_of_mem _ hk)).trans
    (h.kept sector (hne i List.mem_cons_self))
  device := h.sameDevice.trans hrest.device

theorem Transferred.nil (h : granted) : Transferred direction first [] granted disk disk :=
  ⟨⟨fun _ _ hk => absurd hk (Nat.not_lt_zero _), fun _ => h⟩,
    ⟨[], rfl, fun _ hmem => absurd hmem List.not_mem_nil⟩, fun _ _ => rfl, .refl disk⟩

theorem transferred_readSectors {page page' : PageBytes} {result : Except BlockError Unit}
    (indices : List (Fin sectorsPerPage))
    (h : disk.readSectors first page indices = (result, page', disk')) :
    Transferred .read first indices (result = .ok ()) disk disk' := by
  induction indices generalizing disk page with
  | nil =>
      cases h
      exact .nil rfl
  | cons i rest ih =>
      simp only [readSectors] at h
      cases hread : disk.readSector (first + i) with
      | mk answer after =>
      rw [hread] at h
      obtain ⟨hasked, hgranted⟩ := asked_readSector hread
      cases answer with
      | ok bytes => exact hasked.transferred (hgranted.1 ⟨bytes, rfl⟩) (ih h)
      | error cause =>
          cases h
          refine hasked.refused (not_not.1 fun hnot => ?_) (by simp)
          obtain ⟨bytes, hbytes⟩ := hgranted.2 hnot
          cases hbytes

theorem transferred_writeSectors {page : PageBytes} {result : Except BlockError Unit}
    (indices : List (Fin sectorsPerPage))
    (h : disk.writeSectors first page indices = (result, disk')) :
    Transferred .write first indices (result = .ok ()) disk disk' := by
  induction indices generalizing disk with
  | nil =>
      cases h
      exact .nil rfl
  | cons i rest ih =>
      simp only [writeSectors] at h
      cases hwrite : disk.writeSector (first + i) (page.sector i) with
      | mk answer after =>
      rw [hwrite] at h
      obtain ⟨hasked, hgranted⟩ := asked_writeSector hwrite
      cases answer with
      | ok u => exact hasked.transferred (hgranted.1 rfl) (ih h)
      | error cause =>
          cases h
          exact hasked.refused (not_not.1 fun hnot => by cases hgranted.2 hnot) (by simp)

end Disk

/-! ### The map -/

abbrev SlotMap := SwapSlot → Option PageBytes

namespace Swap

def contents (swap : Swap) : SlotMap := fun slot =>
  if swap.isOccupied slot then some (swap.pageIn slot) else none

inductive Operation where
  | store (page : PageBytes)
  | read (slot : SwapSlot) (buffer : PageBytes)
  | load (slot : SwapSlot) (buffer : PageBytes)
  | free (slot : SwapSlot)

inductive Answer where
  | stored (slot : SwapSlot)
  | page (bytes : PageBytes)
  | freed
  | refused (cause : SwapError)
deriving DecidableEq

def Answer.ofTransfer : Except SwapError Unit → PageBytes → Answer
  | .ok (), bytes => .page bytes
  | .error cause, _ => .refused cause

def perform (swap : Swap) : Operation → Except Panic (Answer × Swap)
  | .store page =>
      match swap.store page with
      | (.ok slot, swap) => .ok (.stored slot, swap)
      | (.error cause, swap) => .ok (.refused cause, swap)
  | .read slot buffer => do
      let (result, bytes, swap) ← swap.read slot buffer
      return (.ofTransfer result bytes, swap)
  | .load slot buffer => do
      let (result, bytes, swap) ← swap.load slot buffer
      return (.ofTransfer result bytes, swap)
  | .free slot => do return (.freed, ← swap.free slot)

/-- A slot is named only while it is occupied. -/
def Operation.Permitted (swap : Swap) : Operation → Prop
  | .store _ => True
  | .read slot _ => swap.isOccupied slot = true
  | .load slot _ => swap.isOccupied slot = true
  | .free slot => swap.isOccupied slot = true

def update (held : SlotMap) : Operation → Answer → SlotMap
  | .store page, .stored slot => Function.update held slot (some page)
  | .load slot _, .page _ => Function.update held slot none
  | .free slot, .freed => Function.update held slot none
  | _, _ => held

def replay : List (Operation × Answer) → SlotMap
  | [] => fun _ => none
  | (operation, answer) :: earlier => update (replay earlier) operation answer

/-- The swap area over a device after a history of permitted operations. -/
inductive Served (disk : Disk) : List (Operation × Answer) → Swap → Prop where
  | start : Served disk [] (ofDisk disk)
  | step {history : List (Operation × Answer)} {swap swap' : Swap} {operation : Operation}
      {answer : Answer} (h : Served disk history swap) (permitted : operation.Permitted swap)
      (performed : swap.perform operation = .ok (answer, swap')) :
      Served disk ((operation, answer) :: history) swap'

/-! ### What is promised -/

def LowestFree (slots : Nat) (held : SlotMap) (slot : SwapSlot) : Prop :=
  slot.index < slots ∧ held slot = none ∧
    ∀ lower : SwapSlot, lower.index < slot.index → (held lower).isSome = true

/-- Whether one of the requests of a transfer, made now, is refused. -/
def Fails (swap : Swap) (direction : Direction) (slot : SwapSlot) : Prop :=
  ∃ i < sectorsPerPage, swap.disk.Refuses (swap.disk.requests.length + i) direction
    (slot.firstSector + i)

/-- The answers of a store with a number of slots that hold `held`, where `fails` says which
transfers the device refuses; and the transfer that an answer takes. -/
inductive Conforms (slots : Nat) (held : SlotMap) (fails : Direction → SwapSlot → Prop) :
    Operation → Answer → Option (Direction × SwapSlot) → Prop where
  | stored {slot : SwapSlot} (page : PageBytes) (lowest : LowestFree slots held slot)
      (granted : ¬fails .write slot) :
      Conforms slots held fails (.store page) (.stored slot) (some (.write, slot))
  | full (page : PageBytes)
      (occupied : ∀ slot : SwapSlot, slot.index < slots → (held slot).isSome = true) :
      Conforms slots held fails (.store page) (.refused .full) none
  | storeRefused {slot : SwapSlot} (page : PageBytes) (cause : BlockError)
      (lowest : LowestFree slots held slot) (refused : fails .write slot) :
      Conforms slots held fails (.store page) (.refused (.device cause)) (some (.write, slot))
  | read {slot : SwapSlot} {page : PageBytes} (buffer : PageBytes) (found : held slot = some page)
      (granted : ¬fails .read slot) :
      Conforms slots held fails (.read slot buffer) (.page page) (some (.read, slot))
  | readRefused {slot : SwapSlot} (buffer : PageBytes) (cause : BlockError)
      (refused : fails .read slot) :
      Conforms slots held fails (.read slot buffer) (.refused (.device cause)) (some (.read, slot))
  | loaded {slot : SwapSlot} {page : PageBytes} (buffer : PageBytes) (found : held slot = some page)
      (granted : ¬fails .read slot) :
      Conforms slots held fails (.load slot buffer) (.page page) (some (.read, slot))
  | loadRefused {slot : SwapSlot} (buffer : PageBytes) (cause : BlockError)
      (refused : fails .read slot) :
      Conforms slots held fails (.load slot buffer) (.refused (.device cause)) (some (.read, slot))
  | freed (slot : SwapSlot) : Conforms slots held fails (.free slot) .freed none

/-- Nothing was asked of the device but for a transfer, and nothing changed on it outside. -/
structure Confined (transfer : Option (Direction × SwapSlot)) (swap swap' : Swap) : Prop where
  asked : ∃ made, swap'.disk.requests = made ++ swap.disk.requests ∧
    ∀ request ∈ made, ∃ slot, transfer = some (request.1, slot) ∧
      slot.firstSector ≤ request.2 ∧ request.2 < slot.firstSector + sectorsPerPage
  kept : ∀ sector, (∀ slot, transfer = some (.write, slot) →
      sector < slot.firstSector ∨ slot.firstSector + sectorsPerPage ≤ sector) →
    swap'.disk.sectors[sector]? = swap.disk.sectors[sector]?

structure Answered (swap : Swap) (operation : Operation) (answer : Answer) (swap' : Swap) :
    Prop where
  conforms : ∃ transfer,
    Conforms swap.slotCount swap.contents swap.Fails operation answer transfer ∧
      Confined transfer swap swap'
  contents : swap'.contents = update swap.contents operation answer
  slotCount : swap'.slotCount = swap.slotCount

/-- A swap area that holds the pages of a map and goes on as promised. -/
structure Faithful (slots : Nat) (held : SlotMap) (swap : Swap) : Prop where
  slotCount : swap.slotCount = slots
  contents : swap.contents = held
  bounded : ∀ slot, (held slot).isSome = true → slot.index < slots
  freeSlots : swap.freeSlots =
    slots - ((Finset.range slots).filter fun index => (held ⟨index⟩).isSome = true).card
  answered : ∀ operation : Operation, operation.Permitted swap →
    ∃ answer swap', swap.perform operation = .ok (answer, swap') ∧
      swap.Answered operation answer swap'

variable {swap swap' : Swap} {slot : SwapSlot} {page : PageBytes} {direction : Direction}
  {granted : Prop} {disk disk' : Disk}

theorem isSome_contents : (swap.contents slot).isSome = swap.isOccupied slot := by
  unfold contents
  split <;> simp_all

theorem contents_eq_none : swap.contents slot = none ↔ swap.isOccupied slot = false := by
  rw [← isSome_contents, Option.isSome_eq_false_iff, Option.isNone_iff_eq_none]

theorem contents_of_isOccupied (h : swap.isOccupied slot = true) :
    swap.contents slot = some (swap.pageIn slot) := if_pos h

theorem contents_congr (hoccupied : ∀ slot, swap'.isOccupied slot = swap.isOccupied slot)
    (hpage : ∀ slot, swap.isOccupied slot = true → swap'.pageIn slot = swap.pageIn slot) :
    swap'.contents = swap.contents := by
  funext slot
  unfold contents
  rw [hoccupied slot]
  split
  · next h => rw [hpage slot h]
  · rfl

theorem Unmoved.contents (h : Unmoved swap swap') : swap'.contents = swap.contents :=
  contents_congr h.isOccupied fun slot _ => h.pageIn slot

/-! ### Transfers of a slot -/

section

variable {disk : Disk} (h : Disk.Transferred direction slot.firstSector
  (List.finRange sectorsPerPage) granted swap.disk disk)

include h

theorem granted_iff_not_fails : granted ↔ ¬swap.Fails direction slot := by
  rw [h.granted_iff, Fails]
  simp only [List.length_finRange, List.getElem_finRange, not_exists, not_and]
  rfl

theorem asked_of_transferred : ∃ made, disk.requests = made ++ swap.disk.requests ∧
    ∀ request ∈ made, ∃ other, some (direction, slot) = some (request.1, other) ∧
      other.firstSector ≤ request.2 ∧ request.2 < other.firstSector + sectorsPerPage := by
  obtain ⟨made, hmade, hwithin⟩ := h.asked
  refine ⟨made, hmade, fun request hmem => ?_⟩
  obtain ⟨hdirection, i, -, hsector⟩ := hwithin request hmem
  refine ⟨slot, by rw [hdirection], ?_⟩
  have hi := i.isLt
  omega

theorem kept_of_transferred {sector : Nat}
    (hout : sector < slot.firstSector ∨ slot.firstSector + sectorsPerPage ≤ sector) :
    disk.sectors[sector]? = swap.disk.sectors[sector]? := by
  refine h.kept sector fun i _ => ?_
  have hi := i.isLt
  omega

end

theorem confined_of_written (h : Disk.Transferred .write slot.firstSector
    (List.finRange sectorsPerPage) granted swap.disk swap'.disk) :
    Confined (some (.write, slot)) swap swap' :=
  ⟨asked_of_transferred h, fun _ hout => kept_of_transferred h (hout slot rfl)⟩

theorem confined_of_read (h : Disk.Transferred .read slot.firstSector
    (List.finRange sectorsPerPage) granted swap.disk swap'.disk)
    (hsame : swap'.disk.sectors = swap.disk.sectors) : Confined (some (.read, slot)) swap swap' :=
  ⟨asked_of_transferred h, fun _ _ => by rw [hsame]⟩

theorem Confined.of_disk_eq (h : swap'.disk = swap.disk) : Confined none swap swap' :=
  ⟨⟨[], by rw [h, List.nil_append], nofun⟩, fun _ _ => by rw [h]⟩

/-! ### The operations -/

theorem exists_answered_store (swap : Swap) (page : PageBytes) :
    ∃ answer swap', swap.perform (.store page) = .ok (answer, swap') ∧
      swap.Answered (.store page) answer swap' := by
  cases hlowest : swap.lowestFree? with
  | none =>
      refine ⟨.refused .full, swap, by simp only [perform, store, hlowest], ⟨none, ?_, ?_⟩, rfl, rfl⟩
      · exact .full page fun slot hlt => isSome_contents.trans (isOccupied_of_lowestFree? hlowest hlt)
      · exact .of_disk_eq rfl
  | some slot =>
      obtain ⟨hlt, hfree, hlower⟩ := lowestFree?_eq_some hlowest
      have hleast : LowestFree swap.slotCount swap.contents slot :=
        ⟨hlt, contents_eq_none.2 hfree, fun lower hlt => isSome_contents.trans (hlower lower hlt)⟩
      cases hwrite : (swap.mark slot true).disk.writePage slot.firstSector page with
      | mk result disk =>
      have htransfer := Disk.transferred_writeSectors _ hwrite
      cases result with
      | ok u =>
          have hstore : swap.store page = (.ok slot, { swap.mark slot true with disk }) := by
            simp only [store, hlowest, hwrite]
          obtain ⟨-, hoccupied, hpageIn, hslots⟩ := store_eq_ok hstore
          refine ⟨.stored slot, { swap.mark slot true with disk }, by simp only [perform, hstore],
            ⟨_, .stored page hleast ?_, confined_of_written htransfer⟩, ?_, hslots⟩
          · exact (granted_iff_not_fails htransfer).1 rfl
          · funext other
            simp only [contents, update, hoccupied, hpageIn, Function.update_apply,
              eq_comm (a := other)]
            split <;> simp
      | error cause =>
          have hstore : swap.store page =
              (.error (.device cause), { swap.mark slot true with disk }.mark slot false) := by
            simp only [store, hlowest, hwrite]
          refine ⟨.refused (.device cause), { swap.mark slot true with disk }.mark slot false,
            by simp only [perform, hstore],
            ⟨_, .storeRefused page cause hleast ?_, confined_of_written htransfer⟩, ?_, ?_⟩
          · have hnot := granted_iff_not_fails htransfer
            exact not_not.1 fun hgranted => by cases hnot.2 hgranted
          · refine contents_congr
              (fun other => congrFun (isOccupied_given_back disk hlt hfree) other)
              fun other hother => Disk.pageAt_congr _ fun i hi => ?_
            -- what reached the sectors of the free slot is no one's page
            have hne : slot ≠ other := fun he => by rw [← he, hfree] at hother; cases hother
            have hapart := firstSector_apart hne
            exact kept_of_transferred htransfer (by omega)
          · rw [slotCount_mark]
            exact slotCount_mark swap slot true

/-- Reading an occupied slot gives the page in it, unless the device refuses. -/
theorem exists_read (h : swap.isOccupied slot = true) (buffer : PageBytes) :
    ∃ result bytes swap', swap.read slot buffer = .ok (result, bytes, swap') ∧
      Unmoved swap swap' ∧ Confined (some (.read, slot)) swap swap' ∧
      ((result = .ok () ∧ bytes = swap.pageIn slot ∧ ¬swap.Fails .read slot) ∨
        ∃ cause, result = .error (.device cause) ∧ swap.Fails .read slot) := by
  cases hread : swap.disk.readPage slot.firstSector buffer with
  | mk result rest =>
  obtain ⟨bytes, disk⟩ := rest
  have htransfer := Disk.transferred_readSectors _ hread
  have hgranted := granted_iff_not_fails htransfer
  obtain ⟨hsame, hbytes⟩ := Disk.readPage_eq hread
  refine ⟨result.mapError .device, bytes, { swap with disk }, ?_, ⟨hsame, rfl⟩,
    confined_of_read htransfer hsame, ?_⟩
  · simp only [read, h, hread, if_true]
    rfl
  · cases result with
    | ok u => exact .inl ⟨rfl, hbytes rfl, hgranted.1 rfl⟩
    | error cause =>
        exact .inr ⟨cause, rfl, not_not.1 fun hnot => by cases hgranted.2 hnot⟩

theorem exists_answered_read (h : swap.isOccupied slot = true) (buffer : PageBytes) :
    ∃ answer swap', swap.perform (.read slot buffer) = .ok (answer, swap') ∧
      swap.Answered (.read slot buffer) answer swap' := by
  obtain ⟨result, bytes, swap', hread, hunmoved, hconfined, hresult⟩ := exists_read h buffer
  have hperform : swap.perform (.read slot buffer) = .ok (.ofTransfer result bytes, swap') := by
    simp only [perform, hread]
    rfl
  have hslots : swap'.slotCount = swap.slotCount := by rw [slotCount, slotCount, hunmoved.occupied]
  refine ⟨_, swap', hperform, ?_⟩
  rcases hresult with ⟨rfl, rfl, hgranted⟩ | ⟨cause, rfl, hfails⟩
  · exact ⟨⟨_, .read buffer (contents_of_isOccupied h) hgranted, hconfined⟩, hunmoved.contents,
      hslots⟩
  · exact ⟨⟨_, .readRefused buffer cause hfails, hconfined⟩, hunmoved.contents, hslots⟩

theorem exists_free (h : swap.isOccupied slot = true) :
    ∃ swap', swap.free slot = .ok swap' ∧ swap'.disk = swap.disk ∧
      swap'.contents = Function.update swap.contents slot none ∧
      swap'.slotCount = swap.slotCount := by
  have hfree : swap.free slot = .ok (swap.mark slot false) := by
    simp only [free, h, if_true]
    rfl
  obtain ⟨-, hoccupied, hdisk, hslots⟩ := free_eq_ok hfree
  refine ⟨_, hfree, hdisk, ?_, hslots⟩
  funext other
  simp only [contents, hoccupied, Function.update_apply, eq_comm (a := other)]
  split
  · rfl
  · rw [pageIn, pageIn, hdisk]

theorem exists_answered_free (h : swap.isOccupied slot = true) :
    ∃ answer swap', swap.perform (.free slot) = .ok (answer, swap') ∧
      swap.Answered (.free slot) answer swap' := by
  obtain ⟨swap', hfree, hdisk, hcontents, hslots⟩ := exists_free h
  refine ⟨.freed, swap', ?_, ⟨none, .freed slot, .of_disk_eq hdisk⟩, hcontents, hslots⟩
  simp only [perform, hfree]
  rfl

/-- Loading an occupied slot gives the page in it and frees the slot, unless the device refuses. -/
theorem exists_answered_load (h : swap.isOccupied slot = true) (buffer : PageBytes) :
    ∃ answer swap', swap.perform (.load slot buffer) = .ok (answer, swap') ∧
      swap.Answered (.load slot buffer) answer swap' := by
  obtain ⟨result, bytes, read, hread, hunmoved, hconfined, hresult⟩ := exists_read h buffer
  have hslots : read.slotCount = swap.slotCount := by rw [slotCount, slotCount, hunmoved.occupied]
  rcases hresult with ⟨rfl, rfl, hgranted⟩ | ⟨cause, rfl, hfails⟩
  · obtain ⟨swap', hfree, hdisk, hcontents, hcount⟩ :=
      exists_free ((hunmoved.isOccupied slot).trans h)
    have hload : swap.load slot buffer = .ok (.ok (), swap.pageIn slot, swap') := by
      rw [load]
      exact bind_eq_ok.2 ⟨_, hread, bind_eq_ok.2 ⟨swap', hfree, rfl⟩⟩
    refine ⟨.page (swap.pageIn slot), swap', ?_,
      ⟨_, .loaded buffer (contents_of_isOccupied h) hgranted, ?_⟩, ?_, hcount.trans hslots⟩
    · simp only [perform, hload]
      rfl
    · exact ⟨hdisk ▸ hconfined.asked, hdisk ▸ hconfined.kept⟩
    · rw [hcontents, hunmoved.contents]
      rfl
  · have hload : swap.load slot buffer = .ok (.error (.device cause), bytes, read) := by
      simp only [load, hread]
      rfl
    refine ⟨.refused (.device cause), read, ?_, ⟨_, .loadRefused buffer cause hfails, hconfined⟩,
      hunmoved.contents, hslots⟩
    simp only [perform, hload]
    rfl

theorem exists_answered {operation : Operation} (h : operation.Permitted swap) :
    ∃ answer swap', swap.perform operation = .ok (answer, swap') ∧
      swap.Answered operation answer swap' := by
  cases operation with
  | store page => exact exists_answered_store swap page
  | read slot buffer => exact exists_answered_read h buffer
  | load slot buffer => exact exists_answered_load h buffer
  | free slot => exact exists_answered_free h

/-! ### Histories -/

variable {history : List (Operation × Answer)}

theorem Served.contents (h : Served disk history swap) :
    swap.contents = replay history ∧ swap.slotCount = disk.reported / sectorsPerPage := by
  induction h with
  | start =>
      refine ⟨funext fun slot => contents_eq_none.2 (Bitmap.get_empty _ _), rfl⟩
  | step h permitted performed ih =>
      obtain ⟨answer, swap', hperform, hanswered⟩ := exists_answered permitted
      rw [hperform] at performed
      cases performed
      exact ⟨by rw [hanswered.contents, ih.1, replay], hanswered.slotCount.trans ih.2⟩

/-- Over any device and after any history of permitted operations, the swap area holds the pages
that the history put into it, and whatever comes next is answered as promised. -/
theorem Served.slotStore (h : Served disk history swap) :
    Faithful (disk.reported / sectorsPerPage) (replay history) swap := by
  obtain ⟨hcontents, hslots⟩ := h.contents
  refine ⟨hslots, hcontents, fun slot hslot => ?_, ?_, fun operation => exists_answered⟩
  · rw [← hcontents, isSome_contents] at hslot
    exact hslots ▸ index_lt_of_isOccupied hslot
  · rw [freeSlots, count_occupied, hslots, ← hcontents]
    simp only [isSome_contents]

theorem Served.perform {operation : Operation} {answer : Answer} (h : Served disk history swap)
    (performed : swap.perform operation = .ok (answer, swap')) :
    Served disk ((operation, answer) :: history) swap' := by
  refine .step h ?_ performed
  cases operation with
  | store page => trivial
  | read slot buffer =>
      obtain ⟨⟨result, bytes, read⟩, hread, -⟩ := bind_eq_ok.1 performed
      exact (read_eq_ok hread).1
  | load slot buffer =>
      obtain ⟨⟨result, bytes, loaded⟩, hload, -⟩ := bind_eq_ok.1 performed
      exact (load_eq_ok hload).1
  | free slot =>
      obtain ⟨freed, hfree, -⟩ := bind_eq_ok.1 performed
      exact (free_eq_ok hfree).1

/-- Two slots and three sectors too many: a write is refused half way through the second page, and
the first page is still there. -/
theorem slotStore_of_refusal : ∃ history swap,
    Served { Disk.ofSize 19 with refuses := fun earlier _ _ => earlier == 9 } history swap ∧
      (replay history ⟨0⟩ = some (.fill pageSize 7) ∧ replay history ⟨1⟩ = none) ∧
      Faithful (19 / sectorsPerPage) (replay history) swap := by
  let disk := { Disk.ofSize 19 with refuses := fun earlier _ _ => earlier == 9 }
  have htest : (do
      let (stored, swap) ← (ofDisk disk).perform (.store (.fill pageSize 7))
      let (refused, _) ← swap.perform (.store (.fill pageSize 8))
      return stored == .stored ⟨0⟩ && refused == .refused (.device .outOfRange) :
        Except Panic Bool) = .ok true := by
    decide +kernel
  obtain ⟨⟨stored, swap₁⟩, hstored, htest⟩ := bind_eq_ok.1 htest
  obtain ⟨⟨refused, swap₂⟩, hrefused, htest⟩ := bind_eq_ok.1 htest
  simp only [pure_eq_ok, Bool.and_eq_true, beq_iff_eq] at htest
  obtain ⟨rfl, rfl⟩ := htest
  have hserved := (Served.start.perform hstored).perform hrefused
  exact ⟨_, swap₂, hserved, ⟨rfl, rfl⟩, hserved.slotStore⟩

end Swap

end DemandPaging
