import DemandPaging.Proofs.Completion
import DemandPaging.Proofs.Memory.Pool
import DemandPaging.Proofs.PageTable.Grant
import DemandPaging.Proofs.Backing.Slices
import DemandPaging.Proofs.Backing.Slots
import Mathlib.Tactic

/-!
What a state says about memory.

A state is made of lists, arrays, trees and tables, and how they are laid out decides which frame
the clock takes next, or which slot is filled. It does not decide what a process finds in its memory.
The view of a state forgets the layout: it is a handful of finite maps that say who owns a frame and
what is in it, what is in a slot, where the pages of an address space are and which rights a page
directory grants. The position of the hand, the accessed bits, pins, stack pointers, open handles
and the events reported so far are not part of it, so whatever changes only those leaves the view
alone.

Every part of the state changes by one update of its map. The updates are named here, next to the
lemmas that say which change of the state performs which of them.
-/

namespace DemandPaging

/-- The file without the count of its handles. -/
def File.unissued (file : File) : File := { file with issued := 0 }

def ownerIn (listed : List FrameSlot) (frame : FrameNumber) : Option (Option Owner) :=
  (listed.find? (·.frame == frame)).map (·.owner)

/-- What a state says about memory, as maps. -/
structure View where
  /-- The frames in use, with their owners. -/
  owner : FrameNumber → Option (Option Owner)
  /-- Whether a frame of the pool is handed out. -/
  isAllocated : FrameNumber → Option Bool
  bytes : FrameNumber → Option PageBytes
  /-- The number of frames that are in use or free. -/
  frames : Nat
  /-- The number of slots of the swap area. -/
  slots : Nat
  isOccupied : SwapSlot → Bool
  pageIn : SwapSlot → PageBytes
  page : Key Page → Option Page
  /-- The number of pages there ever were. -/
  created : Nat
  grant : Key Directory → VirtualAddress → Option Grant
  isDirty : Key Directory → VirtualAddress → Bool
  hasDirectory : Key Directory → Bool
  /-- The pages of an address space. -/
  pageOf : Key AddressSpace → PageNumber → Option (Key Page)
  directoryOf : Key AddressSpace → Option (Key Directory)
  regionOf : Key AddressSpace → VirtualAddress → Option Region
  file : Key File → Option File

def Machine.view (m : Machine) : View where
  owner := ownerIn m.listed
  isAllocated := m.pool.allocation
  bytes := m.pool.bytes?
  frames := m.listed.length + m.pool.freeCount
  slots := m.swap.slotCount
  isOccupied := m.swap.isOccupied
  pageIn := m.swap.pageIn
  page := m.pages.get?
  created := m.pages.nextKey.index
  grant d va := (m.directories.get? d).bind (·.grant? va)
  isDirty d va := (m.directories.get? d).any (·.test va .dirty)
  hasDirectory d := (m.directories.get? d).isSome
  pageOf s n := (m.spaces.get? s).bind (·.pages[n]?)
  directoryOf s := (m.spaces.get? s).map (·.directory)
  regionOf s va := (m.spaces.get? s).bind (·.regions[va]?)
  file f := (m.files.get? f).map File.unissued

/-! ### Updates -/

namespace View

def setOwner (v : View) (f : FrameNumber) (entry : Option (Option Owner)) : View :=
  { v with owner := Function.update v.owner f entry }

def setAllocated (v : View) (f : FrameNumber) (on : Bool) : View :=
  { v with isAllocated := Function.update v.isAllocated f (some on) }

def setBytes (v : View) (f : FrameNumber) (bytes : PageBytes) : View :=
  { v with bytes := Function.update v.bytes f (some bytes) }

def vacate (v : View) (slot? : Option SwapSlot) : View :=
  { v with isOccupied := fun slot => if slot? = some slot then false else v.isOccupied slot }

def occupy (v : View) (slot : SwapSlot) (bytes : PageBytes) : View :=
  { v with
    isOccupied := Function.update v.isOccupied slot true
    pageIn := Function.update v.pageIn slot bytes }

def setPage (v : View) (key : Key Page) (page? : Option Page) : View :=
  { v with page := Function.update v.page key page? }

def addPage (v : View) (page : Page) : View :=
  { v with
    page := Function.update v.page ⟨v.created⟩ (some page)
    created := v.created + 1 }

/-- Replaces the grant for a page. Its entry is clean. -/
def setGrant (v : View) (d : Key Directory) (n : PageNumber) (grant? : Option Grant) : View :=
  { v with
    grant := fun d' va => if d' = d ∧ va.number = n then grant? else v.grant d' va
    isDirty := fun d' va => if d' = d ∧ va.number = n then false else v.isDirty d' va }

def stain (v : View) (d : Key Directory) (n : PageNumber) : View :=
  { v with isDirty := fun d' va => if d' = d ∧ va.number = n then true else v.isDirty d' va }

def setPlace (v : View) (s : Key AddressSpace) (n : PageNumber) (key? : Option (Key Page)) : View :=
  { v with pageOf := Function.update v.pageOf s (Function.update (v.pageOf s) n key?) }

def setRegion (v : View) (s : Key AddressSpace) (start : VirtualAddress)
    (region? : Option Region) : View :=
  { v with regionOf := Function.update v.regionOf s (Function.update (v.regionOf s) start region?) }

def setFile (v : View) (f : Key File) (file : File) : View :=
  { v with file := Function.update v.file f (some file) }

def addSpace (v : View) (s : Key AddressSpace) (d : Key Directory) : View :=
  { v with
    hasDirectory := Function.update v.hasDirectory d true
    directoryOf := Function.update v.directoryOf s (some d) }

def eraseSpace (v : View) (s : Key AddressSpace) : View :=
  { v with
    pageOf := Function.update v.pageOf s fun _ => none
    directoryOf := Function.update v.directoryOf s none
    regionOf := Function.update v.regionOf s fun _ => none }

end View

/-! ### The list of frames -/

section Listed

variable {listed : List FrameSlot} {slot : FrameSlot} {index : Nat} {f : FrameNumber}

theorem ownerIn_eq_some (hnodup : (listed.map (·.frame)).Nodup) {owner : Option Owner} :
    ownerIn listed f = some owner ↔ ⟨f, owner⟩ ∈ listed := by
  induction listed with
  | nil => simp [ownerIn]
  | cons first rest ih =>
      rw [List.map_cons, List.nodup_cons] at hnodup
      by_cases hfirst : first.frame = f
      · have hrest : ∀ owner', (⟨f, owner'⟩ : FrameSlot) ∉ rest := fun owner' hmem =>
          hnodup.1 (List.mem_map.2 ⟨_, hmem, hfirst.symm⟩)
        obtain ⟨frame, owner'⟩ := first
        cases hfirst
        simp [ownerIn, hrest, eq_comm]
      · have hfind : ownerIn (first :: rest) f = ownerIn rest f := by
          simp [ownerIn, hfirst]
        have hne : (⟨f, owner⟩ : FrameSlot) ≠ first := fun he => hfirst (by rw [← he])
        rw [hfind, ih hnodup.2, List.mem_cons, or_iff_right hne]

theorem ownerIn_eq_none : ownerIn listed f = none ↔ f ∉ listed.map (·.frame) := by
  simp [ownerIn]

theorem ownerIn_of_getElem? (hnodup : (listed.map (·.frame)).Nodup)
    (hslot : listed[index]? = some slot) : ownerIn listed slot.frame = some slot.owner :=
  (ownerIn_eq_some hnodup).2 (List.mem_of_getElem? hslot)

theorem map_frame_modify (listed : List FrameSlot) (index : Nat) (owner : Option Owner) :
    (listed.modify index fun slot => { slot with owner }).map (·.frame) = listed.map (·.frame) := by
  apply List.ext_getElem?
  intro i
  simp only [List.getElem?_map, List.getElem?_modify, Option.map_eq_map]
  split
  · rw [Option.map_map]
    rfl
  · simp

theorem getElem?_frame_injective (hnodup : (listed.map (·.frame)).Nodup)
    (hslot : listed[index]? = some slot) {i : Nat} {other : FrameSlot}
    (hother : listed[i]? = some other) (hframe : other.frame = slot.frame) : i = index := by
  have hi : (listed.map (·.frame))[i]? = some slot.frame := by
    rw [List.getElem?_map, hother, Option.map_some, hframe]
  have hindex : (listed.map (·.frame))[index]? = some slot.frame := by
    rw [List.getElem?_map, hslot, Option.map_some]
  obtain ⟨hlt, hget⟩ := List.getElem?_eq_some_iff.1 hi
  obtain ⟨hlt', hget'⟩ := List.getElem?_eq_some_iff.1 hindex
  exact hnodup.getElem_inj_iff.1 (hget.trans hget'.symm)

theorem ownerIn_modify (hnodup : (listed.map (·.frame)).Nodup)
    (hslot : listed[index]? = some slot) (owner : Option Owner) :
    ownerIn (listed.modify index fun slot => { slot with owner }) =
      Function.update (ownerIn listed) slot.frame (some owner) := by
  have hnodup' : ((listed.modify index fun slot => { slot with owner }).map (·.frame)).Nodup := by
    rw [map_frame_modify]
    exact hnodup
  funext f
  apply Option.ext
  intro found
  rw [ownerIn_eq_some hnodup', Function.update_apply, List.mem_iff_getElem?]
  simp only [List.getElem?_modify, Option.map_eq_map]
  split
  · next hf =>
    subst hf
    constructor
    · rintro ⟨i, hi⟩
      by_cases hindex : index = i
      · subst hindex
        simp only [if_true, hslot, Option.map_some, Option.some.injEq, FrameSlot.mk.injEq] at hi
        rw [hi.2]
      · simp only [if_neg hindex, Option.map_id_fun', id] at hi
        exact absurd (getElem?_frame_injective hnodup hslot hi rfl).symm hindex
    · rintro ⟨⟩
      exact ⟨index, by simp [hslot]⟩
  · next hf =>
    rw [ownerIn_eq_some hnodup, List.mem_iff_getElem?]
    have hsame : ∀ i, (Option.map (fun a => if index = i then { a with owner } else a) listed[i]? =
        some ⟨f, found⟩ ↔ listed[i]? = some ⟨f, found⟩) := by
      intro i
      by_cases hindex : index = i
      · subst hindex
        rw [hslot]
        simp only [if_true, Option.map_some, Option.some.injEq]
        constructor
        · intro he
          exact absurd (congrArg FrameSlot.frame he).symm hf
        · intro he
          exact absurd (congrArg FrameSlot.frame he).symm hf
      · simp [hindex]
    simp only [hsame]

theorem ownerIn_eraseIdx (hnodup : (listed.map (·.frame)).Nodup)
    (hslot : listed[index]? = some slot) :
    ownerIn (listed.eraseIdx index) = Function.update (ownerIn listed) slot.frame none := by
  have hnodup' : ((listed.eraseIdx index).map (·.frame)).Nodup :=
    hnodup.sublist (List.Sublist.map _ (List.eraseIdx_sublist _ _))
  funext f
  apply Option.ext
  intro found
  rw [ownerIn_eq_some hnodup', Function.update_apply, List.mem_eraseIdx_iff_getElem?]
  split
  · next hf =>
    subst hf
    constructor
    · rintro ⟨i, hne, hi⟩
      exact absurd (getElem?_frame_injective hnodup hslot hi rfl) hne
    · intro h
      cases h
  · next hf =>
    rw [ownerIn_eq_some hnodup, List.mem_iff_getElem?]
    constructor
    · rintro ⟨i, -, hi⟩
      exact ⟨i, hi⟩
    · rintro ⟨i, hi⟩
      refine ⟨i, ?_, hi⟩
      rintro rfl
      rw [hslot] at hi
      cases hi
      exact hf rfl

theorem ownerIn_append (hfresh : ownerIn listed f = none) (owner : Option Owner) :
    ownerIn (listed ++ [⟨f, owner⟩]) = Function.update (ownerIn listed) f (some owner) := by
  funext g
  rw [Function.update_apply]
  split
  · next hg =>
    subst hg
    have hfind : listed.find? (·.frame == g) = none := by simpa [ownerIn] using hfresh
    simp [ownerIn, List.find?_append, hfind]
  · next hg => simp [ownerIn, List.find?_append, Ne.symm hg]

theorem map_frame_append_nodup (hnodup : (listed.map (·.frame)).Nodup)
    (hfresh : ownerIn listed f = none) (owner : Option Owner) :
    ((listed ++ [(⟨f, owner⟩ : FrameSlot)]).map (·.frame)).Nodup := by
  rw [List.map_append, List.nodup_append]
  refine ⟨hnodup, by simp, ?_⟩
  intro a ha b hb
  rw [List.map_singleton, List.mem_singleton] at hb
  rintro rfl
  rw [hb] at ha
  exact ownerIn_eq_none.1 hfresh ha

theorem getElem?_of_position {m : Machine} (h : m.position? f = some index) :
    ∃ owner, m.listed[index]? = some ⟨f, owner⟩ := by
  obtain ⟨hlt, hframe, -⟩ := List.findIdx?_eq_some_iff_getElem.1 h
  refine ⟨m.listed[index].owner, ?_⟩
  rw [List.getElem?_eq_getElem hlt]
  have hframe : m.listed[index].frame = f := by simpa using hframe
  rw [← hframe]

theorem position?_eq_none {m : Machine} (h : m.position? f = none) :
    ownerIn m.listed f = none := by
  rw [Machine.position?, List.findIdx?_eq_none_iff] at h
  rw [ownerIn_eq_none]
  intro hmem
  obtain ⟨slot, hslot, hframe⟩ := List.mem_map.1 hmem
  have hne := h slot hslot
  rw [hframe] at hne
  simp at hne

end Listed

/-! ### Pages -/

theorem Page.create_eq_ok {va : VirtualAddress} {writable : Bool} {contents : Contents} {page : Page}
    (h : Page.create va writable contents = .ok page) :
    ∃ aligned, page = ⟨va, writable, contents, none, 1, aligned⟩ := by
  unfold create at h
  split at h
  · next aligned =>
    cases h
    exact ⟨aligned, rfl⟩
  · cases h

/-! ### Arenas -/

namespace Arena

variable {α : Type}

theorem get?_modify_eq_update (arena : Arena α) (key : Key α) (change : α → α) :
    (arena.modify key change).get? =
      Function.update arena.get? key ((arena.get? key).map change) := by
  funext other
  rw [get?_modify, Function.update_apply]
  by_cases h : key = other
  · rw [if_pos h, if_pos h.symm, h]
  · rw [if_neg h, if_neg (Ne.symm h)]

theorem get?_erase_eq_update (arena : Arena α) (key : Key α) :
    (arena.erase key).get? = Function.update arena.get? key none := by
  funext other
  rw [get?_erase, Function.update_apply]
  simp only [eq_comm]

theorem get?_add_eq_update (arena : Arena α) (value : α) :
    (arena.add value).get? = Function.update arena.get? arena.nextKey (some value) := by
  funext other
  rw [get?_add, Function.update_apply]

end Arena

end DemandPaging
