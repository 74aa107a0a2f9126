import DemandPaging.Machine.Ownership
import DemandPaging.Proofs.PageTable.Count
import DemandPaging.Proofs.Run

/-!
Who owns a frame.

Frame list, pool, pages and page directories of all address spaces agree at every moment between two
requests, whichever requests were made before and whether they succeeded. The coherence of a sound
state says this about the view; here it is said about the state itself, in terms of its own audits,
its page tables and its counters. The counters need one more fact, that frames come and go between
the pool and the list and nowhere else.
-/

namespace DemandPaging

open Machine

/-! ### The supply of frames -/

section

variable {effects : List Effect} {x x' : Option FrameNumber} {v v' : View}

theorem Step.frames_eq (h : Step effects x v x' v') : v'.frames = v.frames := by
  cases h with
  | evict _ _ _ hstowed =>
      obtain ⟨isOccupied, pageIn, file, rfl⟩ := hstowed.exists_eq
      rfl
  | removePresent _ _ _ _ hgiven =>
      obtain ⟨file, rfl⟩ := hgiven.exists_eq
      rfl
  | _ => rfl

theorem Step.isSome_isAllocated (h : Step effects x v x' v') (hcoherent : Coherent x v)
    (f : FrameNumber) : (v'.isAllocated f).isSome = (v.isAllocated f).isSome := by
  cases h with
  | @take _ g hfree =>
      by_cases hf : f = g
      · simp only [hf, hfree, View.setAllocated, Function.update_self, Option.isSome_some]
      · exact congrArg Option.isSome (Function.update_of_ne hf _ _)
  | @giveBack _ g =>
      by_cases hf : f = g
      · have hallocated := hcoherent.residency.allocated (hcoherent.residency.unowned.2 rfl)
        simp only [hf, hallocated, View.setAllocated, Function.update_self, Option.isSome_some]
      · exact congrArg Option.isSome (Function.update_of_ne hf _ _)
  | evict _ _ _ hstowed =>
      obtain ⟨isOccupied, pageIn, file, rfl⟩ := hstowed.exists_eq
      rfl
  | removePresent _ _ _ _ hgiven =>
      obtain ⟨file, rfl⟩ := hgiven.exists_eq
      rfl
  | _ => rfl

end

variable {start m : Machine} {history : List Done}

theorem Run.frames_eq (h : Run start history m) :
    m.listed.length + m.freeFrames = start.freeFrames := by
  have hkept := h.preserves (P := fun _ v => v.frames = start.view.frames) rfl
    fun _ hstep hframes => hstep.frames_eq.trans hframes
  simpa [view, h.fresh.listed, freeFrames] using hkept

theorem Run.capacity_eq (h : Run start history m) : m.pool.capacity = start.pool.capacity := by
  have hkept := h.preserves
    (P := fun _ v => ∀ f, (v.isAllocated f).isSome = (start.view.isAllocated f).isSome)
    (fun _ => rfl) fun hcoherent hstep hsame f =>
      (hstep.isSome_isAllocated hcoherent f).trans (hsame f)
  have hlt : ∀ i, i < m.pool.capacity ↔ i < start.pool.capacity := fun i => by
    have hi := Bool.eq_iff_iff.1 (hkept ⟨i⟩)
    simpa [view, Pool.allocation_eq_getElem?, Pool.capacity] using hi
  have hle := hlt m.pool.capacity
  have hge := hlt start.pool.capacity
  omega

/-! ### Residency, as the state has it -/

namespace Machine.Sound

variable {f : FrameNumber} {o : Owner} {s : Key AddressSpace} {space : AddressSpace}
  {directory : Directory}

theorem owner_eq_some (h : Sound none m) :
    m.view.owner f = some (some o) ↔ ⟨f, some o⟩ ∈ m.listed := ownerIn_eq_some h.tidy.nodup

theorem exists_owner (h : Sound none m) {slot : FrameSlot} (hslot : slot ∈ m.listed) :
    ∃ o, slot.owner = some o ∧ m.view.owner slot.frame = some (some o) := by
  have howner : m.view.owner slot.frame = some slot.owner :=
    (ownerIn_eq_some h.tidy.nodup).2 hslot
  cases ho : slot.owner with
  | none =>
      rw [ho] at howner
      cases h.coherent.residency.unowned.1 howner
  | some o => exact ⟨o, rfl, ho ▸ howner⟩

theorem isOwner (h : Sound none m) (howner : m.view.owner f = some (some o)) :
    m.isOwner f o.page = true := by
  have hmem : (⟨f, some o⟩ : FrameSlot) ∈ m.listed := h.owner_eq_some.1 howner
  unfold Machine.isOwner
  cases hposition : m.position? f with
  | none =>
      have hnone := position?_eq_none hposition
      rw [ownerIn_eq_none] at hnone
      exact absurd (List.mem_map_of_mem hmem) hnone
  | some index =>
      obtain ⟨owner, hslot⟩ := getElem?_of_position hposition
      have howner' := ownerIn_of_getElem? h.tidy.nodup hslot
      rw [show ownerIn m.listed f = _ from howner] at howner'
      cases howner'
      simp [hslot]

theorem located (h : Sound none m) (howner : m.view.owner f = some (some o)) :
    ∃ page directory pa flags, m.pages.get? o.page = some page ∧ page.frame = some f ∧
      o.va = page.va ∧ f.start = .ok pa ∧ m.directories.get? o.directory = some directory ∧
      directory.locate page.va = some (pa, flags) ∧ flags.test .present = true ∧
      flags.test .user = true ∧ flags.test .writable = page.writable := by
  obtain ⟨page, pa, hpage, hframe, hva, hstart, hgrant⟩ := h.coherent.residency.linked howner
  obtain ⟨directory, hdirectory, hgranted⟩ := Option.bind_eq_some_iff.1 hgrant
  obtain ⟨pa', flags, hlocate, hpa', hpresent, huser, hwritable⟩ :=
    Directory.locate_eq_of_grant? hgranted
  have hoffset : page.va.pageOffset = 0 := by
    have haligned := page.aligned
    rwa [Address.isPageAligned, beq_iff_eq] at haligned
  have hsame : pa' = pa := Address.ext (by rw [hpa', hoffset, Nat.add_zero])
  subst hsame
  exact ⟨page, directory, pa', flags, hpage, hframe, hva, hstart, hdirectory, hlocate, hpresent,
    huser, hwritable⟩

theorem exists_directory (h : Sound none m) (hspace : m.spaces.get? s = some space) :
    ∃ directory, m.directories.get? space.directory = some directory :=
  Option.isSome_iff_exists.1
    (h.coherent.placement.directories (view_directoryOf_eq hspace))

/-- A page directory maps exactly the resident pages of its address space. -/
theorem isMapped_iff (h : Sound none m) (hspace : m.spaces.get? s = some space)
    (hdirectory : m.directories.get? space.directory = some directory) (va : VirtualAddress) :
    directory.isMapped va = true ↔ ∃ key page, space.pages[va.number]? = some key ∧
      m.pages.get? key = some page ∧ page.isResident = true := by
  have hgrant : m.view.grant space.directory va = directory.grant? va :=
    view_grant_eq m hdirectory va
  have hplacement := h.coherent.placement
  rw [Directory.isMapped_eq_isSome_grant?, ← hgrant, Option.isSome_iff_exists]
  constructor
  · rintro ⟨grant, hgranted⟩
    obtain ⟨f, o, howner, hsame, hnumber⟩ := h.coherent.residency.granted hgranted
    obtain ⟨page, _, hpage, hframe, hva, -⟩ := h.coherent.residency.linked howner
    obtain ⟨s', hplace⟩ := hplacement.held hpage
    have hhome := h.coherent.home howner hplace
    rw [hsame] at hhome
    obtain rfl := hplacement.separate hhome (view_directoryOf_eq hspace)
    rw [← hva, hnumber, view_pageOf_eq hspace] at hplace
    exact ⟨o.page, page, hplace, hpage, by rw [Page.isResident, hframe, Option.isSome_some]⟩
  · rintro ⟨key, page, hplace, hpage, hresident⟩
    obtain ⟨f, hframe⟩ := Option.isSome_iff_exists.1 hresident
    obtain ⟨o, howner, rfl⟩ := h.coherent.residency.listed hpage hframe
    obtain ⟨page', pa, hpage', -, hva, -, hgranted⟩ := h.coherent.residency.linked howner
    cases hpage.symm.trans hpage'
    rw [← view_pageOf_eq hspace] at hplace
    have hhome := h.coherent.home howner hplace
    rw [view_directoryOf_eq hspace, Option.some.injEq] at hhome
    have hnumber : page.va.number = va.number := hplacement.number_eq hplace hpage
    rw [hgrant, ← Directory.grant?_eq_of_number_eq hnumber, ← view_grant_eq m hdirectory, hhome,
      hgranted]
    exact ⟨_, rfl⟩

/-! ### The audits -/

theorem returns_auditSlot (h : Sound none m) {slot : FrameSlot} (hslot : slot ∈ m.listed)
    {seen : List FrameNumber} (hseen : slot.frame ∉ seen) :
    Returns (auditSlot seen slot) m () m := by
  obtain ⟨o, ho, howner⟩ := h.exists_owner hslot
  obtain ⟨page, directory, pa, flags, hpage, hframe, hva, hstart, hdirectory, hlocate, -⟩ :=
    h.located howner
  obtain ⟨frame, hfound, hallocated⟩ :=
    Option.map_eq_some_iff.1 (h.coherent.residency.allocated howner)
  unfold auditSlot
  simp only [returns_refuse, returns_require, returns_bind]
  refine ⟨by simpa using hseen, m, m, returns_get.2 ⟨rfl, rfl⟩, frame, m,
    returns_liftM.2 ⟨Pool.frame_eq_ok.2 hfound, rfl⟩, hallocated, ?_⟩
  simp only [ho, hpage, hframe, if_true, returns_bind]
  refine ⟨directory, m, returns_getDirectory.2 ⟨hdirectory, rfl⟩, pa, m,
    returns_liftM.2 ⟨hstart, rfl⟩, ?_⟩
  rw [hva, hlocate, Option.map_some, if_pos rfl]
  exact returns_pure.2 ⟨rfl, rfl⟩

theorem returns_auditSlots (h : Sound none m) {slots : List FrameSlot}
    (hslots : ∀ slot ∈ slots, slot ∈ m.listed) (hnodup : (slots.map (·.frame)).Nodup)
    {seen : List FrameNumber} (hseen : ∀ slot ∈ slots, slot.frame ∉ seen) :
    Returns (auditSlots seen slots) m () m := by
  induction slots generalizing seen with
  | nil => exact returns_pure.2 ⟨rfl, rfl⟩
  | cons slot rest ih =>
      rw [List.map_cons, List.nodup_cons] at hnodup
      refine returns_bind.2 ⟨(), m, h.returns_auditSlot (hslots slot List.mem_cons_self)
        (hseen slot List.mem_cons_self), ih (fun other hother =>
          hslots other (List.mem_cons_of_mem _ hother)) hnodup.2 fun other hother hmem => ?_⟩
      rcases List.mem_cons.1 hmem with he | hmem
      · exact hnodup.1 (he ▸ List.mem_map_of_mem hother)
      · exact hseen other (List.mem_cons_of_mem _ hother) hmem

theorem returns_auditFrames (h : Sound none m) : Returns auditFrames m () m :=
  returns_get_bind.2 (h.returns_auditSlots (fun _ hslot => hslot) h.tidy.nodup
    fun _ _ hmem => by cases hmem)

theorem returns_auditPage (h : Sound none m) (hspace : m.spaces.get? s = some space)
    {n : PageNumber} {key : Key Page} (hplace : space.pages[n]? = some key) :
    Returns (auditPage space.directory n key) m () m := by
  obtain ⟨directory, hdirectory⟩ := h.exists_directory hspace
  rw [← view_pageOf_eq hspace] at hplace
  obtain ⟨page, hpage, rfl⟩ := h.coherent.placement.placed hplace
  have hstart : page.va.number.start = .ok page.va := by
    rw [Address.start_number, Address.roundDown_eq_self page.aligned]
  have hmapped : directory.isMapped page.va = page.isResident := by
    rw [Bool.eq_iff_iff, h.isMapped_iff hspace hdirectory, ← view_pageOf_eq hspace, hplace]
    constructor
    · rintro ⟨_, page', ⟨⟩, hpage', hresident⟩
      cases hpage.symm.trans hpage'
      exact hresident
    · exact fun hresident => ⟨key, page, rfl, hpage, hresident⟩
  have hresidency : Returns (do
      unless (← getDirectory space.directory).isMapped page.va = page.isResident do
        throw (.residencyDisagrees page.va.text)) m () m := by
    refine returns_bind.2 ⟨directory, m, returns_getDirectory.2 ⟨hdirectory, rfl⟩, ?_⟩
    rw [if_pos hmapped]
    exact returns_pure.2 ⟨rfl, rfl⟩
  unfold auditPage
  refine returns_bind.2 ⟨page.va, m, returns_liftM.2 ⟨hstart, rfl⟩, returns_bind.2 ⟨page, m,
    returns_getPage.2 ⟨hpage, rfl⟩, returns_get_bind.2 ?_⟩⟩
  cases hframe : page.frame with
  | none => exact hresidency
  | some f =>
      obtain ⟨o, howner, rfl⟩ := h.coherent.residency.listed hpage hframe
      exact returns_require.2 ⟨h.isOwner howner, hresidency⟩

theorem returns_auditPages (h : Sound none m) (hspace : m.spaces.get? s = some space)
    {pages : List (PageNumber × Key Page)}
    (hpages : ∀ n key, (n, key) ∈ pages → space.pages[n]? = some key) :
    Returns (auditPages space.directory pages) m () m := by
  induction pages with
  | nil => exact returns_pure.2 ⟨rfl, rfl⟩
  | cons entry rest ih =>
      exact returns_bind.2 ⟨(), m, h.returns_auditPage hspace (hpages _ _ List.mem_cons_self),
        ih fun n key hmem => hpages n key (List.mem_cons_of_mem _ hmem)⟩

theorem returns_auditSpace (h : Sound none m) (hspace : m.spaces.get? s = some space) :
    Returns (auditSpace s) m () m :=
  returns_bind.2 ⟨space, m, returns_getSpace.2 ⟨hspace, rfl⟩,
    returns_bind.2 ⟨(), m, h.returns_auditFrames, h.returns_auditPages hspace fun _ _ hmem =>
      Std.ExtTreeMap.mem_toList_iff_getElem?_eq_some.1 hmem⟩⟩

/-! ### The counters -/

theorem residentFrames_eq (h : Sound none m) : m.residentFrames = m.listed.length := by
  rw [residentFrames, List.countP_eq_length]
  intro slot hslot
  obtain ⟨o, ho, -⟩ := h.exists_owner hslot
  rw [ho, Option.isSome_some]

end Machine.Sound

def Machine.residentPages (m : Machine) (space : AddressSpace) : Nat :=
  space.pages.values.countP fun key => (m.pages.get? key).any Page.isResident

/-- A page directory maps as many pages as its address space has in frames. -/
theorem Machine.Sound.mappedPages_eq {s : Key AddressSpace} {space : AddressSpace}
    {directory : Directory} (h : Sound none m) (hspace : m.spaces.get? s = some space)
    (hdirectory : m.directories.get? space.directory = some directory) :
    directory.mappedPages = m.residentPages space := by
  have hplaced : ∀ {n key}, space.pages[n]? = some key →
      ∃ page, m.pages.get? key = some page ∧ page.va.number = n := fun hplace =>
    h.coherent.placement.placed ((view_pageOf_eq hspace _).trans hplace)
  have hvalues := h.nodup_pages hspace
  let address : Key Page → Option VirtualAddress := fun key =>
    ((m.pages.get? key).filter Page.isResident).map Page.va
  have haddress : ∀ {key va}, address key = some va ↔
      ∃ page, m.pages.get? key = some page ∧ page.isResident = true ∧ page.va = va := by
    intro key va
    simp only [address, Option.map_eq_some_iff, Option.filter_eq_some_iff, and_assoc]
  have hmem : ∀ {key}, key ∈ space.pages.values → ∀ va, address key = some va →
      space.pages[va.number]? = some key := by
    intro key hkey va hva
    obtain ⟨n, hn⟩ := mem_values_iff.1 hkey
    obtain ⟨page, hpage, hnumber⟩ := hplaced hn
    obtain ⟨page', hpage', -, rfl⟩ := haddress.1 hva
    cases hpage.symm.trans hpage'
    rw [hnumber, hn]
  have hcount : directory.mappedPages = (space.pages.values.filterMap address).length := by
    refine Directory.mappedPages_eq_length ?_ fun va => ?_
    · rw [List.Nodup, List.pairwise_map, List.pairwise_filterMap]
      refine hvalues.imp_of_mem fun hkey hkey' hne va hva va' hva' he => hne ?_
      have hplace := hmem hkey va hva
      rw [he, hmem hkey' va' hva'] at hplace
      exact (Option.some.inj hplace).symm
    · rw [h.isMapped_iff hspace hdirectory, List.mem_map]
      simp only [List.mem_filterMap]
      constructor
      · rintro ⟨key, page, hplace, hpage, hresident⟩
        obtain ⟨page', hpage', hnumber⟩ := hplaced hplace
        cases hpage.symm.trans hpage'
        exact ⟨page.va, ⟨key, mem_values_iff.2 ⟨_, hplace⟩,
          haddress.2 ⟨page, hpage, hresident, rfl⟩⟩, hnumber⟩
      · rintro ⟨a, ⟨key, hkey, ha⟩, hnumber⟩
        obtain ⟨page, hpage, hresident, rfl⟩ := haddress.1 ha
        exact ⟨key, page, hnumber ▸ hmem hkey _ ha, hpage, hresident⟩
  rw [hcount, List.length_filterMap_eq_countP]
  refine List.countP_congr fun key _ => ?_
  simp only [address, Option.isSome_map, Option.isSome_filter]

/-! ### Ownership -/

structure FramesOwned (start m : Machine) : Prop where
  /-- The audits of the frame list and of every address space come to their end. -/
  audited : Returns auditFrames m () m ∧
    ∀ s space, m.spaces.get? s = some space → Returns (auditSpace s) m () m
  listedOnce : (m.listed.map (·.frame)).Nodup
  allocated : ∀ slot ∈ m.listed, ∃ frame, m.pool.frame slot.frame = .ok frame ∧
    frame.flags.allocated = true
  /-- Every listed frame belongs to a page of an address space, and to no other. -/
  owned : ∀ slot ∈ m.listed, ∃ o page, slot.owner = some o ∧ m.pages.get? o.page = some page ∧
    page.frame = some slot.frame ∧
    (∃ s space, m.spaces.get? s = some space ∧
      space.pages[page.va.number]? = some o.page) ∧
    ∀ key other, m.pages.get? key = some other → other.frame = some slot.frame → key = o.page
  /-- A page names a frame exactly if the frame lists the page. -/
  holds : ∀ key page, m.pages.get? key = some page → ∀ f, page.frame = some f ↔
    ∃ o, ⟨f, some o⟩ ∈ m.listed ∧ o.page = key
  /-- A page directory maps the resident pages of its address space and nothing else, each to its
  frame and with its rights. -/
  mapped : ∀ s space, m.spaces.get? s = some space → ∃ directory,
    m.directories.get? space.directory = some directory ∧
    (∀ va, directory.isMapped va = true ↔ ∃ key page, space.pages[va.number]? = some key ∧
      m.pages.get? key = some page ∧ page.isResident = true) ∧
    directory.mappedPages = m.residentPages space ∧
    ∀ (n : PageNumber) key page f, space.pages[n]? = some key → m.pages.get? key = some page →
      page.frame = some f → ∃ pa flags, f.start = .ok pa ∧
        directory.locate page.va = some (pa, flags) ∧ flags.test .present = true ∧
        flags.test .user = true ∧ flags.test .writable = page.writable
  /-- Every frame that was free at the start is free or holds a page. -/
  counted : m.pool.capacity = start.pool.capacity ∧
    m.residentFrames + m.freeFrames = m.pool.capacity - start.pool.allocatedCount

/-- After any run the books on frames are in order. -/
theorem Run.framesOwned (h : Run start history m) : FramesOwned start m where
  audited := ⟨h.sound.returns_auditFrames, fun _ _ => h.sound.returns_auditSpace⟩
  listedOnce := h.sound.tidy.nodup
  allocated slot hslot := by
    obtain ⟨o, -, howner⟩ := h.sound.exists_owner hslot
    obtain ⟨frame, hframe, hallocated⟩ :=
      Option.map_eq_some_iff.1 (h.sound.coherent.residency.allocated howner)
    exact ⟨frame, Pool.frame_eq_ok.2 hframe, hallocated⟩
  owned slot hslot := by
    obtain ⟨o, ho, howner⟩ := h.sound.exists_owner hslot
    obtain ⟨page, _, hpage, hframe, -⟩ := h.sound.coherent.residency.linked howner
    obtain ⟨s, hplace⟩ := h.sound.coherent.placement.held hpage
    obtain ⟨space, hspace, hplace⟩ := Option.bind_eq_some_iff.1 hplace
    refine ⟨o, page, ho, hpage, hframe, ⟨s, space, hspace, hplace⟩, fun key other hother hsame => ?_⟩
    obtain ⟨o', howner', rfl⟩ := h.sound.coherent.residency.listed hother hsame
    rw [howner] at howner'
    cases howner'
    rfl
  holds key page hpage f := by
    constructor
    · intro hframe
      obtain ⟨o, howner, hkey⟩ := h.sound.coherent.residency.listed hpage hframe
      exact ⟨o, h.sound.owner_eq_some.1 howner, hkey⟩
    · rintro ⟨o, hmem, rfl⟩
      obtain ⟨page', _, hpage', hframe, -⟩ :=
        h.sound.coherent.residency.linked (h.sound.owner_eq_some.2 hmem)
      cases hpage.symm.trans hpage'
      exact hframe
  mapped s space hspace := by
    obtain ⟨directory, hdirectory⟩ := h.sound.exists_directory hspace
    refine ⟨directory, hdirectory, h.sound.isMapped_iff hspace hdirectory,
      h.sound.mappedPages_eq hspace hdirectory, fun n key page f hplace hpage hframe => ?_⟩
    obtain ⟨o, howner, rfl⟩ := h.sound.coherent.residency.listed hpage hframe
    obtain ⟨page', directory', pa, flags, hpage', -, -, hstart, hdirectory', hlocated⟩ :=
      h.sound.located howner
    cases hpage.symm.trans hpage'
    have hhome := h.sound.coherent.home howner ((view_pageOf_eq hspace n).trans hplace)
    rw [view_directoryOf_eq hspace, Option.some.injEq] at hhome
    rw [← hhome, hdirectory] at hdirectory'
    cases hdirectory'
    exact ⟨pa, flags, hstart, hlocated⟩
  counted := by
    refine ⟨h.capacity_eq, ?_⟩
    have hfree := h.fresh.pool.freeCount_add_allocatedCount
    have hframes := h.frames_eq
    rw [h.sound.residentFrames_eq, h.capacity_eq, hframes, ← hfree, Nat.add_sub_cancel]
    rfl

/-- The first stack page of a process takes the only frame there is. -/
theorem framesOwned_of_setUpStack : ∃ history m, Run (bare 1 0 .empty) history m ∧
    m.residentFrames = 1 ∧ FramesOwned (bare 1 0 .empty) m := by
  have htest : returnsWith (do Request.setUpStack.perform? (← Space.create "init"))
      (bare 1 0 .empty) (fun answer m => answer.isSome && m.residentFrames == 1) = true := by
    decide +kernel
  obtain ⟨answer, m, hrun, htest⟩ := exists_returns htest
  obtain ⟨s, m₁, hcreate, hstack⟩ := returns_bind.1 hrun
  rw [Bool.and_eq_true, Option.isSome_iff_exists, beq_iff_eq] at htest
  obtain ⟨⟨answer, rfl⟩, hcount⟩ := htest
  have hreached : Run (bare 1 0 .empty) [⟨s, .setUpStack, answer, m₁, m⟩] m :=
    ⟨fresh_bare 1 0 .empty, .request (.create .refl hcreate) hstack⟩
  exact ⟨_, m, hreached, hcount, hreached.framesOwned⟩

end DemandPaging
