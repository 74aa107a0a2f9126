import DemandPaging.Proofs.Space.RegionPages
import DemandPaging.Proofs.UserMemory

/-!
Mapped regions and pages agree.

In every state of a run the regions of an address space are apart from one another, each has all its
pages, and no other page belongs to a file. So unmapping a region takes away the pages of that region
and of no other. Afterwards its places are free, and until one of them is filled again no access
reaches it: a piece of an access that comes to a free place is rejected, unless the stack grows there.
-/

namespace DemandPaging

open Machine Space

variable {start m m₁ m₂ m' : Machine} {history later : List Done} {s s' : Id}
  {space : AddressSpace} {a : VirtualAddress} {n : PageNumber}

instance (region : Region) (n : PageNumber) : Decidable (region.Has n) :=
  inferInstanceAs (Decidable (_ ∧ _))

/-! ### Unmapping -/

def AddressSpace.emptied (space : AddressSpace) : AddressSpace :=
  { space with pages := ∅, regions := ∅ }

namespace Space

section

variable (s : Id)

def emptiedOf (m : Machine) : Option AddressSpace := (m.spaces.get? s).map AddressSpace.emptied

theorem keeps_emptied {α : Type} {action : Action α} (h : Keeps Aside action) :
    Keeps (Same (emptiedOf s)) action :=
  h.mono fun haside => by rw [Same, emptiedOf, haside.spaces, emptiedOf]

theorem keeps_emptied_updateSpace {change : AddressSpace → AddressSpace}
    (h : ∀ space, (change space).emptied = space.emptied) :
    Keeps (Same (emptiedOf s)) (updateSpace s change) := fun m => by
  change Option.map _ (Arena.get? (Arena.modify m.spaces s change) s) = _
  rw [Arena.get?_modify, if_pos rfl, emptiedOf]
  cases m.spaces.get? s with
  | none => rfl
  | some space => exact congrArg some (h space)

theorem keeps_emptied_removePages (numbers : List PageNumber) :
    Keeps (Same (emptiedOf s)) (removePages s numbers) := by
  induction numbers with
  | nil => exact .pure _
  | cons n rest ih =>
      refine .bind (.bind (keeps_emptied s (keeps_getSpace s)) fun space =>
        .bind (keeps_emptied s (keeps_removeFromMap _ n)) fun pages? => ?_) fun _ => ih
      cases pages? with
      | none => exact .pure _
      | some pages => exact .bind (keeps_emptied_updateSpace s fun _ => rfl) fun _ => .pure _

theorem keeps_emptied_unmapFile (start : VirtualAddress) :
    Keeps (Same (emptiedOf s)) (unmapFile s start) := by
  unfold unmapFile
  refine .bind (keeps_emptied s (keeps_getSpace s)) fun space =>
    .bind (keeps_emptied s (keeps_getSpace s)) fun space' => ?_
  split
  · exact keeps_emptied s (keeps_record rfl)
  · exact .bind (.liftM _) fun numbers => .bind (keeps_emptied_removePages s numbers) fun _ =>
      .bind (keeps_emptied_updateSpace s fun _ => rfl) fun _ => keeps_emptied s (keeps_record rfl)

end

end Space

structure RegionRemoved (s : Id) (region : Region) (space : AddressSpace) (m m' : Machine) :
    Prop where
  here : ∃ pages : PageMap, m'.spaces.get? s =
      some { space with pages, regions := space.regions.erase region.start } ∧
    ∀ n : PageNumber, pages[n]? = if region.Has n then none else space.pages[n]?
  others : ∀ s', s' ≠ s → m'.spaces.get? s' = m.spaces.get? s'
  gone : ∀ {n : PageNumber} {key}, region.Has n → space.pages[n]? = some key →
    m'.pages.get? key = none
  kept : ∀ {key}, (∀ n : PageNumber, region.Has n → space.pages[n]? ≠ some key) →
    m'.pages.get? key = m.pages.get? key
  bytes : m'.pool.bytes? = m.pool.bytes?
  pageIn : m'.swap.pageIn = m.swap.pageIn

theorem Space.FileUnmapped.regionRemoved {region : Region} {effects : List Effect}
    (h : FileUnmapped s a region effects m m') (hsound : Sound none m)
    (hspace : m.spaces.get? s = some space) (ha : region.start = a)
    (hrun : Returns (unmapFile s a) m () m') : RegionRemoved s region space m m' := by
  have hothers := (keeps_unmapFile s a).returns hrun
  have hemptied := (keeps_emptied_unmapFile s a).returns hrun
  rw [Same, emptiedOf, emptiedOf, hspace, Option.map_some, Option.map_eq_some_iff] at hemptied
  obtain ⟨space', hspace', hemptied⟩ := hemptied
  have hplace : ∀ n : PageNumber,
      space'.pages[n]? = if region.Has n then none else space.pages[n]? := fun n => by
    rw [← view_pageOf_eq hspace, ← view_pageOf_eq hspace', h.place]
    rfl
  refine ⟨⟨space'.pages, ?_, hplace⟩, hothers.elsewhere, fun {n key} hn hplaced => ?_,
    fun hnot => h.spared fun n hle hlt => ?_, h.untouched.bytes, h.untouched.pageIn⟩
  · have hregions : space'.regions = space.regions.erase region.start := by
      refine Std.ExtTreeMap.ext_getElem? fun start => ?_
      rw [← view_regionOf_eq hspace', h.regionOf, Function.update_self, Function.update_apply,
        getElem?_erase_eq_ite, ha, view_regionOf_eq hspace]
    rw [hspace', ← hregions]
    simp only [AddressSpace.emptied, AddressSpace.mk.injEq] at hemptied
    obtain ⟨hname, hdirectory, -, -, hpointer, hsaved⟩ := hemptied
    rw [← hname, ← hdirectory, ← hpointer, ← hsaved]
  · -- the page would have to be where it was before
    by_contra hthere
    obtain ⟨page', hpage'⟩ := Option.ne_none_iff_exists'.1 hthere
    rw [← view_pageOf_eq hspace] at hplaced
    obtain ⟨page, hpage, -⟩ := hsound.coherent.placement.placed hplaced
    obtain ⟨s', hplace'⟩ := (h.course.sound hsound).coherent.placement.held hpage'
    have hold := (h.course.steps.page_old (hsound.coherent.placement.created hpage)).2 _ _ hplace'
    obtain rfl := hsound.coherent.placement.alone hplaced hold
    have hsame := (hsound.coherent.placement.number_eq hplaced hpage).symm.trans
      (hsound.coherent.placement.number_eq hold hpage)
    rw [← hsame, h.place, if_pos (show _ ∧ _ from hn)] at hplace'
    cases hplace'
  · rw [view_pageOf_eq hspace]
    exact hnot n ⟨hle, hlt⟩

/-- Unmapping takes the region away that starts at the address, or does nothing. -/
theorem Run.ends_unmapFile (h : Run start history m) (hspace : m.spaces.get? s = some space)
    (a : VirtualAddress) :
    Ends ((Request.unmapFile a).perform s) m
      (fun _ m' =>
        (space.regions[a]? = none ∧
          m' = { m with events := m.events.push (.nothingUnmapped space.name a) }) ∨
        ∃ region, space.regions[a]? = some region ∧ RegionRemoved s region space m m')
      fun _ _ => maxFrames < start.pool.capacity := by
  refine .intro (fun u m' hrun => ?_) fun panic m' hpanic => ?_
  · have hrun : Returns (unmapFile s a) m u m' := hrun
    rcases returns_unmapFile h.sound hrun with ⟨hnone, -⟩ | ⟨region, effects, hregion, hunmapped⟩
    · rw [view_regionOf_eq hspace] at hnone
      simp only [unmapFile, returns_bind, returns_getSpace, and_assoc, exists_and_left,
        exists_eq_left] at hrun
      obtain ⟨_, hfound, _, hfound', hrun⟩ := hrun
      cases hspace.symm.trans hfound
      cases hspace.symm.trans hfound'
      rw [hnone] at hrun
      exact .inl ⟨hnone, returns_record.1 hrun⟩
    · refine .inr ⟨region, by rw [← view_regionOf_eq hspace, hregion], ?_⟩
      exact hunmapped.regionRemoved h.sound hspace (h.regionsPlaced.start hregion) hrun
  · by_contra hcapacity
    have hserves := h.serves (Nat.not_lt.1 hcapacity) hspace
    have hnever : PanicsOnly (fun _ _ => False) (unmapFile s a) m := panicsOnly_unmapFile hserves a
    exact hnever.panicked hpanic

/-! ### Free places -/

/-- The request put a page into a place that is free otherwise. -/
structure Done.Covers (d : Done) (s : Id) (n : PageNumber) : Prop where
  here : d.space = s
  fills : ∃ space, d.before.spaces.get? s = some space ∧ d.request.Fills space n
  placed : d.after.view.pageOf s n ≠ none

theorem Reaches.named_le (h : Reaches m later m') :
    m.spaces.nextKey.index ≤ m'.spaces.nextKey.index := by
  induction h with
  | refl => exact Nat.le_refl _
  | create _ hrun ih => exact ih.trans (others_of_create hrun).2.named
  | clients _ _ ih => exact ih
  | request _ hrun ih => exact ih.trans (Request.named_le (Request.returns_perform?.1 hrun).2)

theorem Request.pageOf_eq_none {α : Type} {request : Request α} {answer : α} (hsound : Sound none m)
    (hspace : m.spaces.get? s = some space) (hrun : Returns (request.perform s) m answer m')
    (hnamed : s'.index < m.spaces.nextKey.index) (hfree : m.view.pageOf s' n = none)
    (hfills : s' = s → ¬request.Fills space n) : m'.view.pageOf s' n = none := by
  by_contra hplace
  rcases Request.places hsound hspace hrun hplace with hold | hplaces
  · exact hold hfree
  · cases hplaces with
    | filled hs hfound hfilled =>
        cases hspace.symm.trans hfound
        exact hfills hs hfilled
    | copied _ hnew =>
        rw [hnew] at hnamed
        exact Nat.lt_irrefl _ hnamed

theorem Reaches.pageOf_eq_none (h : Reaches m later m') (hsound : Sound none m)
    (hs : m.spaces.get? s ≠ none) (hfree : m.view.pageOf s n = none)
    (hcovers : ∀ d ∈ later, ¬d.Covers s n) : m'.view.pageOf s n = none := by
  have hnamed := Arena.index_lt_of_get? hs
  induction h with
  | refl => exact hfree
  | create hreaches hrun ih =>
      rw [(returns_create (hreaches.sound hsound) hrun).pageOf]
      exact ih hcovers
  | clients _ _ ih => exact ih hcovers
  | request hreaches hrun ih =>
      have hbefore := ih fun d hd => hcovers d (List.mem_cons_of_mem _ hd)
      obtain ⟨⟨space, hspace⟩, hperform⟩ := Request.returns_perform?.1 hrun
      by_contra hplace
      exact hplace (Request.pageOf_eq_none (hreaches.sound hsound) hspace hperform
        (Nat.lt_of_lt_of_le hnamed hreaches.named_le) hbefore fun hhere hfills =>
          hcovers _ List.mem_cons_self
            ⟨hhere.symm, ⟨space, by rw [hhere, hspace], hfills⟩, hplace⟩)

def Touches (va : VirtualAddress) (length : Nat) (n : PageNumber) : Prop :=
  ∃ i < length, (va.toNat + i) / pageSize = n.toNat

/-- What happens to faults and accesses that come to a free place. -/
structure Rejects (start m : Machine) (s : Id) (n : PageNumber) : Prop where
  faults : ∀ {space} {fault : PageFault}, m.spaces.get? s = some space →
    fault.address.number = n → ¬fault.GrowsStack space.savedStackPointer n →
      Completes ((Request.handleFault fault).perform s) m fun answer _ =>
        ∃ cause, answer = .error cause
  reads : ∀ {space va length}, m.spaces.get? s = some space → Touches va length n →
    ¬AccessGrowsStack va length space.stackPointer n →
      Ends ((Request.readUser va length).perform s) m
        (fun (bytes, result) _ => (∃ cause, result = .error cause) ∧
          ∀ i < bytes.size, (va.toNat + i) / pageSize ≠ n.toNat)
        (StopsStuck start m)
  writes : ∀ {space va data}, m.spaces.get? s = some space → Touches va data.size n →
    ¬AccessGrowsStack va data.size space.stackPointer n →
      Ends ((Request.writeUser va data).perform s) m
        (fun answer m' => (∃ cause, answer = .error cause) ∧ ∃ effects, ∃ stored ≤ data.size,
          Stored s va.toNat (data.extract 0 stored) effects m m' ∧
            ∀ i < stored, (va.toNat + i) / pageSize ≠ n.toNat)
        (StopsStuck start m)

theorem View.HasByte.ne_of_free {v : View} {a : Nat} (h : v.HasByte s a)
    (hfree : v.pageOf s n = none) : a / pageSize ≠ n.toNat := by
  obtain ⟨n', offset, rfl, hoffset, hplace⟩ := h
  intro he
  obtain rfl : n' = n := Number.ext (by
    simp only [pageSize] at he hoffset
    omega)
  exact hplace hfree

theorem Space.completes_resolveFault_of_free {fault : PageFault}
    (hspace : m.spaces.get? s = some space) (hfree : space.pages[fault.address.number]? = none)
    (hgrows : ¬fault.GrowsStack space.savedStackPointer fault.address.number) :
    Completes (resolveFault s fault).run m fun answer _ => ∃ cause, answer = .error cause := by
  unfold resolveFault
  dsimp only
  refine .run_refuse (fun _ => ⟨_, rfl⟩) fun _ => .run_refuse (fun _ => ⟨_, rfl⟩) fun _ =>
    .run_require (fun _ => ⟨_, rfl⟩) fun _ => .run_step (returns_getSpace.2 ⟨hspace, rfl⟩) ?_
  rw [show space.pages.find? fault.address = none from hfree]
  exact .run_require (fun _ => ⟨_, rfl⟩) fun haccess => absurd ⟨rfl, haccess⟩ hgrows

/-- A fault in a free place is rejected if the stack does not grow for it. -/
theorem Space.completes_handleFault_of_free {fault : PageFault}
    (hspace : m.spaces.get? s = some space) (hfree : m.view.pageOf s fault.address.number = none)
    (hgrows : ¬fault.GrowsStack space.savedStackPointer fault.address.number) :
    Completes (handleFault s fault).run m fun answer _ => ∃ cause, answer = .error cause := by
  rw [view_pageOf_eq hspace] at hfree
  unfold handleFault
  refine .run_step (returns_getSpace.2 ⟨hspace, rfl⟩) (.run_step (a := ()) (returns_record.2 rfl) ?_)
  have hresolved : Completes (resolveFault s fault).run
      { m with events := m.events.push (.faulted space.name fault) }
      fun answer _ => ∃ cause, answer = .error cause :=
    completes_resolveFault_of_free hspace hfree hgrows
  exact hresolved.run_tryCatch (fun _ _ _ hrejected => hrejected) fun cause _ _ _ =>
    .run_step (a := ()) (returns_record.2 rfl) (.run_throw ⟨cause, rfl⟩)

theorem Run.rejects (h : Run start history m) (hfree : m.view.pageOf s n = none) :
    Rejects start m s n := by
  have hthere : ∀ {space}, m.spaces.get? s = some space → m.spaces.get? s ≠ none := fun hspace => by
    rw [hspace]
    exact Option.some_ne_none _
  have hleft : ∀ {space α m'} {request : Request α} {answer}, m.spaces.get? s = some space →
      Returns (request.perform s) m answer m' → ¬request.Fills space n →
        m'.view.pageOf s n = none := fun hspace hrun hfills =>
    Request.pageOf_eq_none h.sound hspace hrun (Arena.index_lt_of_get? (hthere hspace)) hfree
      fun _ => hfills
  refine ⟨fun hspace hn hgrows => ?_,
    fun {space va length} hspace htouches hgrows => .intro (fun (bytes, result) m' hrun => ?_)
      fun _ _ => h.stopsStuck (hthere hspace) fun hserves => panicsOnly_readUser hserves va length,
    fun {space va data} hspace htouches hgrows => .intro (fun answer m' hrun => ?_)
      fun _ _ => h.stopsStuck (hthere hspace) fun hserves => panicsOnly_writeUser hserves va data⟩
  · subst hn
    exact completes_handleFault_of_free hspace hfree hgrows
  · obtain ⟨effects, -, hsize, hseen⟩ := returns_readUser h.sound hrun
    have hmiss : ∀ i < bytes.size, (va.toNat + i) / pageSize ≠ n.toNat := fun i hi =>
      ((hseen i _ (Array.getElem?_eq_getElem hi)).hasByte h.sound).ne_of_free
        (hleft hspace hrun hgrows)
    refine ⟨exists_error_of_ne_ok fun hok => ?_, hmiss⟩
    obtain ⟨i, hi, htouch⟩ := htouches
    exact hmiss i (by rwa [hsize hok]) htouch
  · obtain ⟨effects, stored, hle, -, hall, hstored⟩ := answers_writeUser h.sound hrun
    have hmiss : ∀ i < stored, (va.toNat + i) / pageSize ≠ n.toNat := fun i hi =>
      (hstored.hasByte h.sound (by rw [Array.size_extract]; omega)).ne_of_free
        (hleft hspace hrun hgrows)
    refine ⟨exists_error_of_ne_ok fun hok => ?_, effects, stored, hle, hstored, hmiss⟩
    obtain ⟨i, hi, htouch⟩ := htouches
    exact hmiss i (by rwa [hall hok]) htouch

/-! ### Agreement -/

/-- The page holds a part of a file, whether it was brought in already or not. -/
def Page.Holds (page : Page) (slice : FileSlice) : Prop :=
  page.contents = .pending (.file slice) ∨ page.contents = .file slice

/-- What a state says about the regions of an address space, and what becomes of them and of the
places that they leave. -/
structure RegionsAgree (start m : Machine) (s : Id) (space : AddressSpace) : Prop where
  apart : ∀ {a a' : VirtualAddress} {region region' : Region} {n : PageNumber},
    space.regions[a]? = some region → space.regions[a']? = some region' →
      region.Has n → region'.Has n → a = a'
  range : ∀ {a : VirtualAddress} {region : Region}, space.regions[a]? = some region →
    region.start = a ∧ a.isPageAligned = true ∧ 0 < region.pages ∧ pageSize ≤ a.toNat ∧
      a.toNat + region.pages * pageSize ≤ kernelBase
  pages : ∀ {a : VirtualAddress} {region : Region} {i : Nat}, space.regions[a]? = some region →
    i < region.pages → ∃ key page slice,
      space.pages[(⟨a.number.toNat + i⟩ : PageNumber)]? = some key ∧
        m.pages.get? key = some page ∧ page.va.toNat = a.toNat + i * pageSize ∧
        page.writable = region.writable ∧ page.Holds slice ∧
        slice.handle.file = region.handle.file ∧ slice.offset = region.offset + i * pageSize
  covered : ∀ {n : PageNumber} {key page slice}, space.pages[n]? = some key →
    m.pages.get? key = some page → page.Holds slice →
      ∃ (a : VirtualAddress) (region : Region), space.regions[a]? = some region ∧ region.Has n
  unmaps : ∀ a : VirtualAddress, Ends ((Request.unmapFile a).perform s) m
    (fun _ m' =>
      (space.regions[a]? = none ∧
        m' = { m with events := m.events.push (.nothingUnmapped space.name a) }) ∨
      ∃ region, space.regions[a]? = some region ∧ RegionRemoved s region space m m')
    fun _ _ => maxFrames < start.pool.capacity
  rejects : ∀ {a : VirtualAddress} {region : Region} {m₁ m₂ : Machine} {later : List Done}
    {n : PageNumber}, space.regions[a]? = some region →
      Returns ((Request.unmapFile a).perform? s) m (some ()) m₁ → region.Has n →
        Reaches m₁ later m₂ → (∀ d ∈ later, ¬d.Covers s n) → Rejects start m₂ s n

section

variable {region : Region} {i : Nat}

theorem Run.region_range (h : Run start history m) (hspace : m.spaces.get? s = some space)
    (hregion : space.regions[a]? = some region) :
    region.start = a ∧ a.isPageAligned = true ∧ 0 < region.pages ∧ pageSize ≤ a.toNat ∧
      a.toNat + region.pages * pageSize ≤ kernelBase := by
  rw [← view_regionOf_eq hspace] at hregion
  obtain rfl := h.regionsPlaced.start hregion
  obtain ⟨hpages, haligned, hnull, hbelow⟩ := h.regionsPaged.range hregion
  refine ⟨rfl, haligned, hpages, ?_, hbelow⟩
  simp only [Address.isPageAligned, Address.isNull, beq_iff_eq, beq_eq_false_iff_ne,
    pageSize] at haligned hnull ⊢
  omega

theorem Run.exists_regionPage (h : Run start history m) (hspace : m.spaces.get? s = some space)
    (hregion : space.regions[a]? = some region) (hi : i < region.pages) :
    ∃ key page slice, space.pages[(⟨a.number.toNat + i⟩ : PageNumber)]? = some key ∧
      m.pages.get? key = some page ∧ page.va.toNat = a.toNat + i * pageSize ∧
      page.writable = region.writable ∧ page.Holds slice ∧
      slice.handle.file = region.handle.file ∧ slice.offset = region.offset + i * pageSize := by
  rw [← view_regionOf_eq hspace] at hregion
  obtain rfl := h.regionsPlaced.start hregion
  have hn : region.Has ⟨region.start.number.toNat + i⟩ :=
    ⟨Nat.le_add_right _ _, Nat.add_lt_add_left hi _⟩
  obtain ⟨key, hplace⟩ := Option.ne_none_iff_exists'.1 (h.regionsPlaced.placed hregion hn)
  obtain ⟨page, hpage, hnumber⟩ := h.sound.coherent.placement.placed hplace
  obtain ⟨hwritable, hpart⟩ := h.regionsPaged.shown hregion hn hplace hpage
  obtain ⟨slice, hholds, hfile, hoffset⟩ := Contents.part?_eq_some.1 hpart
  rw [Nat.add_sub_cancel_left] at hoffset
  have hva : page.va.toNat = region.start.toNat + i * pageSize := by
    rw [← Address.number_mul_pageSize page.aligned, hnumber, Nat.add_mul,
      Address.number_mul_pageSize (h.regionsPaged.range hregion).2.aligned]
  exact ⟨key, page, slice, by rw [← view_pageOf_eq hspace, hplace], hpage, hva, hwritable, hholds,
    hfile, hoffset⟩

/-- Once a region is unmapped, nothing reaches its places until they are filled again. -/
theorem Run.rejects_of_unmapFile (h : Run start history m) (hspace : m.spaces.get? s = some space)
    (hregion : space.regions[a]? = some region)
    (hunmap : Returns ((Request.unmapFile a).perform? s) m (some ()) m₁) (hn : region.Has n)
    (hlater : Reaches m₁ later m₂) (hcovers : ∀ d ∈ later, ¬d.Covers s n) :
    Rejects start m₂ s n := by
  have hafter : Run start _ m₁ := ⟨h.fresh, h.reaches.request hunmap⟩
  have hremoved : RegionRemoved s region space m m₁ := by
    rcases (h.ends_unmapFile hspace a).returned (Request.returns_perform?.1 hunmap).2 with
      ⟨hnone, -⟩ | ⟨found, hfound, hremoved⟩
    · cases hregion.symm.trans hnone
    · cases hregion.symm.trans hfound
      exact hremoved
  obtain ⟨pages, hspace', hpages⟩ := hremoved.here
  have hfree : m₁.view.pageOf s n = none := by
    rw [view_pageOf_eq hspace']
    exact (hpages n).trans (if_pos hn)
  have hthere : m₁.spaces.get? s ≠ none := by
    rw [hspace']
    exact Option.some_ne_none _
  have hlast : Run start _ m₂ := ⟨h.fresh, hafter.reaches.trans hlater⟩
  exact hlast.rejects (hlater.pageOf_eq_none hafter.sound hthere hfree hcovers)

end

/-- Whatever the run, regions and pages agree. -/
theorem Run.regionsAgree (h : Run start history m) (hspace : m.spaces.get? s = some space) :
    RegionsAgree start m s space := by
  refine ⟨fun hregion hregion' => ?_, h.region_range hspace, h.exists_regionPage hspace,
    fun hplace hpage hholds => ?_, h.ends_unmapFile hspace, h.rejects_of_unmapFile hspace⟩
  · rw [← view_regionOf_eq hspace] at hregion hregion'
    exact h.regionsPlaced.apart hregion hregion'
  · rw [← view_pageOf_eq hspace] at hplace
    simp only [← view_regionOf_eq hspace]
    refine h.regionsPaged.covered hplace hpage ?_
    rw [Contents.part?_eq_some.2 ⟨_, hholds, rfl, rfl⟩]
    exact Option.some_ne_none _

/-- A file is mapped to two pages, and read once the mapping is gone. -/
theorem regionsAgree_of_unmapFile : ∃ s space history region m m₁ m₂,
    Run (bare 1 0 (Arena.empty.add (.ofData #[1, 2] none))) history m ∧
      m.spaces.get? s = some space ∧
        space.regions[(⟨pageSize, by decide⟩ : VirtualAddress)]? = some region ∧
          region.pages = 2 ∧
          Returns ((Request.unmapFile ⟨pageSize, by decide⟩).perform? s) m (some ()) m₁ ∧
          Returns ((Request.readUser ⟨pageSize, by decide⟩ 8).perform? s) m₁
            (some (#[], .error .unmapped)) m₂ ∧
          RegionsAgree (bare 1 0 (Arena.empty.add (.ofData #[1, 2] none))) m s space := by
  have hpieces : pieces pageSize 0 8 = [⟨0, 8⟩] := pieces_of_le (by decide) (by decide)
  have htest : returnsWith (do
        let s ← Space.create "init"
        let _ ← (Request.mapFile ⟨pageSize, by decide⟩ (pageSize + 1) false ⟨⟨0⟩, 0⟩ 0).perform? s
        let mapped ← get
        let unmapped ← (Request.unmapFile ⟨pageSize, by decide⟩).perform? s
        return (s, mapped, unmapped, ← (Request.readUser ⟨pageSize, by decide⟩ 8).perform? s))
      (bare 1 0 (Arena.empty.add (.ofData #[1, 2] none)))
      (fun (s, mapped, unmapped, answer) _ =>
        (mapped.spaces.get? s).any (fun space =>
          space.regions[(⟨pageSize, by decide⟩ : VirtualAddress)]?.any (·.pages == 2)) &&
        (unmapped.isSome && answer.any readNothing)) = true := by
    simp only [Request.perform?, Request.perform, readUser, hpieces]
    decide +kernel
  obtain ⟨⟨s, mapped, unmapped, answer⟩, m₂, hrun, htest⟩ := exists_returns htest
  simp only [returns_bind, returns_pure] at hrun
  obtain ⟨_, m₀, hcreate, _, m, hmap, _, _, hget, _, m₁, hunmap, _, _, hread, he, rfl⟩ := hrun
  obtain ⟨rfl, rfl⟩ := returns_get.1 hget
  cases he
  rw [Bool.and_eq_true, Bool.and_eq_true, Option.any_eq_true, Option.isSome_iff_exists,
    Option.any_eq_true] at htest
  obtain ⟨⟨space, hspace, htest⟩, ⟨_, rfl⟩, ⟨bytes, result⟩, rfl, hrejected⟩ := htest
  rw [Option.any_eq_true] at htest
  obtain ⟨region, hregion, hpages⟩ := htest
  obtain ⟨history, hreached⟩ := (Reaches.refl.create hcreate).perform? hmap
  have hrun : Run (bare 1 0 (Arena.empty.add (.ofData #[1, 2] none))) history _ :=
    ⟨fresh_bare _ _ _, hreached⟩
  obtain ⟨rfl, rfl⟩ := eq_of_readNothing hrejected
  exact ⟨s, space, history, region, _, m₁, _, hrun, hspace, hregion, beq_iff_eq.1 hpages, hunmap,
    hread, hrun.regionsAgree hspace⟩

end DemandPaging
