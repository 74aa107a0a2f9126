import DemandPaging.Proofs.Panics.Eviction

/-!
Bringing pages in, taking them out, copying and accessing them.

Each of these takes a frame, and that is where it may stop. The frame in hand is one of the pool, the
page that goes into it has its contents in reach, and the directory that maps it is there, so what
follows runs to its end.
-/

namespace DemandPaging

open Machine

variable {m m' : Machine} {asked : Key Page → Prop} {stop : Panic → Machine → Prop} {index : Nat}
  {slot : FrameSlot} {f : FrameNumber} {key : Key Page} {page : Page} {s : Key AddressSpace}
  {d : Key Directory}

/-! ### Frames -/

theorem Machine.HasFrame.of_sameAllocation (h : m.HasFrame f)
    (hsame : Pool.SameAllocation m.pool m'.pool) : m'.HasFrame f where
  inPool := by
    have hkept : m'.view.isAllocated f = m.view.isAllocated f := hsame.allocation f
    rw [hkept]
    exact h.inPool
  inRange := h.inRange

theorem Machine.Ready.pinned {x : Option FrameNumber} (h : Ready x m) {pool : Pool} {on : Bool}
    (hpinned : m.pool.setPinned f on = .ok pool) : Ready x { m with pool } :=
  h.silent (view_setPinned m hpinned)
    (h.sound.tidy.congr (Pool.sameAllocation_setPinned hpinned) rfl)

theorem panicsOnly_link {p : Page} (hslot : m.listed[index]? = some slot)
    (hpage : m.pages.get? key = some p) (hrange : slot.frame.toNat < maxFrames)
    (hd : m.view.hasDirectory d = true) :
    PanicsOnly stop (link index key d) m := by
  obtain ⟨pa, hstart, haligned⟩ := Number.exists_start hrange
  unfold link
  exact .step (returns_getSlot.2 ⟨hslot, rfl⟩) (.step (returns_getPage.2 ⟨hpage, rfl⟩)
    (.modify_bind (.modify_bind (.step (returns_liftM.2 ⟨hstart, rfl⟩)
      (panicsOnly_mapPage hd p.aligned haligned)))))

/-! ### Contents -/

theorem panicsOnly_fillPending {source : Pending} {buffer : PageBytes}
    (h : (Contents.pending source).Supplied m.view) :
    PanicsOnly stop (fillPending source buffer) m := by
  cases source with
  | zeros => exact .pure _
  | loader loader =>
      cases loader with
      | segment slice => exact panicsOnly_fillFromSlice (h.file rfl) _
      | fill byte count succeeds =>
          simp only [fillPending, if_neg (Nat.not_lt.2 (h.fill rfl))]
          exact .pure _
  | file slice => exact panicsOnly_fillFromSlice (h.file rfl) buffer

theorem panicsOnly_fillAnonymous {slot : Option SwapSlot} {buffer : PageBytes}
    (h : ∀ occupied, slot = some occupied → m.view.isOccupied occupied = true) :
    PanicsOnly stop (fillAnonymous slot buffer) m := by
  cases slot with
  | none => exact .pure _
  | some slot =>
      simp only [fillAnonymous]
      refine .bind (panicsOnly_loadFromSwap (h slot rfl) _) fun result _ _ => ?_
      split <;> exact .pure _

theorem panicsOnly_bringIn {contents : Contents} (hframe : m.HasFrame f)
    (hsupplied : contents.Supplied m.view)
    (hslot : ∀ slot, contents.slot? = some slot → m.view.isOccupied slot = true) :
    PanicsOnly stop (bringIn contents f) m := by
  unfold bringIn
  refine .bind (panicsOnly_frameBytes hframe) fun buffer m₁ hbuffer => ?_
  obtain ⟨-, rfl⟩ := returns_frameBytes hbuffer
  cases contents with
  | pending source =>
      refine .bind (panicsOnly_fillPending hsupplied) fun ⟨filled, bytes⟩ m₂ hfill => ?_
      obtain ⟨rfl, -⟩ := returns_fillPending hfill
      exact .bind (panicsOnly_setFrameBytes hframe bytes) fun _ _ _ => .pure _
  | anonymous slot =>
      refine .bind (panicsOnly_fillAnonymous hslot) fun ⟨slot', result, bytes⟩ m₂ hfill => ?_
      obtain ⟨-, -, swap, events, rfl⟩ := returns_fillAnonymous hfill
      have hframe₂ : HasFrame { m₁ with swap, events } f := ⟨hframe.inPool, hframe.inRange⟩
      refine .bind (panicsOnly_setFrameBytes hframe₂ bytes) fun _ _ _ => ?_
      cases result with
      | ok u => exact .pure _
      | error cause => exact .modify_bind (.pure _)
  | file slice =>
      refine .bind (panicsOnly_fillFromSlice (hsupplied.file rfl) buffer)
        fun ⟨filled, bytes⟩ m₂ hfill => ?_
      obtain ⟨rfl, -⟩ := returns_fillFromSlice hfill
      exact .bind (panicsOnly_setFrameBytes hframe bytes) fun _ _ _ => .pure _

/-! ### Bringing in and taking out -/

theorem Machine.Ready.hasFrame_of_slot {x : Option FrameNumber} (h : Ready x m)
    (hslot : m.listed[index]? = some slot) : m.HasFrame slot.frame :=
  h.hasFrame (ownerIn_of_getElem? h.sound.tidy.nodup hslot)

theorem Machine.Ready.hasDirectory_of_space {x : Option FrameNumber} (h : Ready x m)
    (hdirectory : m.view.directoryOf s = some d) : m.view.hasDirectory d = true :=
  h.sound.coherent.placement.directories hdirectory

theorem panicsOnly_claim_of_acquire (h : Ready none m) (hdirectory : m.view.directoryOf s = some d)
    (hpage : m.pages.get? key = some page) (hstop : PanicsOnly stop acquire m) :
    PanicsOnly stop (claim key d).run m := by
  unfold claim
  refine .run_step (returns_getPage.2 ⟨hpage, rfl⟩) ?_
  split
  · exact .run_pure _
  next habsent =>
  have hframe : page.frame = none := by simpa [Page.isResident] using habsent
  refine .run_liftM_bind hstop fun acquired m₁ hacquire => ?_
  obtain ⟨hsame, -, hsome⟩ := course_acquire h.sound hacquire
  cases acquired with
  | none => exact .run_throw _
  | some index =>
  obtain ⟨f, hacquired⟩ := hsome index rfl
  have hslot := hacquired.slot
  have h₁ : Ready (some f) m₁ := h.quiet hacquired.course (by simp) (by simp only [view, hsame.spaces])
  have hframe₁ := h₁.hasFrame_of_slot hslot
  have hpage₁ : m₁.pages.get? key = some page :=
    hsame.pages hpage fun g hg => by rw [hframe] at hg; cases hg
  have hdirectory₁ := h₁.hasDirectory_of_space (s := s) (by
    rw [view_directoryOf_congr hsame.spaces, hdirectory])
  refine .run_step (returns_getSlot.2 ⟨hslot, rfl⟩) (.run_liftM_bind (panicsOnly_bringIn hframe₁
    (h₁.supplied.contents hpage₁) fun slot hs => h₁.isOccupied ((View.slotOf_eq hpage₁).trans hs))
      fun result m₂ hbring => ?_)
  obtain ⟨bytes, pool, swap, events, rfl, hallocation, -, -⟩ := returns_bringIn hbring
  cases result with
  | none =>
      refine .run_liftM_bind (panicsOnly_removeSlot hslot ?_) fun _ _ _ => .run_throw _
      exact (hallocation.allocation f).trans (h₁.sound.coherent.residency.allocated
        (ownerIn_of_getElem? h₁.sound.tidy.nodup hslot))
  | some contents =>
      refine .run_liftM_bind (.modify _) fun _ m₃ hupdate => ?_
      obtain rfl := returns_updatePage.1 hupdate
      refine .run_liftM_bind (panicsOnly_link (p := { page with contents }) hslot ?_ hframe₁.inRange
        hdirectory₁) fun _ _ _ => .run_liftM (.modify _)
      rw [Arena.get?_modify, if_pos rfl, hpage₁, Option.map_some]

theorem panicsOnly_claim (h : Ready none m) (hdirectory : m.view.directoryOf s = some d)
    (hpage : m.pages.get? key = some page) : PanicsOnly (Stopped asked m) (claim key d).run m :=
  panicsOnly_claim_of_acquire h hdirectory hpage (panicsOnly_acquire h)

theorem panicsOnly_pageOut (h : Ready none m) (hpage : m.pages.get? key = some page) :
    PanicsOnly (Stopped (· = key) m) (pageOut key) m := by
  unfold pageOut
  refine .step (returns_getPage.2 ⟨hpage, rfl⟩) (.get_bind ?_)
  cases hframe : page.frame with
  | none => exact .pure _
  | some f =>
      obtain ⟨index, o, hposition, hslot, hkey, howner⟩ :=
        exists_slot_of_resident h.sound hpage hframe
      simp only [Option.bind_some, hposition]
      refine .bind (panicsOnly_evict h hslot rfl hkey) fun _ m₁ hevict => ?_
      obtain ⟨⟨contents, swap, files, directories, events, rfl⟩, -⟩ :=
        returns_evict h.sound hslot rfl hevict
      have hleft : (m.listed.modify index fun slot => { slot with owner := none })[index]? =
          some ⟨f, none⟩ := by simp [hslot]
      refine .bind (panicsOnly_removeSlot hleft ?_) fun _ _ _ => .pure _
      exact h.sound.coherent.residency.allocated howner

/-! ### Copies -/

theorem panicsOnly_copyContents (h : page.contents.Supplied m.view) :
    PanicsOnly stop (copyContents page).run m := by
  unfold copyContents
  split
  · next source hcontents =>
    refine .run_liftM_bind (panicsOnly_duplicatePending fun slice hs => h.file ?_)
      fun source? _ _ => ?_
    · rw [hcontents]
      exact hs
    · cases source? with
      | none => exact .run_throw _
      | some source => exact .run_pure _
  · exact .run_pure _
  · next slice hcontents =>
    refine .run_liftM_bind (panicsOnly_duplicateSlice (h.file ?_)) fun slice? _ _ => ?_
    · rw [hcontents]
      rfl
    · cases slice? with
      | none => exact .run_throw _
      | some slice => exact .run_pure _

/-- Acquiring a frame for a copy stops only as acquiring one does while the source is pinned. -/
theorem panicsOnly_acquireBeside_of_acquire (h : Ready none m)
    (hpage : m.pages.get? key = some page) {contents : Contents} {source : CopySource}
    (hfrom : CopiesFrom page contents (some source))
    (hslot : page.frame = none → PanicsOnly stop acquire m)
    (hframe : ∀ f pool, page.frame = some f → m.pool.setPinned f true = .ok pool →
      PanicsOnly stop acquire { m with pool }) : PanicsOnly stop (acquireBeside source) m := by
  cases hfrom with
  | slot hnone => exact hslot hnone
  | @frame f hresident hkind =>
      obtain ⟨index, o, -, hslot, -, howner⟩ := exists_slot_of_resident h.sound hpage hresident
      refine .bind (panicsOnly_pinFrame (h.hasFrame howner) true) fun _ m₁ hpin => ?_
      obtain ⟨pool, hpinned, rfl⟩ := returns_pinFrame hpin
      have h₁ : Ready none { m with pool } := h.pinned hpinned
      refine .bind (hframe f pool hresident hpinned) fun acquired m₂ hacquire => ?_
      obtain ⟨hsame, hnone, hsome⟩ := course_acquire h₁.sound hacquire
      obtain ⟨x, hcourse⟩ : ∃ x, Course [] none { m with pool } x m₂ := by
        cases acquired with
        | none => exact ⟨_, hnone rfl⟩
        | some index =>
            obtain ⟨g, hacquired⟩ := hsome index rfl
            exact ⟨_, hacquired.course⟩
      have h₂ : Ready x m₂ := h₁.quiet hcourse (by simp) (by simp only [view, hsame.spaces])
      -- the pinned page was not evicted, so its frame is still listed
      have hpage₂ : m₂.pages.get? key = some page := by
        refine hsame.pages hpage fun g hg => ?_
        rw [hresident] at hg
        cases hg
        exact (Pool.isPinned_setPinned hpinned f).trans (if_pos rfl)
      obtain ⟨o', howner', -⟩ := h₂.sound.coherent.residency.listed hpage₂ hresident
      exact .bind (panicsOnly_pinFrame (h₂.hasFrame howner') false) fun _ _ _ => .pure _

/-- Pinning what is copied does not change where the run may stop. -/
theorem panicsOnly_acquireBeside (h : Ready none m) (hpage : m.pages.get? key = some page)
    {contents : Contents} {source : CopySource} (hfrom : CopiesFrom page contents (some source)) :
    PanicsOnly (Stopped asked m) (acquireBeside source) m :=
  panicsOnly_acquireBeside_of_acquire h hpage hfrom (fun _ => panicsOnly_acquire h)
    fun _ _ _ hpinned => (panicsOnly_acquire (h.pinned hpinned)).after
      (.silent (h.pinned hpinned).sound.tidy (view_setPinned m hpinned))

theorem panicsOnly_copyBytes {x : Option FrameNumber} (h : Ready x m)
    (hpage : m.pages.get? key = some page) {contents : Contents} {source : CopySource}
    (hfrom : CopiesFrom page contents (some source)) (hframe : m.HasFrame f) :
    PanicsOnly stop (copyBytes source f) m := by
  cases hfrom with
  | @frame g hg hkind =>
      obtain ⟨o, howner, -⟩ := h.sound.coherent.residency.listed hpage hg
      exact .bind (panicsOnly_copyFrame (h.hasFrame howner) hframe) fun _ _ _ => .pure _
  | @slot slot hframe' hcontents hkind =>
      have hnamed : m.view.slotOf key = some slot :=
        (View.slotOf_eq hpage).trans (by rw [hcontents]; rfl)
      have hoccupied := h.isOccupied hnamed
      refine .bind (panicsOnly_frameBytes hframe) fun buffer m₁ hbuffer => ?_
      obtain ⟨-, rfl⟩ := returns_frameBytes hbuffer
      refine .bind (panicsOnly_readFromSwap hoccupied buffer) fun ⟨result, bytes⟩ m₂ hread => ?_
      obtain ⟨-, -, swap, rfl⟩ := returns_readFromSwap hread
      have hframe₂ : HasFrame { m₁ with swap } f := ⟨hframe.inPool, hframe.inRange⟩
      exact .bind (panicsOnly_setFrameBytes hframe₂ bytes) fun _ _ _ => .pure _

/-- Duplicating a page stops only as acquiring a frame for the copy does. -/
theorem panicsOnly_duplicate_of_acquire (h : Ready none m)
    (hdirectory : m.view.directoryOf s = some d) (hpage : m.pages.get? key = some page)
    (hstop : ∀ contents source m₁, Answers (copyContents page) m (.ok (contents, some source)) m₁ →
      PanicsOnly stop (acquireBeside source) m₁) :
    PanicsOnly stop (duplicate key d).run m := by
  unfold duplicate
  refine .run_step (returns_getPage.2 ⟨hpage, rfl⟩) (.run_bind
    (panicsOnly_copyContents (h.supplied.contents hpage)) fun ⟨contents, source⟩ m₁ hcontents => ?_)
  obtain ⟨hview₁, ⟨files, rfl⟩, hsource⟩ :=
    answers_copyContents (h.sound.coherent.fits hpage) hcontents
  obtain ⟨-, hfrom, -⟩ := hsource contents source rfl
  have htidy₁ : Tidy { m with files } := h.sound.tidy.of_eq rfl rfl
  have h₁ : Ready none { m with files } := h.silent hview₁ htidy₁
  have hcreate : Page.create page.va page.writable contents =
      .ok ⟨page.va, page.writable, contents, none, 1, page.aligned⟩ := dif_pos page.aligned
  refine .run_computed hcreate ?_
  cases source with
  | none => exact .run_liftM (.of_returns (returns_addPage.2 ⟨rfl, rfl⟩))
  | some source =>
  refine .run_liftM_bind (hstop contents source _ hcontents) fun acquired m₂ hacquire => ?_
  obtain ⟨hspaces₂, hpage₂, -, -, hsome⟩ := course_acquireBeside h₁.sound hpage hfrom hacquire
  cases acquired with
  | none => exact .run_throw _
  | some index =>
  obtain ⟨f, hacquired⟩ := hsome index rfl
  have hslot := hacquired.slot
  have h₂ : Ready (some f) m₂ := h₁.quiet hacquired.course (by simp) (by simp only [view, hspaces₂])
  have hframe₂ := h₂.hasFrame_of_slot hslot
  have hdirectory₂ := h₂.hasDirectory_of_space (s := s) (by
    rw [view_directoryOf_congr hspaces₂]
    exact hdirectory)
  refine .run_step (returns_getSlot.2 ⟨hslot, rfl⟩) (.run_liftM_bind
    (panicsOnly_copyBytes h₂ hpage₂ hfrom hframe₂) fun copied m₃ hbytes => ?_)
  obtain ⟨-, -, -, pool, swap, rfl, hallocation⟩ := returns_copyBytes hpage₂ hfrom hbytes
  cases copied with
  | false =>
      simp only [Bool.false_eq_true, if_false]
      refine .run_liftM_bind (panicsOnly_removeSlot hslot ?_) fun _ _ _ => .run_throw _
      exact (hallocation.allocation f).trans (h₂.sound.coherent.residency.allocated
        (ownerIn_of_getElem? h₂.sound.tidy.nodup hslot))
  | true =>
      simp only [if_true]
      refine .run_step (returns_addPage.2 ⟨rfl, rfl⟩) ?_
      refine .run_liftM_bind (panicsOnly_link (p := ⟨page.va, page.writable, contents, none, 1,
        page.aligned⟩) hslot ?_ hframe₂.inRange hdirectory₂) fun _ _ _ => .run_pure _
      exact (Arena.get?_add ..).trans (if_pos rfl)

theorem panicsOnly_duplicate (h : Ready none m) (hdirectory : m.view.directoryOf s = some d)
    (hpage : m.pages.get? key = some page) :
    PanicsOnly (Stopped asked m) (duplicate key d).run m := by
  refine panicsOnly_duplicate_of_acquire h hdirectory hpage fun contents source m₁ hcontents => ?_
  obtain ⟨hview₁, ⟨files, rfl⟩, hsource⟩ :=
    answers_copyContents (h.sound.coherent.fits hpage) hcontents
  have htidy₁ : Tidy { m with files } := h.sound.tidy.of_eq rfl rfl
  exact (panicsOnly_acquireBeside (h.silent hview₁ htidy₁) hpage (hsource contents source rfl).2.1).after
    (.silent htidy₁ hview₁)

/-! ### Access through a directory -/

theorem panicsOnly_loadBytes (h : Ready none m) (hdirectory : m.view.directoryOf s = some d)
    {va : VirtualAddress} {length : Nat} (hfits : va.pageOffset + length ≤ pageSize) :
    PanicsOnly stop (loadBytes d va length).run m := by
  unfold loadBytes
  refine .run_bind (panicsOnly_accessPage (h.hasDirectory_of_space hdirectory) false)
    fun pa m₁ haccess => ?_
  obtain ⟨htidy, hspaces, hpool, -, hreached⟩ := answers_accessPage h.sound hdirectory haccess
  obtain ⟨f, o, page, howner, -, -, -, -, -, hnumber, hoffset, -, -⟩ := hreached pa rfl
  refine .run_liftM (panicsOnly_readMemory ?_ (by rw [hoffset]; exact hfits))
  rw [hnumber]
  exact (h.hasFrame howner).of_sameAllocation (by rw [hpool]; exact ⟨rfl, fun _ => rfl⟩)

theorem panicsOnly_storeBytes (h : Ready none m) (hdirectory : m.view.directoryOf s = some d)
    {va : VirtualAddress} {data : Array UInt8} (hfits : va.pageOffset + data.size ≤ pageSize) :
    PanicsOnly stop (storeBytes d va data).run m := by
  unfold storeBytes
  refine .run_bind (panicsOnly_accessPage (h.hasDirectory_of_space hdirectory) true)
    fun pa m₁ haccess => ?_
  obtain ⟨htidy, hspaces, hpool, -, hreached⟩ := answers_accessPage h.sound hdirectory haccess
  obtain ⟨f, o, page, howner, -, -, -, -, -, hnumber, hoffset, -, -⟩ := hreached pa rfl
  refine .run_liftM (panicsOnly_writeMemory ?_ (by rw [hoffset]; exact hfits))
  rw [hnumber]
  exact (h.hasFrame howner).of_sameAllocation (by rw [hpool]; exact ⟨rfl, fun _ => rfl⟩)

end DemandPaging
