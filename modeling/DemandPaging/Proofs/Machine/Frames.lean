import DemandPaging.Proofs.Course
import DemandPaging.Proofs.Machine.Contents

/-!
What happens to a frame.

A frame without owner comes from the pool or from its page, and goes to a page or back to the pool.
These are the four ways in which the list of frames changes, and each is one step. The clock only
looks: it clears accessed bits and moves the hand, and it never stops at a pinned frame.
-/

namespace DemandPaging.Machine

variable {m m' : Machine} {f : FrameNumber} {index : Nat} {slot : FrameSlot}

/-! ### Page directories -/

theorem returns_mapPage {d : Key Directory} {va : VirtualAddress} {pa : PhysicalAddress}
    {writable : Bool} {u : Unit} (h : Returns (mapPage d va pa (.forUser writable)) m u m') :
    m'.view = m.view.setGrant d va.number (some ⟨pa, true, writable⟩) ∧
      ∃ directories, m' = { m with directories } := by
  simp only [mapPage, returns_bind, returns_getDirectory, returns_liftM, returns_updateDirectory,
    and_assoc, exists_and_left, exists_eq_left] at h
  obtain ⟨directory, hdirectory, changed, hmap, rfl⟩ := h
  refine ⟨view_setGrant m hdirectory _ _ ?_ ?_, _, rfl⟩
  · intro b
    rw [Directory.grant?_map hmap]
    simp [PageFlags.forUser, eq_comm]
  · intro b
    rw [Directory.test_map hmap (.inr rfl)]
    simp only [eq_comm]

theorem returns_unmapPage {d : Key Directory} {va : VirtualAddress} {pa : Option PhysicalAddress}
    (h : Returns (unmapPage d va) m pa m') :
    m'.view = m.view.setGrant d va.number none ∧ ∃ directories, m' = { m with directories } := by
  simp only [unmapPage, returns_bind, returns_getDirectory, returns_updateDirectory, returns_pure,
    and_assoc, exists_and_left, exists_eq_left, exists_const] at h
  obtain ⟨directory, hdirectory, -, rfl⟩ := h
  refine ⟨view_setGrant m hdirectory _ _ ?_ ?_, _, rfl⟩
  · intro b
    rw [Directory.grant?_unmap]
    simp only [eq_comm]
  · intro b
    rw [Directory.test_unmap]
    simp only [eq_comm]

theorem returns_testFlag {d : Key Directory} {va : VirtualAddress} {flag : Flag} {on : Bool}
    (h : Returns (testFlag d va flag) m on m') :
    m' = m ∧ (flag = .dirty → on = m.view.isDirty d va) := by
  simp only [testFlag, returns_bind, returns_getDirectory, returns_pure, and_assoc,
    exists_and_left, exists_eq_left] at h
  obtain ⟨directory, hdirectory, rfl, rfl⟩ := h
  refine ⟨rfl, ?_⟩
  rintro rfl
  exact (view_isDirty_eq _ hdirectory va).symm

theorem returns_clearAccessed {d : Key Directory} {va : VirtualAddress} {on : Bool} {u : Unit}
    (h : Returns (setFlag d va .accessed on) m u m') :
    m'.view = m.view ∧ ∃ directories, m' = { m with directories } := by
  simp only [setFlag, returns_bind, returns_getDirectory, returns_updateDirectory, and_assoc,
    exists_and_left, exists_eq_left] at h
  obtain ⟨directory, hdirectory, rfl⟩ := h
  refine ⟨view_untouched m hdirectory ?_ ?_, _, rfl⟩
  · intro b
    exact Directory.grant?_setFlag_accessed _ _ _ _
  · intro b
    exact Directory.test_dirty_setFlag_accessed _ _ _ _

theorem returns_unmapOwner {owner : Owner} {dirty : Bool} (h : Returns (unmapOwner owner) m dirty m') :
    dirty = m.view.isDirty owner.directory owner.va ∧
      m'.view = m.view.setGrant owner.directory owner.va.number none ∧
      ∃ directories, m' = { m with directories } := by
  simp only [unmapOwner, returns_bind, returns_pure] at h
  obtain ⟨on, _, htest, _, m₁, hunmap, rfl, rfl⟩ := h
  obtain ⟨rfl, hdirty⟩ := returns_testFlag htest
  obtain ⟨hview, hsame⟩ := returns_unmapPage hunmap
  exact ⟨hdirty rfl, hview, hsame⟩

theorem get?_directories_unmapOwner {owner : Owner} {dirty : Bool}
    (h : Returns (unmapOwner owner) m dirty m') {d : Key Directory} (hd : d ≠ owner.directory) :
    m'.directories.get? d = m.directories.get? d := by
  simp only [unmapOwner, unmapPage, returns_bind, returns_getDirectory, returns_updateDirectory,
    returns_pure, and_assoc, exists_and_left, exists_eq_left, exists_const] at h
  obtain ⟨on, m₁, htest, _, m₂, ⟨_, -, -, hm₂⟩, -, rfl⟩ := h
  obtain ⟨rfl, -⟩ := returns_testFlag htest
  rw [hm₂, Arena.get?_modify, if_neg hd.symm]

/-! ### From a page -/

theorem evict_parts (hslot : m.listed[index]? = some slot) {o : Owner}
    (howner : slot.owner = some o) {page : Page} (hpage : m.pages.get? o.page = some page) {u : Unit}
    (hrun : Returns (evict index) m u m') :
    ∃ dirty m₁ contents m₂,
      Returns (unmapOwner o)
        { m with listed := m.listed.modify index fun slot => { slot with owner := none } } dirty m₁ ∧
      Returns (moveOut page.contents slot.frame dirty) m₁ contents m₂ ∧
      m' = { m₂ with
        pages := m₂.pages.modify o.page fun page => { page with contents, frame := none }
        events := m₂.events.push (.evicted o.va slot.frame dirty) } := by
  simp only [evict, returns_bind, returns_getSlot, and_assoc, exists_and_left,
    exists_eq_left] at hrun
  obtain ⟨_, hslot', hrun⟩ := hrun
  rw [hslot] at hslot'
  cases hslot'
  rw [howner] at hrun
  simpa only [returns_bind, returns_setOwner, returns_get, and_assoc, exists_and_left,
    exists_eq_left, exists_const, hpage, returns_updatePage, returns_record] using hrun

theorem returns_evict (h : Sound none m) (hslot : m.listed[index]? = some slot) {o : Owner}
    (howner : slot.owner = some o) {u : Unit} (hrun : Returns (evict index) m u m') :
    (∃ contents swap files directories events,
      m' = { m with
        swap, files, directories, events
        listed := m.listed.modify index fun slot => { slot with owner := none }
        pages := m.pages.modify o.page fun page => { page with contents, frame := none } }) ∧
      Step [] none m.view (some slot.frame) m'.view := by
  have hview : m.view.owner slot.frame = some (some o) := by
    rw [← howner]
    exact ownerIn_of_getElem? h.tidy.nodup hslot
  obtain ⟨page, -, hpage, -⟩ := h.coherent.residency.linked hview
  obtain ⟨dirty, m₁, contents, m₂, hunmap, hmove, rfl⟩ := evict_parts hslot howner hpage hrun
  have hviewOwner := view_setOwner m h.tidy.nodup hslot none
  obtain ⟨hdirty, hviewUnmap, directories, rfl⟩ := returns_unmapOwner hunmap
  obtain ⟨bytes, hbytes, hstowed, swap, files, events, rfl⟩ := returns_moveOut hmove
  refine ⟨⟨contents, swap, files, directories, _, rfl⟩, ?_⟩
  -- nothing that was done so far concerned the bytes, so they may as well have been moved first
  rw [hviewUnmap, hviewOwner] at hbytes hstowed
  have hstowed' := hstowed.transport (w := m.view) rfl rfl rfl
  rw [hviewOwner] at hdirty
  have hstep := Step.evict hview hpage hbytes (hdirty ▸ hstowed')
  have hpage' : m.pages.get? o.page = some page := hpage
  obtain ⟨isOccupied, pageIn, file, hafter⟩ := hstowed.exists_eq
  have hmodify := view_modifyPage { m with
    swap, files, directories, events
    listed := m.listed.modify index fun slot => { slot with owner := none } } o.page
    fun page => { page with contents, frame := none }
  rw [hpage', hafter] at hmodify
  rw [hafter] at hstep
  exact hmodify ▸ hstep

/-! ### Back to the pool -/

theorem returns_removeSlot (htidy : m.Tidy) (hslot : m.listed[index]? = some slot) {u : Unit}
    (hrun : Returns (removeSlot index) m u m') :
    m'.view = (m.view.setOwner slot.frame none).setAllocated slot.frame false ∧ m'.Tidy ∧
      ∃ hand pool events, m' = { m with listed := m.listed.eraseIdx index, hand, pool, events } := by
  simp only [removeSlot, releaseFrame, returns_bind, returns_getSlot, returns_get,
    returns_setListed, returns_setHand, returns_liftM, returns_setPool, returns_record, and_assoc,
    exists_and_left, exists_eq_left, exists_const] at hrun
  obtain ⟨_, hslot', pool, hrelease, rfl⟩ := hrun
  rw [hslot] at hslot'
  cases hslot'
  refine ⟨view_giveBack m htidy.pool htidy.nodup hslot hrelease, ⟨?_, ?_⟩, _, pool, _, rfl⟩
  · exact (Pool.release_eq_ok htidy.pool hrelease).2.1
  · exact htidy.nodup.sublist (List.Sublist.map _ (List.eraseIdx_sublist _ _))

/-- The hand stays where it is in the order of the frames that are left. -/
theorem hand_removeSlot {u : Unit} (hrun : Returns (removeSlot index) m u m') :
    m'.hand = handAfterRemoval m.hand index m'.listed.length := by
  simp only [removeSlot, releaseFrame, returns_bind, returns_getSlot, returns_get,
    returns_setListed, returns_setHand, returns_liftM, returns_setPool, returns_record, and_assoc,
    exists_and_left, exists_eq_left, exists_const] at hrun
  obtain ⟨_, -, _, -, rfl⟩ := hrun
  rfl

theorem course_removeSlot (htidy : m.Tidy) (hslot : m.listed[index]? = some slot) {u : Unit}
    (hrun : Returns (removeSlot index) m u m') : Course [] (some slot.frame) m none m' := by
  obtain ⟨hview, htidy', -⟩ := returns_removeSlot htidy hslot hrun
  exact .single .giveBack hview htidy'

/-! ### To a page -/

theorem link_parts (hslot : m.listed[index]? = some slot) {key : Key Page} {page : Page}
    (hpage : m.pages.get? key = some page) {d : Key Directory} {u : Unit}
    (hrun : Returns (link index key d) m u m') :
    ∃ pa, slot.frame.start = .ok pa ∧
      Returns (mapPage d page.va pa (.forUser page.writable)) { m with
        listed := m.listed.modify index fun slot => { slot with owner := some ⟨key, page.va, d⟩ }
        pages := m.pages.modify key fun page => { page with frame := some slot.frame } } u m' := by
  simp only [link, returns_bind, returns_getSlot, returns_getPage, returns_setOwner,
    returns_updatePage, returns_liftM, and_assoc, exists_and_left, exists_eq_left,
    exists_const] at hrun
  obtain ⟨_, hslot', _, hpage', hrun⟩ := hrun
  rw [hslot] at hslot'
  cases hslot'
  rw [hpage] at hpage'
  cases hpage'
  exact hrun

theorem returns_link (htidy : m.Tidy) (hslot : m.listed[index]? = some slot) {key : Key Page}
    {page : Page} (hpage : m.pages.get? key = some page) {d : Key Directory} {u : Unit}
    (hrun : Returns (link index key d) m u m') :
    ∃ pa, slot.frame.start = .ok pa ∧ m'.Tidy ∧ m'.spaces = m.spaces ∧
      m'.view = ((m.view.setOwner slot.frame (some (some ⟨key, page.va, d⟩))).setGrant d
        page.va.number (some ⟨pa, true, page.writable⟩)).setPage key
        (some { page with frame := some slot.frame }) := by
  obtain ⟨pa, hstart, hmap⟩ := link_parts hslot hpage hrun
  obtain ⟨hview, directories, rfl⟩ := returns_mapPage hmap
  refine ⟨pa, hstart, htidy.congr ⟨rfl, fun _ => rfl⟩ (map_frame_modify _ _ _), rfl, ?_⟩
  have hmodify := view_modifyPage { m with
    listed := m.listed.modify index fun slot => { slot with owner := some ⟨key, page.va, d⟩ } } key
    fun page => { page with frame := some slot.frame }
  rw [hview, hmodify, view_setOwner m htidy.nodup hslot, hpage]
  rfl

/-! ### The clock -/

/-- A victim has an owner and is not pinned, and looking for it does not show. -/
theorem returns_sweep {steps : Nat} {victim : Option Nat} (hrun : Returns (sweep steps) m victim m') :
    m'.view = m.view ∧ (∃ hand directories, m' = { m with hand, directories }) ∧
      ∀ index, victim = some index → ∃ slot o, m.listed[index]? = some slot ∧
        slot.owner = some o ∧ m.pool.isPinned slot.frame = false := by
  induction steps generalizing m with
  | zero =>
      obtain ⟨rfl, rfl⟩ := returns_pure.1 hrun
      exact ⟨rfl, ⟨_, _, rfl⟩, fun _ he => by cases he⟩
  | succ steps ih =>
      simp only [sweep, returns_bind, returns_get, returns_setHand, returns_getSlot, and_assoc,
        exists_and_left, exists_eq_left, exists_const] at hrun
      obtain ⟨slot, hslot, hrun⟩ := hrun
      cases howner : slot.owner with
      | none =>
          rw [howner] at hrun
          obtain ⟨hview, ⟨hand, directories, rfl⟩, hvictim⟩ := ih hrun
          exact ⟨hview, ⟨hand, directories, rfl⟩, hvictim⟩
      | some o =>
          rw [howner] at hrun
          simp only [returns_bind, returns_liftM, and_assoc, exists_and_left,
            exists_eq_left] at hrun
          obtain ⟨frame, hframe, hrun⟩ := hrun
          split at hrun
          · obtain ⟨hview, ⟨hand, directories, rfl⟩, hvictim⟩ := ih hrun
            exact ⟨hview, ⟨hand, directories, rfl⟩, hvictim⟩
          · next hpinned =>
            simp only [returns_bind] at hrun
            obtain ⟨accessed, m₁, htest, hrun⟩ := hrun
            obtain ⟨rfl, -⟩ := returns_testFlag htest
            split at hrun
            · simp only [returns_bind] at hrun
              obtain ⟨_, m₂, hclear, hrun⟩ := hrun
              obtain ⟨hviewClear, cleared, rfl⟩ := returns_clearAccessed hclear
              obtain ⟨hview, ⟨hand, directories, rfl⟩, hvictim⟩ := ih hrun
              exact ⟨hview.trans hviewClear, ⟨hand, directories, rfl⟩, hvictim⟩
            · obtain ⟨rfl, rfl⟩ := returns_pure.1 hrun
              refine ⟨rfl, ⟨_, _, rfl⟩, fun index hindex => ?_⟩
              cases hindex
              refine ⟨slot, o, hslot, howner, ?_⟩
              rw [Pool.isPinned, Pool.frame_eq_ok.1 hframe]
              simpa using hpinned

theorem returns_selectVictim {victim : Option Nat} (hrun : Returns selectVictim m victim m') :
    m'.view = m.view ∧ (∃ hand directories, m' = { m with hand, directories }) ∧
      ∀ index, victim = some index → ∃ slot o, m.listed[index]? = some slot ∧
        slot.owner = some o ∧ m.pool.isPinned slot.frame = false := by
  simp only [selectVictim, returns_get_bind] at hrun
  exact returns_sweep hrun

/-! ### A frame for a page -/

theorem freeFrames_eq_zero : m.freeFrames = 0 ↔ m.pool.allocate = none := by
  unfold freeFrames Pool.freeCount Pool.allocate
  cases m.pool.freeList <;> simp

structure Undisturbed (m m' : Machine) : Prop where
  bytes : m'.pool.bytes? = m.pool.bytes?
  spaces : m'.spaces = m.spaces
  /-- A page in a pinned frame is not evicted, and one in no frame has nothing to lose. -/
  pages : ∀ {key page}, m.pages.get? key = some page →
    (∀ f, page.frame = some f → m.pool.isPinned f = true) → m'.pages.get? key = some page
  created : m'.pages.nextKey = m.pages.nextKey

structure Acquired (f : FrameNumber) (index : Nat) (m m' : Machine) : Prop where
  slot : m'.listed[index]? = some ⟨f, none⟩
  step : Step [] none m.view (some f) m'.view
  tidy : m'.Tidy

theorem Acquired.course (h : Acquired f index m m') : Course [] none m (some f) m' :=
  .single h.step rfl h.tidy

/-- Acquiring gives the position of a frame without owner, if it gives one. -/
theorem course_acquire (h : Sound none m) {acquired : Option Nat}
    (hrun : Returns acquire m acquired m') :
    Undisturbed m m' ∧
      (acquired = none → Course [] none m none m') ∧
      ∀ index, acquired = some index → ∃ f, Acquired f index m m' := by
  simp only [acquire, allocateFrame, returns_bind, returns_get, and_assoc, exists_and_left,
    exists_eq_left] at hrun
  obtain ⟨frame?, m₁, hallocate, hrun⟩ := hrun
  cases hpool : m.pool.allocate with
  | some handed =>
      obtain ⟨f, pool⟩ := handed
      rw [hpool] at hallocate
      simp only [returns_bind, returns_setPool, returns_record, returns_pure, exists_and_left,
        exists_eq_left, exists_const] at hallocate
      obtain ⟨rfl, rfl⟩ := hallocate
      simp only [returns_bind, returns_get, returns_setListed, returns_pure, and_assoc,
        exists_and_left, exists_eq_left, exists_const] at hrun
      obtain ⟨rfl, rfl⟩ := hrun
      obtain ⟨hfree, hconsistent, -, -⟩ := Pool.allocate_eq_some h.tidy.pool hpool
      have hfresh : ownerIn m.listed f = none := h.coherent.residency.owner_eq_none hfree
      refine ⟨⟨funext (Pool.bytes?_allocate hpool), rfl, fun hpage _ => hpage, rfl⟩,
        fun he => (by cases he), fun index hindex => ?_⟩
      cases hindex
      refine ⟨f, by simp, ?_, ⟨hconsistent, map_frame_append_nodup h.tidy.nodup hfresh none⟩⟩
      have hstep := Step.take (v := m.view) hfree
      rw [← view_take m h.tidy.pool hfresh hpool] at hstep
      exact hstep
  | none =>
      rw [hpool] at hallocate
      obtain ⟨rfl, rfl⟩ := returns_pure.1 hallocate
      simp only [returns_bind] at hrun
      obtain ⟨victim, m₂, hselect, hrun⟩ := hrun
      obtain ⟨hview, ⟨hand, directories, rfl⟩, hvictim⟩ := returns_selectVictim hselect
      have hsound := h.of_view hview (h.tidy.of_eq rfl rfl)
      cases victim with
      | none =>
          obtain ⟨rfl, rfl⟩ := returns_pure.1 hrun
          refine ⟨⟨rfl, rfl, fun hpage _ => hpage, rfl⟩, fun _ => .silent hsound.tidy hview,
            fun _ he => by cases he⟩
      | some index =>
          simp only [returns_bind, returns_pure] at hrun
          obtain ⟨_, m₃, hevict, rfl, rfl⟩ := hrun
          obtain ⟨slot, o, hslot, howner, hpinned⟩ := hvictim index rfl
          obtain ⟨⟨contents, swap, files, directories', events, rfl⟩, hstep⟩ :=
            returns_evict hsound hslot howner hevict
          have hlinked : ownerIn m₁.listed slot.frame = some (some o) := by
            rw [← howner]
            exact ownerIn_of_getElem? h.tidy.nodup hslot
          obtain ⟨evicted, -, hevicted, hframe, -⟩ := h.coherent.residency.linked hlinked
          refine ⟨⟨rfl, rfl, ?_, Arena.nextKey_modify _ _ _⟩, fun he => (by cases he), ?_⟩
          · intro key page hpage hkept
            have hne : key ≠ o.page := by
              rintro rfl
              rw [show m₁.pages.get? o.page = some evicted from hevicted] at hpage
              cases hpage
              rw [hkept slot.frame hframe] at hpinned
              cases hpinned
            simp only [Arena.get?_modify_eq_update, Function.update_of_ne hne, hpage]
          · intro i hi
            cases hi
            refine ⟨slot.frame, by simp [hslot], ?_,
              h.tidy.congr ⟨rfl, fun _ => rfl⟩ (map_frame_modify _ _ _)⟩
            rw [← hview]
            exact hstep

end DemandPaging.Machine
