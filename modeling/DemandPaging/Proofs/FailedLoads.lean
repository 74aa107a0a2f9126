import DemandPaging.Proofs.Availability
import DemandPaging.Proofs.FrameOwnership
import DemandPaging.Proofs.Space.Others

/-!
A page that could not be brought in.

By the time it shows that the bytes of a page cannot be had, a frame was taken for it, another page may
have had to leave, and a part of the bytes may be in the frame already. None of this is lost or left
over. The page is what it was, with its file, its slot or its first contents; the frame goes back to
the pool; the page that left has its bytes in swap or in its file. So the page can be claimed again, at
once or later, and it gets the bytes that it would have got.
-/

namespace DemandPaging

open Machine

/-- A page is as it was before it was claimed: in no frame, not mapped, and with its bytes where they
were. -/
structure Machine.LeftUnloaded (own : Owner) (page : Page) (m m' : Machine) : Prop where
  kept : m'.pages.get? own.page = some page
  absent : page.frame = none
  unmapped : ∀ va, va.number = page.va.number → m'.view.grant own.directory va = none
  slot : ∀ slot, page.contents.slot? = some slot →
    m'.view.isOccupied slot = true ∧ m'.view.pageIn slot = m.view.pageIn slot

/-- A frame was taken and given back. It came from the pool, and nothing has become of any page, or it
came from the page that had to leave, whose bytes were put away. -/
inductive Machine.FrameReturned (m m' : Machine) : Prop where
  | free (hfree : m.freeFrames ≠ 0) (hlisted : m'.listed = m.listed)
      (hallocated : m'.view.isAllocated = m.view.isAllocated)
      (hcount : m'.freeFrames = m.freeFrames) (hfile : m'.view.file = m.view.file)
      (hothers : m.view.OnlyTouches [] m'.view)
  | left {slot : FrameSlot} {o : Owner} {index : Nat} (hempty : m.freeFrames = 0)
      (hvictim : m.victim? none = some slot) (howner : slot.owner = some o)
      (hslot : m.listed[index]? = some slot) (hlisted : m'.listed = m.listed.eraseIdx index)
      (hallocated : m'.view.isAllocated =
        Function.update m.view.isAllocated slot.frame (some false))
      (hcount : m'.freeFrames = 1) (hdisplaced : m.view.Displaces slot.frame o m'.view)
      (hothers : m.view.OnlyTouches [o] m'.view)

variable {m m' : Machine} {s : Key AddressSpace} {key : Key Page} {d : Key Directory} {page : Page}
  {f : FrameNumber}

theorem Coherent.grant_of_absent {v : View} (h : Coherent none v) (hpage : v.page key = some page)
    (habsent : page.frame = none) (hplace : v.pageOf s page.va.number = some key)
    (hdirectory : v.directoryOf s = some d) {va : VirtualAddress}
    (hva : va.number = page.va.number) : v.grant d va = none := by
  rw [Option.eq_none_iff_forall_ne_some]
  intro grant hgrant
  obtain ⟨g, o, howner, hd, hn⟩ := h.residency.granted hgrant
  exact h.unmapped_of_absent hpage habsent hplace hdirectory g o howner hd (hn.trans hva)

theorem View.Displaces.another {v v' : View} {o : Owner} (h : v.Displaces f o v')
    (hpage : v.page key = some page) (habsent : page.frame = none) : ∀ o' ∈ [o], o'.page ≠ key := by
  intro o' ho'
  rw [List.mem_singleton.1 ho']
  rintro rfl
  obtain ⟨page', _, _, hpage', hframe, -⟩ := h.page
  cases hpage'.symm.trans hpage
  rw [habsent] at hframe
  cases hframe

namespace Machine.Claimable

variable (h : m.Claimable s key d page)

include h

theorem absent_of_failed {cause : VmError} (hrun : Answers (claim key d) m (.error cause) m') :
    page.frame = none := by
  by_contra hresident
  have hsome : page.isResident = true := Option.isSome_iff_ne_none.2 hresident
  cases hrun.symm.trans (answers_claim_of_resident (d := d) h.page hsome)

/-- The frame in hand is given back, and as many frames are in use or free as before. -/
theorem allocation_of_failed {index : Nat} {m₁ : Machine} (habsent : page.frame = none)
    (hacquire : Returns acquire m (some index) m₁) (hslot : m₁.listed[index]? = some ⟨f, none⟩)
    (hrest : Answers (claimInto key page d index) m₁ (.error .loadFailed) m') :
    m'.view.isAllocated = Function.update m₁.view.isAllocated f (some false) ∧
      m'.view.frames = m₁.view.frames := by
  obtain ⟨hsame, -, hsome⟩ := course_acquire h.ready.sound hacquire
  obtain ⟨_, hacquired⟩ := hsome index rfl
  have hpage₁ : m₁.pages.get? key = some page :=
    hsame.pages h.page fun f hf => by rw [habsent] at hf; cases hf
  obtain ⟨-, bytes, hview⟩ :=
    (answers_claimInto hacquired.tidy hslot hpage₁ hrest).2.1 _ rfl
  rw [hview]
  exact ⟨rfl, rfl⟩

theorem frameReturned_of_free {index : Nat} {m₁ : Machine} (habsent : page.frame = none)
    (hfree : m.freeFrames ≠ 0) (hrun : Answers (claim key d) m (.error .loadFailed) m')
    (hacquire : Returns acquire m (some index) m₁)
    (hrest : Answers (claimInto key page d index) m₁ (.error .loadFailed) m') :
    m.FrameReturned m' := by
  obtain ⟨f, he, hhanded⟩ := handed_of_acquire h.ready.sound hfree hacquire
  cases he
  have hslot : m₁.listed[m.listed.length]? = some ⟨f, none⟩ := by
    obtain ⟨pool, events, hm₁⟩ := hhanded.state
    rw [hm₁]
    simp
  obtain ⟨hallocated, hframes⟩ := h.allocation_of_failed habsent hacquire hslot hrest
  have hclaimed := claims_of_free h.ready h.directory h.place h.page habsent hfree hrun
  obtain ⟨he, -⟩ | ⟨-, hlisted, hothers⟩ := hclaimed.settled
  · cases he
  rw [hhanded.view] at hallocated hframes
  refine .free hfree hlisted ?_ ?_ hclaimed.files hothers
  · rw [hallocated]
    simp only [View.setAllocated, Function.update_idem]
    exact Function.update_eq_self_iff.2 hhanded.free.symm
  · have hframes : m'.listed.length + m'.freeFrames = m.listed.length + m.freeFrames := hframes
    rw [hlisted] at hframes
    omega

theorem frameReturned_of_victim {index : Nat} {m₁ : Machine} {v : FrameSlot}
    (habsent : page.frame = none) (hempty : m.freeFrames = 0) (hvictim : m.victim? none = some v)
    (hrun : Answers (claim key d) m (.error .loadFailed) m')
    (hacquire : Returns acquire m (some index) m₁)
    (hrest : Answers (claimInto key page d index) m₁ (.error .loadFailed) m') :
    m.FrameReturned m' := by
  obtain ⟨_, o, he, hvacated⟩ := vacated_of_acquire h.ready.sound h.hand hempty hvictim hacquire
  cases he
  obtain ⟨hallocated, hframes⟩ := h.allocation_of_failed habsent hacquire hvacated.slot_left hrest
  have hclaimed := claims_of_victim h.ready h.hand h.directory h.place h.page habsent hempty
    hvictim hvacated.owner hrun
  obtain ⟨i, hi, ⟨he, -⟩ | ⟨-, hlisted, hothers⟩⟩ := hclaimed.settled
  · cases he
  obtain ⟨_, _, _, stowed, -, -, hstowed, hview⟩ := evicted_of_step h.ready.sound.coherent
    (hvacated.owner_eq h.ready.sound) hvacated.step
  obtain ⟨isOccupied, pageIn, file, rfl⟩ := hstowed.exists_eq
  rw [hview] at hallocated hframes
  refine .left hempty hvictim hvacated.owner hi hlisted hallocated ?_ hclaimed.displaced hothers
  have hframes : m'.listed.length + m'.freeFrames = m.listed.length + m.freeFrames := hframes
  have hlt : i < m.listed.length := (List.getElem?_eq_some_iff.1 hi).1
  rw [hlisted, List.length_eraseIdx_of_lt hlt, hempty] at hframes
  omega

theorem frameReturned (hrun : Answers (claim key d) m (.error .loadFailed) m') :
    m.FrameReturned m' := by
  have habsent := h.absent_of_failed hrun
  obtain ⟨acquired, m₁, hacquire, ⟨-, he, -⟩ | ⟨index, rfl, hrest⟩⟩ :=
    answers_claim_of_absent h.page habsent hrun
  · cases he
  by_cases hempty : m.freeFrames = 0
  · cases hvictim : m.victim? none with
    | none => cases (idle_of_acquire h.ready.sound h.hand hempty hvictim hacquire).1
    | some v => exact h.frameReturned_of_victim habsent hempty hvictim hrun hacquire hrest
  · exact h.frameReturned_of_free habsent hempty hrun hacquire hrest

theorem claimable_of_failed (hrun : Answers (claim key d) m (.error .loadFailed) m') :
    m'.Claimable s key d page := by
  have habsent := h.absent_of_failed hrun
  obtain ⟨hspaces, effects, hcourse, -, herror⟩ :=
    course_claim h.ready.sound h.directory h.place hrun
  cases herror _ rfl
  have hkept : m'.view.page key = m.view.page key := by
    cases h.frameReturned hrun with
    | free _ _ _ _ _ hothers => exact hothers.pages key nofun
    | left _ _ _ _ _ _ _ hdisplaced hothers =>
        exact hothers.pages key (hdisplaced.another h.page habsent)
  refine ⟨h.ready.quiet hcourse (by simp) (by simp only [view, hspaces]),
    ((keeps_claim key d).returns hrun).steady.hand h.hand, ?_, ?_, hkept.trans h.page⟩
  · rw [view_directoryOf_congr hspaces, h.directory]
  · rw [view_pageOf_congr hspaces, h.place]

theorem leftUnloaded (hrun : Answers (claim key d) m (.error .loadFailed) m') :
    LeftUnloaded ⟨key, page.va, d⟩ page m m' := by
  have habsent := h.absent_of_failed hrun
  have hagain := h.claimable_of_failed hrun
  refine ⟨hagain.page, habsent, fun va hva => hagain.ready.sound.coherent.grant_of_absent hagain.page
    habsent hagain.place hagain.directory hva, fun slot hslot => ?_⟩
  cases h.frameReturned hrun with
  | free _ _ _ _ _ hothers => exact hothers.slots key page slot nofun h.page hslot
  | left _ _ _ _ _ _ _ hdisplaced hothers =>
      exact hothers.slots key page slot (hdisplaced.another h.page habsent) h.page hslot

/-- The page gets the bytes behind it, once there is a frame and they can be had. -/
theorem completes_of_obtainable (habsent : page.frame = none) (hframe : m.FrameToSpare)
    (hbytes : m.Obtainable m.requestsAhead page.contents) {bytes : PageBytes}
    (hyields : m.Yields page.contents bytes) :
    Completes (claim key d).run m fun answer m' => answer = .ok () ∧
      ∃ f, m'.BroughtIn ⟨key, page.va, d⟩ page f ∧ m'.view.bytes f = some bytes := by
  refine (h.ends habsent).mono (fun answer m' hrun hanswered => ?_) fun panic _ hstop =>
    hstop.1.not_frameToSpare hframe
  have hoccupied : ∀ slot, page.contents.slot? = some slot → m.view.isOccupied slot = true :=
    fun slot hslot => h.ready.isOccupied ((View.slotOf_eq h.page).trans hslot)
  cases hanswered with
  | @ok f _ _ hbrought =>
      have hread := h.yields habsent hrun nofun
      exact ⟨rfl, f, hbrought, by rw [hbrought.bytes, hyields.unique hread hoccupied]⟩
  | loadFailed _ hfailed => exact absurd hbytes hfailed
  | outOfMemory hexhausted => exact absurd hframe hexhausted.not_frameToSpare

/-- A claim that fails to load its page does so because the bytes of the page could not be had. It
leaves the page as it was and gives the frame back, whether or not another page had to leave for it. The
state is in order, and the page can be claimed again: where there is a frame and the bytes can be had,
and are the same, it gets those that it would have got. -/
theorem failedLoad (hrun : Answers (claim key d) m (.error .loadFailed) m') :
    ¬m.Obtainable m.requestsAhead page.contents ∧
      LeftUnloaded ⟨key, page.va, d⟩ page m m' ∧ m.FrameReturned m' ∧
      (m'.Claimable s key d page ∧ Returns auditFrames m' () m' ∧
        ∀ s' space, m'.spaces.get? s' = some space → Returns (auditSpace s') m' () m') ∧
      m.Yields page.contents (m'.view.contentsBytes page.contents) ∧
      ∀ later : Machine, later.Claimable s key d page → later.FrameToSpare →
        later.Obtainable later.requestsAhead page.contents →
          later.Yields page.contents (m'.view.contentsBytes page.contents) →
            Completes (claim key d).run later fun answer m'' => answer = .ok () ∧
              ∃ f, m''.BroughtIn ⟨key, page.va, d⟩ page f ∧
                m''.view.bytes f = some (m'.view.contentsBytes page.contents) := by
  have habsent := h.absent_of_failed hrun
  have hagain := h.claimable_of_failed hrun
  refine ⟨?_, h.leftUnloaded hrun, h.frameReturned hrun, ⟨hagain,
    hagain.ready.sound.returns_auditFrames, fun _ _ => hagain.ready.sound.returns_auditSpace⟩,
    h.yields habsent hrun nofun, fun later hlater hframe hbytes hyields =>
      hlater.completes_of_obtainable habsent hframe hbytes hyields⟩
  cases (h.ends habsent).returned hrun with
  | loadFailed _ hfailed => exact hfailed

end Machine.Claimable

/-- A page of a segment and a page of the stack share one frame. The first one is read back while the
second one is already in swap, and the device refuses the third sector. The second attempt gets the
bytes. -/
theorem failedLoad_of_refusal : ∃ start history s m m' page slot o, Run start history m ∧
    m.Claimable s ⟨0⟩ ⟨0⟩ page ∧ Answers (claim ⟨0⟩ ⟨0⟩) m (.error .loadFailed) m' ∧
      m.victim? none = some slot ∧ slot.owner = some o ∧ m.view.Displaces slot.frame o m'.view ∧
        ∃ m'' f bytes, Answers (claim ⟨0⟩ ⟨0⟩) m' (.ok ()) m'' ∧
          m''.view.bytes f = some bytes ∧ m.Yields page.contents bytes := by
  let start : Machine :=
    { bare 1 2 (Arena.empty.add (.ofData #[7, 8] none)) with
      swap := .ofDisk { Disk.ofSize 16 with refuses := fun earlier _ _ => earlier == 18 } }
  have htest : returnsWith (do
        let s ← Space.create "init"
        let _ ← (Request.loadSegment ⟨⟨0⟩, 0⟩ 0 ⟨pageSize, by decide⟩ 2 (pageSize - 2) true).perform? s
        let _ ← (Request.handleFault ⟨⟨pageSize, by decide⟩, true, true, true, 0⟩).perform? s
        let _ ← Request.setUpStack.perform? s
        let before ← get
        return (s, before, ← (claim ⟨0⟩ ⟨0⟩).run)) start
      (fun (s, m, answer) m' => m.freeFrames == 0 &&
        (m.view.directoryOf s == some ⟨0⟩ && ((m.view.page ⟨0⟩).any (fun page =>
          m.view.pageOf s page.va.number == some ⟨0⟩ &&
            page.contents == .anonymous (some ⟨0⟩)) &&
              (answer == .error .loadFailed && decide (m'.swap.Grants 0 .read ⟨0⟩))))) = true := by
    decide +kernel
  obtain ⟨⟨s, m, answer⟩, m', hrun, htest⟩ := exists_returns htest
  simp only [returns_bind, returns_pure] at hrun
  obtain ⟨_, m₁, hcreate, _, m₂, hload, _, m₃, hfault, _, m₄, hstack, _, _, hget, _, _, hclaim, he,
    rfl⟩ := hrun
  obtain ⟨rfl, rfl⟩ := returns_get.1 hget
  cases he
  obtain ⟨_, hreached⟩ := (Reaches.refl.create hcreate).perform? hload
  obtain ⟨_, hreached⟩ := hreached.perform? hfault
  obtain ⟨history, hreached⟩ := hreached.perform? hstack
  have hrun : Run start history m := ⟨⟨Pool.consistent_ofCapacity 1, rfl, Arena.get?_empty,
    Arena.get?_empty, Arena.get?_empty⟩, hreached⟩
  simp only [Bool.and_eq_true, beq_iff_eq, decide_eq_true_eq] at htest
  obtain ⟨hempty, hdirectory, hpage, rfl, hgranted⟩ := htest
  obtain ⟨page, hpage, htest⟩ := (Option.any_eq_true ..).1 hpage
  simp only [Bool.and_eq_true, beq_iff_eq] at htest
  obtain ⟨hplace, hcontents⟩ := htest
  have h : m.Claimable s ⟨0⟩ ⟨0⟩ page :=
    hrun.claimable (by decide) rfl hdirectory hplace hpage
  obtain ⟨-, hunloaded, hreturned, ⟨hagain, -⟩, hyields, hretry⟩ := h.failedLoad hclaim
  cases hreturned with
  | free hfree => exact absurd hempty hfree
  | @left slot o _ _ hvictim howner _ _ _ hcount hdisplaced =>
      have hfree : m'.freeFrames ≠ 0 := by omega
      have hnone : m'.requestsAhead = 0 := by rw [requestsAhead, if_neg hfree]
      obtain ⟨answer, m'', hrun', rfl, f, -, hbytes⟩ := (hretry m' hagain (.inl hfree) (by
        rw [hnone, hcontents, obtainable_anonymous_iff]
        rintro _ ⟨⟩
        exact hgranted) ⟨m'.view, .free hfree, rfl⟩).exists_returns
      exact ⟨start, history, s, m, m', page, slot, o, hrun, h, hclaim, hvictim, howner, hdisplaced,
        m'', f, _, hrun', hbytes, hyields⟩

end DemandPaging
