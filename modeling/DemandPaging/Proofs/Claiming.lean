import DemandPaging.Proofs.VictimSelection

/-!
Bringing a page in, from end to end.

A page that is claimed is resident afterwards, unless there is no frame to be had or its bytes cannot
be had. Where its frame comes from decides what else happens. If the pool has a frame left, nothing
becomes of any other page. If not, one page loses its frame: the one that the second chance names. Its
bytes go into a slot that was free or back to its file, its mapping goes, and the page that was claimed
takes its place in the list of frames. Pages that take no part keep their frames, their slots, their
mappings and their bytes. As before, nothing is assumed of the state but that pages can be brought in at
all, which they can between any two requests of a run, and whatever is pinned.

What is touched is put together from the two moves that a claim consists of, taking a frame in hand
and giving it to the page.
-/

namespace DemandPaging

open Machine

/-! ### What becomes of other pages -/

/-- Only the pages of some owners are touched. All others keep their frames and slots, with what is in
them, and are mapped as before. -/
structure View.OnlyTouches (owners : List Owner) (v v' : View) : Prop where
  pages : ∀ key, (∀ o ∈ owners, o.page ≠ key) → v'.page key = v.page key
  mappings : ∀ d va, (∀ o ∈ owners, o.covers d va = false) → v'.grant d va = v.grant d va
  frames : ∀ key page f, (∀ o ∈ owners, o.page ≠ key) → v.page key = some page →
    page.frame = some f → v'.bytes f = v.bytes f
  slots : ∀ key page slot, (∀ o ∈ owners, o.page ≠ key) → v.page key = some page →
    page.contents.slot? = some slot → v'.isOccupied slot = true ∧ v'.pageIn slot = v.pageIn slot

/-- The bytes of a page that left its frame were put into a slot that was free, or were written to
their file if they had been changed. -/
inductive View.PutAway (bytes : PageBytes) (dirty : Bool) (v v' : View) :
    Contents → Contents → Prop where
  | slot {slot : SwapSlot} (hfree : v.isOccupied slot = false) (htaken : v'.isOccupied slot = true)
      (hbytes : v'.pageIn slot = bytes) (hfile : v'.file = v.file) :
      PutAway bytes dirty v v' (.anonymous none) (.anonymous (some slot))
  | file {slice : FileSlice} (hback : WrittenBack slice bytes dirty v { v with file := v'.file }) :
      PutAway bytes dirty v v' (.file slice) (.file slice)

/-- The page of an owner lost its frame: it is in no frame and is not mapped, and its bytes were put
away. -/
structure View.Displaces (f : FrameNumber) (o : Owner) (v v' : View) : Prop where
  page : ∃ page bytes contents, v.page o.page = some page ∧ page.frame = some f ∧
    v.bytes f = some bytes ∧ v'.page o.page = some { page with contents, frame := none } ∧
      PutAway bytes (v.isDirty o.directory o.va) v v' page.contents contents
  unmapped : ∀ va, o.va.number = va.number → v'.grant o.directory va = none

/-- A page is in a frame, with its bytes, and is mapped there and nowhere else: for the user, with the
rights of the page, and neither accessed nor changed. The slot that it came from is free. -/
structure Machine.BroughtIn (o : Owner) (page : Page) (f : FrameNumber) (m : Machine) : Prop where
  resident : m.pages.get? o.page =
    some { page with contents := page.contents.settled, frame := some f }
  bytes : m.view.bytes f = some (m.view.contentsBytes page.contents)
  mapped : ∃ directory pa flags, m.directories.get? o.directory = some directory ∧
    f.start = .ok pa ∧ directory.locate page.va = some (pa, flags) ∧
      flags.test .present = true ∧ flags.test .user = true ∧
        flags.test .writable = page.writable ∧ flags.test .accessed = false ∧
          flags.test .dirty = false
  alone : ∀ d directory va pa flags, m.directories.get? d = some directory →
    directory.locate va = some (pa, flags) → pa.number = f →
      d = o.directory ∧ va.number = page.va.number
  slot : ∀ slot, page.contents.slot? = some slot → m.view.isOccupied slot = false

/-- A claim got its frame from the pool. No other page is touched and no accessed or dirty bit changes;
the frame joins the list at the end. -/
structure Machine.ClaimsFromPool (own : Owner) (page : Page) (answer : Except VmError Unit)
    (m m' : Machine) : Prop where
  others : m.view.OnlyTouches [own] m'.view
  files : m'.view.file = m.view.file
  accessed : ∀ d va, m'.isAccessed d va = m.isAccessed d va
  dirty : ∀ d va, m'.view.isDirty d va = m.view.isDirty d va
  settled : (answer = .ok () ∧ ∃ f, m'.listed = m.listed ++ [⟨f, some own⟩] ∧
      m'.BroughtIn own page f) ∨
    answer = .error .loadFailed ∧ m'.listed = m.listed ∧ m.view.OnlyTouches [] m'.view

/-- A claim got its frame from a page that was chosen by the second chance. No other page is touched,
and the frame stays where it is in the list. -/
structure Machine.ClaimsFromVictim (slot : FrameSlot) (o own : Owner) (page : Page)
    (answer : Except VmError Unit) (m m' : Machine) : Prop where
  another : o.page ≠ own.page
  chosen : m.Evicts none slot o answer.isOk m'
  displaced : m.view.Displaces slot.frame o m'.view
  others : m.view.OnlyTouches [o, own] m'.view
  settled : ∃ index, m.listed[index]? = some slot ∧
    ((answer = .ok () ∧ m'.listed = m.listed.set index ⟨slot.frame, some own⟩ ∧
        m'.BroughtIn own page slot.frame) ∨
      answer = .error .loadFailed ∧ m'.listed = m.listed.eraseIdx index ∧
        m.view.OnlyTouches [o] m'.view)

variable {m m₁ m' : Machine} {v v₁ v' : View} {owners owners' : List Owner} {o : Owner}
  {f : FrameNumber} {key : Key Page} {page : Page} {s : Key AddressSpace} {d : Key Directory}
  {index : Nat} {kept : SwapSlot → Bool}

namespace View.OnlyTouches

theorem mono (h : v.OnlyTouches owners v') (hsub : ∀ o ∈ owners, o ∈ owners') :
    v.OnlyTouches owners' v' where
  pages key hkey := h.pages key fun o ho => hkey o (hsub o ho)
  mappings d va hva := h.mappings d va fun o ho => hva o (hsub o ho)
  frames key page f hkey := h.frames key page f fun o ho => hkey o (hsub o ho)
  slots key page slot hkey := h.slots key page slot fun o ho => hkey o (hsub o ho)

theorem trans (h : v.OnlyTouches owners v₁) (h' : v₁.OnlyTouches owners' v') :
    v.OnlyTouches (owners ++ owners') v' where
  pages key hkey := by
    rw [List.forall_mem_append] at hkey
    rw [h'.pages key hkey.2, h.pages key hkey.1]
  mappings d va hva := by
    rw [List.forall_mem_append] at hva
    rw [h'.mappings d va hva.2, h.mappings d va hva.1]
  frames key page f hkey hpage hframe := by
    rw [List.forall_mem_append] at hkey
    have hpage₁ := (h.pages key hkey.1).trans hpage
    rw [h'.frames key page f hkey.2 hpage₁ hframe, h.frames key page f hkey.1 hpage hframe]
  slots key page slot hkey hpage hslot := by
    rw [List.forall_mem_append] at hkey
    have hpage₁ := (h.pages key hkey.1).trans hpage
    obtain ⟨hoccupied, hbytes⟩ := h'.slots key page slot hkey.2 hpage₁ hslot
    exact ⟨hoccupied, hbytes.trans (h.slots key page slot hkey.1 hpage hslot).2⟩

/-! What each move touches. The slots that pages name are occupied and are not shared. -/

theorem of_take (hbooks : SlotBooks kept v.isOccupied v.slotOf) :
    v.OnlyTouches [] ((v.setOwner f (some none)).setAllocated f true) where
  pages _ _ := rfl
  mappings _ _ _ := rfl
  frames _ _ _ _ _ _ := rfl
  slots _ _ _ _ hpage hslot := ⟨hbooks.occupied_of_page hpage hslot, rfl⟩

theorem of_giveBack (h : Coherent (some f) v) (hbooks : SlotBooks kept v.isOccupied v.slotOf)
    (bytes : PageBytes) :
    v.OnlyTouches [] (((v.setBytes f bytes).setOwner f none).setAllocated f false) where
  pages _ _ := rfl
  mappings _ _ _ := rfl
  frames _ _ _ _ hpage hframe := Function.update_of_ne (h.ne_of_unowned hpage hframe) ..
  slots _ _ _ _ hpage hslot := ⟨hbooks.occupied_of_page hpage hslot, rfl⟩

theorem of_evict (h : Coherent none v) (hbooks : SlotBooks kept v.isOccupied v.slotOf)
    (howner : v.owner f = some (some o)) (hstep : Step [] none v (some f) v₁) :
    v.OnlyTouches [o] v₁ := by
  obtain ⟨page, bytes, contents, stowed, -, -, hstowed, rfl⟩ := evicted_of_step h howner hstep
  obtain ⟨isOccupied, pageIn, file, he⟩ := hstowed.exists_eq
  refine ⟨fun key hkey => ?_, fun d va hva => ?_, fun _ _ _ _ _ _ => by rw [he]; rfl,
    fun key page slot _ hpage hslot => ?_⟩
  · rw [List.forall_mem_singleton] at hkey
    exact (Function.update_of_ne hkey.symm ..).trans (by rw [he]; rfl)
  · rw [List.forall_mem_singleton] at hva
    exact (grant_setGrant_of_not_covers _ hva).trans (by rw [he]; rfl)
  · exact hstowed.keeps (hbooks.occupied_of_page hpage hslot)

theorem of_bringIn (h : Coherent (some f) v) (hbooks : SlotBooks kept v.isOccupied v.slotOf)
    (hpage : v.page key = some page) (bytes : PageBytes) (grant? : Option Grant)
    (page? : Option Page) : v.OnlyTouches [⟨key, page.va, d⟩] (((((v.setBytes f bytes).vacate
      page.contents.slot?).setOwner f (some (some ⟨key, page.va, d⟩))).setGrant d page.va.number
        grant?).setPage key page?) where
  pages key' hkey := by
    rw [List.forall_mem_singleton] at hkey
    exact Function.update_of_ne hkey.symm ..
  mappings d' va hva := by
    rw [List.forall_mem_singleton] at hva
    exact grant_setGrant_of_not_covers (o := ⟨key, page.va, d⟩) _ hva
  frames key' page' g _ hpage' hframe := Function.update_of_ne (h.ne_of_unowned hpage' hframe) ..
  slots key' page' slot hkey hpage' hslot := by
    rw [List.forall_mem_singleton] at hkey
    have hother : page.contents.slot? ≠ some slot := fun he => hkey
      (hbooks.apart ((View.slotOf_eq hpage).trans he) ((View.slotOf_eq hpage').trans hslot))
    exact ⟨(if_neg hother).trans (hbooks.occupied_of_page hpage' hslot), rfl⟩

end View.OnlyTouches

/-! ### The page that is displaced -/

/-- Bytes that were put away stay where they are as long as their page is not touched. -/
theorem View.PutAway.of_stowed {bytes : PageBytes} {dirty : Bool} {contents contents' : Contents}
    {stowed : View} (hstowed : Stowed bytes dirty contents v contents' stowed)
    (hslot : ∀ slot, contents'.slot? = some slot →
      v'.isOccupied slot = true ∧ v'.pageIn slot = stowed.pageIn slot)
    (hfile : v'.file = stowed.file) : PutAway bytes dirty v v' contents contents' := by
  cases hstowed with
  | @slot _ slot hfree =>
      obtain ⟨hoccupied, hpageIn⟩ := hslot slot rfl
      exact .slot hfree hoccupied (hpageIn.trans (Function.update_self ..)) hfile
  | file hback =>
      refine .file ?_
      rw [hfile]
      exact hback.transport rfl

theorem displaces_of_step (h : Coherent none v) (howner : v.owner f = some (some o))
    (hstep : Step [] none v (some f) v₁) (hlater : v₁.OnlyTouches owners v')
    (hpages : ∀ o' ∈ owners, o'.page ≠ o.page)
    (hcovers : ∀ o' ∈ owners, ∀ va, o.va.number = va.number → o'.covers o.directory va = false)
    (hfile : v'.file = v₁.file) : v.Displaces f o v' := by
  obtain ⟨page, bytes, contents, stowed, hpage, hbytes, hstowed, rfl⟩ :=
    evicted_of_step h howner hstep
  obtain ⟨_, -, hpage', hframe, -⟩ := h.residency.linked howner
  cases hpage.symm.trans hpage'
  have hleft := hlater.pages o.page hpages
  have hgone : (((stowed.setOwner f (some none)).setGrant o.directory o.va.number none).setPage o.page
      (some { page with contents, frame := none })).page o.page =
        some { page with contents, frame := none } := Function.update_self ..
  refine ⟨⟨page, bytes, contents, hpage, hframe, hbytes, hleft.trans hgone, .of_stowed hstowed
    (fun slot hslot => ?_) hfile⟩, fun va hva => ?_⟩
  · exact hlater.slots o.page _ slot hpages hgone hslot
  · rw [hlater.mappings o.directory va fun o' ho' => hcovers o' ho' va hva]
    exact if_pos ⟨rfl, hva.symm⟩

/-! ### The page that is brought in -/

theorem broughtIn_of_view (h : Sound none m') {pa : PhysicalAddress}
    (hview : m'.view = (((((m.view.setBytes f (m.view.contentsBytes page.contents)).vacate
      page.contents.slot?).setOwner f (some (some ⟨key, page.va, d⟩))).setGrant d
        page.va.number (some ⟨pa, true, page.writable⟩)).setPage key
          (some { page with contents := page.contents.settled, frame := some f })))
    (hgiven : HandedOn index ⟨key, page.va, d⟩ m m') : m'.BroughtIn ⟨key, page.va, d⟩ page f := by
  have hpage' : m'.view.page key =
      some { page with contents := page.contents.settled, frame := some f } := by
    rw [hview]
    exact Function.update_self ..
  have howner : m'.view.owner f = some (some ⟨key, page.va, d⟩) := by
    rw [hview]
    exact Function.update_self ..
  have hcovers : (⟨key, page.va, d⟩ : Owner).covers d page.va = true := decide_eq_true ⟨rfl, rfl⟩
  refine ⟨hpage', ?_, ?_, ?_, fun slot hslot => ?_⟩
  · have hbytes : m'.view.bytes f = some (m.view.contentsBytes page.contents) := by
      rw [hview]
      exact Function.update_self ..
    rw [hbytes]
    exact congrArg some (View.contentsBytes_congr (fun _ _ => by rw [hview]; rfl)
      fun _ _ => by rw [hview]; rfl).symm
  · obtain ⟨_, directory, pa', flags, hpage, -, -, hstart, hdirectory, hlocate, hpresent, huser,
      hwritable⟩ := h.located howner
    cases hpage'.symm.trans hpage
    have haccessed := hgiven.accessed d page.va
    have hdirty := hgiven.dirty d page.va
    rw [hcovers, Bool.not_true, Bool.and_false] at haccessed hdirty
    rw [isAccessed, hdirectory, Option.any_some, Directory.test_eq_of_locate hlocate] at haccessed
    rw [view_isDirty_eq _ hdirectory, Directory.test_eq_of_locate hlocate] at hdirty
    exact ⟨directory, pa', flags, hdirectory, hstart, hlocate, hpresent, huser, hwritable,
      haccessed, hdirty⟩
  · rintro d' directory va pa' flags hdirectory hlocate rfl
    obtain ⟨entry, hentry, he⟩ := Option.map_eq_some_iff.1 hlocate
    cases he
    obtain ⟨o, page', howner', -, -, hd, hva, hn, -⟩ := h.owner_of_grant hdirectory
      (show directory.grant? va = some entry.grant by rw [Directory.grant?, hentry, Option.map_some])
      (PageEntry.toNat_locate entry va.pageOffset_lt)
    cases howner.symm.trans howner'
    exact ⟨hd.symm, by rw [← hn, ← hva]⟩
  · rw [hview]
    exact if_pos hslot

/-- The second move of a claim: the page gets the frame, or its contents could not be had and it stays
as it is. -/
theorem brought_of_claimInto (h : Ready (some f) m) (hslot : m.listed[index]? = some ⟨f, none⟩)
    (hpage : m.pages.get? key = some page) (hsound : Sound none m')
    {answer : Except VmError Unit} (hrun : Answers (claimInto key page d index) m answer m') :
    m'.view.file = m.view.file ∧
      (answer = .ok () ∧ HandedOn index ⟨key, page.va, d⟩ m m' ∧
          m.view.OnlyTouches [⟨key, page.va, d⟩] m'.view ∧ m'.BroughtIn ⟨key, page.va, d⟩ page f ∨
        answer = .error .loadFailed ∧ HandedBack index m m' ∧ m.view.OnlyTouches [] m'.view) := by
  obtain ⟨kept, hbooks⟩ := h.supplied.slots
  obtain ⟨-, hfailed, hfilled⟩ := answers_claimInto h.sound.tidy hslot hpage hrun
  obtain ⟨rfl, hsettled⟩ | ⟨rfl, hsettled⟩ := settled_of_claimInto h.sound.tidy hslot hpage hrun
  · obtain ⟨-, pa, -, hview⟩ := hfilled rfl
    have htouched := View.OnlyTouches.of_bringIn (d := d) h.sound.coherent hbooks hpage
    refine ⟨by rw [hview]; rfl, .inl ⟨rfl, hsettled, ?_, broughtIn_of_view hsound hview hsettled⟩⟩
    rw [hview]
    exact htouched ..
  · obtain ⟨-, bytes, hview⟩ := hfailed _ rfl
    refine ⟨by rw [hview]; rfl, .inr ⟨rfl, hsettled, ?_⟩⟩
    rw [hview]
    exact .of_giveBack h.sound.coherent hbooks bytes

/-! ### Both moves together -/

section

variable {slot : FrameSlot} {answer : Except VmError Unit}

theorem sound_of_claim (h : Sound none m) (hdirectory : m.view.directoryOf s = some d)
    (hplace : m.view.pageOf s page.va.number = some key) (hrun : Answers (claim key d) m answer m') :
    Sound none m' := by
  obtain ⟨-, effects, hcourse, -⟩ := course_claim h hdirectory hplace hrun
  exact hcourse.sound h

theorem claims_of_free (h : Ready none m) (hdirectory : m.view.directoryOf s = some d)
    (hplace : m.view.pageOf s page.va.number = some key) (hpage : m.pages.get? key = some page)
    (habsent : page.frame = none) (hfree : m.freeFrames ≠ 0)
    (hrun : Answers (claim key d) m answer m') :
    m.ClaimsFromPool ⟨key, page.va, d⟩ page answer m' := by
  have hsound := sound_of_claim h.sound hdirectory hplace hrun
  obtain ⟨kept, hbooks⟩ := h.supplied.slots
  obtain ⟨acquired, m₁, hacquire, hrest⟩ := answers_claim_of_absent hpage habsent hrun
  obtain ⟨f, rfl, hhanded⟩ := handed_of_acquire h.sound hfree hacquire
  obtain ⟨he, -⟩ | ⟨_, he, hrest⟩ := hrest
  · cases he
  cases he
  have hstep : Step [] none m.view (some f) m₁.view := by
    rw [hhanded.view]
    exact .take hhanded.free
  have h₁ : Ready (some f) m₁ :=
    h.quiet (.single hstep rfl hhanded.tidy) (by simp) (by rw [hhanded.view]; rfl)
  have htaken : m.view.OnlyTouches [] m₁.view := by
    rw [hhanded.view]
    exact .of_take hbooks
  obtain ⟨pool, events, rfl⟩ := hhanded.state
  have hslot : (m.listed ++ [(⟨f, none⟩ : FrameSlot)])[m.listed.length]? = some ⟨f, none⟩ := by simp
  obtain ⟨hfile, ⟨rfl, hgiven, htouched, hbrought⟩ | ⟨rfl, hback, htouched⟩⟩ :=
    brought_of_claimInto h₁ hslot hpage hsound hrest
  · have hbits := hgiven.bits (h.sound.clear_of_unmapped
      (h.sound.coherent.unmapped_of_absent hpage habsent hplace hdirectory))
    refine ⟨htaken.trans htouched, hfile, fun d va => (hbits d va).1, fun d va => (hbits d va).2,
      .inl ⟨rfl, f, ?_, hbrought⟩⟩
    rw [hgiven.listed_eq hslot]
    simp
  · have hlisted := hback.listed
    rw [List.eraseIdx_append_of_length_le (Nat.le_refl _), Nat.sub_self, List.eraseIdx_cons_zero,
      List.append_nil] at hlisted
    refine ⟨(htaken.trans htouched).mono (by simp), hfile, fun d va => ?_, fun d va => ?_,
      .inr ⟨rfl, hlisted, htaken.trans htouched⟩⟩
    · rw [isAccessed, hback.directories]
      rfl
    · simp only [view, hback.directories]

theorem claims_of_victim (h : Ready none m) (hhand : m.HandInList)
    (hdirectory : m.view.directoryOf s = some d)
    (hplace : m.view.pageOf s page.va.number = some key) (hpage : m.pages.get? key = some page)
    (habsent : page.frame = none) (hempty : m.freeFrames = 0)
    (hvictim : m.victim? none = some slot) (howner : slot.owner = some o)
    (hrun : Answers (claim key d) m answer m') :
    m.ClaimsFromVictim slot o ⟨key, page.va, d⟩ page answer m' := by
  have hsound := sound_of_claim h.sound hdirectory hplace hrun
  have hchosen := ((NeedsFrame.claim hpage habsent hplace hdirectory).evicts h.sound hhand hempty
    hvictim howner hrun).2
  obtain ⟨kept, hbooks⟩ := h.supplied.slots
  obtain ⟨acquired, m₁, hacquire, hrest⟩ := answers_claim_of_absent hpage habsent hrun
  have hsame := (course_acquire h.sound hacquire).1
  obtain ⟨index, o', rfl, hvacated⟩ := vacated_of_acquire h.sound hhand hempty hvictim hacquire
  cases howner.symm.trans hvacated.owner
  obtain ⟨he, -⟩ | ⟨_, he, hrest⟩ := hrest
  · cases he
  cases he
  have hlinked := hvacated.owner_eq h.sound
  have hpage₁ : m₁.pages.get? key = some page :=
    hsame.pages hpage fun f hf => by rw [habsent] at hf; cases hf
  have h₁ : Ready (some slot.frame) m₁ := h.quiet (.single hvacated.step rfl hvacated.tidy) (by simp)
    (by simp only [view, hsame.spaces])
  have hevicted := View.OnlyTouches.of_evict h.sound.coherent hbooks hlinked hvacated.step
  -- the page that is displaced is another one, and it lives elsewhere
  have hother := h.sound.coherent.page_ne_of_absent hpage habsent hlinked
  have hapart : ∀ va, o.va.number = va.number →
      (⟨key, page.va, d⟩ : Owner).covers o.directory va = false := by
    intro va hva
    rw [Owner.covers, decide_eq_false_iff_not]
    rintro ⟨hd, hn⟩
    exact h.sound.coherent.unmapped_of_absent hpage habsent hplace hdirectory slot.frame o hlinked
      hd.symm (hva.trans hn.symm)
  obtain ⟨hfile, ⟨rfl, hgiven, htouched, hbrought⟩ | ⟨rfl, hback, htouched⟩⟩ :=
    brought_of_claimInto h₁ hvacated.slot_left hpage₁ hsound hrest
  · refine ⟨hother, hchosen, ?_, hevicted.trans htouched, index, hvacated.slot,
      .inl ⟨rfl, ?_, hbrought⟩⟩
    · exact displaces_of_step h.sound.coherent hlinked hvacated.step htouched
        (by simpa using hother.symm) (by simpa using hapart) hfile
    · rw [hgiven.listed_eq hvacated.slot_left, hvacated.listed, List.modify_eq_set_getElem?,
        hvacated.slot]
      exact List.set_set ..
  · refine ⟨hother, hchosen, ?_, (hevicted.trans htouched).mono (by simp), index, hvacated.slot,
      .inr ⟨rfl, ?_, hevicted.trans htouched⟩⟩
    · exact displaces_of_step h.sound.coherent hlinked hvacated.step htouched (by simp) (by simp) hfile
    · rw [hback.listed, hvacated.listed, List.eraseIdx_modify_of_eq]

theorem idle_of_claim (h : Sound none m) (hhand : m.HandInList)
    (hpage : m.pages.get? key = some page) (habsent : page.frame = none) (hempty : m.freeFrames = 0)
    (hnone : m.victim? none = none) (hrun : Answers (claim key d) m answer m') :
    answer = .error .outOfMemory ∧ m' = m := by
  obtain ⟨acquired, m₁, hacquire, hrest⟩ := answers_claim_of_absent hpage habsent hrun
  obtain ⟨rfl, rfl⟩ := idle_of_acquire h hhand hempty hnone hacquire
  obtain ⟨-, rfl, rfl⟩ | ⟨_, he, -⟩ := hrest
  · exact ⟨rfl, rfl⟩
  · cases he

/-- A claim fails for want of memory only where neither the pool nor any page gives a frame. -/
theorem exhausted_of_claim (h : Ready none m) (hhand : m.HandInList)
    (hdirectory : m.view.directoryOf s = some d)
    (hplace : m.view.pageOf s page.va.number = some key) (hpage : m.pages.get? key = some page)
    (habsent : page.frame = none) (hrun : Answers (claim key d) m (.error .outOfMemory) m') :
    m.freeFrames = 0 ∧ m.victim? none = none := by
  have hempty : m.freeFrames = 0 := by
    by_contra hfree
    obtain ⟨he, -⟩ | ⟨he, -⟩ :=
      (claims_of_free h hdirectory hplace hpage habsent hfree hrun).settled <;> cases he
  refine ⟨hempty, Option.eq_none_iff_forall_ne_some.2 fun slot hvictim => ?_⟩
  obtain ⟨o, howner⟩ := exists_owner_of_victim hvictim
  obtain ⟨index, -, ⟨he, -⟩ | ⟨he, -⟩⟩ := (claims_of_victim h hhand hdirectory hplace hpage habsent
    hempty hvictim howner hrun).settled <;> cases he

theorem answers_claim_of_resident (hpage : m.pages.get? key = some page)
    (hresident : page.isResident = true) : Answers (claim key d) m (.ok ()) m := by
  rw [claim_eq, answers_liftM_bind]
  refine ⟨page, m, returns_getPage.2 ⟨hpage, rfl⟩, ?_⟩
  rw [if_pos hresident]
  exact answers_pure.2 ⟨rfl, rfl⟩

end

/-! ### The claim -/

/-- A claim of a page that is resident does nothing. Any other claim fails for want of memory, and
then does nothing, where the pool is empty and every frame in use is pinned or has no owner. Otherwise
the frame comes from the pool, or, if the pool is empty, from the victim of the second chance. It stops
where the victim is an anonymous page and swap takes no page. -/
theorem Machine.Ready.claimed (h : Ready none m) (hhand : m.HandInList)
    (hdirectory : m.view.directoryOf s = some d) {n : PageNumber}
    (hplace : m.view.pageOf s n = some key) (hpage : m.pages.get? key = some page) :
    (page.isResident = true → Answers (claim key d) m (.ok ()) m) ∧
    (page.isResident = false →
      ((∃ m', Answers (claim key d) m (.error .outOfMemory) m') ↔ m.freeFrames = 0 ∧
        ∀ slot ∈ m.listed, slot.owner = none ∨ m.pool.isPinned slot.frame = true) ∧
      (∀ m', Answers (claim key d) m (.error .outOfMemory) m' → m' = m) ∧
      (m.freeFrames ≠ 0 → Completes (claim key d).run m fun answer m' =>
        m.ClaimsFromPool ⟨key, page.va, d⟩ page answer m') ∧
      (m.freeFrames = 0 →
        (∃ slot ∈ m.listed, slot.owner.isSome = true ∧ m.pool.isPinned slot.frame = false) →
          ∃ slot o, m.victim? none = some slot ∧ slot.owner = some o ∧ Ends (claim key d).run m
            (fun answer m' => m.ClaimsFromVictim slot o ⟨key, page.va, d⟩ page answer m')
            fun panic _ => ¬m.swap.TakesPage ∧ ∃ cause, m.Stuck o.page cause ∧
              panic = .anonymousPageStuck cause)) := by
  refine ⟨answers_claim_of_resident hpage, fun hresident => ?_⟩
  have habsent : page.frame = none := by simpa [Page.isResident] using hresident
  rw [← h.sound.coherent.placement.number_eq hplace hpage] at hplace
  have hneeds : m.NeedsFrame none (claim key d) := .claim hpage habsent hplace hdirectory
  have hstuck := hneeds.stuck h hhand
  refine ⟨⟨?_, ?_⟩, fun m' hrun => ?_, fun hfree => ?_, fun hempty => ?_⟩
  · rintro ⟨m', hrun⟩
    obtain ⟨hempty, hnone⟩ := exhausted_of_claim h hhand hdirectory hplace hpage habsent hrun
    exact ⟨hempty, victim?_eq_none_iff.1 hnone⟩
  · rintro ⟨hempty, hnone⟩
    rw [← victim?_eq_none_iff, victim?_eq_none] at hnone
    obtain ⟨m', hrun, -⟩ := (h.secondChance hhand hempty hneeds).1 hnone
    exact ⟨m', hrun⟩
  · obtain ⟨hempty, hnone⟩ := exhausted_of_claim h hhand hdirectory hplace hpage habsent hrun
    exact (idle_of_claim h.sound hhand hpage habsent hempty hnone hrun).2
  · refine Ends.intro (fun answer m' hrun =>
      claims_of_free h hdirectory hplace hpage habsent hfree hrun) fun panic m' hpanic => ?_
    exact hfree (hstuck.panicked hpanic).1
  · rintro ⟨slot, hslot, howned, hunpinned⟩
    obtain ⟨v, hvictim⟩ : ∃ v, m.victim? none = some v := by
      rw [← Option.ne_none_iff_exists', Ne, victim?_eq_none_iff]
      intro hall
      obtain hnone | hpinned := hall slot hslot
      · rw [hnone] at howned
        cases howned
      · rw [hpinned] at hunpinned
        cases hunpinned
    obtain ⟨o, howner, hends⟩ := (h.secondChance hhand hempty hneeds).2 v hvictim
    exact ⟨v, o, hvictim, howner, hends.mono (fun answer m' hrun _ => claims_of_victim h hhand
      hdirectory hplace hpage habsent hempty hvictim howner hrun) fun _ _ hstuck => hstuck⟩

/-- Two pages of a stack share one frame. The first one comes back from its slot, and the second one
goes into the other slot. -/
theorem claimed_of_swappedOut : ∃ s m m' page slot o, Ready none m ∧ m.HandInList ∧
    m.view.directoryOf s = some ⟨0⟩ ∧ m.view.pageOf s page.va.number = some ⟨0⟩ ∧
      m.pages.get? ⟨0⟩ = some page ∧ page.contents = .anonymous (some ⟨0⟩) ∧
        m.freeFrames = 0 ∧ Answers (claim ⟨0⟩ ⟨0⟩) m (.ok ()) m' ∧
          m.ClaimsFromVictim slot o ⟨⟨0⟩, page.va, ⟨0⟩⟩ page (.ok ()) m' ∧
            m'.view.isOccupied ⟨0⟩ = false ∧ m'.view.isOccupied ⟨1⟩ = true := by
  have htest : returnsWith (do
        let s ← Space.create "init"
        let _ ← Request.setUpStack.perform? s
        let _ ← (Request.handleFault ⟨⟨userStack - 2 * pageSize, by decide⟩, true, true, true,
          userStack - 2 * pageSize⟩).perform? s
        let before ← get
        return (s, before, ← (claim ⟨0⟩ ⟨0⟩).run)) (bare 1 2 .empty)
      (fun (s, m, answer) m' => m.freeFrames == 0 &&
        (m.listed.any (fun slot => slot.owner.isSome && !m.pool.isPinned slot.frame) &&
          (m.view.directoryOf s == some ⟨0⟩ && ((m.view.page ⟨0⟩).any (fun page =>
            m.view.pageOf s page.va.number == some ⟨0⟩ && (!page.isResident &&
              page.contents == .anonymous (some ⟨0⟩))) &&
                (answer.isOk && (!m'.view.isOccupied ⟨0⟩ && m'.view.isOccupied ⟨1⟩)))))) = true := by
    decide +kernel
  obtain ⟨⟨s, m, answer⟩, m', hrun, htest⟩ := exists_returns htest
  simp only [returns_bind, returns_pure] at hrun
  obtain ⟨_, m₁, hcreate, _, m₂, hstack, _, m₃, hgrow, _, _, hget, _, _, hclaim, he, rfl⟩ := hrun
  obtain ⟨rfl, rfl⟩ := returns_get.1 hget
  cases he
  obtain ⟨_, hreached⟩ := (Reaches.refl.create hcreate).perform? hstack
  obtain ⟨history, hreached⟩ := hreached.perform? hgrow
  have hrun : Run (bare 1 2 .empty) history m := ⟨fresh_bare 1 2 .empty, hreached⟩
  simp only [Bool.and_eq_true, beq_iff_eq, Bool.not_eq_true'] at htest
  obtain ⟨hempty, howned, hdirectory, hpage, hok, hfreed, htaken⟩ := htest
  obtain ⟨page, hpage, htest⟩ := (Option.any_eq_true ..).1 hpage
  simp only [Bool.and_eq_true, beq_iff_eq, Bool.not_eq_true'] at htest
  obtain ⟨hplace, habsent, hcontents⟩ := htest
  have howned : ∃ slot ∈ m.listed, slot.owner.isSome = true ∧
      m.pool.isPinned slot.frame = false := by
    simpa using howned
  obtain ⟨slot, o, -, -, hends⟩ := ((Ready.claimed (hrun.ready (by decide)) (hrun.handInList rfl)
    hdirectory hplace hpage).2 habsent).2.2.2 hempty howned
  cases answer with
  | error cause => cases hok
  | ok u =>
      exact ⟨s, m, m', page, slot, o, hrun.ready (by decide), hrun.handInList rfl, hdirectory, hplace,
        hpage, hcontents, hempty, hclaim, hends.returned hclaim, hfreed, htaken⟩

end DemandPaging
