import DemandPaging.Proofs.Claiming
import DemandPaging.Proofs.SwapSizing

/-!
Copying a page from end to end.

A fork copies one page after the other, and each copy may need a frame. If none is free another page
has to leave its frame for it, and the page that is copied is in the list of frames like any other. It
is spared, since it is pinned while a frame is looked for, and it does not lose its accessed bit either.
So it is the same afterwards, in its frame, in its slot or waiting for its first bytes, and so it is if
the copy cannot be made.

As for a claim, what is touched is put together from two moves, taking a frame in hand and giving it to
the copy. What is said holds in any state in which pages can be brought in, and these include the moments
of a fork.
-/

namespace DemandPaging

open Machine Space

def View.LivesAt (v : View) (key : Key Page) (d : Key Directory) (va : VirtualAddress) : Prop :=
  ∃ s, v.pageOf s va.number = some key ∧ v.directoryOf s = some d

/-- A page is as it was: in its frame, with its bytes, mapped there and with its bits, or in its slot, or
as it was made. -/
structure Machine.KeepsPage (key : Key Page) (m m' : Machine) : Prop where
  /-- Its frame, its slot and what it starts with are the same. -/
  page : m'.pages.get? key = m.pages.get? key
  bytes : ∀ page f, m.pages.get? key = some page → page.frame = some f →
    m'.view.bytes f = m.view.bytes f
  slot : ∀ page slot, m.pages.get? key = some page → page.contents.slot? = some slot →
    m'.view.isOccupied slot = true ∧ m'.view.pageIn slot = m.view.pageIn slot
  mapping : ∀ d va, m.view.LivesAt key d va → m'.view.grant d va = m.view.grant d va ∧
    m'.isAccessed d va = m.isAccessed d va ∧ m'.view.isDirty d va = m.view.isDirty d va

section

variable {m m₁ m' : Machine} {key : Key Page} {page copy : Page} {contents : Contents}
  {source : CopySource} {f : FrameNumber} {index : Nat} {s : Key AddressSpace} {d : Key Directory}
  {va : VirtualAddress} {o : Owner} {owners : List Owner} {x : Option FrameNumber}
  {acquired : Option Nat} {answer : Except VmError (Key Page)}

/-! ### What does not concern a page -/

/-- The owner of a frame is mapped where its page lives, and nowhere else. -/
theorem Coherent.not_covers_of_livesAt {v : View} (h : Coherent x v)
    (howner : v.owner f = some (some o)) (hne : o.page ≠ key) (hlives : v.LivesAt key d va) :
    o.covers d va = false := by
  obtain ⟨s, hplace, hdirectory⟩ := hlives
  rw [Owner.covers, decide_eq_false_iff_not]
  rintro ⟨rfl, hn⟩
  exact hne (h.owner_eq_of_place howner (by rw [hn]; exact hplace) hdirectory)

/-- The accessed bit of a page is not cleared while its frame is spared. -/
theorem Machine.Sound.not_reprieved (h : Sound x m) (hpage : m.pages.get? key = some page)
    (hlives : m.view.LivesAt key d va) : (m.reprieved page.frame).any (·.covers d va) = false := by
  rw [List.any_eq_false]
  intro slot hmem hcovers
  obtain ⟨hlisted, heligible⟩ := mem_eligible.1 ((List.takeWhile_prefix _).subset hmem)
  obtain ⟨o, ho, hcovers⟩ := (Option.any_eq_true ..).1 hcovers
  have howner : m.view.owner slot.frame = some (some o) := by
    rw [← ho]
    exact (ownerIn_eq_some h.tidy.nodup).2 hlisted
  have hkey : o.page = key := by
    by_contra hne
    rw [h.coherent.not_covers_of_livesAt howner hne hlives] at hcovers
    cases hcovers
  obtain ⟨_, -, hpage', hframe, -⟩ := h.coherent.residency.linked howner
  rw [hkey] at hpage'
  cases hpage.symm.trans hpage'
  rw [isEligible, Bool.and_eq_true, decide_eq_true_eq] at heligible
  exact heligible.2 hframe

theorem keepsPage_of_touches (htouches : m.view.OnlyTouches owners m'.view)
    (hpages : ∀ o ∈ owners, o.page ≠ key)
    (hcovers : ∀ o ∈ owners, ∀ d va, m.view.LivesAt key d va → o.covers d va = false)
    (hbits : ∀ {d va}, m.view.LivesAt key d va →
      m'.isAccessed d va = m.isAccessed d va ∧ m'.view.isDirty d va = m.view.isDirty d va) :
    m.KeepsPage key m' where
  page := htouches.pages key hpages
  bytes page f := htouches.frames key page f hpages
  slot page slot := htouches.slots key page slot hpages
  mapping d va hlives :=
    ⟨htouches.mappings d va fun o ho => hcovers o ho d va hlives, hbits hlives⟩

theorem Machine.KeepsPage.trans (h : m.KeepsPage key m₁) (hspaces : m₁.spaces = m.spaces)
    (h' : m₁.KeepsPage key m') : m.KeepsPage key m' where
  page := h'.page.trans h.page
  bytes page f hpage hframe :=
    (h'.bytes page f (h.page.trans hpage) hframe).trans (h.bytes page f hpage hframe)
  slot page slot hpage hslot := by
    obtain ⟨hoccupied, hbytes⟩ := h'.slot page slot (h.page.trans hpage) hslot
    exact ⟨hoccupied, hbytes.trans (h.slot page slot hpage hslot).2⟩
  mapping d va hlives := by
    obtain ⟨hgrant, haccessed, hdirty⟩ := h.mapping d va hlives
    have hlives₁ : m₁.view.LivesAt key d va := by
      obtain ⟨s, hplace, hdirectory⟩ := hlives
      rw [← view_pageOf_congr hspaces] at hplace
      rw [← view_directoryOf_congr hspaces] at hdirectory
      exact ⟨s, hplace, hdirectory⟩
    obtain ⟨hgrant', haccessed', hdirty'⟩ := h'.mapping d va hlives₁
    exact ⟨hgrant'.trans hgrant, haccessed'.trans haccessed, hdirty'.trans hdirty⟩

/-- Nothing of a page shows in the pool's pins, in the handles or in the events. -/
theorem Machine.Ready.keepsPage_of_view (h : Ready none m) (hview : m'.view = m.view)
    (hdirectories : m'.directories = m.directories) : m.KeepsPage key m' := by
  obtain ⟨kept, hbooks⟩ := h.supplied.slots
  have hsame : m.view.OnlyTouches [] m'.view := by
    rw [hview]
    exact ⟨fun _ _ => rfl, fun _ _ _ => rfl, fun _ _ _ _ _ _ => rfl,
      fun _ _ _ _ hpage hslot => ⟨hbooks.occupied_of_page hpage hslot, rfl⟩⟩
  refine keepsPage_of_touches hsame (by simp) (by simp) fun _ => ⟨?_, by rw [hview]⟩
  rw [isAccessed, hdirectories, isAccessed]

/-! ### A frame beside the source -/

/-- A frame from the pool is taken although the frame of the source is pinned for the time. -/
theorem handed_of_acquireBeside (h : Sound none m) (hfree : m.freeFrames ≠ 0)
    (hfrom : CopiesFrom page contents (some source)) (hrun : Returns (acquireBeside source) m acquired m') :
    ∃ f, acquired = some m.listed.length ∧ Handed f m m' := by
  cases hfrom with
  | slot => exact handed_of_acquire h hfree hrun
  | frame =>
      simp only [acquireBeside, returns_bind, returns_pure] at hrun
      obtain ⟨_, m₁, hpin, acquired', m₂, hacquire, _, m₃, hunpin, rfl, rfl⟩ := hrun
      obtain ⟨pool, hpinned, rfl⟩ := returns_pinFrame hpin
      obtain ⟨pool', hunpinned, rfl⟩ := returns_pinFrame hunpin
      have hview := view_setPinned m hpinned
      have h₁ : Sound none { m with pool } := h.of_view hview
        (h.tidy.congr (Pool.sameAllocation_setPinned hpinned) rfl)
      obtain ⟨f, rfl, hhanded⟩ :=
        handed_of_acquire h₁ (by rwa [freeFrames_pinned hpinned]) hacquire
      refine ⟨f, rfl, ?_, ?_, ?_, ?_⟩
      · obtain ⟨pool, events, rfl⟩ := hhanded.state
        exact ⟨pool', events, rfl⟩
      · rw [view_setPinned m₂ hunpinned, hhanded.view, hview]
      · exact hhanded.tidy.congr (Pool.sameAllocation_setPinned hunpinned) rfl
      · rw [← hview]
        exact hhanded.free

/-- No frame is given beside the source where neither the pool nor any page gives one. -/
theorem acquireBeside_eq_none_iff (h : Sound none m) (hhand : m.HandInList)
    (hfrom : CopiesFrom page contents (some source)) (hrun : Returns (acquireBeside source) m acquired m') :
    acquired = none ↔ m.freeFrames = 0 ∧ m.victim? page.frame = none := by
  constructor
  · rintro rfl
    have hempty : m.freeFrames = 0 := by
      by_contra hfree
      obtain ⟨_, he, -⟩ := handed_of_acquireBeside h hfree hfrom hrun
      cases he
    refine ⟨hempty, Option.eq_none_iff_forall_ne_some.2 fun v hvictim => ?_⟩
    obtain ⟨_, _, he, -⟩ := vacated_of_acquireBeside h hhand hempty hfrom hvictim hrun
    cases he
  · rintro ⟨hempty, hnone⟩
    exact (idle_of_acquireBeside h hhand hempty hfrom hnone hrun).1

structure Machine.TakesBeside (key : Key Page) (page : Page) (f : FrameNumber) (index : Nat)
    (m m' : Machine) : Prop where
  acquired : Acquired f index m m'
  spaces : m'.spaces = m.spaces
  created : m'.pages.nextKey = m.pages.nextKey
  another : page.frame ≠ some f
  kept : m.KeepsPage key m'

/-- Taking a frame in hand for a copy of a page does not disturb the page, wherever the frame comes
from. -/
theorem takesBeside_of_acquired (h : Ready none m) (hhand : m.HandInList)
    (hpage : m.pages.get? key = some page) (hfrom : CopiesFrom page contents (some source))
    (hrun : Returns (acquireBeside source) m (some index) m') :
    ∃ f, m.TakesBeside key page f index m' := by
  obtain ⟨kept, hbooks⟩ := h.supplied.slots
  obtain ⟨hspaces, hpage', hcreated, -, hsome⟩ := course_acquireBeside h.sound hpage hfrom hrun
  obtain ⟨f, hacquired⟩ := hsome index rfl
  have hcoherent' := (hacquired.course.sound h.sound).coherent
  refine ⟨f, hacquired, hspaces, hcreated, fun hframe => hcoherent'.ne_of_unowned hpage' hframe rfl, ?_⟩
  by_cases hempty : m.freeFrames = 0
  · cases hvictim : m.victim? page.frame with
    | none => cases (idle_of_acquireBeside h.sound hhand hempty hfrom hvictim hrun).1
    | some v =>
        obtain ⟨_, o, -, hvacated⟩ :=
          vacated_of_acquireBeside h.sound hhand hempty hfrom hvictim hrun
        have howner := hvacated.owner_eq h.sound
        obtain ⟨victim, contents', hvictimPage, hvictimFrame, hpages⟩ := hvacated.get?_pages h.sound
        have hne : o.page ≠ key := by
          rintro rfl
          -- the page that loses its frame is not the one that still has it
          cases hpage.symm.trans hvictimPage
          have hleft := (hpages o.page).symm.trans hpage'
          rw [if_pos rfl, Option.some.injEq] at hleft
          rw [← hleft] at hvictimFrame
          cases hvictimFrame
        have hcovers : ∀ d va, m.view.LivesAt key d va → o.covers d va = false := fun _ _ =>
          h.sound.coherent.not_covers_of_livesAt howner hne
        refine keepsPage_of_touches (.of_evict h.sound.coherent hbooks howner hvacated.step)
          (by simpa using hne) (by simpa using hcovers) fun hlives => ⟨?_, ?_⟩
        · rw [hvacated.accessed, h.sound.not_reprieved hpage hlives, Bool.not_false, Bool.and_true]
        · rw [hvacated.isDirty h.sound, hcovers _ _ hlives, Bool.not_false, Bool.and_true]
  · obtain ⟨g, -, hhanded⟩ := handed_of_acquireBeside h.sound hempty hfrom hrun
    have htouched : m.view.OnlyTouches [] m'.view := by
      rw [hhanded.view]
      exact .of_take hbooks
    refine keepsPage_of_touches htouched (by simp) (by simp) fun _ => ?_
    obtain ⟨pool, events, rfl⟩ := hhanded.state
    exact ⟨rfl, rfl⟩

/-! ### A frame for the copy -/

theorem View.OnlyTouches.of_copyIn {v : View} {kept : SwapSlot → Bool} (h : Coherent (some f) v)
    (hbooks : SlotBooks kept v.isOccupied v.slotOf) (bytes : PageBytes) (copy : Page)
    (grant? : Option Grant) (page? : Option Page) :
    v.OnlyTouches [⟨⟨v.created⟩, copy.va, d⟩] (((((v.setBytes f bytes).addPage copy).setOwner f
      (some (some ⟨⟨v.created⟩, copy.va, d⟩))).setGrant d copy.va.number grant?).setPage ⟨v.created⟩
        page?) where
  pages key' hkey := by
    rw [List.forall_mem_singleton] at hkey
    exact (Function.update_of_ne hkey.symm ..).trans (Function.update_of_ne hkey.symm ..)
  mappings d' va hva := by
    rw [List.forall_mem_singleton] at hva
    exact grant_setGrant_of_not_covers (o := ⟨⟨v.created⟩, copy.va, d⟩) _ hva
  frames key' page' g _ hpage' hframe := Function.update_of_ne (h.ne_of_unowned hpage' hframe) ..
  slots key' page' slot _ hpage' hslot := ⟨hbooks.occupied_of_page hpage' hslot, rfl⟩

/-- The second move of a duplication: the copy gets the frame, or the bytes could not be had and the frame
goes back to the pool. -/
theorem keepsPage_of_copyInto (h : Ready (some f) m) (hslot : m.listed[index]? = some ⟨f, none⟩)
    (hpage : m.pages.get? key = some page) (hfrom : CopiesFrom page contents (some source))
    (hdirectory : m.view.directoryOf s = some d) (hplace : m.view.pageOf s copy.va.number = none)
    (hrun : Answers (copyInto copy source d index) m answer m') :
    m.KeepsPage key m' ∧ (answer = .error .loadFailed ∨
      ∃ made p, answer = .ok made ∧ m'.pages.get? made = some p ∧ p.frame = some f) := by
  obtain ⟨kept, hbooks⟩ := h.supplied.slots
  have hold : key.index < m.view.created := h.sound.coherent.placement.created hpage
  obtain ⟨rfl, hgiven⟩ | ⟨rfl, hback⟩ := settled_of_copyInto h.sound.tidy hslot hpage hfrom hrun
  · obtain ⟨-, -, hmade⟩ := answers_copyInto h.sound.tidy hslot hpage hfrom hrun
    obtain ⟨-, -, pa, -, hview⟩ := hmade _ rfl
    have htouched : m.view.OnlyTouches [⟨m.pages.nextKey, copy.va, d⟩] m'.view := by
      rw [hview]
      exact .of_copyIn h.sound.coherent hbooks ..
    have hcovers : ∀ d' va, m.view.LivesAt key d' va →
        (⟨m.pages.nextKey, copy.va, d⟩ : Owner).covers d' va = false := by
      rintro d' va ⟨s', hlives, hdirectory'⟩
      rw [Owner.covers, decide_eq_false_iff_not]
      rintro ⟨rfl, hn⟩
      -- the copy has a place in another address space, or another one in this
      obtain rfl := h.sound.coherent.placement.separate hdirectory hdirectory'
      rw [← hn, hplace] at hlives
      cases hlives
    refine ⟨keepsPage_of_touches htouched ?_ (by simpa using hcovers) fun hlives => ?_,
      .inr ⟨_, { copy with frame := some f }, rfl, ?_, rfl⟩⟩
    · rw [List.forall_mem_singleton]
      rintro rfl
      exact Nat.lt_irrefl _ hold
    · rw [hgiven.accessed, hgiven.dirty, hcovers _ _ hlives, Bool.not_false, Bool.and_true, Bool.and_true]
      exact ⟨rfl, rfl⟩
    · change m'.view.page _ = _
      rw [hview]
      exact Function.update_self ..
  · obtain ⟨copied, m₁, hbytes, hrest⟩ := copyInto_parts hslot hrun
    obtain ⟨bytes, hview₁, -, pool, swap, rfl, hallocation⟩ := returns_copyBytes hpage hfrom hbytes
    obtain ⟨-, -, hremove⟩ | ⟨-, he, -⟩ := hrest
    swap
    · cases he
    obtain ⟨hview, -⟩ := returns_removeSlot (m := { m with pool, swap })
      (h.sound.tidy.congr hallocation rfl) hslot hremove
    have htouched : m.view.OnlyTouches [] m'.view := by
      rw [hview, hview₁]
      exact .of_giveBack h.sound.coherent hbooks bytes
    refine ⟨keepsPage_of_touches htouched (by simp) (by simp) fun _ => ?_, .inl rfl⟩
    simp only [isAccessed, view, hback.directories, and_self]

/-! ### Both moves together -/

/-- Between requests, no frame can be taken from its page where every frame in use is pinned or spared. -/
theorem Machine.Sound.victim?_eq_none_iff (h : Sound none m) {spared : Option FrameNumber} :
    m.victim? spared = none ↔
      ∀ slot ∈ m.listed, m.pool.isPinned slot.frame = true ∨ spared = some slot.frame := by
  rw [victim?_eq_none, eligible_eq_nil]
  refine forall₂_congr fun slot hmem => ?_
  have howner : slot.owner.isSome = true := by
    by_contra hnone
    rw [Bool.not_eq_true, Option.isSome_eq_false_iff, Option.isNone_iff_eq_none] at hnone
    have hunowned : m.view.owner slot.frame = some none := by
      rw [← hnone]
      exact (ownerIn_eq_some h.tidy.nodup).2 hmem
    cases h.coherent.residency.unowned.1 hunowned
  rw [isEligible, howner, Bool.true_and, Bool.and_eq_false_iff, Bool.not_eq_false', decide_eq_false_iff_not,
    not_not]

structure Machine.CopySettled (key : Key Page) (page : Page) (answer : Except VmError (Key Page))
    (m m' : Machine) : Prop where
  kept : m.KeepsPage key m'
  /-- The frame that is taken for the copy is not that of the page. -/
  another : ∀ contents source m₁ index m₂ slot,
    Answers (copyContents page) m (.ok (contents, some source)) m₁ →
      Returns (acquireBeside source) m₁ (some index) m₂ → m₂.listed[index]? = some slot →
        page.frame ≠ some slot.frame
  /-- Nor is the one in which the copy is, if it is in one. -/
  apart : ∀ made, answer = .ok made → ∃ p, m'.pages.get? made = some p ∧
    ∀ f, p.frame = some f → page.frame ≠ some f
  /-- A copy that needs a frame is not made for want of one only where the pool is empty and no page may
  be taken out of its frame. -/
  exhausted : ∀ contents source m₁, Answers (copyContents page) m (.ok (contents, some source)) m₁ →
    (answer = .error .outOfMemory ↔ m.freeFrames = 0 ∧
      ∀ slot ∈ m.listed, m.pool.isPinned slot.frame = true ∨ page.frame = some slot.frame)
  /-- Then it was for nothing. -/
  idle : answer = .error .outOfMemory →
    m'.pages = m.pages ∧ m'.directories = m.directories ∧ m'.listed = m.listed ∧ m'.swap = m.swap

/-- A copy that needs no frame waits for its bytes like the page, or cannot be had because no handle can
be opened for it. -/
theorem answers_duplicate_of_no_source (hpage : m.pages.get? key = some page)
    (hnone : ∀ contents source m₁, ¬Answers (copyContents page) m (.ok (contents, some source)) m₁)
    (hrun : Answers (duplicate key d) m answer m') :
    (∃ cause, answer = .error cause ∧ Answers (copyContents page) m (.error cause) m') ∨
      ∃ contents m₁ copy, Answers (copyContents page) m (.ok (contents, none)) m₁ ∧
        copy.frame = none ∧ answer = .ok m₁.pages.nextKey ∧
          m' = { m₁ with pages := m₁.pages.add copy } := by
  simp only [duplicate_eq, answers_liftM_bind, returns_getPage, and_assoc, exists_and_left,
    exists_eq_left] at hrun
  obtain ⟨_, hpage', hrun⟩ := hrun
  cases hpage.symm.trans hpage'
  rw [answers_bind] at hrun
  obtain ⟨cause, rfl, hcontents⟩ | ⟨⟨contents, source⟩, m₁, hcontents, hrun⟩ := hrun
  · exact .inl ⟨cause, rfl, hcontents⟩
  cases source with
  | some source => exact absurd hcontents (hnone contents source m₁)
  | none =>
      rw [answers_liftM_computed_bind] at hrun
      obtain ⟨copy, hcreate, hrun⟩ := hrun
      obtain ⟨aligned, rfl⟩ := Page.create_eq_ok hcreate
      rw [answers_liftM] at hrun
      obtain ⟨made, rfl, hadd⟩ := hrun
      obtain ⟨rfl, rfl⟩ := returns_addPage.1 hadd
      exact .inr ⟨contents, m₁, _, hcontents, rfl, rfl, rfl⟩

theorem copySettled_of_no_source (h : Ready none m) (hpage : m.pages.get? key = some page)
    (hnone : ∀ contents source m₁, ¬Answers (copyContents page) m (.ok (contents, some source)) m₁)
    (hrun : Answers (duplicate key d) m answer m') : m.CopySettled key page answer m' := by
  obtain ⟨kept, hbooks⟩ := h.supplied.slots
  have hfits := h.sound.coherent.fits hpage
  have hold : key.index < m.view.created := h.sound.coherent.placement.created hpage
  obtain ⟨cause, rfl, hfailed⟩ | ⟨contents, m₁, copy, hcontents, hframe, rfl, rfl⟩ :=
    answers_duplicate_of_no_source hpage hnone hrun
  · obtain ⟨hview, ⟨files, rfl⟩, -⟩ := answers_copyContents hfits hfailed
    exact ⟨h.keepsPage_of_view hview rfl, fun _ _ _ _ _ _ hsource => absurd hsource (hnone _ _ _),
      nofun, fun _ _ _ hsource => absurd hsource (hnone _ _ _), fun _ => ⟨rfl, rfl, rfl, rfl⟩⟩
  · obtain ⟨hview, ⟨files, rfl⟩, -⟩ := answers_copyContents hfits hcontents
    refine ⟨(h.keepsPage_of_view hview rfl).trans rfl ⟨?_, fun _ _ _ _ => rfl,
      fun page' slot hpage' hslot => ⟨hbooks.occupied_of_page hpage' hslot, rfl⟩,
      fun _ _ _ => ⟨rfl, rfl, rfl⟩⟩, fun _ _ _ _ _ _ hsource => absurd hsource (hnone _ _ _),
      fun made he => ?_, fun _ _ _ hsource => absurd hsource (hnone _ _ _), nofun⟩
    · refine (Arena.get?_add ..).trans (if_neg ?_)
      rintro rfl
      exact Nat.lt_irrefl _ hold
    · cases he
      refine ⟨copy, (Arena.get?_add ..).trans (if_pos rfl), fun f hf => ?_⟩
      rw [hframe] at hf
      cases hf

theorem copySettled_of_source (h : Ready none m) (hhand : m.HandInList)
    (hdirectory : m.view.directoryOf s = some d) (hpage : m.pages.get? key = some page)
    (hplace : m.view.pageOf s page.va.number = none)
    (hsource : Answers (copyContents page) m (.ok (contents, some source)) m₁)
    (hrun : Answers (duplicate key d) m answer m') : m.CopySettled key page answer m' := by
  obtain ⟨hfrom, hview, files, rfl⟩ := source_of_copyContents h.sound hpage hsource
  have h₁ : Ready none { m with files } := h.silent hview (h.sound.tidy.of_eq rfl rfl)
  have hbefore : m.KeepsPage key { m with files } := h.keepsPage_of_view hview rfl
  obtain ⟨acquired, m₂, copy, hva, hacquire, hrest⟩ := answers_duplicate_of_source hpage hsource hrun
  have hanother : ∀ contents' source' m₁ index m₃ slot,
      Answers (copyContents page) m (.ok (contents', some source')) m₁ →
        Returns (acquireBeside source') m₁ (some index) m₃ → m₃.listed[index]? = some slot →
          page.frame ≠ some slot.frame := by
    intro _ _ _ _ _ _ hsource' hacquire' hslot
    cases hsource.symm.trans hsource'
    obtain ⟨f, htakes⟩ := takesBeside_of_acquired h₁ hhand hpage hfrom hacquire'
    cases hslot.symm.trans htakes.acquired.slot
    exact htakes.another
  have hexhausted := acquireBeside_eq_none_iff h₁.sound hhand hfrom hacquire
  have hunspared : ({ m with files } : Machine).victim? page.frame = none ↔
      ∀ slot ∈ m.listed, m.pool.isPinned slot.frame = true ∨ page.frame = some slot.frame :=
    h₁.sound.victim?_eq_none_iff
  rw [hunspared] at hexhausted
  obtain ⟨rfl, rfl, rfl⟩ | ⟨index, rfl, hrest⟩ := hrest
  · have hnone := hexhausted.1 rfl
    obtain ⟨-, hview', pool, rfl⟩ :=
      idle_of_acquireBeside h₁.sound hhand hnone.1 hfrom (hunspared.2 hnone.2) hacquire
    exact ⟨hbefore.trans rfl (h₁.keepsPage_of_view hview' rfl), hanother, (fun _ he => by cases he),
      fun _ _ _ _ => ⟨fun _ => hnone, fun _ => rfl⟩, fun _ => ⟨rfl, rfl, rfl, rfl⟩⟩
  · obtain ⟨f, htakes⟩ := takesBeside_of_acquired h₁ hhand hpage hfrom hacquire
    have hdirectory₂ : m₂.view.directoryOf s = some d := by
      rw [view_directoryOf_congr htakes.spaces, hview, hdirectory]
    have hplace₂ : m₂.view.pageOf s copy.va.number = none := by
      rw [view_pageOf_congr htakes.spaces, hview, hva, hplace]
    have h₂ : Ready (some f) m₂ := h₁.quiet htakes.acquired.course (by simp)
      (by simp only [view, htakes.spaces])
    obtain ⟨hkept, hmade⟩ := keepsPage_of_copyInto h₂ htakes.acquired.slot
      (htakes.kept.page.trans hpage) hfrom hdirectory₂ hplace₂ hrest
    have hsupplied : answer ≠ .error .outOfMemory := by
      rcases hmade with rfl | ⟨_, _, rfl, -⟩ <;> exact fun he => by cases he
    refine ⟨hbefore.trans rfl (htakes.kept.trans htakes.spaces hkept), hanother, fun made he => ?_,
      fun _ _ _ _ => ⟨fun he => absurd he hsupplied, fun hnone => ?_⟩, fun he => absurd he hsupplied⟩
    · rcases hmade with rfl | ⟨_, p, rfl, hp, hframe⟩
      · cases he
      cases he
      refine ⟨p, hp, fun g hg => ?_⟩
      rw [← hg, hframe]
      exact htakes.another
    · cases hexhausted.2 hnone

/-- Copying a page that is in its place, for an address space that has a free place for it, does not
disturb the page. -/
theorem Machine.Ready.ends_duplicate (h : Ready none m) (hhand : m.HandInList)
    (hdirectory : m.view.directoryOf s = some d) (hpage : m.pages.get? key = some page)
    (hplace : m.view.pageOf s page.va.number = none) :
    Ends (duplicate key d).run m (fun answer m' => m.CopySettled key page answer m')
      fun panic _ => m.VictimStuck page.frame panic := by
  have hstuck : PanicsOnly (fun panic _ => m.VictimStuck page.frame panic) (duplicate key d).run m := by
    refine panicsOnly_duplicate_of_acquire h hdirectory hpage fun contents source m₁ hsource => ?_
    obtain ⟨hfrom, hview, files, rfl⟩ := source_of_copyContents h.sound hpage hsource
    exact stuck_of_acquireBeside (h.silent hview (h.sound.tidy.of_eq rfl rfl)) hhand hpage hfrom
  refine Ends.intro (fun answer m' hrun => ?_) fun panic m' hpanic => Ends.panicked hstuck hpanic
  by_cases hsource : ∃ contents source m₁, Answers (copyContents page) m (.ok (contents, some source)) m₁
  · obtain ⟨contents, source, m₁, hsource⟩ := hsource
    exact copySettled_of_source h hhand hdirectory hpage hplace hsource hrun
  · exact copySettled_of_no_source h hpage
      (fun contents source m₁ hcontents => hsource ⟨contents, source, m₁, hcontents⟩) hrun

end

/-! ### The moments of a fork -/

/-- A fork has come to a page: the copy of the address space was begun, it has its regions, and the pages
before this one were copied. -/
structure Space.ComesTo (parent : Id) (name : String) (m : Machine) (child : Id) (key : Key Page)
    (m' : Machine) : Prop where
  moment : ∃ current before rest m₁ m₂, ForkBegun parent name m current child m₁ ∧
    current.pages.values = before ++ key :: rest ∧
      Answers (copyRegions child current.regions.values) m₁ (.ok ()) m₂ ∧
        Answers (copyPages child before) m₂ (.ok ()) m'

section

variable {start m m₁ m' : Machine} {history : List Done} {parent child : Id} {name : String}
  {key : Key Page} {current : AddressSpace}

theorem Space.ForkBegun.created (h : ForkBegun parent name m current child m₁) (hsound : Sound none m) :
    Created child m m₁ := by
  have hbegun := h.begun
  simp only [returns_bind, returns_pure] at hbegun
  obtain ⟨_, m₂, hcreate, _, m₃, hstack, _, m₄, hsaved, rfl, rfl⟩ := hbegun
  obtain ⟨hview₂, htidy₂, hspaces₂, hfiles₂⟩ := returns_setStackPointer hstack
  obtain ⟨hview₃, htidy₃, hspaces₃, hfiles₃⟩ := returns_saveStackPointer hsaved
  exact ((returns_create hsound hcreate).and_same hview₂ htidy₂ hspaces₂ hfiles₂).and_same hview₃ htidy₃
    hspaces₃ hfiles₃

/-- When a fork has come to a page, pages can be brought in, and the page is in its place, which is
free in the copy. -/
theorem Space.ComesTo.ready (h : ComesTo parent name m child key m') (hserves : m.Serves parent)
    (hhand : m.HandInList) : m'.Serves child ∧ m'.HandInList ∧
      ∃ page, m'.pages.get? key = some page ∧ m'.view.pageOf child page.va.number = none := by
  obtain ⟨current, before, rest, m₁, m₂, hbegun, hvalues, hregions, hpages⟩ := h.moment
  have hcreated := hbegun.created hserves.ready.sound
  have hserves₁ : m₁.Serves child := hserves.ready.created hcreated
  have hne : parent ≠ child := by
    rintro rfl
    exact hserves.opened hcreated.fresh
  have hparent : m₁.spaces.get? parent = some current := by
    rw [hcreated.elsewhere parent hne, hbegun.parent]
  have hfilled := ((keeps_copyRegions child _).returns hregions).others.steady.trans
    ((keeps_copyPages child _).returns hpages).others.steady
  obtain ⟨_, hcopied, -⟩ := answers_copyRegions hserves₁.ready.sound hregions hserves₁.exists_space
  have hserves₂ : m₂.Serves child := hserves₁.regionsCopied hcopied fun region hmem => by
    obtain ⟨start, hstart⟩ := mem_values_iff.1 hmem
    exact hserves₁.ready.supplied.regions (by rw [view_regionOf_eq hparent, hstart])
  have hnodup := hserves₁.ready.sound.nodup_pages hparent
  rw [hvalues] at hnodup
  -- every page of the parent is in its place, and in the copy no place was taken by then
  have hplaces : ∀ other ∈ before ++ key :: rest, ∃ n, m₂.view.pageOf parent n = some other ∧
      m₂.view.pageOf child n = none := by
    intro other hmem
    rw [← hvalues] at hmem
    obtain ⟨n, hn⟩ := (mem_pages hparent).1 hmem
    refine ⟨n, by rw [hcopied.pageOf, hn], ?_⟩
    rw [hcopied.pageOf, hcreated.pageOf]
    exact pageOf_of_closed hcreated.fresh n
  obtain ⟨_, hdone, -⟩ := answers_copyPages hne hserves₂.ready.sound hnodup.of_append_left
    (fun other hmem => hplaces other (List.mem_append_left _ hmem)) hpages
  have hserves' : m'.Serves child := by
    refine ⟨hserves₂.ready.quiet hdone.course (fun {_ _ _} he => ?_) hdone.pagesOnly.regionOf, ?_⟩
    · obtain ⟨_, -, _, hlabel, -⟩ := hdone.labels _ he
      cases hlabel
    · rw [hdone.pagesOnly.directoryOf]
      exact hserves₂.opened
  refine ⟨hserves', (hbegun.steady.trans hfilled).hand hhand, ?_⟩
  obtain ⟨n, hplace, hfree⟩ := hplaces key (List.mem_append_right _ List.mem_cons_self)
  have hplace' : m'.view.pageOf parent n = some key := by
    rw [hdone.pagesOnly.elsewhere parent hne, hplace]
  obtain ⟨page, hpage, rfl⟩ := hserves'.ready.sound.coherent.placement.placed hplace'
  refine ⟨page, hpage, ?_⟩
  rw [hdone.kept _ fun other hmem => ?_, hfree]
  rw [hplace]
  rintro ⟨⟩
  exact List.disjoint_of_nodup_append hnodup hmem List.mem_cons_self

/-- Whatever page a fork has come to, copying it does not disturb it. -/
theorem Run.sourceKept (h : Run start history m) (hcapacity : start.pool.capacity ≤ maxFrames)
    (hhand : start.hand = 0) (hcomes : ComesTo parent name m child key m') :
    ∃ page target, m'.pages.get? key = some page ∧ m'.spaces.get? child = some target ∧
      Ends (duplicate key target.directory).run m'
        (fun answer m'' => m'.CopySettled key page answer m'')
        fun panic _ => m'.VictimStuck page.frame panic := by
  obtain ⟨_, _, _, _, _, hbegun, -⟩ := id hcomes.moment
  obtain ⟨hserves, hhand', page, hpage, hfree⟩ :=
    hcomes.ready (h.serves hcapacity hbegun.parent) (h.handInList hhand)
  obtain ⟨target, htarget⟩ := hserves.exists_space
  exact ⟨page, target, hpage, htarget,
    hserves.ready.ends_duplicate hhand' (view_directoryOf_eq htarget) hpage hfree⟩

/-- Two pages of a stack fill two frames, and the upper one was written to. The lower one is copied first,
and it would be the one to leave its frame for the copy if it were not spared. -/
theorem sourceKept_of_victim : ∃ history m parent child m' page target made m'',
    Run (bare 2 2 .empty) history m ∧ ComesTo parent "copy" m child ⟨1⟩ m' ∧ m'.freeFrames = 0 ∧
      m'.pages.get? ⟨1⟩ = some page ∧ (m'.victim? none).map (·.frame) = page.frame ∧
        Answers (duplicate ⟨1⟩ target) m' (.ok made) m'' ∧
          m'.CopySettled ⟨1⟩ page (.ok made) m'' := by
  let grows : PageFault :=
    ⟨⟨userStack - 2 * pageSize, by decide⟩, true, true, true, userStack - 2 * pageSize⟩
  have htest : returnsWith (do
        let s ← Space.create "init"
        let _ ← Request.setUpStack.perform? s
        let _ ← (Request.handleFault grows).perform? s
        let _ ← (Request.writeUser ⟨userStack - 1, by decide⟩ #[1]).perform? s
        let before ← get
        let current ← getSpace s
        let child ← (do
          let child ← create "copy"
          setStackPointer child current.stackPointer
          saveStackPointer child current.savedStackPointer
          return child)
        let moment ← get
        let target ← getSpace child
        return (s, before, current, child, moment, target,
          ← (duplicate ⟨1⟩ target.directory).run)) (bare 2 2 .empty)
      (fun (_, _, current, _, m, _, answer) _ => current.regions.values.isEmpty &&
        current.pages.values == [⟨1⟩, ⟨0⟩] && m.freeFrames == 0 && answer.isOk &&
          (m.pages.get? ⟨1⟩).any fun page => (m.victim? none).map (·.frame) == page.frame) = true := by
    decide +kernel
  obtain ⟨⟨s, before, current, child, moment, target, answer⟩, m', hrun, htest⟩ := exists_returns htest
  simp only [returns_bind, returns_pure] at hrun
  obtain ⟨_, m₁, hcreate, _, m₂, hstack, _, m₃, hgrow, _, m₄, hwrite, _, _, hget, _, _, hparent, _, m₅,
    ⟨_, _, hchild, _, _, hset, _, _, hsaved, rfl, rfl⟩, _, _, hget', _, _, htarget, _, _, hduplicate, he,
    rfl⟩ := hrun
  obtain ⟨rfl, rfl⟩ := returns_get.1 hget
  obtain ⟨rfl, rfl⟩ := returns_get.1 hget'
  obtain ⟨hparent, rfl⟩ := returns_getSpace.1 hparent
  obtain ⟨htarget, rfl⟩ := returns_getSpace.1 htarget
  cases he
  simp only [Bool.and_eq_true, beq_iff_eq, List.isEmpty_iff, Option.any_eq_true] at htest
  obtain ⟨⟨⟨⟨hregions, hpages⟩, hempty⟩, hok⟩, page, hpage, hvictim⟩ := htest
  obtain ⟨_, hreached⟩ := (Reaches.refl.create hcreate).perform? hstack
  obtain ⟨_, hreached⟩ := hreached.perform? hgrow
  obtain ⟨history, hreached⟩ := hreached.perform? hwrite
  have hreaches : Run (bare 2 2 .empty) history before := ⟨fresh_bare 2 2 .empty, hreached⟩
  have hbegun : ForkBegun s "copy" before current child moment :=
    ⟨hparent, returns_bind.2 ⟨_, _, hchild, returns_bind.2 ⟨_, _, hset, returns_bind.2
      ⟨_, _, hsaved, returns_pure.2 ⟨rfl, rfl⟩⟩⟩⟩⟩
  have hcomes : ComesTo s "copy" before child ⟨1⟩ moment := by
    refine ⟨current, [], [⟨0⟩], moment, moment, hbegun, hpages, ?_, answers_pure.2 ⟨rfl, rfl⟩⟩
    rw [hregions]
    exact answers_pure.2 ⟨rfl, rfl⟩
  obtain ⟨_, _, hpage', htarget', hends⟩ := hreaches.sourceKept (by decide) rfl hcomes
  cases hpage.symm.trans hpage'
  cases htarget.symm.trans htarget'
  cases answer with
  | error cause => cases hok
  | ok made =>
      exact ⟨history, before, s, child, moment, page, target.directory, made, m', hreaches, hcomes,
        hempty, hpage, hvictim, hduplicate, hends.returned hduplicate⟩

end

end DemandPaging
