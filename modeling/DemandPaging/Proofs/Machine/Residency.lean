import DemandPaging.Proofs.Machine.Frames

/-!
Pages on their way into frames, out of them and into copies.

Each operation on a page runs a course of silent steps, in which frames are taken from the pool or
from other pages, and at most one step that a process could notice. Where an operation fails, the
silent steps are all there is: whatever was tried has left every page with its bytes.
-/

namespace DemandPaging.Machine

variable {m m' : Machine} {f : FrameNumber} {key : Key Page} {page : Page} {s : Key AddressSpace}
  {d : Key Directory}

theorem view_pageOf_congr (h : m'.spaces = m.spaces) : m'.view.pageOf = m.view.pageOf := by
  simp only [view, h]

theorem view_directoryOf_congr (h : m'.spaces = m.spaces) :
    m'.view.directoryOf = m.view.directoryOf := by
  simp only [view, h]

theorem Course.cast {effects effects' : List Effect} {x x' : Option FrameNumber}
    (h : Course effects x m x' m') (he : effects = effects') : Course effects' x m x' m' := he ▸ h

/-! ### Bringing in -/

/-- What is left of a claim once a frame was acquired. -/
def claimInto (key : Key Page) (page : Page) (directory : Key Directory) (index : Nat) :
    ExceptT VmError Action Unit := do
  let frame := (← getSlot index).frame
  match ← bringIn page.contents frame with
  | none =>
      removeSlot index
      throw .loadFailed
  | some contents =>
      updatePage key fun page => { page with contents }
      link index key directory
      record (.claimed frame page.va)

theorem claim_eq (key : Key Page) (directory : Key Directory) :
    claim key directory = (do
      let page ← getPage key
      if page.isResident then return
      let some index ← acquire | throw .outOfMemory
      claimInto key page directory index) := rfl

/-- What the rest of a claim consists of: the contents are brought in and the page is linked, or the
frame is taken off the list. -/
theorem claimInto_parts {index : Nat} (hslot : m.listed[index]? = some ⟨f, none⟩)
    {answer : Except VmError Unit} (hrun : Answers (claimInto key page d index) m answer m') :
    ∃ result m₁, Returns (bringIn page.contents f) m result m₁ ∧
      (result = none ∧ answer = .error .loadFailed ∧ Returns (removeSlot index) m₁ () m' ∨
        ∃ contents m₂, result = some contents ∧ answer = .ok () ∧
          Returns (link index key d) { m₁ with
            pages := m₁.pages.modify key fun page => { page with contents } } () m₂ ∧
          m' = { m₂ with events := m₂.events.push (.claimed f page.va) }) := by
  simp only [claimInto, answers_liftM_bind, returns_getSlot, and_assoc, exists_and_left,
    exists_eq_left] at hrun
  obtain ⟨_, hslot', result, m₁, hbring, hrun⟩ := hrun
  rw [hslot] at hslot'
  cases hslot'
  refine ⟨result, m₁, hbring, ?_⟩
  cases result with
  | none =>
      simp only [answers_liftM_bind] at hrun
      obtain ⟨_, m₂, hremove, hrun⟩ := hrun
      obtain ⟨rfl, rfl⟩ := answers_throw.1 hrun
      exact .inl ⟨rfl, rfl, hremove⟩
  | some contents =>
      simp only [answers_liftM_bind, returns_updatePage, exists_eq_left, exists_const] at hrun
      obtain ⟨_, m₂, hlink, hrun⟩ := hrun
      rw [answers_liftM] at hrun
      simp only [returns_record] at hrun
      obtain ⟨-, rfl, rfl⟩ := hrun
      exact .inr ⟨contents, m₂, rfl, rfl, hlink, rfl⟩

/-- The frame is filled with the bytes of the page and mapped, or goes back to the pool. -/
theorem answers_claimInto (htidy : m.Tidy) {index : Nat} (hslot : m.listed[index]? = some ⟨f, none⟩)
    (hpage : m.pages.get? key = some page) {answer : Except VmError Unit}
    (hrun : Answers (claimInto key page d index) m answer m') :
    m'.spaces = m.spaces ∧
      (∀ cause, answer = .error cause → m'.Tidy ∧ ∃ bytes,
        m'.view = ((m.view.setBytes f bytes).setOwner f none).setAllocated f false) ∧
      (answer = .ok () → m'.Tidy ∧ ∃ pa, f.start = .ok pa ∧
        m'.view = (((((m.view.setBytes f (m.view.contentsBytes page.contents)).vacate
          page.contents.slot?).setOwner f (some (some ⟨key, page.va, d⟩))).setGrant d
            page.va.number (some ⟨pa, true, page.writable⟩)).setPage key
              (some { page with contents := page.contents.settled, frame := some f }))) := by
  obtain ⟨result, m₂, hbring, hrest⟩ := claimInto_parts hslot hrun
  obtain ⟨bytes, pool, swap, events, hm₂, hallocation, hbrought, hfailed⟩ := returns_bringIn hbring
  have htidy₂ : m₂.Tidy := htidy.congr (by rw [hm₂]; exact hallocation) (by rw [hm₂])
  have hslot₂ : m₂.listed[index]? = some ⟨f, none⟩ := by rw [hm₂, hslot]
  have hspaces₂ : m₂.spaces = m.spaces := by rw [hm₂]
  obtain ⟨rfl, rfl, hremove⟩ | ⟨contents, m₃, rfl, rfl, hlink, rfl⟩ := hrest
  · obtain ⟨hview, htidy', hand, pool', events', hm₃⟩ := returns_removeSlot htidy₂ hslot₂ hremove
    rw [hfailed rfl] at hview
    exact ⟨by rw [hm₃]; exact hspaces₂, fun _ _ => ⟨htidy', bytes, hview⟩, fun he => by cases he⟩
  · obtain ⟨rfl, rfl, hview₂⟩ := hbrought contents rfl
    have hpage₂ : m₂.pages.get? key = some page := by rw [hm₂, hpage]
    have hmodify := view_modifyPage m₂ key fun p => { p with contents := page.contents.settled }
    have hsettled : (m₂.pages.modify key fun p =>
        { p with contents := page.contents.settled }).get? key =
          some { page with contents := page.contents.settled } := by
      rw [Arena.get?_modify, if_pos rfl, hpage₂]
      rfl
    obtain ⟨pa, hstart, htidy₃, hspaces₃, hview₃⟩ := returns_link
      (m := { m₂ with
        pages := m₂.pages.modify key fun p => { p with contents := page.contents.settled } })
      (htidy₂.of_eq rfl rfl) hslot₂ hsettled hlink
    refine ⟨hspaces₃.trans hspaces₂, fun _ he => (by cases he),
      fun _ => ⟨htidy₃.of_eq rfl rfl, pa, hstart, ?_⟩⟩
    rw [hpage₂, hview₂] at hmodify
    rw [hmodify] at hview₃
    have hview : m₃.view = _ := hview₃
    simp only [View.setPage, View.setOwner, View.setGrant, Function.update_idem] at hview ⊢
    exact hview

/-- Claiming a page brings it in, unless it is resident; a failure changes nothing that shows. -/
theorem course_claim (h : Sound none m) (hdirectory : m.view.directoryOf s = some d)
    {n : PageNumber} (hplace : m.view.pageOf s n = some key) {answer : Except VmError Unit}
    (hrun : Answers (claim key d) m answer m') :
    m'.spaces = m.spaces ∧ ∃ effects, Course effects none m none m' ∧
      (answer = .ok () →
        effects = [] ∧ m' = m ∧ (∃ page, m.view.page key = some page ∧ page.isResident = true) ∨
          effects = [.broughtIn key]) ∧
      ∀ cause, answer = .error cause → effects = [] := by
  simp only [claim_eq, answers_liftM_bind, returns_getPage, and_assoc, exists_and_left,
    exists_eq_left] at hrun
  obtain ⟨page, hpage, hrun⟩ := hrun
  split at hrun
  · next hresident =>
    obtain ⟨rfl, rfl⟩ := answers_pure.1 hrun
    exact ⟨rfl, [], .refl h, fun _ => .inl ⟨rfl, rfl, page, hpage, hresident⟩,
      fun _ he => by cases he⟩
  next habsent =>
  have hframe : page.frame = none := by simpa [Page.isResident] using habsent
  simp only [answers_liftM_bind] at hrun
  obtain ⟨acquired, m₁, hacquire, hrun⟩ := hrun
  obtain ⟨hsame, hnone, hsome⟩ := course_acquire h hacquire
  cases acquired with
  | none =>
      obtain ⟨rfl, rfl⟩ := answers_throw.1 hrun
      exact ⟨hsame.spaces, [], hnone rfl, fun he => (by cases he), fun _ _ => rfl⟩
  | some index =>
  obtain ⟨f, hacquired⟩ := hsome index rfl
  have hpage₁ : m₁.pages.get? key = some page :=
    hsame.pages hpage fun g hg => by rw [hframe] at hg; cases hg
  obtain ⟨hspaces, hfailed, hfilled⟩ :=
    answers_claimInto hacquired.tidy hacquired.slot hpage₁ hrun
  refine ⟨hspaces.trans hsame.spaces, ?_⟩
  cases answer with
  | error cause =>
      obtain ⟨htidy, bytes, hview⟩ := hfailed cause rfl
      have hreturn : Course [] (some f) m₁ none m' := by
        refine ⟨?_, htidy⟩
        rw [hview]
        exact .cons .scribble (.single .giveBack)
      exact ⟨[], hacquired.course.trans hreturn, fun he => (by cases he), fun _ _ => rfl⟩
  | ok u =>
      obtain ⟨htidy, pa, hstart, hview⟩ := hfilled rfl
      have hplace₁ : m₁.view.pageOf s page.va.number = some key := by
        rw [view_pageOf_congr hsame.spaces, h.coherent.placement.number_eq hplace hpage]
        exact hplace
      have hdirectory₁ : m₁.view.directoryOf s = some d := by
        rw [view_directoryOf_congr hsame.spaces, hdirectory]
      have hstep := Step.bringIn
        (v := m₁.view.setBytes f (m₁.view.contentsBytes page.contents)) (f := f)
        (show m₁.view.page key = some page from hpage₁) hframe hplace₁ hdirectory₁ hstart
        (Function.update_self _ _ _)
      have hfill : Course [.broughtIn key] (some f) m₁ none m' := by
        refine ⟨?_, htidy⟩
        rw [hview]
        exact .cons .scribble (.single hstep)
      exact ⟨[.broughtIn key], hacquired.course.trans hfill, fun _ => .inr rfl,
        fun _ he => by cases he⟩

/-- A page over a slice is claimed only if its file has all the bytes. -/
theorem hasAll_of_claim (h : Sound none m) (hpage : m.pages.get? key = some page)
    (hframe : page.frame = none) (hrun : Answers (claim key d) m (.ok ()) m') {slice : FileSlice}
    (hslice : page.contents.slice? = some slice) : m.view.HasAll slice := by
  simp only [claim_eq, answers_liftM_bind, returns_getPage, and_assoc, exists_and_left,
    exists_eq_left] at hrun
  obtain ⟨_, hpage', hrun⟩ := hrun
  cases hpage.symm.trans hpage'
  rw [if_neg (by simp [Page.isResident, hframe])] at hrun
  simp only [answers_liftM_bind] at hrun
  obtain ⟨acquired, m₁, hacquire, hrun⟩ := hrun
  cases acquired with
  | none => cases (answers_throw.1 hrun).1
  | some index =>
      obtain ⟨-, -, hsome⟩ := course_acquire h hacquire
      obtain ⟨f, hacquired⟩ := hsome index rfl
      obtain ⟨result, m₂, hbring, ⟨-, he, -⟩ | ⟨contents, -, rfl, -⟩⟩ :=
        claimInto_parts hacquired.slot hrun
      · cases he
      · exact hacquired.course.steps.filesSince.hasAll_iff.1 (hasAll_of_bringIn hbring hslice)

/-! ### Taking out and giving up -/

theorem exists_slot_of_resident (h : Sound none m) (hpage : m.pages.get? key = some page)
    (hframe : page.frame = some f) :
    ∃ index o, m.position? f = some index ∧ m.listed[index]? = some ⟨f, some o⟩ ∧ o.page = key ∧
      m.view.owner f = some (some o) := by
  obtain ⟨o, howner, hkey⟩ := h.coherent.residency.listed hpage hframe
  cases hposition : m.position? f with
  | none =>
      have hnone : m.view.owner f = none := position?_eq_none hposition
      rw [hnone] at howner
      cases howner
  | some index =>
      obtain ⟨owner, hslot⟩ := getElem?_of_position hposition
      have hlisted : m.view.owner f = some owner := ownerIn_of_getElem? h.tidy.nodup hslot
      rw [hlisted] at howner
      cases howner
      exact ⟨index, o, rfl, hslot, hkey, hlisted⟩

/-- Paging out is not noticed. -/
theorem course_pageOut (h : Sound none m) {out : Bool} (hrun : Returns (pageOut key) m out m') :
    m'.spaces = m.spaces ∧ Course [] none m none m' := by
  simp only [pageOut, returns_bind, returns_getPage, returns_get, and_assoc, exists_and_left,
    exists_eq_left] at hrun
  obtain ⟨page, hpage, hrun⟩ := hrun
  cases hframe : page.frame with
  | none =>
      rw [hframe] at hrun
      obtain ⟨-, rfl⟩ := returns_pure.1 hrun
      exact ⟨rfl, .refl h⟩
  | some f =>
      obtain ⟨index, o, hposition, hslot, -, -⟩ := exists_slot_of_resident h hpage hframe
      rw [hframe, Option.bind_some, hposition] at hrun
      simp only [returns_bind, returns_pure] at hrun
      obtain ⟨_, m₁, hevict, _, m₂, hremove, -, rfl⟩ := hrun
      obtain ⟨⟨contents, swap, files, directories, events, hm₁⟩, hstep⟩ :=
        returns_evict h hslot rfl hevict
      have htidy₁ : m₁.Tidy := h.tidy.congr (by rw [hm₁]; exact ⟨rfl, fun _ => rfl⟩)
        (by rw [hm₁]; exact map_frame_modify _ _ _)
      have hslot₁ : m₁.listed[index]? = some ⟨f, none⟩ := by
        rw [hm₁]
        simp [hslot]
      have hremoved := course_removeSlot htidy₁ hslot₁ hremove
      obtain ⟨-, -, hand, pool, events', hm₂⟩ := returns_removeSlot htidy₁ hslot₁ hremove
      exact ⟨by rw [hm₂, hm₁], (Course.single hstep rfl htidy₁).trans hremoved⟩

theorem release_parts_of_absent (hpage : m.pages.get? key = some page) (hframe : page.frame = none)
    {u : Unit} (hrun : Returns (release key) m u m') :
    ∃ contents m₁, Returns (giveUp page.contents none false)
        { m with pages := m.pages.modify key fun page => { page with frame := none } } contents m₁ ∧
      m' = { m₁ with pages := m₁.pages.modify key fun page => { page with contents } } := by
  simp only [release, returns_bind, returns_getPage, returns_updatePage, returns_get, and_assoc,
    exists_and_left, exists_eq_left, exists_const] at hrun
  obtain ⟨_, hpage', hrun⟩ := hrun
  cases hpage.symm.trans hpage'
  simp only [hframe, Option.bind_none, returns_bind, returns_pure, and_assoc, exists_and_left,
    exists_eq_left, exists_const, returns_updatePage] at hrun
  obtain ⟨contents, m₁, hgive, -, rfl⟩ := hrun
  exact ⟨contents, m₁, hgive, rfl⟩

theorem same_of_release_of_absent (hpage : m.pages.get? key = some page)
    (hframe : page.frame = none) {u : Unit} (hrun : Returns (release key) m u m') :
    m'.listed = m.listed ∧ m'.pool = m.pool ∧ m'.hand = m.hand := by
  obtain ⟨contents, m₁, hgive, rfl⟩ := release_parts_of_absent hpage hframe hrun
  obtain ⟨-, swap, rfl⟩ := returns_giveUp_of_absent hgive
  exact ⟨rfl, rfl, rfl⟩

theorem returns_release_of_absent (h : Sound none m) (hpage : m.pages.get? key = some page)
    (hframe : page.frame = none) {u : Unit} (hrun : Returns (release key) m u m') :
    m'.Tidy ∧ m'.spaces = m.spaces ∧ m'.directories = m.directories ∧
      ∃ left, m'.pages.get? key = some left ∧ left.holders = page.holders ∧
        m'.view = (m.view.vacate page.contents.slot?).setPage key (some left) := by
  obtain ⟨contents, m₁, hgive, rfl⟩ := release_parts_of_absent hpage hframe hrun
  obtain ⟨hview, swap, hm₁⟩ := returns_giveUp_of_absent hgive
  have hmodify := view_modifyPage m key fun p => { p with frame := none }
  have hmodify' := view_modifyPage m₁ key fun p => { p with contents }
  have hpage₁ : m₁.pages.get? key = some { page with frame := none } := by
    rw [hm₁, Arena.get?_modify, if_pos rfl, hpage]
    rfl
  refine ⟨h.tidy.of_eq (by rw [hm₁]) (by rw [hm₁]), by rw [hm₁], by rw [hm₁],
    { page with frame := none, contents }, ?_, rfl, ?_⟩
  · change (m₁.pages.modify key _).get? key = _
    rw [Arena.get?_modify, if_pos rfl, hpage₁]
    rfl
  · rw [hmodify', hview, hmodify, hpage₁]
    simp only [View.setPage, View.vacate, Function.update_idem]
    rfl

theorem release_parts (h : Sound none m) (hpage : m.pages.get? key = some page)
    (hframe : page.frame = some f) {u : Unit} (hrun : Returns (release key) m u m') :
    ∃ index o dirty m₁ contents m₂, m.listed[index]? = some ⟨f, some o⟩ ∧
      m.view.owner f = some (some o) ∧
      Returns (unmapOwner o)
        { m with
          pages := m.pages.modify key fun page => { page with frame := none }
          listed := m.listed.modify index fun slot => { slot with owner := none } } dirty m₁ ∧
      Returns (giveUp page.contents (some f) dirty) m₁ contents m₂ ∧
      Returns (removeSlot index)
        { m₂ with pages := m₂.pages.modify key fun page => { page with contents } } u m' := by
  obtain ⟨index, o, hposition, hslot, -, howner⟩ := exists_slot_of_resident h hpage hframe
  simp only [release, returns_bind, returns_getPage, returns_updatePage, returns_get, and_assoc,
    exists_and_left, exists_eq_left, exists_const] at hrun
  obtain ⟨_, hpage', hrun⟩ := hrun
  cases hpage.symm.trans hpage'
  have hposition' : position? { m with
      pages := m.pages.modify key fun page => { page with frame := none } } f = some index := hposition
  simp only [hframe, Option.bind_some, hposition', hslot, returns_bind, returns_setOwner,
    exists_eq_left, exists_const, returns_updatePage] at hrun
  obtain ⟨dirty, m₁, hunmap, contents, m₂, hgive, hremove⟩ := hrun
  exact ⟨index, o, dirty, m₁, contents, m₂, hslot, howner, hunmap, hgive, hremove⟩

/-- A frame is taken off the list last, and nothing that is done before concerns the pool or the hand. -/
theorem removeSlot_of_release (h : Sound none m) (hpage : m.pages.get? key = some page)
    (hframe : page.frame = some f) {u : Unit} (hrun : Returns (release key) m u m') :
    ∃ index o m₁, m.listed[index]? = some ⟨f, some o⟩ ∧
      m₁.listed = m.listed.modify index (fun slot => { slot with owner := none }) ∧
      m₁.pool = m.pool ∧ m₁.hand = m.hand ∧ Returns (removeSlot index) m₁ u m' := by
  have hfits := h.coherent.fits hpage
  rw [Page.isResident, hframe] at hfits
  obtain ⟨index, o, dirty, m₁, contents, m₂, hslot, -, hunmap, hgive, hremove⟩ :=
    release_parts h hpage hframe hrun
  obtain ⟨-, -, directories, hm₁⟩ := returns_unmapOwner hunmap
  obtain ⟨bytes, -, -, files, events, hm₂⟩ := returns_giveUp_of_resident hfits hgive
  exact ⟨index, o, _, hslot, by rw [hm₂, hm₁], by rw [hm₂, hm₁], by rw [hm₂, hm₁], hremove⟩

/-- Releasing a page that is in a frame gives up its bytes, and the frame goes back to the pool. -/
theorem returns_release_of_resident (h : Sound none m) (hpage : m.pages.get? key = some page)
    (hframe : page.frame = some f) {o : Owner} (howner : m.view.owner f = some (some o))
    {u : Unit} (hrun : Returns (release key) m u m') :
    m'.Tidy ∧ m'.spaces = m.spaces ∧
      (∀ d, d ≠ o.directory → m'.directories.get? d = m.directories.get? d) ∧
      ∃ left bytes v, m'.pages.get? key = some left ∧
        left.holders = page.holders ∧ m.view.bytes f = some bytes ∧
        GivenUp bytes (m.view.isDirty o.directory o.va) page.contents m.view v ∧
        m'.view = ((((v.setOwner f (some none)).setGrant o.directory o.va.number none).setPage key
          (some left)).setOwner f none).setAllocated f false := by
  have hfits := h.coherent.fits hpage
  rw [Page.isResident, hframe] at hfits
  obtain ⟨index, o', dirty, m₁, contents, m₂, hslot, howner', hunmap, hgive, hremove⟩ :=
    release_parts h hpage hframe hrun
  rw [howner] at howner'
  cases howner'
  have hmodify := view_modifyPage m key fun p => { p with frame := none }
  have hunowned := view_setOwner { m with
    pages := m.pages.modify key fun p => { p with frame := none } } h.tidy.nodup hslot none
  obtain ⟨hdirty, hview₁, directories, hm₁⟩ := returns_unmapOwner hunmap
  obtain ⟨bytes, hbytes, hgiven, files, events, hm₂⟩ := returns_giveUp_of_resident hfits hgive
  have hmodify' := view_modifyPage m₂ key fun p => { p with contents }
  have hpage₂ : m₂.pages.get? key = some { page with frame := none } := by
    rw [hm₂, hm₁, Arena.get?_modify, if_pos rfl, hpage]
    rfl
  have htidy₂ : Tidy { m₂ with pages := m₂.pages.modify key fun p => { p with contents } } :=
    h.tidy.congr (by rw [hm₂, hm₁]; exact ⟨rfl, fun _ => rfl⟩)
      (by rw [hm₂, hm₁]; exact map_frame_modify _ _ _)
  have hslot₂ : m₂.listed[index]? = some ⟨f, none⟩ := by
    rw [hm₂, hm₁]
    simp [hslot]
  obtain ⟨hview', htidy', hand, pool, events', hm'⟩ := returns_removeSlot htidy₂ hslot₂ hremove
  rw [hview₁, hunowned, hmodify] at hbytes hgiven
  have hgiven' := hgiven.transport (w := m.view) rfl
  refine ⟨htidy', by rw [hm', hm₂, hm₁], fun d hd => ?_,
    { page with frame := none, contents }, bytes, { m.view with file := m₂.view.file }, ?_, rfl,
    hbytes, ?_, ?_⟩
  · rw [hm', hm₂]
    exact get?_directories_unmapOwner hunmap hd
  · rw [hm']
    change (m₂.pages.modify key _).get? key = _
    rw [Arena.get?_modify, if_pos rfl, hpage₂]
    rfl
  · rw [hunowned, hmodify] at hdirty
    exact hdirty ▸ hgiven'
  · obtain ⟨file, hafter⟩ := hgiven.exists_eq
    rw [hview', hmodify', hafter, hpage₂, hpage]
    simp only [View.setPage, View.setOwner, View.setGrant, View.setAllocated, Function.update_idem]
    rfl

/-! ### Access through a directory -/

/-- What is mapped leads into the frame of the page that it belongs to. -/
theorem Sound.owner_of_grant {x : Option FrameNumber} (h : Sound x m) {directory : Directory}
    (hfound : m.directories.get? d = some directory) {va : VirtualAddress} {grant : Grant}
    (hgrant : directory.grant? va = some grant) {pa : PhysicalAddress}
    (hpa : pa.toNat = grant.address.toNat + va.pageOffset) :
    ∃ o page, m.view.owner pa.number = some (some o) ∧ m.view.page o.page = some page ∧
      page.frame = some pa.number ∧ o.directory = d ∧ o.va = page.va ∧
      page.va.number = va.number ∧ grant.writable = page.writable ∧
      pa.pageOffset = va.pageOffset := by
  have hviewGrant : m.view.grant d va = some grant := by rw [view_grant_eq m hfound, hgrant]
  obtain ⟨f, o, howner, hd, hn⟩ := h.coherent.residency.granted hviewGrant
  obtain ⟨page, pa₀, hpage, hframe, hva, hstart, hgranted⟩ := h.coherent.residency.linked howner
  have hnumber : page.va.number = va.number := by rw [← hva, hn]
  have hsame : grant = ⟨pa₀, true, page.writable⟩ := by
    rw [hd, view_grant_eq m hfound, Directory.grant?_eq_of_number_eq hnumber, hgrant] at hgranted
    exact Option.some.inj hgranted
  have hbase := Number.start_eq_ok hstart
  have hoffset := va.pageOffset_lt
  rw [hsame] at hpa
  simp only [pageSize] at hbase hoffset hpa
  have hf : pa.number = f := Number.ext (by
    rw [Address.toNat_number, hpa, hbase]
    simp only [pageSize]
    omega)
  rw [← hf] at howner hframe
  refine ⟨o, page, howner, hpage, hframe, hd, hva, hnumber, by rw [hsame], ?_⟩
  simp only [Address.pageOffset, pageSize] at hoffset hpa ⊢
  omega

/-- A permitted access leads into the frame of the page that lives at the address. -/
theorem answers_accessPage (h : Sound none m) (hdirectory : m.view.directoryOf s = some d)
    {va : VirtualAddress} {write : Bool} {answer : Except AccessViolation PhysicalAddress}
    (hrun : Answers (accessPage d va write) m answer m') :
    m'.Tidy ∧ m'.spaces = m.spaces ∧ m'.pool = m.pool ∧
      (∀ violation, answer = .error violation → m'.view = m.view) ∧
      ∀ pa, answer = .ok pa → ∃ f o page, m.view.owner f = some (some o) ∧
        m.view.page o.page = some page ∧ page.frame = some f ∧
        m.view.pageOf s va.number = some o.page ∧ o.directory = d ∧ o.va.number = va.number ∧
        pa.number = f ∧ pa.pageOffset = va.pageOffset ∧
        (write = true → page.writable = true) ∧
        m'.view = if write then m.view.stain d va.number else m.view := by
  simp only [accessPage, answers_liftM_bind, returns_getDirectory, and_assoc, exists_and_left,
    exists_eq_left] at hrun
  obtain ⟨directory, hfound, hrun⟩ := hrun
  cases haccess : directory.access va write with
  | error violation =>
      rw [haccess] at hrun
      obtain ⟨rfl, rfl⟩ := answers_throw.1 hrun
      exact ⟨h.tidy, rfl, rfl, fun _ _ => rfl, fun _ he => by cases he⟩
  | ok reached =>
      obtain ⟨pa, changed⟩ := reached
      rw [haccess] at hrun
      simp only [answers_liftM_bind, returns_updateDirectory, exists_eq_left, exists_const,
        answers_pure] at hrun
      obtain ⟨rfl, hm'⟩ := hrun
      refine ⟨h.tidy.of_eq (by rw [hm']) (by rw [hm']), by rw [hm'], by rw [hm'],
        fun _ he => (by cases he), fun pa' he => ?_⟩
      cases he
      obtain ⟨grant, hgrant, -, hwritable, hpa, -⟩ := Directory.access_eq_ok haccess
      obtain ⟨o, page, howner, hpage, hframe, hd, hva, hn, hrights, hoffset⟩ :=
        h.owner_of_grant hfound hgrant hpa
      obtain ⟨s', hplace⟩ := h.coherent.placement.held hpage
      have hs : s' = s := h.coherent.placement.separate (h.coherent.home howner hplace)
        (by rw [hd, hdirectory])
      refine ⟨pa.number, o, page, howner, hpage, hframe, ?_, hd, by rw [hva, hn], rfl, hoffset,
        fun hw => hrights ▸ hwritable hw, ?_⟩
      · rw [← hs, ← hn, hplace]
      · rw [hm']
        cases write with
        | true =>
            refine view_stain m hfound _ (fun b => Directory.grant?_access haccess b) fun b => ?_
            rw [Directory.test_dirty_access haccess]
            by_cases hb : b.number = va.number
            · simp [hb]
            · simp [hb, Ne.symm hb]
        | false =>
            refine view_untouched m hfound (fun b => Directory.grant?_access haccess b) fun b => ?_
            rw [Directory.test_dirty_access haccess]
            simp

/-- Reading through a directory gives the bytes of the page at the address. -/
theorem answers_loadBytes (h : Sound none m) (hdirectory : m.view.directoryOf s = some d)
    {va : VirtualAddress} {length : Nat} {answer : Except AccessViolation (Array UInt8)}
    (hrun : Answers (loadBytes d va length) m answer m') :
    m'.spaces = m.spaces ∧ Course [] none m none m' ∧ ∀ data, answer = .ok data →
      ∃ key page, m.view.pageOf s va.number = some key ∧ m.view.page key = some page ∧
        page.isResident = true ∧ va.pageOffset + length ≤ pageSize ∧
        data = (m.view.bytesOf page).slice va.pageOffset length := by
  simp only [loadBytes, answers_bind] at hrun
  rcases hrun with ⟨violation, rfl, haccess⟩ | ⟨pa, m₁, haccess, hread⟩
  · obtain ⟨htidy, hspaces, -, hview, -⟩ := answers_accessPage h hdirectory haccess
    exact ⟨hspaces, .silent htidy (hview _ rfl), fun _ he => by cases he⟩
  · obtain ⟨htidy, hspaces, hpool, -, hreached⟩ := answers_accessPage h hdirectory haccess
    obtain ⟨f, o, page, -, hpage, hframe, hplace, -, -, hnumber, hoffset, -, hview⟩ :=
      hreached pa rfl
    rw [answers_liftM] at hread
    simp only [readMemory, returns_get_bind, returns_liftM] at hread
    obtain ⟨data, rfl, hdata, rfl⟩ := hread
    rw [hpool] at hdata
    obtain ⟨bytes, hbytes, hfits, rfl⟩ := Pool.read_eq_ok hdata
    refine ⟨hspaces, .silent htidy (by simpa using hview), fun data he => ?_⟩
    cases he
    rw [hnumber] at hbytes
    rw [hoffset] at hfits ⊢
    refine ⟨o.page, page, hplace, hpage, by rw [Page.isResident, hframe]; rfl, hfits, ?_⟩
    rw [View.bytesOf_of_frame hframe hbytes]

theorem answers_storeBytes (h : Sound none m) (hdirectory : m.view.directoryOf s = some d)
    {va : VirtualAddress} {data : Array UInt8} {answer : Except AccessViolation Unit}
    (hrun : Answers (storeBytes d va data) m answer m') :
    m'.spaces = m.spaces ∧
      (∀ violation, answer = .error violation → Course [] none m none m') ∧
      (answer = .ok () → ∃ key, m.view.pageOf s va.number = some key ∧
        va.pageOffset + data.size ≤ pageSize ∧
        Course [.stored key va.pageOffset data] none m none m') := by
  simp only [storeBytes, answers_bind] at hrun
  rcases hrun with ⟨violation, rfl, haccess⟩ | ⟨pa, m₁, haccess, hwrite⟩
  · obtain ⟨htidy, hspaces, -, hview, -⟩ := answers_accessPage h hdirectory haccess
    exact ⟨hspaces, fun _ _ => .silent htidy (hview _ rfl), fun he => by cases he⟩
  · obtain ⟨htidy, hspaces, hpool, -, hreached⟩ := answers_accessPage h hdirectory haccess
    obtain ⟨f, o, page, howner, hpage, hframe, hplace, hd, hn, hnumber, hoffset, hwritable,
      hview⟩ := hreached pa rfl
    rw [answers_liftM] at hwrite
    simp only [writeMemory, returns_bind, returns_get, returns_liftM, returns_setPool, and_assoc,
      exists_and_left, exists_eq_left] at hwrite
    obtain ⟨_, rfl, pool, hpool', rfl⟩ := hwrite
    rw [hpool] at hpool'
    obtain ⟨bytes, hbytes, hfits, hset⟩ := Pool.write_eq_ok hpool'
    rw [hnumber] at hbytes hset
    rw [hoffset] at hfits hset
    have hallocation := Pool.sameAllocation_setBytes hset
    have hset₁ : m₁.pool.setBytes f (bytes.overlay va.pageOffset data) = .ok pool := by
      rw [hpool, hset]
    refine ⟨hspaces, fun _ he => (by cases he), fun _ => ⟨o.page, hplace, hfits, ?_⟩⟩
    refine .single (.store howner hpage (hwritable rfl) hbytes hfits) ?_
      (htidy.congr (by rw [hpool]; exact hallocation) rfl)
    rw [view_setBytes m₁ hset₁, hview, if_pos rfl, hd, hn]
    rfl

end DemandPaging.Machine
