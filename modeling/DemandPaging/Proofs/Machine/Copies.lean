import DemandPaging.Proofs.Keeps
import DemandPaging.Proofs.Machine.Residency

/-!
Copies of pages.

A copy of a page that has bytes of its own gets them at once, in a frame. One that has none yet, or
whose bytes are those of a file, gets a source of its own instead, over a handle that is opened for
it. Either way the page that is copied stays as it is, and its frame is pinned while another one is
looked for.
-/

namespace DemandPaging.Machine

variable {m m' : Machine} {key : Key Page} {page : Page}

/-! ### Sources -/

theorem returns_reopen {file : Key File} {handle? : Option Handle}
    (hrun : Returns (reopen file) m handle? m') :
    m'.view = m.view ∧ (∃ files, m' = { m with files }) ∧
      ∀ handle, handle? = some handle → handle.file = file := by
  simp only [reopen, returns_bind, returns_getFile, returns_get, and_assoc, exists_and_left,
    exists_eq_left] at hrun
  obtain ⟨current, hfile, hrun⟩ := hrun
  split at hrun
  · simp only [returns_bind, returns_updateFile, returns_pure, exists_and_left, exists_eq_left,
      exists_const] at hrun
    obtain ⟨rfl, rfl⟩ := hrun
    refine ⟨view_issue m hfile, ⟨_, rfl⟩, fun handle hhandle => ?_⟩
    cases hhandle
    rfl
  · obtain ⟨rfl, rfl⟩ := returns_pure.1 hrun
    exact ⟨rfl, ⟨_, rfl⟩, fun _ he => by cases he⟩

theorem file_of_reopen {file : Key File} {handle? : Option Handle}
    (hrun : Returns (reopen file) m handle? m') : ∃ current, m.files.get? file = some current := by
  simp only [reopen, returns_bind, returns_getFile, and_assoc, exists_and_left] at hrun
  obtain ⟨current, hfile, -⟩ := hrun
  exact ⟨current, hfile⟩

theorem file_ne_none_of_reopen {file : Key File} {handle? : Option Handle}
    (hrun : Returns (reopen file) m handle? m') : m.view.file file ≠ none := by
  obtain ⟨current, hfile⟩ := file_of_reopen hrun
  simp only [view, hfile, Option.map_some]
  exact Option.some_ne_none _

theorem isSome_of_reopen {file : Key File} {current : File} {handle? : Option Handle}
    (hfile : m.files.get? file = some current) (hrun : Returns (reopen file) m handle? m') :
    handle?.isSome = m.canReopen file current := by
  simp only [reopen, returns_bind, returns_getFile, returns_get, and_assoc, exists_and_left,
    exists_eq_left] at hrun
  obtain ⟨_, hfile', hrun⟩ := hrun
  cases hfile.symm.trans hfile'
  split at hrun
  · next hcan =>
    simp only [returns_bind, returns_updateFile, returns_pure, exists_and_left, exists_eq_left,
      exists_const] at hrun
    rw [hrun.1, hcan]
    rfl
  · next hcannot =>
    rw [Bool.not_eq_true] at hcannot
    rw [(returns_pure.1 hrun).1, hcannot]
    rfl

theorem returns_duplicateSlice {slice : FileSlice} {slice? : Option FileSlice}
    (hrun : Returns (duplicateSlice slice) m slice? m') :
    m'.view = m.view ∧ (∃ files, m' = { m with files }) ∧
      ∀ slice', slice? = some slice' →
        (∃ serial, slice' = slice.reopened serial) ∧ Opened m m' slice'.handle := by
  simp only [duplicateSlice, returns_bind, returns_pure] at hrun
  obtain ⟨handle?, _, hreopen, rfl, rfl⟩ := hrun
  obtain ⟨hview, hsame, hfile⟩ := returns_reopen hreopen
  refine ⟨hview, hsame, fun slice' hslice => ?_⟩
  obtain ⟨⟨file, serial⟩, rfl, rfl⟩ := Option.map_eq_some_iff.1 hslice
  have heq : file = slice.handle.file := hfile _ rfl
  exact ⟨⟨serial, by rw [FileSlice.reopened, heq]⟩, opened_of_reopen hreopen⟩

theorem returns_duplicatePending {source : Pending} {source? : Option Pending}
    (hrun : Returns (duplicatePending source) m source? m') :
    m'.view = m.view ∧ (∃ files, m' = { m with files }) ∧
      ∀ source', source? = some source' → Pending.Reopened source source' ∧
        ∀ slice, source'.slice? = some slice → Opened m m' slice.handle := by
  cases source with
  | zeros =>
      obtain ⟨rfl, rfl⟩ := returns_pure.1 hrun
      refine ⟨rfl, ⟨_, rfl⟩, fun source' he => ?_⟩
      cases he
      exact ⟨.zeros, fun _ he => by cases he⟩
  | loader loader =>
      cases loader with
      | segment slice =>
          simp only [duplicatePending, returns_bind, returns_pure] at hrun
          obtain ⟨slice?, _, hslice, rfl, rfl⟩ := hrun
          obtain ⟨hview, hsame, hreopened⟩ := returns_duplicateSlice hslice
          refine ⟨hview, hsame, fun source' he => ?_⟩
          obtain ⟨slice', hslice', rfl⟩ := Option.map_eq_some_iff.1 he
          obtain ⟨⟨serial, rfl⟩, hopened⟩ := hreopened _ hslice'
          refine ⟨.segment, fun slice' he => ?_⟩
          cases he
          exact hopened
      | fill byte count succeeds =>
          obtain ⟨rfl, rfl⟩ := returns_pure.1 hrun
          refine ⟨rfl, ⟨_, rfl⟩, fun source' he => ?_⟩
          cases he
          exact ⟨.fill, fun _ he => by cases he⟩
  | file slice =>
      simp only [duplicatePending, returns_bind, returns_pure] at hrun
      obtain ⟨slice?, _, hslice, rfl, rfl⟩ := hrun
      obtain ⟨hview, hsame, hreopened⟩ := returns_duplicateSlice hslice
      refine ⟨hview, hsame, fun source' he => ?_⟩
      obtain ⟨slice', hslice', rfl⟩ := Option.map_eq_some_iff.1 he
      obtain ⟨⟨serial, rfl⟩, hopened⟩ := hreopened _ hslice'
      refine ⟨.file, fun slice' he => ?_⟩
      cases he
      exact hopened

/-- Where the bytes of a copy come from: the page itself, as far as it has bytes of its own. -/
inductive CopiesFrom (page : Page) (contents : Contents) : Option CopySource → Prop where
  /-- The copy is not brought in. -/
  | aside (hframe : page.frame = none) (hkind : contents.kind ≠ .anonymous) :
      CopiesFrom page contents none
  | frame {f : FrameNumber} (hframe : page.frame = some f) (hkind : contents.kind ≠ .uninit) :
      CopiesFrom page contents (some (.frame f))
  | slot {slot : SwapSlot} (hframe : page.frame = none)
      (hcontents : page.contents = .anonymous (some slot)) (hkind : contents.kind ≠ .uninit) :
      CopiesFrom page contents (some (.slot slot))

theorem answers_copyContents (hfits : page.contents.Fits page.isResident)
    {answer : Except VmError (Contents × Option CopySource)}
    (hrun : Answers (copyContents page) m answer m') :
    m'.view = m.view ∧ (∃ files, m' = { m with files }) ∧
      ∀ contents source, answer = .ok (contents, source) →
        Contents.Copied page.contents contents ∧ CopiesFrom page contents source ∧
          ∀ slice, contents.slice? = some slice → Opened m m' slice.handle := by
  unfold copyContents at hrun
  split at hrun
  · next source hcontents =>
    rw [hcontents] at hfits
    have hframe : page.frame = none := by
      simpa [Contents.Fits, Page.isResident] using hfits
    simp only [answers_liftM_bind] at hrun
    obtain ⟨source?, m₁, hduplicate, hrun⟩ := hrun
    obtain ⟨hview, hsame, hreopened⟩ := returns_duplicatePending hduplicate
    cases source? with
    | none =>
        obtain ⟨rfl, rfl⟩ := answers_throw.1 hrun
        exact ⟨hview, hsame, fun _ _ he => by cases he⟩
    | some source' =>
        obtain ⟨rfl, rfl⟩ := answers_pure.1 hrun
        refine ⟨hview, hsame, fun contents source'' he => ?_⟩
        cases he
        rw [hcontents]
        exact ⟨.pending (hreopened _ rfl).1, .aside hframe fun hkind => (by cases hkind),
          (hreopened _ rfl).2⟩
  · next slot hcontents =>
    obtain ⟨rfl, rfl⟩ := answers_pure.1 hrun
    refine ⟨rfl, ⟨_, rfl⟩, fun contents source he => ?_⟩
    rw [hcontents] at hfits
    cases he
    rw [hcontents]
    refine ⟨.anonymous, ?_, fun _ he => by cases he⟩
    cases hframe : page.frame with
    | some f => exact .frame hframe fun hkind => by cases hkind
    | none =>
        cases slot with
        | none =>
            rw [Page.isResident, hframe] at hfits
            cases hfits
        | some slot => exact .slot hframe hcontents fun hkind => by cases hkind
  · next slice hcontents =>
    simp only [answers_liftM_bind] at hrun
    obtain ⟨slice?, m₁, hduplicate, hrun⟩ := hrun
    obtain ⟨hview, hsame, hreopened⟩ := returns_duplicateSlice hduplicate
    cases slice? with
    | none =>
        obtain ⟨rfl, rfl⟩ := answers_throw.1 hrun
        exact ⟨hview, hsame, fun _ _ he => by cases he⟩
    | some slice' =>
        obtain ⟨rfl, rfl⟩ := answers_pure.1 hrun
        refine ⟨hview, hsame, fun contents source he => ?_⟩
        cases he
        rw [hcontents]
        obtain ⟨⟨serial, rfl⟩, hopened⟩ := hreopened _ rfl
        refine ⟨.file, ?_, fun slice' he => ?_⟩
        swap
        · cases he
          exact hopened
        cases hframe : page.frame with
        | some f => exact .frame hframe fun hkind => by cases hkind
        | none => exact .aside hframe fun hkind => by cases hkind

/-! ### Bytes -/

theorem returns_pinFrame {f : FrameNumber} {on : Bool} {u : Unit}
    (hrun : Returns (pinFrame f on) m u m') :
    ∃ pool, m.pool.setPinned f on = .ok pool ∧ m' = { m with pool } := by
  simpa only [pinFrame, returns_bind, returns_get, returns_liftM, returns_setPool, and_assoc,
    exists_and_left, exists_eq_left] using hrun

/-- Acquiring a frame for a copy does not disturb what is copied. -/
theorem course_acquireBeside (h : Sound none m) (hpage : m.pages.get? key = some page)
    {contents : Contents} {source : CopySource} (hfrom : CopiesFrom page contents (some source))
    {acquired : Option Nat} (hrun : Returns (acquireBeside source) m acquired m') :
    m'.spaces = m.spaces ∧ m'.pages.get? key = some page ∧ m'.pages.nextKey = m.pages.nextKey ∧
      (acquired = none → Course [] none m none m') ∧
      ∀ index, acquired = some index → ∃ f, Acquired f index m m' := by
  cases hfrom with
  | slot hframe hcontents hkind =>
      obtain ⟨hsame, hnone, hsome⟩ := course_acquire h hrun
      exact ⟨hsame.spaces, hsame.pages hpage fun g hg => (by rw [hframe] at hg; cases hg),
        hsame.created, hnone, hsome⟩
  | @frame f hframe hkind =>
      simp only [acquireBeside, returns_bind, returns_pure] at hrun
      obtain ⟨_, m₁, hpin, acquired', m₂, hacquire, _, m₃, hunpin, rfl, rfl⟩ := hrun
      obtain ⟨pool, hpinned, hm₁⟩ := returns_pinFrame hpin
      have hview₁ : m₁.view = m.view := by
        rw [hm₁]
        exact view_setPinned m hpinned
      have hsound := h.of_view hview₁ (h.tidy.congr
        (by rw [hm₁]; exact Pool.sameAllocation_setPinned hpinned) (by rw [hm₁]))
      obtain ⟨hsame, hnone, hsome⟩ := course_acquire hsound hacquire
      obtain ⟨pool', hunpinned, hm₃⟩ := returns_pinFrame hunpin
      have hview₃ : m'.view = m₂.view := by
        rw [hm₃]
        exact view_setPinned m₂ hunpinned
      have htidy₃ : m₂.Tidy → m'.Tidy := fun htidy => htidy.congr
        (by rw [hm₃]; exact Pool.sameAllocation_setPinned hunpinned) (by rw [hm₃])
      have hkept : m₂.pages.get? key = some page := by
        refine hsame.pages (by rw [hm₁, hpage]) fun g hg => ?_
        rw [hframe] at hg
        cases hg
        rw [hm₁]
        exact (Pool.isPinned_setPinned hpinned f).trans (if_pos rfl)
      refine ⟨by rw [hm₃, hsame.spaces, hm₁], by rw [hm₃, hkept], by rw [hm₃, hsame.created, hm₁],
        fun he => ?_, fun index he => ?_⟩
      · have hcourse := hnone he
        exact (hcourse.of_view hview₁).to_view hview₃ (htidy₃ hcourse.tidy)
      · obtain ⟨g, hslot, hstep, htidy⟩ := hsome index he
        rw [hview₁, ← hview₃] at hstep
        exact ⟨g, by rw [hm₃, hslot], hstep, htidy₃ htidy⟩

theorem returns_copyBytes (hpage : m.view.page key = some page) {contents : Contents}
    {source : CopySource} (hfrom : CopiesFrom page contents (some source)) {target : FrameNumber}
    {copied : Bool} (hrun : Returns (copyBytes source target) m copied m') :
    ∃ bytes, m'.view = m.view.setBytes target bytes ∧
      (copied = true → bytes = m.view.bytesOf page) ∧
      ∃ pool swap, m' = { m with pool, swap } ∧ Pool.SameAllocation m.pool pool := by
  cases hfrom with
  | @frame f hframe hkind =>
      simp only [copyBytes, copyFrame, returns_bind, returns_get, returns_liftM, returns_setPool,
        returns_pure, and_assoc, exists_and_left, exists_eq_left, exists_const] at hrun
      obtain ⟨_, ⟨pool, hcopy, rfl⟩, rfl, rfl⟩ := hrun
      obtain ⟨bytes, hbytes, hset⟩ := Pool.copy_eq_ok hcopy
      exact ⟨bytes, view_setBytes m hset,
        fun _ => (View.bytesOf_of_frame (v := m.view) hframe hbytes).symm, pool, _, rfl,
        Pool.sameAllocation_setBytes hset⟩
  | slot hframe hcontents hkind =>
      simp only [copyBytes, returns_bind, returns_pure] at hrun
      obtain ⟨buffer, _, hbuffer, ⟨result, bytes⟩, m₁, hread, _, m₂, hset, rfl, rfl⟩ := hrun
      obtain ⟨-, rfl⟩ := returns_frameBytes hbuffer
      obtain ⟨hview, hbytes, swap, rfl⟩ := returns_readFromSwap hread
      obtain ⟨pool, hpool, rfl⟩ := returns_setFrameBytes hset
      refine ⟨bytes, ?_, fun hok => ?_, pool, swap, rfl, Pool.sameAllocation_setBytes hpool⟩
      · rw [← hview]
        exact view_setBytes _ hpool
      · have hresult : result = .ok () := by
          cases result with
          | ok u => rfl
          | error cause => cases hok
        rw [hbytes hresult, View.bytesOf_of_absent hframe, hcontents]
        rfl

/-! ### Duplication -/

/-- What is left of a duplication once a frame was acquired for the copy. -/
def copyInto (copy : Page) (source : CopySource) (directory : Key Directory) (index : Nat) :
    ExceptT VmError Action (Key Page) := do
  let frame := (← getSlot index).frame
  unless ← copyBytes source frame do
    removeSlot index
    throw .loadFailed
  let copyKey ← addPage copy
  link index copyKey directory
  return copyKey

theorem duplicate_eq (key : Key Page) (directory : Key Directory) :
    duplicate key directory = (do
      let page ← getPage key
      let (contents, source) ← copyContents page
      let copy ← Page.create page.va page.writable contents
      match source with
      | none => addPage copy
      | some source =>
          let some index ← acquireBeside source | throw .outOfMemory
          copyInto copy source directory index) := rfl

@[grind .] theorem keeps_copyInto (copy : Page) (source : CopySource) (d : Key Directory)
    (index : Nat) : Keeps Aside (copyInto copy source d index).run := by
  unfold copyInto
  grind

/-- What the rest of a duplication consists of: the bytes are copied and the copy is linked, or the
frame is taken off the list. -/
theorem copyInto_parts {index : Nat} {f : FrameNumber} (hslot : m.listed[index]? = some ⟨f, none⟩)
    {source : CopySource} {copy : Page} {d : Key Directory} {answer : Except VmError (Key Page)}
    (hrun : Answers (copyInto copy source d index) m answer m') :
    ∃ copied m₁, Returns (copyBytes source f) m copied m₁ ∧
      (copied = false ∧ answer = .error .loadFailed ∧ Returns (removeSlot index) m₁ () m' ∨
        copied = true ∧ answer = .ok m₁.pages.nextKey ∧
          Returns (link index m₁.pages.nextKey d) { m₁ with pages := m₁.pages.add copy } () m') := by
  simp only [copyInto, answers_liftM_bind, returns_getSlot, and_assoc, exists_and_left,
    exists_eq_left] at hrun
  obtain ⟨_, hslot', copied, m₁, hbytes, hrun⟩ := hrun
  rw [hslot] at hslot'
  cases hslot'
  refine ⟨copied, m₁, hbytes, ?_⟩
  cases copied with
  | false =>
      simp only [Bool.false_eq_true, if_false, answers_liftM_bind] at hrun
      obtain ⟨_, m₂, hremove, hrun⟩ := hrun
      obtain ⟨rfl, rfl⟩ := answers_throw.1 hrun
      exact .inl ⟨rfl, rfl, hremove⟩
  | true =>
      simp only [if_true, answers_liftM_bind, returns_addPage, and_assoc, exists_and_left,
        exists_eq_left, answers_pure] at hrun
      obtain ⟨_, m₂, hlink, rfl, rfl⟩ := hrun
      exact .inr ⟨rfl, rfl, hlink⟩

/-- The copy gets the bytes of the page in the frame, or the frame goes back to the pool. -/
theorem answers_copyInto (htidy : m.Tidy) {index : Nat} {f : FrameNumber}
    (hslot : m.listed[index]? = some ⟨f, none⟩) (hpage : m.view.page key = some page)
    {contents : Contents} {source : CopySource} (hfrom : CopiesFrom page contents (some source))
    {copy : Page} {d : Key Directory} {answer : Except VmError (Key Page)}
    (hrun : Answers (copyInto copy source d index) m answer m') :
    m'.spaces = m.spaces ∧
      (∀ cause, answer = .error cause → Course [] (some f) m none m') ∧
      ∀ copyKey, answer = .ok copyKey → copyKey = m.pages.nextKey ∧ m'.Tidy ∧
        ∃ pa, f.start = .ok pa ∧
          m'.view = (((((m.view.setBytes f (m.view.bytesOf page)).addPage copy).setOwner f
            (some (some ⟨copyKey, copy.va, d⟩))).setGrant d copy.va.number
              (some ⟨pa, true, copy.writable⟩)).setPage copyKey
                (some { copy with frame := some f })) := by
  obtain ⟨copied, m₁, hbytes, hrest⟩ := copyInto_parts hslot hrun
  obtain ⟨bytes, hview₁, hgot, pool, swap, hm₁, hallocation⟩ := returns_copyBytes hpage hfrom hbytes
  have htidy₁ : m₁.Tidy := htidy.congr (by rw [hm₁]; exact hallocation) (by rw [hm₁])
  have hslot₁ : m₁.listed[index]? = some ⟨f, none⟩ := by rw [hm₁, hslot]
  have hspaces₁ : m₁.spaces = m.spaces := by rw [hm₁]
  obtain ⟨rfl, rfl, hremove⟩ | ⟨rfl, rfl, hlink⟩ := hrest
  · have hscribble : Course [] (some f) m (some f) m₁ := .single .scribble hview₁ htidy₁
    obtain ⟨-, -, hand, pool', events', hm₂⟩ := returns_removeSlot htidy₁ hslot₁ hremove
    exact ⟨by rw [hm₂]; exact hspaces₁,
      fun _ _ => hscribble.trans (course_removeSlot htidy₁ hslot₁ hremove),
      fun _ he => by cases he⟩
  · have hpages : (m₁.pages.add copy).get? m₁.pages.nextKey = some copy := by
      rw [Arena.get?_add, if_pos rfl]
    obtain ⟨pa, hstart, htidy₂, hspaces₂, hview₂⟩ := returns_link
      (m := { m₁ with pages := m₁.pages.add copy }) (htidy₁.of_eq rfl rfl) hslot₁ hpages hlink
    refine ⟨hspaces₂.trans hspaces₁, fun _ he => (by cases he), fun copyKey he => ?_⟩
    cases he
    refine ⟨by rw [hm₁], htidy₂, pa, hstart, ?_⟩
    rw [view_addPage m₁ copy, hview₁, hgot rfl] at hview₂
    exact hview₂

/-- A copy that was made. The last of the steps that lead to it is the one that also puts it in its
place. -/
structure Duplicated (key : Key Page) (page : Page) (d : Key Directory) (copy : Key Page)
    (m m' : Machine) : Prop where
  tidy : m'.Tidy
  spaces : m'.spaces = m.spaces
  issued : ∀ f, m.issued f ≤ m'.issued f
  created : copy = m.pages.nextKey
  copied : ∃ p, m'.pages.get? copy = some p ∧ p.va = page.va ∧
    ∀ handle, p.handle? = some handle → Opened m m' handle
  steps : ∀ s, m.view.directoryOf s = some d → m.view.pageOf s page.va.number = none →
    Steps [.copied key copy] none m.view none (m'.view.setPlace s page.va.number (some copy))

theorem answers_duplicate (h : Sound none m) (hpage : m.pages.get? key = some page)
    {d : Key Directory} {answer : Except VmError (Key Page)}
    (hrun : Answers (duplicate key d) m answer m') :
    (∃ cause, answer = .error cause ∧ m'.spaces = m.spaces ∧ Course [] none m none m') ∨
      ∃ copy, answer = .ok copy ∧ Duplicated key page d copy m m' := by
  have hissued := ((keeps_duplicate key d).returns hrun).issued
  simp only [duplicate_eq, answers_liftM_bind, returns_getPage, and_assoc, exists_and_left,
    exists_eq_left] at hrun
  obtain ⟨_, hpage', hrun⟩ := hrun
  rw [hpage] at hpage'
  cases hpage'
  have hfits : page.contents.Fits page.isResident := h.coherent.fits hpage
  rw [answers_bind] at hrun
  rcases hrun with ⟨cause, rfl, hcontents⟩ | ⟨⟨contents, source⟩, m₁, hcontents, hrun⟩
  · obtain ⟨hview, ⟨files, hm'⟩, -⟩ := answers_copyContents hfits hcontents
    exact .inl ⟨cause, rfl, by rw [hm'],
      .silent (h.tidy.of_eq (by rw [hm']) (by rw [hm'])) hview⟩
  obtain ⟨hview₁, ⟨files, hm₁⟩, hsource⟩ := answers_copyContents hfits hcontents
  obtain ⟨hcopied, hfrom, hopened⟩ := hsource contents source rfl
  have haside : Aside m₁ m' := by
    refine Keeps.returns (.run_bind (.run_computed _) fun copy => ?_) hrun
    split
    · grind
    · refine .run_bind (.run_liftM (keeps_acquireBeside _)) fun acquired => ?_
      split <;> grind
  have hopened : ∀ p : Page, p.contents = contents → ∀ handle, p.handle? = some handle →
      Opened m m' handle := by
    intro p hp handle hhandle
    rw [Page.handle?, hp] at hhandle
    obtain ⟨slice, hslice, rfl⟩ := Option.map_eq_some_iff.1 hhandle
    exact (hopened slice hslice).mono (fun _ => Nat.le_refl _) haside.issued
  have htidy₁ : m₁.Tidy := h.tidy.of_eq (by rw [hm₁]) (by rw [hm₁])
  have hpage₁ : m₁.pages.get? key = some page := by rw [hm₁, hpage]
  rw [answers_liftM_computed_bind] at hrun
  obtain ⟨copy, hcreate, hrun⟩ := hrun
  obtain ⟨aligned, rfl⟩ := Page.create_eq_ok hcreate
  cases source with
  | none =>
      obtain ⟨hframe, hkind⟩ : page.frame = none ∧ contents.kind ≠ .anonymous := by
        cases hfrom with
        | aside hframe hkind => exact ⟨hframe, hkind⟩
      rw [answers_liftM] at hrun
      obtain ⟨copy, rfl, hadd⟩ := hrun
      obtain ⟨rfl, rfl⟩ := returns_addPage.1 hadd
      refine .inr ⟨_, rfl, ⟨htidy₁.of_eq rfl rfl, by rw [hm₁], hissued, by rw [hm₁], ?_,
        fun s hdirectory hplace => ?_⟩⟩
      · refine ⟨⟨page.va, page.writable, contents, none, 1, aligned⟩, ?_, rfl, hopened _ rfl⟩
        rw [Arena.get?_add, if_pos rfl]
      · rw [← hview₁] at hdirectory hplace
        have hstep := Step.copyAside (v := m₁.view) hpage₁ hframe hcopied hkind hdirectory hplace
        have hadded := view_addPage m₁
          { va := page.va, writable := page.writable, contents, frame := none, holders := 1, aligned }
        rw [hadded, ← hview₁]
        have hsame : ({ page with contents, holders := 1 } : Page) =
            { va := page.va, writable := page.writable, contents, frame := none, holders := 1,
              aligned } := by
          rw [Page.mk.injEq]
          exact ⟨rfl, rfl, rfl, hframe, rfl⟩
        rw [hsame] at hstep
        exact .single hstep
  | some source =>
      simp only [answers_liftM_bind] at hrun
      obtain ⟨acquired, m₂, hacquire, hrun⟩ := hrun
      obtain ⟨hspaces₂, hpage₂, hnext₂, hnone, hsome⟩ :=
        course_acquireBeside (h.of_view hview₁ htidy₁) hpage₁ hfrom hacquire
      have hspaces : m₂.spaces = m.spaces := by rw [hspaces₂, hm₁]
      cases acquired with
      | none =>
          obtain ⟨rfl, rfl⟩ := answers_throw.1 hrun
          exact .inl ⟨_, rfl, hspaces, (hnone rfl).of_view hview₁⟩
      | some index =>
      obtain ⟨f, hacquired⟩ := hsome index rfl
      have hcourse := hacquired.course.of_view hview₁
      obtain ⟨hspaces₃, hfailed, hmade⟩ :=
        answers_copyInto hacquired.tidy hacquired.slot hpage₂ hfrom hrun
      cases answer with
      | error cause =>
          exact .inl ⟨cause, rfl, hspaces₃.trans hspaces, hcourse.trans (hfailed cause rfl)⟩
      | ok copyKey =>
      obtain ⟨rfl, htidy₃, pa, hstart, hview⟩ := hmade copyKey rfl
      refine .inr ⟨_, rfl, ⟨htidy₃, hspaces₃.trans hspaces, hissued, by rw [hnext₂, hm₁], ?_,
        fun s hdirectory hplace => ?_⟩⟩
      · refine ⟨{ page with contents, frame := some f, holders := 1 }, ?_, rfl, hopened _ rfl⟩
        change m'.view.page m₂.pages.nextKey = _
        rw [hview]
        exact Function.update_self _ _ _
      · rw [← view_directoryOf_congr hspaces] at hdirectory
        rw [← view_pageOf_congr hspaces] at hplace
        -- the page keeps its bytes while the copy is filled, since the frame is not its own
        have hbytes : (m₂.view.setBytes f (m₂.view.bytesOf page)).bytesOf page =
            m₂.view.bytesOf page :=
          (hcourse.sound h).coherent.bytesOf_setBytes hpage₂ _
        have hkind : contents.kind ≠ .uninit := by
          cases hfrom with
          | frame _ hkind | slot _ _ hkind => exact hkind
        have hstep := Step.copyIn (v := m₂.view.setBytes f (m₂.view.bytesOf page)) (f := f)
          hpage₂ hcopied hkind hdirectory hplace hstart (by
            rw [hbytes]
            exact Function.update_self _ _ _)
        have hkey : m₂.pages.nextKey =
            ⟨(m₂.view.setBytes f (m₂.view.bytesOf page)).created⟩ := rfl
        rw [hview, hkey]
        simp only [View.setPage, View.addPage, View.setOwner, View.setGrant, View.setPlace,
          Function.update_idem] at hstep ⊢
        exact hcourse.steps.trans (.cons .scribble (.single hstep))

end DemandPaging.Machine
