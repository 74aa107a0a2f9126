import DemandPaging.Proofs.AnonymousMemory
import DemandPaging.Proofs.FrameOwnership
import DemandPaging.Proofs.HandleOwnership

/-!
A fork that fails leaves nothing behind.

By the time a fork fails it may have copied any number of regions and pages, and in doing so it may
have evicted pages of any process, its own copies among them. What is undone is the copy as a whole,
by ending it like any other address space. What is not undone are the evictions: a page that was
resident before may be in a slot or back in its file. That is all that may have happened to a page
that was there before.
-/

namespace DemandPaging

open Machine Space

/-! ### Pages that are left alone -/

/-- The labels that do not concern a page. -/
def Effect.Spares (key : Key Page) (effect : Effect) : Prop :=
  ¬effect.Sets key ∧ effect ≠ .broughtIn key ∧ effect ≠ .removed key

/-- What may become of a page that nobody asks for: it stays as it is, or is evicted. -/
inductive Page.Evicted (page : Page) : Page → Prop where
  | kept : Evicted page page
  | toSlot {f : FrameNumber} (slot : SwapSlot) (hframe : page.frame = some f)
      (hcontents : page.contents = .anonymous none) :
      Evicted page { page with contents := .anonymous (some slot), frame := none }
  | toFile {f : FrameNumber} {slice : FileSlice} (hframe : page.frame = some f)
      (hcontents : page.contents = .file slice) : Evicted page { page with frame := none }

namespace Page.Evicted

variable {page page' page'' : Page}

theorem trans (h : page.Evicted page') (h' : page'.Evicted page'') : page.Evicted page'' := by
  cases h with
  | kept => exact h'
  | toSlot slot hframe hcontents =>
      cases h' with
      | kept => exact .toSlot slot hframe hcontents
      | toSlot _ hframe' => cases hframe'
      | toFile hframe' => cases hframe'
  | toFile hframe hcontents =>
      cases h' with
      | kept => exact .toFile hframe hcontents
      | toSlot _ hframe' => cases hframe'
      | toFile hframe' => cases hframe'

theorem eq_of_absent (h : page.Evicted page') (habsent : page.frame = none) : page' = page := by
  cases h with
  | kept => rfl
  | toSlot _ hframe => cases habsent.symm.trans hframe
  | toFile hframe => cases habsent.symm.trans hframe

theorem kind_eq (h : page.Evicted page') : page'.contents.kind = page.contents.kind := by
  cases h with
  | kept => rfl
  | toSlot _ _ hcontents => rw [hcontents]; rfl
  | toFile => rfl

theorem writable_eq (h : page.Evicted page') : page'.writable = page.writable := by
  cases h <;> rfl

theorem va_eq (h : page.Evicted page') : page'.va = page.va := by
  cases h <;> rfl

theorem handle?_eq (h : page.Evicted page') : page'.handle? = page.handle? := by
  cases h with
  | kept => rfl
  | toSlot _ _ hcontents =>
      simp only [handle?, hcontents]
      rfl
  | toFile => rfl

theorem settled_kind (h : page.Evicted page') (hkind : page.contents.settled.kind = .anonymous) :
    page'.contents.settled.kind = .anonymous := by
  cases h with
  | kept => exact hkind
  | toSlot => rfl
  | toFile => exact hkind

theorem segment?_of (h : page.Evicted page') {slice : FileSlice}
    (hsegment : page'.contents.segment? = some slice) : page.contents.segment? = some slice := by
  cases h with
  | kept => exact hsegment
  | toSlot => cases hsegment
  | toFile => exact hsegment

end Page.Evicted

section

variable {effects : List Effect} {x x' : Option FrameNumber} {v v' : View} {key : Key Page}
  {page : Page}

theorem Step.evicted (h : Step effects x v x' v') (hcoherent : Coherent x v)
    (hpage : v.page key = some page) (hspared : ∀ e ∈ effects, Effect.Spares key e) :
    ∃ page', v'.page key = some page' ∧ page.Evicted page' := by
  cases h.fate hcoherent key with
  | absent hnone => cases hpage.symm.trans hnone
  | kept hold hnew =>
      cases hpage.symm.trans hold
      exact ⟨page, hnew, .kept⟩
  | stored => exact absurd rfl (hspared _ (List.mem_singleton_self _)).1
  | @evicted v₁ found f bytes dirty contents hold hframe hbytes hdirty hstowed hnew =>
      cases hpage.symm.trans hold
      refine ⟨_, hnew, ?_⟩
      generalize hcontents : page.contents = before at hstowed
      cases hstowed with
      | slot hfree => exact .toSlot _ hframe hcontents
      | file hback =>
          rw [← hcontents]
          exact .toFile hframe hcontents
  | broughtIn => exact absurd rfl (hspared _ (List.mem_singleton_self _)).2.1
  | added _ hnone => cases hpage.symm.trans hnone
  | copied _ hnone => cases hpage.symm.trans hnone
  | removedAbsent => exact absurd rfl (hspared _ (List.mem_singleton_self _)).2.2
  | removedPresent => exact absurd rfl (hspared _ (List.mem_singleton_self _)).2.2

theorem Steps.evicted (h : Steps effects x v x' v') (hcoherent : Coherent x v)
    (hpage : v.page key = some page) (hspared : ∀ e ∈ effects, Effect.Spares key e) :
    ∃ page', v'.page key = some page' ∧ page.Evicted page' := by
  induction h generalizing page with
  | nil => exact ⟨page, hpage, .kept⟩
  | cons head tail ih =>
      obtain ⟨page₁, hpage₁, hfirst⟩ := head.evicted hcoherent hpage
        fun e he => hspared e (List.mem_append_left _ he)
      obtain ⟨page', hpage', hrest⟩ := ih (head.coherent hcoherent) hpage₁
        fun e he => hspared e (List.mem_append_right _ he)
      exact ⟨page', hpage', hfirst.trans hrest⟩

end

/-! ### What is undone -/

/-- The state after a fork that failed, next to the one before it. Slots that were occupied before
the first address space was created are of no concern. -/
structure ForkUndone (start m m' : Machine) : Prop where
  /-- Address spaces have the same pages in the same places, the same regions and the same stack
  pointers. -/
  spaces : ∀ s, m'.spaces.get? s = m.spaces.get? s
  /-- A page has the same rights and the same kind, and one that was in no frame is as it was, in
  its slot if it had one. -/
  pages : ∀ {key page}, m.pages.get? key = some page → ∃ page', m'.pages.get? key = some page' ∧
    page'.va = page.va ∧ page'.writable = page.writable ∧
      page'.contents.kind = page.contents.kind ∧ (page.frame = none → page' = page)
  noMore : ∀ {key}, m.pages.get? key = none → m'.pages.get? key = none
  /-- Listed frames belong to pages of address spaces that were there before. -/
  frames : ∀ slot ∈ m'.listed, ∃ (o : Owner) (s : Key AddressSpace) (space : AddressSpace)
    (n : PageNumber), slot.owner = some o ∧ m.spaces.get? s = some space ∧
      space.pages[n]? = some o.page
  /-- So do occupied slots. -/
  slots : ∀ slot, m'.swap.isOccupied slot = true → start.swap.isOccupied slot = true ∨
    ∃ (s : Key AddressSpace) (space : AddressSpace) (n : PageNumber) (key : Key Page)
      (page : Page), m.spaces.get? s = some space ∧ space.pages[n]? = some key ∧
        m'.pages.get? key = some page ∧ page.contents = .anonymous (some slot)
  counted : m'.residentFrames + m'.freeFrames = m.residentFrames + m.freeFrames
  handles : ∀ f, m'.openHandles f = m.openHandles f
  /-- A byte that is read from an anonymous page is the one that would have been read before. This
  is so for a page that was not touched yet as well, provided that nothing is written to the file of
  its segment. -/
  reads : ∀ {s va length bytes bytes' result result' after after'},
    Returns ((Request.readUser va length).perform? s) m (some (bytes, result)) after →
    Returns ((Request.readUser va length).perform? s) m' (some (bytes', result')) after' →
      ∀ {n key page}, m.view.pageOf s n = some key → m.pages.get? key = some page →
        page.contents.settled.kind = .anonymous →
          (∀ slice, page.contents.segment? = some slice →
            after.writesTo slice.handle.file = m.writesTo slice.handle.file ∧
              after'.writesTo slice.handle.file = m.writesTo slice.handle.file) →
            ∀ {i byte byte'}, (va.toNat + i) / pageSize = n.toNat → bytes[i]? = some byte →
              bytes'[i]? = some byte' → byte' = byte

variable {start m m' : Machine} {history later : List Done} {s : Key AddressSpace}

namespace Space.ForkFailed

variable {child : Key AddressSpace} {effects : List Effect} {key : Key Page} {page : Page}

theorem spares (h : ForkFailed s child effects m m') (hsound : Sound none m)
    (hpage : m.view.page key = some page) : ∀ e ∈ effects, Effect.Spares key e := by
  have hlt := hsound.coherent.placement.created hpage
  intro e he
  rcases h.labels e he with rfl | ⟨start, rfl⟩ | ⟨n, source, copy, -, rfl, hnew⟩ |
    ⟨removed, rfl, hnew⟩ | rfl
  · exact ⟨id, Effect.noConfusion, Effect.noConfusion⟩
  · exact ⟨id, Effect.noConfusion, Effect.noConfusion⟩
  · refine ⟨fun hsets => ?_, Effect.noConfusion, Effect.noConfusion⟩
    cases hsets
    omega
  · refine ⟨id, Effect.noConfusion, fun he => ?_⟩
    cases he
    omega
  · exact ⟨id, Effect.noConfusion, Effect.noConfusion⟩

theorem exists_evicted (h : ForkFailed s child effects m m') (hsound : Sound none m)
    (hpage : m.pages.get? key = some page) :
    ∃ page', m'.pages.get? key = some page' ∧ page.Evicted page' :=
  h.course.steps.evicted hsound.coherent hpage (h.spares hsound hpage)

/-- Every page that is left has a place that it had before. -/
theorem exists_pageOf (h : ForkFailed s child effects m m') (hsound' : Sound none m')
    (hpage : m'.pages.get? key = some page) : ∃ s' n, m.view.pageOf s' n = some key := by
  obtain ⟨s', hplace⟩ := hsound'.coherent.placement.held hpage
  rw [h.pageOf] at hplace
  exact ⟨s', _, hplace⟩

theorem exists_place (h : ForkFailed s child effects m m') (hsound' : Sound none m')
    (hpage : m'.pages.get? key = some page) : ∃ s' space,
      m.spaces.get? s' = some space ∧ ∃ n : PageNumber, space.pages[n]? = some key := by
  obtain ⟨s', n, hplace⟩ := h.exists_pageOf hsound' hpage
  obtain ⟨space, hspace, hplace⟩ := Option.bind_eq_some_iff.1 hplace
  exact ⟨s', space, hspace, n, hplace⟩

theorem page_eq_none (h : ForkFailed s child effects m m') (hsound : Sound none m)
    (hsound' : Sound none m') (hnone : m.pages.get? key = none) : m'.pages.get? key = none := by
  by_contra hsome
  obtain ⟨page, hpage⟩ := Option.ne_none_iff_exists'.1 hsome
  obtain ⟨s', n, hplace⟩ := h.exists_pageOf hsound' hpage
  obtain ⟨page', hpage', -⟩ := hsound.coherent.placement.placed hplace
  cases hnone.symm.trans hpage'

theorem handle?_iff (h : ForkFailed s child effects m m') (hsound : Sound none m)
    (hsound' : Sound none m') (handle : Handle) :
    (∃ key page, m'.pages.get? key = some page ∧ page.handle? = some handle) ↔
      ∃ key page, m.pages.get? key = some page ∧ page.handle? = some handle := by
  constructor
  · rintro ⟨key, page', hpage', hhandle⟩
    obtain ⟨page, hpage⟩ := Option.ne_none_iff_exists'.1 fun hnone => by
      cases hpage'.symm.trans (h.page_eq_none hsound hsound' hnone)
    obtain ⟨_, hsame, hmoved⟩ := h.exists_evicted hsound hpage
    cases hpage'.symm.trans hsame
    exact ⟨key, page, hpage, hmoved.handle?_eq.symm.trans hhandle⟩
  · rintro ⟨key, page, hpage, hhandle⟩
    obtain ⟨page', hpage', hmoved⟩ := h.exists_evicted hsound hpage
    exact ⟨key, page', hpage', hmoved.handle?_eq.trans hhandle⟩

end Space.ForkFailed

/-- A fork that fails leaves every address space as it was, and no trace of the copy. -/
theorem Space.spaces_of_forkFailed {child : Key AddressSpace} {effects : List Effect} {name : String}
    {answer : Except VmError Id} (h : ForkFailed s child effects m m')
    (hrun : Answers (fork s name) m answer m') :
    m'.clients = m.clients ∧ ∀ s', m'.spaces.get? s' = m.spaces.get? s' := by
  obtain ⟨hclients, hothers, -⟩ := others_of_fork hrun
  refine ⟨hclients, fun s' => ?_⟩
  by_cases hs : s' = m.spaces.nextKey
  · have hnone := congrFun h.directoryOf s'
    subst hs
    simp only [view, Arena.get?_nextKey, Option.map_none, Option.map_eq_none_iff] at hnone
    rw [hnone, Arena.get?_nextKey]
  · exact hothers s' hs

/-- Reading an anonymous page before and after a fork that fails gives the same bytes. -/
theorem Space.ForkFailed.byte_eq (h : Run start history m) (h' : Run start later m')
    {child : Key AddressSpace} {effects : List Effect} (hfailed : ForkFailed s child effects m m')
    {s' : Key AddressSpace} {va : VirtualAddress} {length : Nat} {bytes bytes' : Array UInt8}
    {result result' : Except Rejection Unit} {after after' : Machine}
    (hread : Returns ((Request.readUser va length).perform? s') m (some (bytes, result)) after)
    (hread' : Returns ((Request.readUser va length).perform? s') m' (some (bytes', result')) after')
    {n : PageNumber} {key : Key Page} {page : Page} (hplace : m.view.pageOf s' n = some key)
    (hpage : m.pages.get? key = some page) (hkind : page.contents.settled.kind = .anonymous)
    (hsegment : ∀ slice, page.contents.segment? = some slice →
      after.writesTo slice.handle.file = m.writesTo slice.handle.file ∧
        after'.writesTo slice.handle.file = m.writesTo slice.handle.file)
    {i : Nat} {byte byte' : UInt8} (hi : (va.toNat + i) / pageSize = n.toNat)
    (hbyte : bytes[i]? = some byte) (hbyte' : bytes'[i]? = some byte') : byte' = byte := by
  obtain ⟨page', hpage', hmoved⟩ := hfailed.exists_evicted h.sound hpage
  have hread := (Request.returns_perform?.1 hread).2
  have hread' := (Request.returns_perform?.1 hread').2
  obtain ⟨_, hpassed, -⟩ := returns_readUser h.sound hread
  obtain ⟨_, hpassed', -⟩ := returns_readUser h'.sound hread'
  have hsince := hfailed.course.steps.filesSince
  have hsince' := hpassed'.course.steps.filesSince
  have hstill : ∀ slice, page.contents.segment? = some slice →
      after.view.file slice.handle.file = m.view.file slice.handle.file ∧
        after'.view.file slice.handle.file = m.view.file slice.handle.file := by
    intro slice hslice
    have hwrites := hsegment slice hslice
    simp only [writesTo_eq] at hwrites
    exact ⟨hpassed.course.steps.filesSince.file_eq hwrites.1,
      (hsince.trans hsince').file_eq hwrites.2⟩
  have hsame : m'.view.bytesOf page' = m.view.bytesOf page :=
    hfailed.course.steps.bytesOf_eq h.sound.coherent h.slotBooks hpage hpage' hkind
      (fun slice hslice => hsince.file_eq_between hsince' (hstill slice hslice).2)
      fun e he => (hfailed.spares h.sound hpage e he).1
  have hbefore := bytesOf_of_readUser h.sound h.slotBooks hread hplace hpage hkind
    (fun slice hslice => (hstill slice hslice).1) hbyte hi
  have hplace' : m'.view.pageOf s' n = some key := by rw [hfailed.pageOf, hplace]
  have hlater := bytesOf_of_readUser h'.sound h'.slotBooks hread' hplace' hpage'
    (hmoved.settled_kind hkind) (fun slice hslice => by
      have hlast := (hstill slice (hmoved.segment?_of hslice)).2
      rw [hlast, hsince.file_eq_between hsince' hlast]) hbyte' hi
  rw [hsame] at hlater
  exact Option.some.inj (hlater.symm.trans hbefore)

theorem Run.forkUndone (h : Run start history m) {name : String} {cause : VmError}
    (hfork : Returns ((Request.fork name).perform? s) m (some (.error cause)) m') :
    ForkUndone start m m' := by
  have hafter : Run start _ m' := ⟨h.fresh, .request h.reaches hfork⟩
  have hrun : Answers (fork s name) m (.error cause) m' := (Request.returns_perform?.1 hfork).2
  obtain ⟨child, effects, ⟨-, hfailed⟩ | ⟨he, -⟩⟩ := answers_fork h.sound hrun
  swap
  · cases he
  obtain ⟨hclients, hspaces⟩ := spaces_of_forkFailed hfailed hrun
  exact
    { spaces := hspaces
      pages := fun hpage => by
        obtain ⟨page', hpage', hmoved⟩ := hfailed.exists_evicted h.sound hpage
        exact ⟨page', hpage', hmoved.va_eq, hmoved.writable_eq, hmoved.kind_eq,
          hmoved.eq_of_absent⟩
      noMore := hfailed.page_eq_none h.sound hafter.sound
      frames := fun slot hslot => by
        obtain ⟨o, ho, howner⟩ := hafter.sound.exists_owner hslot
        obtain ⟨page, -, hpage, -⟩ := hafter.sound.coherent.residency.linked howner
        obtain ⟨s', space, hspace, n, hplace⟩ := hfailed.exists_place hafter.sound hpage
        exact ⟨o, s', space, n, ho, hspace, hplace⟩
      slots := fun slot hslot => by
        refine (hafter.slotBooks.occupied.1 hslot).imp_right fun ⟨key, hkey⟩ => ?_
        obtain ⟨page, hpage, hcontents⟩ := Option.bind_eq_some_iff.1 hkey
        obtain ⟨s', space, hspace, n, hplace⟩ := hfailed.exists_place hafter.sound hpage
        exact ⟨s', space, n, key, page, hspace, hplace, hpage, slot?_eq_some_iff.1 hcontents⟩
      counted := by
        rw [hafter.sound.residentFrames_eq, h.sound.residentFrames_eq, hafter.frames_eq,
          h.frames_eq]
      handles := openHandles_congr fun handle => by
        rw [mem_heldHandles, mem_heldHandles, hclients]
        simp only [hspaces]
        exact or_congr Iff.rfl (or_congr (hfailed.handle?_iff h.sound hafter.sound handle) Iff.rfl)
      reads := fun hread hread' _ _ _ hplace hpage hkind hsegment _ _ _ =>
        hfailed.byte_eq h hafter hread hread' hplace hpage hkind hsegment }

/-- A page of a mapped file is in one of two frames, and the page of the stack is in its slot. A fork
copies the region and the page of the file, each over a handle of its own, and evicts one of the two
pages that there are then. The page in the slot cannot be read. -/
theorem forkUndone_of_loadFailed : ∃ start s history m m', Run start history m ∧
    Returns ((Request.fork "child").perform? s) m (some (.error .loadFailed)) m' ∧
      (issued m ⟨0⟩ = 2 ∧ issued m' ⟨0⟩ = 4) ∧
        (m.residentFrames = 1 ∧ m'.residentFrames = 0) ∧ ForkUndone start m m' := by
  let start : Machine :=
    { bare 2 1 (Arena.empty.add (.ofData #[7] none)) with
      swap := .ofDisk { Disk.ofSize 8 with refuses := fun _ direction _ => direction == .read } }
  have htest : returnsWith (do
        let s ← Space.create "init"
        let _ ← (Request.mapFile ⟨0x10000000, by decide⟩ 1 true ⟨⟨0⟩, 0⟩ 0).perform? s
        let _ ← (Request.handleFault ⟨⟨0x10000000, by decide⟩, true, true, true, 0⟩).perform? s
        let _ ← Request.setUpStack.perform? s
        let _ ← (Request.pageOut ⟨userStack - 1, by decide⟩).perform? s
        let before ← get
        return (before, ← (Request.fork "child").perform? s)) start
      (fun (m, fork) m' => fork == some (.error .loadFailed) &&
        (issued m ⟨0⟩ == 2 && (issued m' ⟨0⟩ == 4 &&
          (m.residentFrames == 1 && m'.residentFrames == 0)))) = true := by
    decide +kernel
  obtain ⟨⟨m, fork⟩, m', hrun, htest⟩ := exists_returns htest
  simp only [returns_bind, returns_pure] at hrun
  obtain ⟨s, m₁, hcreate, _, m₂, hmap, _, m₃, hfault, _, m₄, hstack, _, m₅, hout, _, _, hget, _, _,
    hfork, he, rfl⟩ := hrun
  obtain ⟨rfl, rfl⟩ := returns_get.1 hget
  cases he
  simp only [Bool.and_eq_true, beq_iff_eq] at htest
  obtain ⟨rfl, hissued, hissued', hresident, hresident'⟩ := htest
  obtain ⟨_, hreached⟩ := (Reaches.refl.create hcreate).perform? hmap
  obtain ⟨_, hreached⟩ := hreached.perform? hfault
  obtain ⟨_, hreached⟩ := hreached.perform? hstack
  obtain ⟨history, hreached⟩ := hreached.perform? hout
  have hrun : Run start history m := ⟨⟨Pool.consistent_ofCapacity 2, rfl, Arena.get?_empty,
    Arena.get?_empty, Arena.get?_empty⟩, hreached⟩
  exact ⟨start, s, history, m, m', hrun, hfork, ⟨hissued, hissued'⟩, ⟨hresident, hresident'⟩,
    hrun.forkUndone hfork⟩

end DemandPaging
