import DemandPaging.Proofs.Availability
import DemandPaging.Proofs.HandleOwnership

/-!
Requests that are refused.

A request to map something may be refused at many points: by its numbers, by what is mapped already, by
the file, or for want of a frame for the first page of the stack. By then a handle may have been opened
and a page may have been added. Wherever it is refused, nothing is left of it: a handle that nobody holds
is not open, and a page that was added is taken out again before anything else was done with it.
-/

namespace DemandPaging

open Machine Space

/-! ### States that differ in nothing -/

/-- Everything is as it was. The keys and the handles that were issued in between are used up, and what
was done was reported. -/
structure Machine.Restored (m m' : Machine) : Prop where
  pages : m'.pages.get? = m.pages.get?
  spaces : m'.spaces.get? = m.spaces.get?
  directories : m'.directories = m.directories
  listed : m'.listed = m.listed
  hand : m'.hand = m.hand
  pool : m'.pool = m.pool
  swap : m'.swap = m.swap
  clients : m'.clients = m.clients
  files : m'.view.file = m.view.file

namespace Machine.Restored

variable {m m₁ m' : Machine}

theorem refl (m : Machine) : m.Restored m := ⟨rfl, rfl, rfl, rfl, rfl, rfl, rfl, rfl, rfl⟩

theorem openHandles (h : m.Restored m') (f : Key File) : m'.openHandles f = m.openHandles f :=
  openHandles_congr (fun handle => by
    simp only [Machine.mem_heldHandles, h.clients, h.pages, h.spaces]) f

end Machine.Restored

variable {m m₁ m' : Machine} {s : Key AddressSpace} {space : AddressSpace} {page : Page}

/-- A handle that is opened and that nobody holds leaves nothing behind. -/
theorem restored_of_reopen {f : Key File} {handle? : Option Handle}
    (hrun : Returns (reopen f) m handle? m') : m.Restored m' := by
  obtain ⟨hview, ⟨files, rfl⟩, -⟩ := returns_reopen hrun
  exact ⟨rfl, rfl, rfl, rfl, rfl, rfl, rfl, rfl, congrArg View.file hview⟩

theorem Space.Declined.restored {f : Key File} (h : Declined f m m') : m.Restored m' := by
  rcases h with rfl | ⟨handle?, hreopen⟩
  · exact .refl _
  · exact restored_of_reopen hreopen

/-! ### Taking a page out again -/

/-- A page that is in no frame and was not loaded yet takes nothing with it. -/
theorem returns_releaseHeld_of_pending {key : Key Page} (hpage : m.pages.get? key = some page)
    {source : Pending} (hcontents : page.contents = .pending source) (habsent : page.frame = none)
    (hholders : page.holders ≤ 1) {u : Unit} (hrun : Returns (releaseHeld key) m u m') :
    ∃ pages, m' = { m with pages } ∧
      ∀ other, pages.get? other = if key = other then none else m.pages.get? other := by
  simp only [releaseHeld, release, dropPage, returns_bind, returns_getPage, returns_updatePage,
    returns_get, and_assoc, exists_and_left, exists_eq_left, exists_const] at hrun
  obtain ⟨_, m₁, ⟨_, hpage', hrelease⟩, left, hleft, hdrop⟩ := hrun
  cases hpage.symm.trans hpage'
  simp only [habsent, hcontents, Option.bind_none, returns_bind, returns_pure, giveUp,
    Option.mapM_none, exists_eq_left, exists_const, returns_updatePage, and_assoc] at hrelease
  obtain ⟨_, _, rfl, rfl, _, _, ⟨_, _, rfl, rfl, rfl, rfl⟩, -, rfl⟩ := hrelease
  simp only [Arena.get?_modify, if_true, hpage, Option.map_some, Option.some.injEq] at hleft
  subst hleft
  rw [if_pos hholders, returns_modify] at hdrop
  refine ⟨_, hdrop, fun other => ?_⟩
  simp only [Arena.get?_erase, Arena.get?_modify]
  split <;> rfl

/-- A page that was added and not brought in yet is taken out again without a trace. -/
theorem restored_of_removePage (hspace : m.spaces.get? s = some space)
    (hfree : space.pages[page.va.number]? = none) {source : Pending}
    (hcontents : page.contents = .pending source) (habsent : page.frame = none)
    (hholders : page.holders = 1) (hadded : ∃ events, m₁ = { m.withPage s page with events })
    {removed : Bool} (hrun : Returns (removePage s page.va.number) m₁ removed m') :
    m.Restored m' := by
  have hspace₁ : m₁.spaces.get? s =
      some { space with pages := space.pages.insert page.va.number m.pages.nextKey } := by
    obtain ⟨events, rfl⟩ := hadded
    exact space_withPage hspace
  have hpage : m₁.pages.get? m.pages.nextKey = some page := by
    obtain ⟨events, rfl⟩ := hadded
    rw [withPage, Arena.get?_add, if_pos rfl]
  have hplace : (space.pages.insert page.va.number m.pages.nextKey)[page.va.number]? =
      some m.pages.nextKey := by
    rw [getElem?_insert_eq_ite, if_pos rfl]
  have hback : (space.pages.insert page.va.number m.pages.nextKey).erase page.va.number =
      space.pages := by
    refine Std.ExtTreeMap.ext_getElem? fun n => ?_
    rw [getElem?_erase_eq_ite, getElem?_insert_eq_ite]
    split
    · next he => rw [he, hfree]
    · rfl
  simp only [removePage, returns_bind, returns_getSpace, hspace₁, Option.some.injEq, and_assoc,
    exists_and_left, exists_eq_left', exists_eq_left] at hrun
  obtain ⟨pages?, m₂, hremove, hrun⟩ := hrun
  simp only [removeFromMap, hplace, returns_bind, returns_pure] at hremove
  obtain ⟨_, _, hrelease, rfl, rfl⟩ := hremove
  obtain ⟨pages, rfl, hpages⟩ :=
    returns_releaseHeld_of_pending hpage hcontents habsent (Nat.le_of_eq hholders) hrelease
  simp only [returns_bind, returns_updateSpace, returns_pure, exists_eq_left, exists_const] at hrun
  obtain ⟨-, rfl⟩ := hrun
  obtain ⟨events, rfl⟩ := hadded
  refine ⟨?_, ?_, rfl, rfl, rfl, rfl, rfl, rfl, rfl⟩
  · funext other
    rw [hpages, withPage, Arena.get?_add]
    split
    · next he => rw [← he, Arena.get?_nextKey]
    · next hne => rw [if_neg fun he => hne he.symm]
  · funext other
    simp only [withPage, Arena.get?_modify, hback]
    split
    · next he =>
      subst he
      rw [hspace]
      rfl
    · rfl

/-! ### Requests to map something -/

/-- A segment that is refused was declined before its pages were made. -/
theorem restored_of_loadSegment (h : Sound none m) {file : Handle} {offset : Nat}
    {start : VirtualAddress} {readBytes zeroBytes : Nat} {writable : Bool} {cause : VmError}
    (hrun : Answers (loadSegment s file offset start readBytes zeroBytes writable) m (.error cause)
      m') : m.Restored m' := by
  rcases answers_loadSegment_iff hrun with ⟨_, -, hdeclined, -⟩ | ⟨hloadable, _, _, hopen, hmade⟩
  · exact hdeclined.restored
  · cases (hloadable.segmentLoaded h hopen (fun _ => rfl) hmade).1

/-- A mapping that is refused was declined before its pages were made. -/
theorem restored_of_mapFile (h : Sound none m) {start : VirtualAddress} {length : Nat}
    {writable : Bool} {file : Handle} {offset : Nat} {cause : VmError}
    (hrun : Answers (mapFile s start length writable file offset) m (.error cause) m') :
    m.Restored m' := by
  rcases answers_mapFile_iff hrun with ⟨_, -, hdeclined, -⟩ |
    ⟨hmappable, _, _, _, hcurrent, hreopen, hmade⟩
  · exact hdeclined.restored
  · cases (hmappable.fileMapped h hcurrent hreopen (fun _ => rfl) hmade).1

theorem restored_of_mapDescriptor (h : Sound none m) {start : VirtualAddress} {length : Nat}
    {writable : Bool} {descriptor : Int} {offset : Nat} {lookup : Int → Option Handle}
    {cause : VmError}
    (hrun : Answers (mapDescriptor s start length writable descriptor offset lookup) m
      (.error cause) m') : m.Restored m' := by
  unfold mapDescriptor at hrun
  split at hrun
  · exact restored_of_mapFile h hrun
  · obtain ⟨-, rfl⟩ := answers_throw.1 hrun
    exact .refl m'

/-- The first page of the stack can lack a place or a frame. For want of a frame nothing is done but to
take the page out again. -/
theorem restored_of_setUpStack (h : Sound none m) (hhand : m.HandInList)
    (hspace : m.spaces.get? s = some space) {cause : VmError}
    (hrun : Answers (setUpStack s) m (.error cause) m') : m.Restored m' := by
  simp only [setUpStack, answers_liftM_computed_bind] at hrun
  obtain ⟨va, -, page, hcreate, hrun⟩ := hrun
  obtain ⟨hva, hcontents, habsent, hholders⟩ : page.va = va ∧ page.contents = .pending .zeros ∧
      page.frame = none ∧ page.holders = 1 := by
    obtain ⟨_, rfl⟩ := Page.create_eq_ok hcreate
    exact ⟨rfl, rfl, rfl, rfl⟩
  rw [answers_bind] at hrun
  rcases hrun with ⟨_, -, hinsert⟩ | ⟨key, m₁, hinsert, hrun⟩
  · obtain ⟨-, -, rfl⟩ | ⟨he, -⟩ := (answers_insertPage_iff hspace).1 hinsert
    · exact .refl m'
    · cases he
  obtain ⟨he, -⟩ | ⟨he, hfree, hm₁⟩ := (answers_insertPage_iff hspace).1 hinsert
  · cases he
  cases he
  rcases answers_insertPage h hcontents habsent hholders hinsert with ⟨_, he, -⟩ | ⟨-, hone⟩
  · cases he
  have hhand₁ : m₁.HandInList := by
    rw [hm₁]
    exact hhand
  have hpage : m₁.pages.get? m.pages.nextKey = some page := by
    rw [hm₁, withPage, Arena.get?_add, if_pos rfl]
  rw [answers_bind] at hrun
  rcases hrun with ⟨_, -, hfailed⟩ | ⟨_, _, -, hdone⟩
  swap
  · rw [answers_liftM] at hdone
    obtain ⟨_, he, -⟩ := hdone
    cases he
  rw [answers_tryCatch] at hfailed
  rcases hfailed with ⟨_, he, -⟩ | ⟨_, m₂, hclaim, hundo⟩
  · cases he
  simp only [answers_liftM_bind, returns_getSpace, and_assoc, exists_and_left,
    exists_eq_left] at hclaim
  obtain ⟨_, -, hclaim⟩ := hclaim
  obtain ⟨-, rfl⟩ :=
    exhausted_of_claim_zeros (hone.course.sound h) hhand₁ hpage habsent hcontents hclaim
  rw [answers_liftM_bind] at hundo
  obtain ⟨_, m₃, hremove, hthrow⟩ := hundo
  obtain ⟨-, rfl⟩ := answers_throw.1 hthrow
  rw [← hva] at hremove
  exact restored_of_removePage hspace hfree hcontents habsent hholders ⟨_, hm₁⟩ hremove

inductive Request.Refused : {α : Type} → Request α → α → Prop where
  | loadSegment {file : Handle} {offset : Nat} {start : VirtualAddress} {readBytes zeroBytes : Nat}
      {writable : Bool} {cause : VmError} :
      Refused (.loadSegment file offset start readBytes zeroBytes writable) (.error cause)
  | setUpStack {cause : VmError} : Refused .setUpStack (.error cause)
  | mapFile {start : VirtualAddress} {length : Nat} {writable : Bool} {file : Handle} {offset : Nat}
      {cause : VmError} : Refused (.mapFile start length writable file offset) (.error cause)
  | mapDescriptor {start : VirtualAddress} {length : Nat} {writable : Bool} {descriptor : Int}
      {offset : Nat} {lookup : Int → Option Handle} {cause : VmError} :
      Refused (.mapDescriptor start length writable descriptor offset lookup) (.error cause)

/-- A request to map something that is refused leaves everything as it was, for whatever reason it is
refused. -/
theorem Run.restored_of_refused {start : Machine} {history : List Done} (h : Run start history m)
    (hhand : start.hand = 0) {α : Type} {request : Request α} {answer : α}
    (hrefused : request.Refused answer) (hrun : Returns (request.perform? s) m (some answer) m') :
    m.Restored m' ∧ ∀ f, m'.openHandles f = m.openHandles f := by
  have hrestored : m.Restored m' := by
    obtain ⟨⟨space, hspace⟩, hrun⟩ := Request.returns_perform?.1 hrun
    cases hrefused with
    | loadSegment => exact restored_of_loadSegment h.sound hrun
    | setUpStack => exact restored_of_setUpStack h.sound (h.handInList hhand) hspace hrun
    | mapFile => exact restored_of_mapFile h.sound hrun
    | mapDescriptor => exact restored_of_mapDescriptor h.sound hrun
  exact ⟨hrestored, hrestored.openHandles⟩

/-- Where there are no frames at all, the stack cannot be set up, and the page that was added for it is
taken out again. -/
theorem restored_of_noFrames : ∃ history s m m', Run (bare 0 1 .empty) history m ∧
    Returns (Request.setUpStack.perform? s) m (some (.error .outOfMemory)) m' ∧ m.Restored m' := by
  have htest : returnsWith (do
        let s ← Space.create "init"
        let before ← get
        return (s, before, ← Request.setUpStack.perform? s)) (bare 0 1 .empty)
      (fun (_, _, answer) _ => answer == some (.error .outOfMemory)) = true := by
    decide +kernel
  obtain ⟨⟨s, m, answer⟩, m', hrun, htest⟩ := exists_returns htest
  simp only [returns_bind, returns_pure] at hrun
  obtain ⟨_, _, hcreate, _, _, hget, _, _, hstack, he, rfl⟩ := hrun
  obtain ⟨rfl, rfl⟩ := returns_get.1 hget
  cases he
  obtain rfl := eq_of_beq htest
  have hrun : Run (bare 0 1 .empty) [] m := ⟨fresh_bare 0 1 .empty, Reaches.refl.create hcreate⟩
  exact ⟨_, s, m, m', hrun, hstack, (hrun.restored_of_refused rfl .setUpStack hstack).1⟩

end DemandPaging
