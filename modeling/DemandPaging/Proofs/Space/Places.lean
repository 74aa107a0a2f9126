import DemandPaging.Proofs.Space.Labels
import DemandPaging.Proofs.Space.Others

/-!
How a place gets its page.

A page is put into a free place by a request that registers a segment, maps a file or sets up the
stack, by a fault or an access for which the stack grows, and by a fork, for the new address space.
That is all. Each of them checks the range in its own way, and each way keeps to user memory.

Growing the stack depends on the stack pointers, so along a fault or an access these are followed
too: nothing that happens there changes them, and a fault that comes later is judged by the same ones.
-/

namespace DemandPaging

open Machine

def InUserMemory (n : PageNumber) : Prop :=
  pageSize ≤ n.toNat * pageSize ∧ n.toNat * pageSize ≤ kernelBase - pageSize

/-- The stack grows for a fault, if it is one that the stack pointer allows. -/
def PageFault.GrowsStack (fault : PageFault) (savedStackPointer : Nat) (n : PageNumber) : Prop :=
  fault.address.number = n ∧
    isStackAccess fault.address (if fault.user then fault.stackPointer else savedStackPointer) = true

/-- The address is that of the first byte of an access in one of the pages it goes over. -/
def IsFirstInPage (va : VirtualAddress) (length : Nat) (a : VirtualAddress) : Prop :=
  (a = va ∨ va.toNat < a.toNat ∧ a.isPageAligned = true) ∧ a.toNat < va.toNat + length

/-- The stack grows in the course of an access, if the stack pointer allows it. -/
def AccessGrowsStack (va : VirtualAddress) (length stackPointer : Nat) (n : PageNumber) : Prop :=
  ∃ a : VirtualAddress, IsFirstInPage va length a ∧ a.number = n ∧
    isStackAccess a stackPointer = true

def Within (start : VirtualAddress) (count : Nat) (n : PageNumber) : Prop :=
  start.number.toNat ≤ n.toNat ∧ n.toNat < start.number.toNat + count

namespace Request

variable {α : Type}

/-- The places into which a request may put a page of its own address space. -/
def Fills (space : AddressSpace) (n : PageNumber) : Request α → Prop
  | .loadSegment _ _ start readBytes zeroBytes _ =>
      Within start ((readBytes + zeroBytes) / pageSize) n
  | .setUpStack => n.toNat * pageSize = userStack - pageSize
  | .mapFile start length _ _ _ => Within start ((length + (pageSize - 1)) / pageSize) n
  | .mapDescriptor start length _ _ _ _ => Within start ((length + (pageSize - 1)) / pageSize) n
  | .handleFault fault => fault.GrowsStack space.savedStackPointer n
  | .readUser va length => AccessGrowsStack va length space.stackPointer n
  | .writeUser va data => AccessGrowsStack va data.size space.stackPointer n
  | _ => False

/-- How a page got into a place that was free: it was put there, or copied for a new address space. -/
inductive Places (s : Key AddressSpace) (m : Machine) (request : Request α) (s' : Key AddressSpace)
    (n : PageNumber) : Prop where
  | filled {space : AddressSpace} (hs : s' = s) (hspace : m.spaces.get? s = some space)
      (hfills : request.Fills space n) (huser : InUserMemory n) : Places s m request s' n
  | copied (hforks : request.Forks) (hnew : s' = m.spaces.nextKey)
      (hplace : m.view.pageOf s n ≠ none) : Places s m request s' n

end Request

namespace Space

theorem UserRange.inUserMemory {start : VirtualAddress} {count : Nat} (h : UserRange start count)
    {n : PageNumber} (hn : Within start count n) : InUserMemory n := by
  obtain ⟨haligned, hnull, hbelow⟩ := h
  obtain ⟨hle, hlt⟩ := hn
  simp only [Address.isPageAligned, Address.isNull, beq_iff_eq, beq_eq_false_iff_ne,
    Address.toNat_number, InUserMemory, pageSize, kernelBase] at *
  omega

theorem inUserMemory_of_isStackAccess {address : VirtualAddress} {stackPointer : Nat}
    (h : isStackAccess address stackPointer = true) : InUserMemory address.number := by
  simp only [isStackAccess, decide_eq_true_eq, InUserMemory, Address.toNat_number, stackLimit,
    userStack, maxStackSize, pageSize, kernelBase] at *
  omega

end Space

theorem PageFault.GrowsStack.inUserMemory {fault : PageFault} {savedStackPointer : Nat}
    {n : PageNumber} (h : fault.GrowsStack savedStackPointer n) : InUserMemory n := by
  obtain ⟨rfl, haccess⟩ := h
  exact Space.inUserMemory_of_isStackAccess haccess

theorem AccessGrowsStack.inUserMemory {va : VirtualAddress} {length stackPointer : Nat}
    {n : PageNumber} (h : AccessGrowsStack va length stackPointer n) : InUserMemory n := by
  obtain ⟨a, -, rfl, haccess⟩ := h
  exact Space.inUserMemory_of_isStackAccess haccess

namespace Space

/-! ### Growing -/

section

variable (s : Id)

/-- Pages may go, and be put into places that are permitted with the stack pointers, which stay. -/
structure Grows (permitted : Nat × Nat → PageNumber → Prop) (m m' : Machine) : Prop where
  filled : Filled s m m'
  place : ∀ {n}, m'.view.pageOf s n ≠ none → m.view.pageOf s n ≠ none ∨
    ∃ pointers, m.stackPointersOf s = some pointers ∧ permitted pointers n

variable {s} {permitted permitted' : Nat × Nat → PageNumber → Prop}

instance : IsPreorder Machine (Grows s permitted) where
  refl m := ⟨refl_of (Filled s) m, .inl⟩
  trans _ _ _ h h' := ⟨trans_of (Filled s) h.filled h'.filled, fun hplace => by
    rcases h'.place hplace with hplace | ⟨pointers, hpointers, hpermitted⟩
    · exact h.place hplace
    · exact .inr ⟨pointers, h.filled.stackPointers.symm.trans hpointers, hpermitted⟩⟩

theorem Grows.mono {m m' : Machine} (h : Grows s permitted m m')
    (hle : ∀ pointers n, m.stackPointersOf s = some pointers → permitted pointers n →
      permitted' pointers n) : Grows s permitted' m m' :=
  ⟨h.filled, fun hplace => (h.place hplace).imp_right fun ⟨pointers, hpointers, hpermitted⟩ =>
    ⟨pointers, hpointers, hle pointers _ hpointers hpermitted⟩⟩

@[grind ←] theorem keeps_grows {α : Type} {action : Action α} (h : Keeps Aside action) :
    Keeps (Grows s permitted) action := fun m =>
  ⟨keeps_filled s h m, fun hplace => .inl (by rwa [view_pageOf_congr (h m).spaces] at hplace)⟩

/-- Reading the address space changes nothing, and what follows may count on what was read. -/
theorem final_run_getSpace {ε α : Type} {r : Machine → Machine → Prop} [IsPreorder Machine r]
    {m : Machine} {next : AddressSpace → ExceptT ε Action α}
    (h : ∀ space, m.spaces.get? s = some space → r m (final (next space).run m)) :
    r m (final (liftM (getSpace s) >>= next : ExceptT ε Action α).run m) := by
  have hkept : Keeps r (getSpace s) := .bind .get fun _ => .liftM _
  refine Keeps.final_run_bind (Keeps.run_liftM hkept m) fun space m' hget => ?_
  obtain ⟨_, he, hget⟩ := answers_liftM.1 hget
  cases he
  obtain ⟨hspace, rfl⟩ := returns_getSpace.1 hget
  exact h space hspace

theorem final_run_get {ε α : Type} {r : Machine → Machine → Prop} {m : Machine}
    {next : Machine → ExceptT ε Action α} (h : r m (final (next m).run m)) :
    r m (final (get >>= next : ExceptT ε Action α).run m) := h

theorem grows_setPages {m : Machine} {space : AddressSpace} {pages : PageMap}
    (hspace : m.spaces.get? s = some space)
    (hpages : ∀ n : PageNumber, pages[n]? ≠ none → space.pages[n]? ≠ none ∨
      permitted (space.stackPointer, space.savedStackPointer) n) :
    Grows s permitted m (final (updateSpace s fun space => { space with pages }) m) := by
  have hkept : Keeps (Filled s) (updateSpace s fun space => { space with pages }) :=
    keeps_filled_updateSpace s fun _ => ⟨rfl, rfl⟩
  refine ⟨hkept m, fun {n} hplace => ?_⟩
  rw [view_pageOf_eq hspace, stackPointersOf, hspace]
  have hafter : (final (updateSpace s fun space => { space with pages }) m).spaces.get? s =
      some { space with pages } := by
    change Arena.get? (Arena.modify m.spaces s _) s = _
    rw [Arena.get?_modify, if_pos rfl, hspace]
    rfl
  rw [view_pageOf_eq hafter] at hplace
  exact (hpages n hplace).imp_right fun h => ⟨_, rfl, h⟩

theorem keeps_grows_insertPage {page : Page}
    (h : ∀ pointers, permitted pointers page.va.number) :
    Keeps (Grows s permitted) (insertPage s page).run := by
  intro m
  unfold insertPage
  refine final_run_getSpace fun space hspace => final_run_get ?_
  dsimp only
  cases hinsert : space.pages.insertNew page.va m.pages.nextKey with
  | error cause => exact refl_of (Grows s permitted) m
  | ok pages =>
      obtain ⟨hfree, rfl⟩ := PageMap.insertNew_eq_ok.1 hinsert
      refine Keeps.final_run_bind (keeps_grows (.run_liftM (keeps_addPage page)) m)
        fun key m₁ hadd => ?_
      obtain ⟨_, he, hadd⟩ := answers_liftM.1 hadd
      cases he
      obtain ⟨-, rfl⟩ := returns_addPage.1 hadd
      refine Keeps.final_run_bind (grows_setPages hspace fun n hn => ?_) fun _ m₂ _ =>
        refl_of (Grows s permitted) m₂
      rw [getElem?_insert_eq_ite] at hn
      split at hn
      · next he => exact .inr (he ▸ h _)
      · exact .inl hn

theorem erase_of_removeFromMap {map map' : PageMap} {n : PageNumber} {m m' : Machine}
    (hrun : Returns (removeFromMap map n) m (some map') m') : map' = map.erase n := by
  unfold removeFromMap at hrun
  split at hrun
  · simp only [returns_bind, returns_pure, Option.some.injEq] at hrun
    obtain ⟨_, _, -, rfl, -⟩ := hrun
    rfl
  · cases (returns_pure.1 hrun).1

@[grind .] theorem keeps_grows_removePage (n : PageNumber) :
    Keeps (Grows s permitted) (removePage s n) := by
  intro m
  unfold removePage
  refine Keeps.final_bind (keeps_grows (keeps_getSpace s) m) fun space m₁ hget => ?_
  obtain ⟨hspace, rfl⟩ := returns_getSpace.1 hget
  refine Keeps.final_bind (keeps_grows (keeps_removeFromMap _ n) m₁) fun pages? m₂ hremove => ?_
  have haside := (keeps_removeFromMap _ _).returns hremove
  cases pages? with
  | none => exact refl_of (Grows s permitted) m₂
  | some pages =>
      obtain rfl := erase_of_removeFromMap hremove
      rw [← haside.spaces] at hspace
      refine Keeps.final_bind (grows_setPages hspace fun n' hn => .inl ?_) fun _ m₃ _ =>
        refl_of (Grows s permitted) m₃
      rw [getElem?_erase_eq_ite] at hn
      split at hn
      · exact absurd rfl hn
      · exact hn

/-! ### Faults -/

theorem keeps_grows_growStack {address : VirtualAddress}
    (h : ∀ pointers, permitted pointers address.number) :
    Keeps (Grows s permitted) (growStack s address).run := by
  unfold growStack
  refine .run_bind (keeps_grows (.run_liftM (keeps_getSpace s))) fun space =>
    .run_computed_bind fun page hpage => .run_bind (.run_liftM (keeps_grows_insertPage ?_))
      fun inserted => ?_
  · obtain ⟨aligned, rfl⟩ := Page.create_eq_ok hpage
    rwa [Number.number_roundDown]
  split
  · exact .run_throw _
  · refine .run_bind (keeps_grows (.run_liftM (keeps_getSpace s))) fun space =>
      .run_bind (.run_liftM (keeps_grows (keeps_claim _ _))) fun claimed => ?_
    split <;> grind

theorem keeps_grows_resolveFault (fault : PageFault) :
    Keeps (Grows s fun pointers => fault.GrowsStack pointers.2) (resolveFault s fault).run := by
  unfold resolveFault
  refine .run_refuse (.run_refuse (.run_require fun m => final_run_getSpace fun current hspace => ?_))
  dsimp only
  split
  · by_cases haccess : isStackAccess fault.address
        (if fault.user then fault.stackPointer else current.savedStackPointer) = true
    · rw [if_pos haccess]
      have hgrow : Keeps (Grows s fun _ n => fault.address.number = n)
          (growStack s fault.address).run := keeps_grows_growStack fun _ => rfl
      refine Keeps.final_run_bind ((hgrow m).mono fun pointers n hpointers hn => ⟨hn, ?_⟩)
        fun _ m₁ _ => refl_of (Grows s _) m₁
      simp only [stackPointersOf, hspace, Option.map_some, Option.some.injEq] at hpointers
      rwa [← hpointers]
    · rw [if_neg haccess]
      exact refl_of (Grows s _) m
  · refine Keeps.run_bind (.run_liftM (keeps_grows (keeps_getPage _))) (fun page =>
      .run_refuse (.run_bind (.run_liftM (keeps_grows (keeps_claim _ _))) fun claimed => ?_)) m
    split <;> grind

theorem keeps_grows_handleFault (fault : PageFault) :
    Keeps (Grows s fun pointers => fault.GrowsStack pointers.2) (handleFault s fault).run := by
  unfold handleFault
  refine .run_bind (keeps_grows (.run_liftM (keeps_getSpace s))) fun space =>
    .run_bind (keeps_grows (.run_liftM (keeps_record rfl))) fun _ =>
      .run_tryCatch (keeps_grows_resolveFault fault) fun cause => ?_
  grind

/-! ### Accesses -/

theorem keeps_grows_retry {α : Type} {va : VirtualAddress} {write : Bool}
    {access : ExceptT AccessViolation Action α} (haccess : Keeps Aside access.run)
    (h : ∀ pointers : Nat × Nat, isStackAccess va pointers.1 = true → permitted pointers va.number)
    (attempts : Nat) :
    Keeps (Grows s permitted) (retry s va write access attempts).run := by
  induction attempts with
  | zero => exact .run_throw _
  | succ attempts ih =>
      unfold retry
      refine .run_bind (.run_liftM (keeps_grows haccess)) fun tried => ?_
      split
      · exact .run_pure _
      · refine fun m => final_run_getSpace fun current hspace => ?_
        refine Keeps.final_run_bind ((keeps_grows_handleFault _ m).mono fun pointers n hpointers hn =>
          ?_) fun _ m₁ _ => ih m₁
        obtain ⟨rfl, haccess⟩ := hn
        simp only [stackPointersOf, hspace, Option.map_some, Option.some.injEq] at hpointers
        subst hpointers
        exact h _ haccess

/-- A piece starts where the access does, or where a page does. -/
theorem offset_of_mem_pieces {position offset length : Nat} {piece : Piece}
    (h : piece ∈ pieces position offset length) :
    (piece.offset = offset ∨
      offset < piece.offset ∧ (position + (piece.offset - offset)) % pageSize = 0) ∧
      piece.offset < offset + length := by
  fun_induction pieces position offset length with
  | case1 => cases h
  | case2 position offset length hpositive =>
      rename_i size ih
      have hsize : size = min (pageSize - position % pageSize) length := rfl
      clear_value size
      simp only [pageSize] at hsize ih ⊢
      rcases List.mem_cons.1 h with rfl | h
      · exact ⟨.inl rfl, Nat.lt_add_of_pos_right (Nat.pos_of_ne_zero hpositive)⟩
      · obtain ⟨hat, hlt⟩ := ih h
        by_cases hlast : size = length
        · omega
        · refine ⟨.inr ⟨by omega, ?_⟩, by omega⟩
          rcases hat with hat | ⟨hafter, haligned⟩ <;> omega

theorem isFirstInPage_of_mem_pieces {va a : VirtualAddress} {length : Nat} {piece : Piece}
    (h : piece ∈ pieces va.toNat 0 length) (ha : va.add? piece.offset = some a) :
    IsFirstInPage va length a := by
  have htoNat := Address.toNat_add? ha
  obtain ⟨hat, hlt⟩ := offset_of_mem_pieces h
  refine ⟨hat.imp (fun he => Address.ext (by omega)) fun ⟨hafter, haligned⟩ => ⟨by omega, ?_⟩,
    by omega⟩
  rw [Address.isPageAligned, beq_iff_eq, htoNat, ← haligned, Nat.sub_zero]

theorem keeps_grows_readPieces {va : VirtualAddress} {length : Nat} {list : List Piece}
    (h : ∀ piece ∈ list, piece ∈ pieces va.toNat 0 length) (got : Array UInt8) :
    Keeps (Grows s fun pointers => AccessGrowsStack va length pointers.1)
      (readPieces s va got list) := by
  induction list generalizing got with
  | nil => exact .pure _
  | cons piece rest ih =>
      have hrest := ih fun p hp => h p (List.mem_cons_of_mem _ hp)
      have hpiece : Keeps (Grows s fun pointers => AccessGrowsStack va length pointers.1)
          (readPiece s va piece).run := by
        unfold readPiece
        split
        · next a ha =>
          exact .run_bind (keeps_grows (.run_liftM (keeps_getSpace s))) fun space =>
            keeps_grows_retry (keeps_loadBytes _ _ _)
              (fun _ haccess => ⟨a, isFirstInPage_of_mem_pieces (h piece List.mem_cons_self) ha, rfl,
                haccess⟩) _
        · exact .run_throw _
      unfold readPieces
      refine .bind hpiece fun answer => ?_
      split
      · exact hrest _
      · exact .pure _

theorem keeps_grows_writePieces {va : VirtualAddress} {data : Array UInt8} {list : List Piece}
    (h : ∀ piece ∈ list, piece ∈ pieces va.toNat 0 data.size) :
    Keeps (Grows s fun pointers => AccessGrowsStack va data.size pointers.1)
      (writePieces s va data list).run := by
  induction list with
  | nil => exact .run_pure _
  | cons piece rest ih =>
      refine .run_bind ?_ fun _ => ih fun p hp => h p (List.mem_cons_of_mem _ hp)
      unfold writePiece
      split
      · next a ha =>
        exact .run_bind (keeps_grows (.run_liftM (keeps_getSpace s))) fun space =>
          keeps_grows_retry (keeps_storeBytes _ _ _)
            (fun _ haccess => ⟨a, isFirstInPage_of_mem_pieces (h piece List.mem_cons_self) ha, rfl,
              haccess⟩) _
      · exact .run_throw _

end

variable {m m' : Machine} {s s' : Id} {n : PageNumber}

theorem Inserted.pageOf_old {make : Nat → Except Panic Page} {start : VirtualAddress} {count : Nat}
    {pages : List Page} {effects : List Effect} (h : Inserted s pages effects m m')
    (hpages : (List.range count).mapM make = .ok pages)
    (hmake : ∀ {index page}, make index = .ok page → MadeFor start index page)
    (hplace : m'.view.pageOf s' n ≠ none) :
    m.view.pageOf s' n ≠ none ∨ s' = s ∧ Within start count n := by
  by_cases hs : s' = s
  swap
  · exact .inl (by rwa [h.pagesOnly.elsewhere s' hs] at hplace)
  subst hs
  by_cases hrange : ∃ page ∈ pages, page.va.number = n
  · obtain ⟨page, hmem, rfl⟩ := hrange
    obtain ⟨index, hindex, hmade⟩ := (mem_of_mapM_eq_ok hpages).1 hmem
    have hnumber := (hmake hmade).number
    have hlt := List.mem_range.1 hindex
    exact .inr ⟨rfl, by omega, by omega⟩
  · rw [h.kept n fun page hmem he => hrange ⟨page, hmem, he⟩] at hplace
    exact .inl hplace

theorem Grows.pageOf_old {permitted : Nat × Nat → PageNumber → Prop} {space : AddressSpace}
    (h : Grows s permitted m m') (hspace : m.spaces.get? s = some space)
    (hplace : m'.view.pageOf s' n ≠ none) : m.view.pageOf s' n ≠ none ∨
      s' = s ∧ permitted (space.stackPointer, space.savedStackPointer) n := by
  by_cases hs : s' = s
  · subst hs
    refine (h.place hplace).imp_right fun ⟨pointers, hpointers, hpermitted⟩ => ⟨rfl, ?_⟩
    simp only [stackPointersOf, hspace, Option.map_some, Option.some.injEq] at hpointers
    rwa [hpointers]
  · refine .inl ?_
    simp only [view, h.filled.others.elsewhere s' hs] at hplace ⊢
    exact hplace

theorem pageOf_of_setUpStack {space : AddressSpace} (hspace : m.spaces.get? s = some space)
    {answer : Except VmError Unit} (hrun : Answers (setUpStack s) m answer m')
    (hplace : m'.view.pageOf s' n ≠ none) : m.view.pageOf s' n ≠ none ∨
      s' = s ∧ n.toNat * pageSize = userStack - pageSize := by
  simp only [setUpStack, answers_liftM_computed_bind] at hrun
  obtain ⟨va, hva, page, hcreate, hrun⟩ := hrun
  obtain ⟨aligned, rfl⟩ := Page.create_eq_ok hcreate
  have hnumber : va.number.toNat * pageSize = userStack - pageSize := by
    unfold Address.ofNat at hva
    split at hva
    · cases hva
      exact (by decide : (userStack - pageSize) / pageSize * pageSize = userStack - pageSize)
    · cases hva
  have hinsert : Keeps (Grows s fun _ n => n.toNat * pageSize = userStack - pageSize)
      (insertPage s ⟨va, true, .pending .zeros, none, 1, aligned⟩).run :=
    keeps_grows_insertPage fun _ => hnumber
  rw [answers_bind] at hrun
  rcases hrun with ⟨cause, rfl, hfailed⟩ | ⟨key, m₁, hinserted, hrun⟩
  · exact (hinsert.returns hfailed).pageOf_old hspace hplace
  have hclaim : Keeps (Grows s fun _ n => n.toNat * pageSize = userStack - pageSize)
      (tryCatch (do claim key (← getSpace s).directory) fun cause => do
        let _ ← removePage s va.number
        throw cause : ExceptT VmError Action Unit).run :=
    .run_tryCatch (.run_bind (keeps_grows (.run_liftM (keeps_getSpace s))) fun space =>
      keeps_grows (keeps_claim _ _)) fun cause => by grind
  have hgrown := hinsert.returns hinserted
  rw [answers_bind] at hrun
  rcases hrun with ⟨cause, rfl, hfailed⟩ | ⟨_, m₂, hclaimed, hrun⟩
  · exact (trans_of (Grows s _) hgrown (hclaim.returns hfailed)).pageOf_old hspace hplace
  refine (trans_of (Grows s _) hgrown (hclaim.returns hclaimed)).pageOf_old hspace ?_
  obtain ⟨_, -, hupdate⟩ := answers_liftM.1 hrun
  obtain ⟨hview, -⟩ :=
    returns_updateSpace_of_same hupdate (fun _ => rfl) (fun _ => rfl) fun _ => rfl
  rwa [hview] at hplace

end Space

theorem Steps.pageOf_of_silent {effects : List Effect} {x x' : Option FrameNumber} {v v' : View}
    (h : Steps effects x v x' v') (hsilent : effects = []) : v'.pageOf = v.pageOf := by
  induction h with
  | nil => rfl
  | cons head tail ih =>
      obtain ⟨rfl, rfl⟩ := List.append_eq_nil_iff.1 hsilent
      refine (ih rfl).trans ?_
      cases head with
      | evict _ _ _ hstowed =>
          obtain ⟨isOccupied, pageIn, file, rfl⟩ := hstowed.exists_eq
          rfl
      | _ => rfl

open Space

variable {m m' : Machine} {s s' : Space.Id} {space : AddressSpace} {n : PageNumber} {α : Type}
  {request : Request α} {answer : α}

/-- A place that has a page after a request had one before, or the request is one of the few that
put pages there. -/
theorem Request.places (h : Sound none m) (hspace : m.spaces.get? s = some space)
    (hrun : Returns (request.perform s) m answer m') (hplace : m'.view.pageOf s' n ≠ none) :
    m.view.pageOf s' n ≠ none ∨ request.Places s m s' n := by
  have hsilent : Passed s [] m m' → m.view.pageOf s' n ≠ none := fun hpassed => by
    rwa [hpassed.course.steps.pageOf_of_silent rfl] at hplace
  have hmapped : ∀ {f offset start length writable effects},
      FileMapped s f offset start length writable effects m m' → m.view.pageOf s' n ≠ none ∨
        s' = s ∧ Within start ((length + (pageSize - 1)) / pageSize) n ∧ InUserMemory n := by
    intro f offset start length writable effects hmapped
    obtain ⟨_, handle, pages, inserted, m₁, -, -, hpages, hinserted, -, -, hview⟩ := hmapped.made
    rw [hview] at hplace
    exact (hinserted.pageOf_old hpages (fun hmake => (filePage_eq_ok hmake).1) hplace).imp_right
      fun ⟨hs, hn⟩ => ⟨hs, hn, hmapped.range.inUserMemory hn⟩
  have hclosed : ∀ {effects}, Closed s effects m m' → m.view.pageOf s' n ≠ none := by
    intro effects hclosed
    by_cases hs : s' = s
    · subst hs
      exact absurd (hclosed.pageOf n) hplace
    · rwa [(hclosed.elsewhere s' hs).1] at hplace
  cases request with
  | setStackPointer => exact .inl (by rwa [(returns_setStackPointer hrun).1] at hplace)
  | saveStackPointer => exact .inl (by rwa [(returns_saveStackPointer hrun).1] at hplace)
  | loadSegment =>
      rcases answers_loadSegment h hrun with ⟨-, -, hpassed⟩ | ⟨-, effects, hloaded⟩
      · exact .inl (hsilent hpassed)
      · obtain ⟨handle, -, -, count, pages, hcount, hpages, hinserted⟩ := hloaded.made
        refine (hinserted.pageOf_old hpages (fun hmake => (segmentPage_eq_ok hmake).1)
          hplace).imp_right fun ⟨hs, hn⟩ => ?_
        rw [← Nat.div_eq_of_eq_mul_left (by decide : 0 < pageSize) hcount.symm] at hn
        exact .filled hs hspace hn (hloaded.range.inUserMemory hn)
  | setUpStack =>
      refine (pageOf_of_setUpStack hspace hrun hplace).imp_right fun ⟨hs, hn⟩ =>
        .filled hs hspace hn ?_
      rw [InUserMemory, hn]
      decide
  | mapFile =>
      rcases answers_mapFile h hrun with ⟨-, -, hpassed⟩ | ⟨-, effects, hfile⟩
      · exact .inl (hsilent hpassed)
      · exact (hmapped hfile).imp_right fun ⟨hs, hn, huser⟩ => .filled hs hspace hn huser
  | mapDescriptor =>
      rcases answers_mapDescriptor hrun with ⟨-, -, rfl⟩ | ⟨file, -, hmap⟩
      · exact .inl hplace
      · rcases answers_mapFile h hmap with ⟨-, -, hpassed⟩ | ⟨-, effects, hfile⟩
        · exact .inl (hsilent hpassed)
        · exact (hmapped hfile).imp_right fun ⟨hs, hn, huser⟩ => .filled hs hspace hn huser
  | unmapFile start =>
      rcases returns_unmapFile h hrun with ⟨-, -, hview, -⟩ | ⟨region, effects, -, hunmapped⟩
      · exact .inl (by rwa [hview] at hplace)
      · refine .inl ?_
        by_cases hs : s' = s
        · subst hs
          rw [hunmapped.place] at hplace
          split at hplace
          · exact absurd rfl hplace
          · exact hplace
        · rwa [hunmapped.elsewhere s' hs] at hplace
  | handleFault fault =>
      have hgrown := (keeps_grows_handleFault (s := s) fault).returns hrun
      exact (hgrown.pageOf_old hspace hplace).imp_right fun ⟨hs, hn⟩ =>
        .filled hs hspace hn hn.inUserMemory
  | readUser va length =>
      have hgrown := (keeps_grows_readPieces (fun _ hp => hp) #[]).returns hrun
      exact (hgrown.pageOf_old hspace hplace).imp_right fun ⟨hs, hn⟩ =>
        .filled hs hspace hn hn.inUserMemory
  | writeUser va data =>
      have hgrown := (keeps_grows_writePieces fun _ hp => hp).returns hrun
      exact (hgrown.pageOf_old hspace hplace).imp_right fun ⟨hs, hn⟩ =>
        .filled hs hspace hn hn.inUserMemory
  | pageOut va => exact .inl (hsilent (passed_pageOut h hrun))
  | fork name =>
      obtain ⟨child, effects, ⟨-, hfailed⟩ | ⟨-, hforked⟩⟩ := answers_fork h hrun
      · exact .inl (by rwa [hfailed.pageOf] at hplace)
      · by_cases hs : s' = child
        · subst hs
          refine .inr (.copied trivial ?_ fun hfree => hplace (hforked.copied.free n hfree))
          by_contra hne
          simp only [view, (others_of_fork hrun).elsewhere s' hne] at hplace
          exact hplace (pageOf_of_closed hforked.fresh n)
        · exact .inl (by rwa [(hforked.elsewhere s' hs).1] at hplace)
  | exit status =>
      obtain ⟨-, effects, hexited⟩ := closed_exit h hrun
      exact .inl (hclosed hexited)
  | drop =>
      obtain ⟨effects, hdropped⟩ := closed_drop h hrun
      exact .inl (hclosed hdropped)

end DemandPaging
