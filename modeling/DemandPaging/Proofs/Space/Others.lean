import DemandPaging.Proofs.Keeps
import DemandPaging.Space.Request

/-!
What a request leaves alone.

A request to an address space keeps the records of all others and what clients hold, however it ends;
a fork adds one address space and concerns no other. And no request takes back a handle, or the name
of an address space.
-/

namespace DemandPaging

namespace Machine

/-! ### Bringing pages in, paging out, access -/

@[grind .] theorem keeps_fillFromSlice (slice : FileSlice) {n : Nat} (buffer : Bytes n) :
    Keeps Aside (fillFromSlice slice buffer) := by
  unfold fillFromSlice
  grind

@[grind .] theorem keeps_fillPending (source : Pending) (buffer : PageBytes) :
    Keeps Aside (fillPending source buffer) := by
  unfold fillPending
  grind

@[grind .] theorem keeps_loadFromSwap (slot : SwapSlot) {n : Nat} (buffer : Bytes n) :
    Keeps Aside (loadFromSwap slot buffer) := by
  intro m
  refine Keeps.final_bind (Keeps.liftM _ m) fun page m' hlift => ?_
  obtain ⟨-, rfl⟩ := returns_liftM.1 hlift
  refine Keeps.final_bind (Keeps.get m') fun _ m₁ hget => ?_
  obtain ⟨rfl, rfl⟩ := returns_get.1 hget
  refine Keeps.final_bind (Keeps.liftM _ _) fun ⟨result, bytes, swap⟩ m₂ hlift => ?_
  obtain ⟨hload, rfl⟩ := returns_liftM.1 hlift
  refine aside_setSwap_bind (Swap.sameDevice_load hload) ?_
  dsimp only
  grind

@[grind .] theorem keeps_fillAnonymous (slot : Option SwapSlot) {n : Nat} (buffer : Bytes n) :
    Keeps Aside (fillAnonymous slot buffer) := by
  unfold fillAnonymous
  grind

@[grind .] theorem keeps_bringIn (contents : Contents) (f : FrameNumber) :
    Keeps Aside (bringIn contents f) := by
  unfold bringIn
  refine .bind (keeps_frameBytes f) fun buffer => ?_
  split
  · grind
  · refine .bind (keeps_fillAnonymous _ _) fun _ => .bind (keeps_setFrameBytes _ _) fun _ => ?_
    split <;> grind
  · grind

@[grind .] theorem keeps_claim (key : Key Page) (d : Key Directory) :
    Keeps Aside (claim key d).run := by
  unfold claim
  refine .run_bind (.run_liftM (keeps_getPage key)) fun page => ?_
  split
  · exact .run_pure _
  · refine .run_bind (.run_liftM keeps_acquire) fun acquired => ?_
    split
    · refine .run_bind (.run_liftM (keeps_getSlot _)) fun slot =>
        .run_bind (.run_liftM (keeps_bringIn _ _)) fun filled => ?_
      split <;> grind
    · exact .run_throw _

@[grind .] theorem keeps_pageOut (key : Key Page) : Keeps Aside (pageOut key) := by
  unfold pageOut
  grind

@[grind .] theorem keeps_loadBytes (d : Key Directory) (va : VirtualAddress) (length : Nat) :
    Keeps Aside (loadBytes d va length).run := by
  unfold loadBytes accessPage readMemory
  grind

@[grind .] theorem keeps_storeBytes (d : Key Directory) (va : VirtualAddress)
    (data : Array UInt8) : Keeps Aside (storeBytes d va data).run := by
  unfold storeBytes accessPage
  grind

end Machine

namespace Space

open Machine

variable (s : Id)

/-! ### Pages -/

@[grind .] theorem keeps_insertPage (page : Page) : Keeps (Others s) (insertPage s page).run := by
  unfold insertPage
  grind

@[grind .] theorem keeps_insertRun (inserted : List PageNumber) (pages : List Page) :
    Keeps (Others s) (insertRun s inserted pages).run := by
  induction pages generalizing inserted with
  | nil => exact .run_pure _
  | cons page rest ih =>
      unfold insertRun
      grind

@[grind .] theorem keeps_requireFreeRange (start : VirtualAddress) (count : Nat) :
    Keeps (Others s) (requireFreeRange s start count).run := by
  unfold requireFreeRange
  grind

@[grind .] theorem keeps_pageOutAt (va : VirtualAddress) : Keeps (Others s) (pageOut s va) := by
  unfold pageOut
  grind

/-! ### Faults and accesses -/

@[grind .] theorem keeps_growStack (va : VirtualAddress) :
    Keeps (Others s) (growStack s va).run := by
  unfold growStack
  refine .run_bind (.run_liftM (keeps_others s (keeps_getSpace s))) fun space =>
    .run_bind (.run_computed _) fun page =>
      .run_bind (.run_liftM (keeps_insertPage s page)) fun inserted => ?_
  split
  · exact .run_throw _
  · refine .run_bind (.run_liftM (keeps_others s (keeps_getSpace s))) fun space =>
      .run_bind (.run_liftM (keeps_others s (keeps_claim _ _))) fun claimed => ?_
    split <;> grind

@[grind .] theorem keeps_resolveFault (fault : PageFault) :
    Keeps (Others s) (resolveFault s fault).run := by
  unfold resolveFault
  refine .run_refuse (.run_refuse (.run_require
    (.run_bind (.run_liftM (keeps_others s (keeps_getSpace s))) fun current => ?_)))
  dsimp only
  split
  · exact .run_require (.run_bind (keeps_growStack s _) fun _ => .run_pure _)
  · refine .run_bind (.run_liftM (keeps_others s (keeps_getPage _))) fun page =>
      .run_refuse (.run_bind (.run_liftM (keeps_others s (keeps_claim _ _))) fun claimed => ?_)
    split <;> grind

@[grind .] theorem keeps_handleFault (fault : PageFault) :
    Keeps (Others s) (handleFault s fault).run := by
  unfold handleFault
  grind

@[grind ←] theorem keeps_retry {α : Type} {va : VirtualAddress} {write : Bool}
    {access : ExceptT AccessViolation Action α} (h : Keeps (Others s) access.run)
    (attempts : Nat) : Keeps (Others s) (retry s va write access attempts).run := by
  induction attempts with
  | zero => exact .run_throw _
  | succ attempts ih =>
      unfold retry
      grind

@[grind .] theorem keeps_readPieces (va : VirtualAddress) (got : Array UInt8)
    (list : List Piece) : Keeps (Others s) (readPieces s va got list) := by
  induction list generalizing got with
  | nil => exact .pure _
  | cons piece rest ih =>
      unfold readPieces readPiece
      grind

@[grind .] theorem keeps_writePieces (va : VirtualAddress) (data : Array UInt8)
    (list : List Piece) : Keeps (Others s) (writePieces s va data list).run := by
  induction list with
  | nil => exact .run_pure _
  | cons piece rest ih =>
      unfold writePieces writePiece
      grind

/-! ### Mapping -/

@[grind .] theorem keeps_loadSegment (file : Handle) (offset : Nat) (start : VirtualAddress)
    (readBytes zeroBytes : Nat) (writable : Bool) :
    Keeps (Others s) (loadSegment s file offset start readBytes zeroBytes writable).run := by
  unfold loadSegment
  refine .run_require ?_
  split
  swap
  · exact .run_throw _
  refine .run_refuse (.run_bind (keeps_requireFreeRange s _ _) fun _ => .run_refuse ?_)
  split
  · refine .run_bind (.run_liftM (keeps_others s (keeps_reopen _))) fun handle => ?_
    split <;> grind
  · grind

@[grind .] theorem keeps_setUpStack : Keeps (Others s) (setUpStack s).run := by
  unfold setUpStack
  refine .run_bind (.run_computed _) fun va => .run_bind (.run_computed _) fun page =>
    .run_bind (keeps_insertPage s page) fun key => .run_bind ?_ fun _ => ?_
  · exact .run_tryCatch (.run_bind (.run_liftM (keeps_others s (keeps_getSpace s))) fun space =>
      keeps_others s (keeps_claim _ _)) fun cause => by grind
  · grind

@[grind .] theorem keeps_mapFile (start : VirtualAddress) (length : Nat) (writable : Bool)
    (file : Handle) (offset : Nat) :
    Keeps (Others s) (mapFile s start length writable file offset).run := by
  unfold mapFile
  refine .run_require (.run_refuse (.run_refuse (.run_require
    (.run_bind (keeps_requireFreeRange s _ _) fun _ => .run_refuse
      (.run_bind (.run_liftM (keeps_others s (keeps_getFile _))) fun current =>
        .run_bind (.run_liftM (keeps_others s (keeps_reopen _))) fun handle => .run_refuse ?_)))))
  split
  · refine .run_bind (.run_computed _) fun pages => .run_bind (keeps_insertRun s [] pages) fun _ => ?_
    grind
  · exact .run_throw _

@[grind .] theorem keeps_mapDescriptor (start : VirtualAddress) (length : Nat) (writable : Bool)
    (descriptor : Int) (offset : Nat) (lookup : Int → Option Handle) :
    Keeps (Others s) (mapDescriptor s start length writable descriptor offset lookup).run := by
  unfold mapDescriptor
  grind

@[grind .] theorem keeps_exit (status : Int) : Keeps (Others s) (exit s status) := by
  unfold exit
  grind

end Space

open Machine Space

def Request.Forks {α : Type} : Request α → Prop
  | .fork _ => True
  | _ => False

variable {α : Type} {request : Request α} {s : Key AddressSpace} {m m' : Machine} {answer : α}

theorem Request.keeps_others (hforks : ¬request.Forks) : Keeps (Others s) (request.perform s) := by
  cases request with
  | setStackPointer stackPointer => exact keeps_updateSpace s _
  | saveStackPointer stackPointer => exact keeps_updateSpace s _
  | loadSegment => exact keeps_loadSegment s _ _ _ _ _ _
  | setUpStack => exact keeps_setUpStack s
  | mapFile => exact keeps_mapFile s _ _ _ _ _
  | mapDescriptor => exact keeps_mapDescriptor s _ _ _ _ _ _
  | unmapFile start => exact keeps_unmapFile s start
  | handleFault fault => exact keeps_handleFault s fault
  | readUser va length => exact keeps_readPieces s _ _ _
  | writeUser va data => exact keeps_writePieces s _ _ _
  | pageOut va => exact keeps_pageOutAt s va
  | fork name => exact absurd trivial hforks
  | exit status => exact keeps_exit s status
  | drop => exact keeps_drop s

/-- A request concerns one address space: its own, or the new one if it is a fork. -/
theorem Request.exists_others (hrun : Returns (request.perform s) m answer m') :
    ∃ s', Others s' m m' := by
  have hkept : ¬request.Forks → ∃ s', Others s' m m' := fun hforks =>
    ⟨s, (Request.keeps_others hforks).returns hrun⟩
  cases request with
  | fork name => exact ⟨_, others_of_fork hrun⟩
  | _ => exact hkept id

theorem Request.issued_le (hrun : Returns (request.perform s) m answer m') (f : Key File) :
    m.issued f ≤ m'.issued f :=
  let ⟨_, hothers⟩ := Request.exists_others hrun
  hothers.issued f

theorem Request.named_le (hrun : Returns (request.perform s) m answer m') :
    m.spaces.nextKey.index ≤ m'.spaces.nextKey.index :=
  let ⟨_, hothers⟩ := Request.exists_others hrun
  hothers.named

end DemandPaging
