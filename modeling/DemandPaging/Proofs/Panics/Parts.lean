import DemandPaging.Proofs.Panics.Rules
import DemandPaging.Proofs.Machine.Copies

/-!
When the parts of the system do not panic.

Every internal check of a part asks for something that has to be there: a frame of the pool, an
occupied slot, a file, a page directory. Here it is said of each action on a part what that is. An
address is never computed outside the range of addresses, because a pool of `maxFrames` frames ends
where physical addresses do.
-/

namespace DemandPaging

open Machine

/-- The number of frames that physical addresses can tell apart. -/
abbrev maxFrames : Nat := 2 ^ 40

structure Machine.HasFrame (m : Machine) (f : FrameNumber) : Prop where
  inPool : m.view.isAllocated f ≠ none
  inRange : f.toNat < maxFrames

/-! ### Computations -/

theorem exists_mapM_eq_ok {ε α β : Type} {f : α → Except ε β} {xs : List α}
    (h : ∀ x ∈ xs, ∃ y, f x = .ok y) : ∃ ys, xs.mapM f = .ok ys := by
  induction xs with
  | nil => exact ⟨[], rfl⟩
  | cons x xs ih =>
      obtain ⟨y, hy⟩ := h x List.mem_cons_self
      obtain ⟨ys, hys⟩ := ih fun x hx => h x (List.mem_cons_of_mem _ hx)
      exact ⟨y :: ys, by rw [List.mapM_cons, hy, hys]; rfl⟩

theorem Number.exists_start {f : FrameNumber} (h : f.toNat < maxFrames) :
    ∃ pa, f.start = .ok pa ∧ pa.isPageAligned = true := by
  have hvalid : AddressKind.physical.Valid (f.toNat * pageSize) := by
    simp only [AddressKind.Valid, physicalLimit, pageSize, maxFrames] at *
    omega
  refine ⟨⟨f.toNat * pageSize, hvalid⟩, ?_, by simp [Address.isPageAligned]⟩
  simp only [Number.start, Word.mul_ok hvalid.lt_limit, Address.ofNat]
  exact dif_pos hvalid

section

variable {m m' : Machine} {f : FrameNumber} {stop : Panic → Machine → Prop}

/-! ### Frames -/

theorem Machine.HasFrame.exists_frame (h : m.HasFrame f) : ∃ frame, m.pool.frame f = .ok frame := by
  obtain ⟨allocated, hallocated⟩ := Option.ne_none_iff_exists'.1 h.inPool
  obtain ⟨frame, hframe, -⟩ := Option.map_eq_some_iff.1 hallocated
  exact ⟨frame, Pool.frame_eq_ok.2 hframe⟩

theorem Machine.HasFrame.exists_bytes (h : m.HasFrame f) : ∃ bytes, m.pool.bytes f = .ok bytes := by
  obtain ⟨frame, hframe⟩ := h.exists_frame
  obtain ⟨pa, hstart, -⟩ := Number.exists_start h.inRange
  refine ⟨frame.bytes, ?_⟩
  simp only [Pool.bytes, hstart, hframe]
  rfl

theorem Machine.HasFrame.exists_setBytes (h : m.HasFrame f) (bytes : PageBytes) :
    ∃ pool, m.pool.setBytes f bytes = .ok pool := by
  obtain ⟨frame, hframe⟩ := h.exists_frame
  obtain ⟨pa, hstart, -⟩ := Number.exists_start h.inRange
  refine ⟨m.pool.modify f fun frame => { frame with bytes }, ?_⟩
  simp only [Pool.setBytes, hstart, hframe]
  rfl

theorem panicsOnly_frameBytes (h : m.HasFrame f) : PanicsOnly stop (frameBytes f) m := by
  obtain ⟨bytes, hbytes⟩ := h.exists_bytes
  have hrun : Returns (frameBytes f) m bytes m := by
    simp only [frameBytes, returns_get_bind, returns_liftM, hbytes, and_self]
  exact .of_returns hrun

theorem panicsOnly_setFrameBytes (h : m.HasFrame f) (bytes : PageBytes) :
    PanicsOnly stop (setFrameBytes f bytes) m := by
  obtain ⟨pool, hpool⟩ := h.exists_setBytes bytes
  unfold setFrameBytes
  exact .get_bind (.step (returns_liftM.2 ⟨hpool, rfl⟩) (.modify _))

theorem panicsOnly_copyFrame {target : FrameNumber} (h : m.HasFrame f) (h' : m.HasFrame target) :
    PanicsOnly stop (copyFrame f target) m := by
  obtain ⟨bytes, hbytes⟩ := h.exists_bytes
  obtain ⟨pool, hpool⟩ := h'.exists_setBytes bytes
  obtain ⟨pa, hstart, -⟩ := Number.exists_start h.inRange
  obtain ⟨pa', hstart', -⟩ := Number.exists_start h'.inRange
  have hcopy : m.pool.copy f target = .ok pool := by
    simp only [Pool.copy, hstart, hstart', hbytes]
    exact hpool
  unfold copyFrame
  exact .get_bind (.step (returns_liftM.2 ⟨hcopy, rfl⟩) (.modify _))

theorem panicsOnly_pinFrame (h : m.HasFrame f) (on : Bool) : PanicsOnly stop (pinFrame f on) m := by
  obtain ⟨frame, hframe⟩ := h.exists_frame
  have hpin : m.pool.setPinned f on = .ok (m.pool.setFlag f .pinned on) := by
    simp only [Pool.setPinned, hframe]
    rfl
  unfold pinFrame
  exact .get_bind (.step (returns_liftM.2 ⟨hpin, rfl⟩) (.modify _))

theorem panicsOnly_releaseFrame (h : m.view.isAllocated f = some true) :
    PanicsOnly stop (releaseFrame f) m := by
  obtain ⟨pool, hpool⟩ := Pool.exists_release h
  unfold releaseFrame
  exact .get_bind (.step (returns_liftM.2 ⟨hpool, rfl⟩)
    (.modify_bind (.modify _)))

theorem panicsOnly_readMemory {pa : PhysicalAddress} {length : Nat} (h : m.HasFrame pa.number)
    (hfits : pa.pageOffset + length ≤ pageSize) : PanicsOnly stop (readMemory pa length) m := by
  obtain ⟨bytes, hbytes⟩ := h.exists_bytes
  have hread : m.pool.read pa length = .ok (bytes.slice pa.pageOffset length) := by
    simp only [Pool.read, hbytes]
    exact if_pos hfits
  unfold readMemory
  exact .get_bind (.of_returns (returns_liftM.2 ⟨hread, rfl⟩))

theorem panicsOnly_writeMemory {pa : PhysicalAddress} {data : Array UInt8}
    (h : m.HasFrame pa.number) (hfits : pa.pageOffset + data.size ≤ pageSize) :
    PanicsOnly stop (writeMemory pa data) m := by
  obtain ⟨bytes, hbytes⟩ := h.exists_bytes
  obtain ⟨pool, hpool⟩ := h.exists_setBytes (bytes.overlay pa.pageOffset data)
  have hwrite : m.pool.write pa data = .ok pool := by
    simp only [Pool.write, hbytes]
    change (if _ then _ else _) = _
    rw [if_pos hfits, hpool]
  unfold writeMemory
  exact .get_bind (.step (returns_liftM.2 ⟨hwrite, rfl⟩) (.modify _))

/-! ### Swap -/

variable {slot : SwapSlot}

theorem returns_asPage_self (bytes : PageBytes) : Returns (liftM bytes.asPage) m bytes m :=
  returns_liftM.2 ⟨rfl, rfl⟩

theorem panicsOnly_readFromSwap (h : m.view.isOccupied slot = true) (buffer : PageBytes) :
    PanicsOnly stop (readFromSwap slot buffer) m := by
  obtain ⟨read, hread⟩ : ∃ read, m.swap.read slot buffer = .ok read := by
    simp only [Swap.read, show m.swap.isOccupied slot = true from h]
    exact ⟨_, rfl⟩
  unfold readFromSwap
  exact .step (returns_asPage_self buffer) (.get_bind (.step (returns_liftM.2 ⟨hread, rfl⟩)
    (.modify_bind (.pure _))))

theorem exists_free (swap : Swap) (h : swap.isOccupied slot = true) :
    ∃ freed, swap.free slot = .ok freed := by
  refine ⟨swap.mark slot false, ?_⟩
  simp only [Swap.free, h]
  rfl

theorem panicsOnly_freeSwapSlot (h : m.view.isOccupied slot = true) :
    PanicsOnly stop (freeSwapSlot slot) m := by
  obtain ⟨swap, hfree⟩ := exists_free m.swap h
  unfold freeSwapSlot
  exact .get_bind (.step (returns_liftM.2 ⟨hfree, rfl⟩) (.modify _))

theorem panicsOnly_loadFromSwap (h : m.view.isOccupied slot = true) (buffer : PageBytes) :
    PanicsOnly stop (loadFromSwap slot buffer) m := by
  obtain ⟨⟨result, page, read⟩, hread⟩ : ∃ read, m.swap.read slot buffer = .ok read := by
    simp only [Swap.read, show m.swap.isOccupied slot = true from h]
    exact ⟨_, rfl⟩
  obtain ⟨-, hunmoved, -⟩ := Swap.read_eq_ok hread
  -- what was read is still occupied, so it can be freed
  have hoccupied : read.isOccupied slot = true := by
    rw [hunmoved.isOccupied]
    exact h
  obtain ⟨freed, hfree⟩ := exists_free read hoccupied
  obtain ⟨loaded, hload⟩ : ∃ loaded, m.swap.load slot buffer = .ok loaded := by
    simp only [Swap.load, hread]
    cases result with
    | ok u => exact ⟨_, by change Except.bind _ _ = _; simp only [Except.bind, hfree]; rfl⟩
    | error cause => exact ⟨_, rfl⟩
  unfold loadFromSwap
  refine .step (returns_asPage_self buffer) (.get_bind (.step (returns_liftM.2 ⟨hload, rfl⟩)
    (.modify_bind ?_)))
  obtain ⟨answer, got, swap⟩ := loaded
  cases answer with
  | ok u => exact .modify_bind (.pure _)
  | error cause => exact .pure _

/-! ### Files -/

variable {slice : FileSlice}

theorem exists_file {key : Key File} (h : m.view.file key ≠ none) :
    ∃ file, m.files.get? key = some file := by
  obtain ⟨_, hfile⟩ := Option.ne_none_iff_exists'.1 h
  obtain ⟨file, hfile, -⟩ := Option.map_eq_some_iff.1 hfile
  exact ⟨file, hfile⟩

theorem panicsOnly_fillFromSlice (h : m.view.file slice.handle.file ≠ none) (buffer : PageBytes) :
    PanicsOnly stop (fillFromSlice slice buffer) m := by
  obtain ⟨file, hfile⟩ := exists_file h
  unfold fillFromSlice
  exact .step (returns_getFile.2 ⟨hfile, rfl⟩)
    (.of_returns (returns_liftM.2 ⟨slice.readInto_eq file buffer, rfl⟩))

theorem panicsOnly_evictToSlice (h : m.view.file slice.handle.file ≠ none) (buffer : PageBytes)
    (dirty : Bool) : PanicsOnly stop (evictToSlice slice buffer dirty) m := by
  unfold evictToSlice
  split
  swap
  · exact .pure _
  obtain ⟨file, hfile⟩ := exists_file h
  obtain ⟨written, hwritten⟩ := slice.exists_writeBack file buffer
  unfold writeSliceBack
  refine .step (returns_getFile.2 ⟨hfile, rfl⟩) (.step (returns_liftM.2 ⟨hwritten, rfl⟩)
    (.modify_bind ?_))
  split
  · exact .modify _
  · exact .pure _

theorem panicsOnly_reopen {key : Key File} (h : m.view.file key ≠ none) :
    PanicsOnly stop (reopen key) m := by
  obtain ⟨file, hfile⟩ := exists_file h
  unfold reopen
  refine .step (returns_getFile.2 ⟨hfile, rfl⟩) (.get_bind ?_)
  split
  · exact .modify_bind (.pure _)
  · exact .pure _

theorem panicsOnly_duplicateSlice (h : m.view.file slice.handle.file ≠ none) :
    PanicsOnly stop (duplicateSlice slice) m :=
  .bind (panicsOnly_reopen h) fun _ _ _ => .pure _

theorem panicsOnly_duplicatePending {source : Pending}
    (h : ∀ slice, source.slice? = some slice → m.view.file slice.handle.file ≠ none) :
    PanicsOnly stop (duplicatePending source) m := by
  cases source with
  | zeros => exact .pure _
  | loader loader =>
      cases loader with
      | segment slice => exact .bind (panicsOnly_duplicateSlice (h slice rfl)) fun _ _ _ => .pure _
      | fill byte count succeeds => exact .pure _
  | file slice => exact .bind (panicsOnly_duplicateSlice (h slice rfl)) fun _ _ _ => .pure _

/-! ### Page directories -/

variable {d : Key Directory} {va : VirtualAddress}

theorem exists_directory (h : m.view.hasDirectory d = true) :
    ∃ directory, m.directories.get? d = some directory := Option.isSome_iff_exists.1 h

theorem panicsOnly_testFlag (h : m.view.hasDirectory d = true) (flag : Flag) :
    PanicsOnly stop (testFlag d va flag) m := by
  obtain ⟨directory, hdirectory⟩ := exists_directory h
  exact .step (returns_getDirectory.2 ⟨hdirectory, rfl⟩) (.pure _)

theorem panicsOnly_setFlag (h : m.view.hasDirectory d = true) (flag : Flag) (on : Bool) :
    PanicsOnly stop (setFlag d va flag on) m := by
  obtain ⟨directory, hdirectory⟩ := exists_directory h
  exact .step (returns_getDirectory.2 ⟨hdirectory, rfl⟩) (.modify _)

theorem panicsOnly_unmapPage (h : m.view.hasDirectory d = true) :
    PanicsOnly stop (unmapPage d va) m := by
  obtain ⟨directory, hdirectory⟩ := exists_directory h
  exact .step (returns_getDirectory.2 ⟨hdirectory, rfl⟩)
    (.modify_bind (.pure _))

theorem panicsOnly_unmapOwner {o : Owner} (h : m.view.hasDirectory o.directory = true) :
    PanicsOnly stop (unmapOwner o) m := by
  unfold unmapOwner
  refine .bind (panicsOnly_testFlag h .dirty) fun dirty m₁ htest => ?_
  obtain ⟨rfl, -⟩ := returns_testFlag htest
  exact .bind (panicsOnly_unmapPage h) fun _ _ _ => .pure _

theorem panicsOnly_mapPage {pa : PhysicalAddress} {flags : PageFlags}
    (h : m.view.hasDirectory d = true) (hva : va.isPageAligned = true)
    (hpa : pa.isPageAligned = true) : PanicsOnly stop (mapPage d va pa flags) m := by
  obtain ⟨directory, hdirectory⟩ := exists_directory h
  obtain ⟨changed, hmap⟩ : ∃ changed, directory.map va pa flags = .ok changed := by
    simp only [Directory.map, PageEntry.encode, hva, hpa]
    exact ⟨_, rfl⟩
  exact .step (returns_getDirectory.2 ⟨hdirectory, rfl⟩)
    (.step (returns_liftM.2 ⟨hmap, rfl⟩) (.modify _))

theorem panicsOnly_accessPage (h : m.view.hasDirectory d = true) (write : Bool) :
    PanicsOnly stop (accessPage d va write).run m := by
  obtain ⟨directory, hdirectory⟩ := exists_directory h
  unfold accessPage
  refine .run_step (returns_getDirectory.2 ⟨hdirectory, rfl⟩) ?_
  split
  · trivial
  · exact .run_liftM_bind (.modify _) fun _ _ _ => .run_pure _

end

end DemandPaging
