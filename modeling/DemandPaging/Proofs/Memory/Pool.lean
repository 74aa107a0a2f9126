import DemandPaging.Memory.Pool
import DemandPaging.Proofs.Computation
import Mathlib.Tactic

/-!
The frame pool as three views: which frames are handed out, which are pinned, and what they hold.

A pool is consistent if its free list names every frame that is not handed out, once each. Handing
out and taking back keep it so; every other operation leaves the free list and the handed-out
frames alone.
-/

namespace DemandPaging.Pool

/-- Whether a frame is handed out; nothing for a frame that the pool does not have. -/
def allocation (pool : Pool) (number : FrameNumber) : Option Bool :=
  (pool.frame? number).map (·.flags.allocated)

def isPinned (pool : Pool) (number : FrameNumber) : Bool :=
  (pool.frame? number).any (·.flags.pinned)

def bytes? (pool : Pool) (number : FrameNumber) : Option PageBytes :=
  (pool.frame? number).map (·.bytes)

/-- The free list names every frame that is not handed out, once each. -/
structure Consistent (pool : Pool) : Prop where
  nodup : pool.freeList.Nodup
  mem_freeList : ∀ number, number ∈ pool.freeList ↔ pool.allocation number = some false

/-- Two pools have the same frames handed out. -/
structure SameAllocation (pool pool' : Pool) : Prop where
  freeList : pool'.freeList = pool.freeList
  allocation : ∀ number, pool'.allocation number = pool.allocation number

variable {pool pool' : Pool} {number : FrameNumber}

theorem SameAllocation.refl (pool : Pool) : SameAllocation pool pool := ⟨rfl, fun _ => rfl⟩

theorem Consistent.of_sameAllocation (h : pool.Consistent) (hsame : SameAllocation pool pool') :
    pool'.Consistent where
  nodup := by
    rw [hsame.freeList]
    exact h.nodup
  mem_freeList k := by
    rw [hsame.freeList, hsame.allocation]
    exact h.mem_freeList k

theorem frame_eq_ok {frame : Frame} :
    pool.frame number = .ok frame ↔ pool.frame? number = some frame := by
  unfold Pool.frame
  cases pool.frame? number with
  | none => simp only [reduceCtorEq]
  | some found => simp only [Except.ok.injEq, Option.some.injEq]

theorem discard_eq_ok {α ε : Type} {computed : Except ε α} {u : Unit} :
    discard computed = .ok u ↔ ∃ a, computed = .ok a := by
  cases computed with
  | error cause =>
      constructor
      · intro h
        cases h
      · rintro ⟨a, h⟩
        cases h
  | ok a => exact ⟨fun _ => ⟨a, rfl⟩, fun _ => rfl⟩

theorem bytes_eq_ok {bytes : PageBytes} (h : pool.bytes number = .ok bytes) :
    pool.bytes? number = some bytes := by
  simp only [Pool.bytes, bind_eq_ok, pure_eq_ok, frame_eq_ok] at h
  obtain ⟨-, -, frame, hframe, rfl⟩ := h
  rw [bytes?, hframe, Option.map_some]

/-! ### A change to one frame -/

theorem allocation_modify (pool : Pool) (number : FrameNumber) (change : Frame → Frame)
    (other : FrameNumber) :
    (pool.modify number change).allocation other =
      if number = other then (pool.frame? other).map fun frame => (change frame).flags.allocated
      else pool.allocation other := by
  rw [allocation, frame?_modify]
  split
  · rw [Option.map_map]
    rfl
  · rfl

theorem bytes?_modify (pool : Pool) (number : FrameNumber) (change : Frame → Frame)
    (other : FrameNumber) :
    (pool.modify number change).bytes? other =
      if number = other then (pool.frame? other).map fun frame => (change frame).bytes
      else pool.bytes? other := by
  rw [bytes?, frame?_modify]
  split
  · rw [Option.map_map]
    rfl
  · rfl

theorem sameAllocation_modify (pool : Pool) (number : FrameNumber) {change : Frame → Frame}
    (h : ∀ frame, (change frame).flags.allocated = frame.flags.allocated) :
    SameAllocation pool (pool.modify number change) where
  freeList := rfl
  allocation other := by
    rw [allocation_modify]
    split
    · rw [allocation]
      simp only [h]
    · rfl

/-! ### Handing out -/

/-- A frame that is handed out was free, and is the only one that changes. -/
theorem allocate_eq_some (h : pool.Consistent) (hallocate : pool.allocate = some (number, pool')) :
    pool.allocation number = some false ∧ pool'.Consistent ∧
      pool.freeList = number :: pool'.freeList ∧
      ∀ other, pool'.allocation other =
        if number = other then some true else pool.allocation other := by
  unfold allocate at hallocate
  split at hallocate
  · cases hallocate
  next first rest hfree =>
  cases hallocate
  have hmem : number ∈ pool.freeList := by
    rw [hfree]
    exact List.mem_cons_self
  have hnumber : pool.allocation number = some false := (h.mem_freeList number).1 hmem
  have hallocation : ∀ other,
      (({ pool with freeList := rest } : Pool).setFlag number .allocated true).allocation other =
        if number = other then some true else pool.allocation other := by
    intro other
    rw [setFlag, allocation_modify]
    split
    · next heq =>
      subst heq
      obtain ⟨frame, hframe, -⟩ := Option.map_eq_some_iff.1 hnumber
      change Option.map _ (pool.frame? number) = _
      rw [hframe]
      rfl
    · rfl
  have hnodup := h.nodup
  rw [hfree, List.nodup_cons] at hnodup
  refine ⟨hnumber, ⟨hnodup.2, ?_⟩, hfree, hallocation⟩
  intro other
  rw [hallocation]
  change other ∈ rest ↔ _
  split
  · next heq =>
    subst heq
    simp [hnodup.1]
  · next hne =>
    rw [← h.mem_freeList, hfree, List.mem_cons]
    constructor
    · exact .inr
    · rintro (heq | hrest)
      · exact absurd heq.symm hne
      · exact hrest

theorem bytes?_allocate (hallocate : pool.allocate = some (number, pool')) (other : FrameNumber) :
    pool'.bytes? other = pool.bytes? other := by
  unfold allocate at hallocate
  split at hallocate
  · cases hallocate
  · cases hallocate
    rw [setFlag, bytes?_modify]
    split <;> rfl

/-! ### Taking back -/

/-- A frame that is taken back was handed out, and is the only one that changes. -/
theorem release_eq_ok (h : pool.Consistent) (hrelease : pool.release number = .ok pool') :
    pool.allocation number = some true ∧ pool'.Consistent ∧
      pool'.freeList = number :: pool.freeList ∧
      ∀ other, pool'.allocation other =
        if number = other then some false else pool.allocation other := by
  simp only [release, bind_eq_ok, frame_eq_ok, require_eq_ok, pure_eq_ok] at hrelease
  obtain ⟨frame, hframe, hallocated, rfl⟩ := hrelease
  have hnumber : pool.allocation number = some true := by
    rw [allocation, hframe, Option.map_some, hallocated]
  have hallocation : ∀ other,
      ({ pool.modify number (fun frame => { frame with flags := .clear }) with
        freeList := number :: pool.freeList } : Pool).allocation other =
        if number = other then some false else pool.allocation other := by
    intro other
    change (pool.modify number _).allocation other = _
    rw [allocation_modify]
    split
    · next heq =>
      subst heq
      rw [hframe]
      rfl
    · rfl
  refine ⟨hnumber, ⟨?_, ?_⟩, rfl, hallocation⟩
  · refine List.nodup_cons.2 ⟨?_, h.nodup⟩
    rw [h.mem_freeList, hnumber]
    simp
  · intro other
    rw [hallocation, List.mem_cons, h.mem_freeList]
    split
    · next heq => simp [heq]
    · next hne =>
      constructor
      · rintro (heq | hother)
        · exact absurd heq.symm hne
        · exact hother
      · exact .inr

theorem exists_release (h : pool.allocation number = some true) :
    ∃ pool', pool.release number = .ok pool' := by
  obtain ⟨frame, hframe, hallocated⟩ := Option.map_eq_some_iff.1 h
  rw [release, frame_eq_ok.2 hframe]
  exact ⟨_, if_pos hallocated⟩

theorem bytes?_release (hrelease : pool.release number = .ok pool') (other : FrameNumber) :
    pool'.bytes? other = pool.bytes? other := by
  simp only [release, bind_eq_ok, frame_eq_ok, require_eq_ok, pure_eq_ok] at hrelease
  obtain ⟨frame, hframe, hallocated, rfl⟩ := hrelease
  change (pool.modify number _).bytes? other = _
  rw [bytes?_modify]
  split <;> rfl

/-! ### Pins -/

theorem sameAllocation_setPinned {on : Bool} (h : pool.setPinned number on = .ok pool') :
    SameAllocation pool pool' := by
  simp only [setPinned, bind_eq_ok, discard_eq_ok, pure_eq_ok] at h
  obtain ⟨-, -, rfl⟩ := h
  exact sameAllocation_modify pool number fun _ => rfl

theorem bytes?_setPinned {on : Bool} (h : pool.setPinned number on = .ok pool')
    (other : FrameNumber) : pool'.bytes? other = pool.bytes? other := by
  simp only [setPinned, bind_eq_ok, discard_eq_ok, pure_eq_ok] at h
  obtain ⟨-, -, rfl⟩ := h
  rw [setFlag, bytes?_modify]
  split <;> rfl

theorem isPinned_setPinned {on : Bool} (h : pool.setPinned number on = .ok pool')
    (other : FrameNumber) :
    pool'.isPinned other = if number = other then on else pool.isPinned other := by
  simp only [setPinned, bind_eq_ok, discard_eq_ok, frame_eq_ok, pure_eq_ok] at h
  obtain ⟨-, ⟨frame, hframe⟩, rfl⟩ := h
  rw [isPinned, setFlag, frame?_modify]
  split
  · next heq =>
    subst heq
    rw [hframe]
    rfl
  · rfl

/-! ### Bytes -/

theorem sameAllocation_setBytes {bytes : PageBytes} (h : pool.setBytes number bytes = .ok pool') :
    SameAllocation pool pool' := by
  simp only [setBytes, bind_eq_ok, discard_eq_ok, pure_eq_ok] at h
  obtain ⟨-, -, -, -, rfl⟩ := h
  exact sameAllocation_modify pool number fun _ => rfl

theorem bytes?_setBytes {bytes : PageBytes} (h : pool.setBytes number bytes = .ok pool')
    (other : FrameNumber) :
    pool'.bytes? other = if number = other then some bytes else pool.bytes? other := by
  simp only [setBytes, bind_eq_ok, discard_eq_ok, frame_eq_ok, pure_eq_ok] at h
  obtain ⟨-, -, -, ⟨frame, hframe⟩, rfl⟩ := h
  rw [bytes?_modify]
  split
  · next heq =>
    subst heq
    rw [hframe, Option.map_some]
  · rfl

/-- Writing at a physical address lays the data over the frame that contains it. -/
theorem write_eq_ok {pa : PhysicalAddress} {data : Array UInt8}
    (h : pool.write pa data = .ok pool') :
    ∃ bytes, pool.bytes? pa.number = some bytes ∧ pa.pageOffset + data.size ≤ pageSize ∧
      pool.setBytes pa.number (bytes.overlay pa.pageOffset data) = .ok pool' := by
  simp only [write, bind_eq_ok] at h
  obtain ⟨bytes, hbytes, h⟩ := h
  split at h
  · next hfits =>
    refine ⟨bytes, bytes_eq_ok hbytes, hfits, ?_⟩
    simpa only [bind_pure] using h
  · exact absurd h throw_ne_ok

/-- Reading at a physical address gives the bytes of the frame that contains it. -/
theorem read_eq_ok {pa : PhysicalAddress} {length : Nat} {data : Array UInt8}
    (h : pool.read pa length = .ok data) :
    ∃ bytes, pool.bytes? pa.number = some bytes ∧ pa.pageOffset + length ≤ pageSize ∧
      data = bytes.slice pa.pageOffset length := by
  simp only [read, bind_eq_ok] at h
  obtain ⟨bytes, hbytes, h⟩ := h
  split at h
  · next hfits => exact ⟨bytes, bytes_eq_ok hbytes, hfits, (pure_eq_ok.1 h).symm⟩
  · exact absurd h throw_ne_ok

theorem copy_eq_ok {source target : FrameNumber} (h : pool.copy source target = .ok pool') :
    ∃ bytes, pool.bytes? source = some bytes ∧ pool.setBytes target bytes = .ok pool' := by
  simp only [copy, bind_eq_ok] at h
  obtain ⟨-, -, -, -, bytes, hbytes, hset⟩ := h
  exact ⟨bytes, bytes_eq_ok hbytes, hset⟩

/-! ### Other bytes in one frame -/

def withBytes (pool : Pool) (number : FrameNumber) (bytes : PageBytes) : Pool :=
  pool.modify number fun frame => { frame with bytes }

/-- Changes that do not see each other may be made in any order. -/
theorem modify_comm (pool : Pool) (number other : FrameNumber) {change change' : Frame → Frame}
    (h : ∀ frame, change (change' frame) = change' (change frame)) :
    (pool.modify number change).modify other change' =
      (pool.modify other change').modify number change := by
  simp only [modify, mk.injEq, and_true]
  apply Array.ext_getElem?
  intro i
  simp only [Array.getElem?_modify]
  split <;> split <;> simp [Function.comp_def, h]

theorem withBytes_withBytes (pool : Pool) (number : FrameNumber) (old bytes : PageBytes) :
    (pool.withBytes number old).withBytes number bytes = pool.withBytes number bytes := by
  simp only [withBytes, modify, mk.injEq, and_true]
  apply Array.ext_getElem?
  intro i
  simp only [Array.getElem?_modify]
  split <;> simp [Function.comp_def]

theorem setBytes_eq_ok {bytes : PageBytes} : pool.setBytes number bytes = .ok pool' ↔
    (∃ pa, number.start = .ok pa) ∧ pool.frame? number ≠ none ∧
      pool' = pool.withBytes number bytes := by
  simp only [setBytes, bind_eq_ok, discard_eq_ok, frame_eq_ok, pure_eq_ok, exists_const,
    Option.ne_none_iff_exists', eq_comm (a := pool'), withBytes]

theorem frame?_withBytes (pool : Pool) (number other : FrameNumber) (bytes : PageBytes) :
    (pool.withBytes number bytes).frame? other =
      if number = other then (pool.frame? other).map fun frame => { frame with bytes }
      else pool.frame? other := frame?_modify _ _ _ _

section

variable {old bytes : PageBytes} {other : FrameNumber}

/-- What is written over the bytes of a frame leaves nothing of them. -/
theorem setBytes_withBytes (h : pool.setBytes number bytes = .ok pool') :
    (pool.withBytes number old).setBytes number bytes = .ok pool' := by
  obtain ⟨hstart, hframe, rfl⟩ := setBytes_eq_ok.1 h
  refine setBytes_eq_ok.2 ⟨hstart, ?_, (withBytes_withBytes _ _ _ _).symm⟩
  rw [frame?_withBytes, if_pos rfl]
  simpa using hframe

theorem bytes_withBytes (h : pool.bytes number = .ok bytes) :
    (pool.withBytes number old).bytes number = .ok old := by
  simp only [Pool.bytes, bind_eq_ok, discard_eq_ok, pure_eq_ok, frame_eq_ok, frame?_withBytes,
    if_true, exists_const] at h ⊢
  obtain ⟨hstart, frame, hframe, -⟩ := h
  rw [hframe]
  exact ⟨hstart, _, rfl, rfl⟩

theorem bytes_withBytes_of_ne (hne : number ≠ other) :
    (pool.withBytes number old).bytes other = pool.bytes other := by
  simp only [Pool.bytes, Pool.frame, frame?_withBytes, if_neg hne]

theorem allocate_withBytes (h : pool.allocate = some (other, pool')) :
    (pool.withBytes number old).allocate = some (other, pool'.withBytes number old) := by
  unfold allocate at h ⊢
  rw [show (pool.withBytes number old).freeList = pool.freeList from rfl]
  split at h
  · cases h
  · next first rest hfree =>
    cases h
    have hcomm : ({ pool with freeList := rest }.withBytes number old).setFlag other .allocated true =
        ({ pool with freeList := rest }.setFlag other .allocated true).withBytes number old :=
      modify_comm _ _ _ fun _ => rfl
    exact congrArg some (congrArg (Prod.mk other) hcomm)

theorem setPinned_withBytes {on : Bool} (h : pool.setPinned other on = .ok pool') :
    (pool.withBytes number old).setPinned other on = .ok (pool'.withBytes number old) := by
  simp only [setPinned, bind_eq_ok, discard_eq_ok, frame_eq_ok, pure_eq_ok, exists_const,
    frame?_withBytes] at h ⊢
  obtain ⟨⟨frame, hframe⟩, rfl⟩ := h
  refine ⟨?_, modify_comm _ _ _ fun _ => rfl⟩
  rw [hframe]
  split
  · exact ⟨_, rfl⟩
  · exact ⟨_, rfl⟩

end

/-! ### Counting -/

def allocatedCount (pool : Pool) : Nat := pool.frames.countP fun frame => frame.flags.allocated

theorem allocation_eq_getElem? (pool : Pool) (number : FrameNumber) :
    pool.allocation number = pool.frames[number.toNat]?.map (·.flags.allocated) := rfl

theorem map_allocation_range (pool : Pool) :
    (List.range pool.capacity).map (fun i => pool.allocation ⟨i⟩) =
      pool.frames.toList.map fun frame => some frame.flags.allocated := by
  refine List.ext_getElem (by simp [capacity]) fun i hi _ => ?_
  have hlt : i < pool.frames.size := by simpa [capacity] using hi
  simp [allocation_eq_getElem?, hlt]

/-- In a consistent pool every frame is either free or handed out. -/
theorem Consistent.freeCount_add_allocatedCount (h : pool.Consistent) :
    pool.freeCount + pool.allocatedCount = pool.capacity := by
  have hperm : (pool.freeList.map Number.toNat).Perm
      ((List.range pool.capacity).filter fun i => pool.allocation ⟨i⟩ == some false) := by
    refine (List.perm_ext_iff_of_nodup (List.Nodup.map ?_ h.nodup)
      (List.nodup_range.filter _)).2 ?_
    · intro a b hab
      exact Number.ext hab
    · intro i
      simp only [List.mem_map, List.mem_filter, List.mem_range, beq_iff_eq]
      constructor
      · rintro ⟨number, hmem, rfl⟩
        have hfree := (h.mem_freeList number).1 hmem
        refine ⟨?_, hfree⟩
        rw [allocation_eq_getElem?] at hfree
        by_contra hge
        rw [Array.getElem?_eq_none (Nat.not_lt.1 hge)] at hfree
        cases hfree
      · rintro ⟨-, hfree⟩
        exact ⟨⟨i⟩, (h.mem_freeList ⟨i⟩).2 hfree, rfl⟩
  have hcount : pool.freeCount = pool.frames.toList.countP fun frame => !frame.flags.allocated := by
    have hlength := hperm.length_eq
    rw [List.length_map, ← List.countP_eq_length_filter] at hlength
    have hmap : List.countP (· == some false)
        ((List.range pool.capacity).map fun i => pool.allocation ⟨i⟩) =
        List.countP (· == some false)
          (pool.frames.toList.map fun frame => some frame.flags.allocated) := by
      rw [map_allocation_range]
    rw [List.countP_map, List.countP_map] at hmap
    calc pool.freeCount = _ := hlength
      _ = _ := hmap
      _ = _ := by
        apply List.countP_congr
        intro frame _
        cases hflag : frame.flags.allocated <;> simp [hflag]
  have hsplit := List.length_eq_countP_add_countP (fun frame : Frame => frame.flags.allocated)
    (l := pool.frames.toList)
  have hallocated : pool.allocatedCount =
      pool.frames.toList.countP fun frame => frame.flags.allocated := by
    rw [allocatedCount, Array.countP_toList]
  have hneg : (pool.frames.toList.countP fun frame => !frame.flags.allocated) =
      pool.frames.toList.countP fun frame => decide ¬frame.flags.allocated = true := by
    apply List.countP_congr
    intro frame _
    cases frame.flags.allocated <;> simp
  have hcapacity : pool.capacity = pool.frames.toList.length := Array.length_toList.symm
  omega

theorem consistent_ofCapacity (capacity : Nat) : (ofCapacity capacity).Consistent where
  nodup := by
    refine List.Nodup.map ?_ List.nodup_range
    intro a b hab
    exact congrArg Number.toNat hab
  mem_freeList number := by
    rw [allocation_eq_getElem?]
    simp only [ofCapacity, List.mem_map, List.mem_range, Array.getElem?_replicate]
    constructor
    · rintro ⟨n, hn, rfl⟩
      rw [if_pos hn]
      rfl
    · intro hnumber
      split at hnumber
      · next hlt => exact ⟨number.toNat, hlt, rfl⟩
      · cases hnumber

end DemandPaging.Pool
