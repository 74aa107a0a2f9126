import DemandPaging.Proofs.Machine.Copies

/-!
What a frame held before it was filled.

A frame is handed out with the bytes that were left in it. Whatever fills it, a loader, a file, a
slot or another frame, is given these bytes and must not let any of them through. So each action
that fills a frame is followed here a second time, from a state in which the frame held something
else: if it filled the frame the first time, it does so again and ends in the very same state, with
nothing left that could tell the two apart.

What is done before the frame is filled does not look at its bytes, and carries the difference
along.
-/

namespace DemandPaging.Machine

def withBytes (m : Machine) (f : FrameNumber) (bytes : PageBytes) : Machine :=
  { m with pool := m.pool.withBytes f bytes }

variable {m m' : Machine} {f : FrameNumber} {key : Key Page} {page : Page} {d : Key Directory}
  {index : Nat} {old : PageBytes}

/-! ### Buffers -/

theorem frameBytes_withBytes {bytes : PageBytes} (h : Returns (frameBytes f) m bytes m')
    (old : PageBytes) :
    m' = m ∧ Returns (frameBytes f) (m.withBytes f old) old (m.withBytes f old) := by
  simp only [frameBytes, returns_get_bind, returns_liftM] at h ⊢
  exact ⟨h.2, Pool.bytes_withBytes h.1, trivial⟩

/-- The bytes that are put into a frame take the place of all that was there. -/
theorem setFrameBytes_overwrites {bytes : PageBytes} {u : Unit}
    (h : Returns (setFrameBytes f bytes) m u m') :
    Returns (setFrameBytes f bytes) (m.withBytes f old) u m' := by
  obtain ⟨pool, hpool, rfl⟩ := returns_setFrameBytes h
  simp only [setFrameBytes, returns_bind, returns_get, returns_liftM, returns_setPool, and_assoc,
    exists_and_left, exists_eq_left]
  exact ⟨pool, Pool.setBytes_withBytes hpool, rfl⟩

theorem fillFromSlice_withBytes {slice : FileSlice} {buffer : PageBytes} {r : Bool × PageBytes}
    (h : Returns (fillFromSlice slice buffer) m r m') (buffer' : PageBytes) :
    Returns (fillFromSlice slice buffer') (m.withBytes f old) r (m'.withBytes f old) := by
  simp only [fillFromSlice, returns_bind, returns_getFile, returns_liftM, and_assoc,
    exists_and_left, exists_eq_left] at h ⊢
  obtain ⟨file, hfile, hread, rfl⟩ := h
  refine ⟨file, hfile, ?_, rfl⟩
  rw [← hread]
  exact slice.readInto_eq_readInto file buffer' buffer

theorem fillPending_withBytes {source : Pending} {buffer : PageBytes} {r : Bool × PageBytes}
    (h : Returns (fillPending source buffer) m r m') (buffer' : PageBytes) :
    Returns (fillPending source buffer') (m.withBytes f old) r (m'.withBytes f old) := by
  cases source with
  | zeros =>
      obtain ⟨rfl, rfl⟩ := returns_pure.1 h
      exact returns_pure.2 ⟨rfl, rfl⟩
  | loader loader =>
      cases loader with
      | segment slice => exact fillFromSlice_withBytes h _
      | fill byte count succeeds =>
          simp only [fillPending, returns_refuse] at h ⊢
          obtain ⟨hfits, h⟩ := h
          obtain ⟨rfl, rfl⟩ := returns_pure.1 h
          exact ⟨hfits, returns_pure.2 ⟨rfl, rfl⟩⟩
  | file slice => exact fillFromSlice_withBytes h _

/-- A transfer from swap fills the whole buffer, unless the device refuses. -/
theorem readFromSwap_withBytes {slot : SwapSlot} {buffer bytes : PageBytes}
    (h : Returns (readFromSwap slot buffer) m (.ok (), bytes) m') (buffer' : PageBytes) :
    Returns (readFromSwap slot buffer') (m.withBytes f old) (.ok (), bytes)
      (m'.withBytes f old) := by
  simp only [readFromSwap, returns_bind, returns_get, returns_liftM, returns_setSwap,
    returns_pure, and_assoc, exists_and_left, exists_eq_left, exists_const] at h ⊢
  obtain ⟨page, -, ⟨answer, got, swap⟩, hread, he, rfl⟩ := h
  obtain ⟨hanswer, hbytes⟩ := Prod.mk.inj he
  subst hanswer hbytes
  exact ⟨buffer', rfl, _, Swap.read_of_ok hread buffer', rfl, rfl⟩

theorem loadFromSwap_withBytes {slot : SwapSlot} {buffer bytes : PageBytes}
    (h : Returns (loadFromSwap slot buffer) m (.ok (), bytes) m') (buffer' : PageBytes) :
    Returns (loadFromSwap slot buffer') (m.withBytes f old) (.ok (), bytes)
      (m'.withBytes f old) := by
  simp only [loadFromSwap, returns_bind, returns_get, returns_liftM, returns_setSwap, and_assoc,
    exists_and_left, exists_eq_left, exists_const] at h ⊢
  obtain ⟨page, -, ⟨answer, got, swap⟩, hload, h⟩ := h
  cases answer with
  | error cause =>
      obtain ⟨he, -⟩ := returns_pure.1 h
      cases he
  | ok u =>
      refine ⟨buffer', rfl, _, Swap.load_of_ok hload buffer', ?_⟩
      simp only [returns_bind, returns_record, returns_pure, exists_and_left, exists_eq_left,
        exists_const] at h ⊢
      obtain ⟨he, rfl⟩ := h
      exact ⟨he, rfl⟩

theorem fillAnonymous_withBytes {slot slot' : Option SwapSlot} {buffer bytes : PageBytes}
    (h : Returns (fillAnonymous slot buffer) m (slot', .ok (), bytes) m') (buffer' : PageBytes) :
    Returns (fillAnonymous slot buffer') (m.withBytes f old) (slot', .ok (), bytes)
      (m'.withBytes f old) := by
  cases slot with
  | none =>
      obtain ⟨he, rfl⟩ := returns_pure.1 h
      exact returns_pure.2 ⟨he, rfl⟩
  | some slot =>
      simp only [fillAnonymous, dite_true, returns_bind] at h ⊢
      obtain ⟨⟨answer, got⟩, m₁, hload, h⟩ := h
      cases answer with
      | error cause =>
          obtain ⟨he, -⟩ := returns_pure.1 h
          cases he
      | ok u =>
          obtain ⟨he, rfl⟩ := returns_pure.1 h
          exact ⟨_, _, loadFromSwap_withBytes hload _, returns_pure.2 ⟨he, rfl⟩⟩

/-! ### Frames -/

/-- A page that was brought in leaves nothing of what the frame held. -/
theorem bringIn_overwrites {contents settled : Contents}
    (h : Returns (bringIn contents f) m (some settled) m') :
    Returns (bringIn contents f) (m.withBytes f old) (some settled) m' := by
  simp only [bringIn, returns_bind] at h ⊢
  obtain ⟨buffer, _, hbuffer, h⟩ := h
  obtain ⟨rfl, hbuffer'⟩ := frameBytes_withBytes hbuffer old
  refine ⟨old, _, hbuffer', ?_⟩
  cases contents with
  | pending source =>
      simp only [returns_bind] at h ⊢
      obtain ⟨⟨filled, bytes⟩, _, hfill, _, _, hset, hanswer⟩ := h
      exact ⟨_, _, fillPending_withBytes hfill old, _, _, setFrameBytes_overwrites hset, hanswer⟩
  | anonymous slot =>
      simp only [returns_bind] at h ⊢
      obtain ⟨⟨slot', result, bytes⟩, _, hfill, _, _, hset, hanswer⟩ := h
      cases result with
      | error cause =>
          simp only [returns_bind, returns_pure] at hanswer
          obtain ⟨_, _, -, he, -⟩ := hanswer
          cases he
      | ok u =>
          exact ⟨_, _, fillAnonymous_withBytes hfill old, _, _, setFrameBytes_overwrites hset,
            hanswer⟩
  | file slice =>
      simp only [returns_bind] at h ⊢
      obtain ⟨⟨filled, bytes⟩, _, hfill, _, _, hset, hanswer⟩ := h
      exact ⟨_, _, fillFromSlice_withBytes hfill old, _, _, setFrameBytes_overwrites hset, hanswer⟩

theorem copyBytes_overwrites {source : CopySource} (hapart : source ≠ .frame f)
    (h : Returns (copyBytes source f) m true m') :
    Returns (copyBytes source f) (m.withBytes f old) true m' := by
  cases source with
  | frame g =>
      have hne : f ≠ g := fun he => hapart (by rw [he])
      simp only [copyBytes, copyFrame, returns_bind, returns_get, returns_liftM, returns_setPool,
        returns_pure, and_assoc, exists_and_left, exists_eq_left, exists_const, Pool.copy,
        bind_eq_ok] at h ⊢
      obtain ⟨_, ⟨pool, ⟨_, hstart, _, hstart', bytes, hbytes, hset⟩, rfl⟩, -, rfl⟩ := h
      refine ⟨_, ⟨pool, ⟨_, hstart, _, hstart', bytes, ?_, Pool.setBytes_withBytes hset⟩, rfl⟩,
        trivial, rfl⟩
      exact (Pool.bytes_withBytes_of_ne hne).trans hbytes
  | slot slot =>
      simp only [copyBytes, returns_bind] at h ⊢
      obtain ⟨buffer, _, hbuffer, ⟨result, bytes⟩, m₁, hread, _, m₂, hset, hanswer⟩ := h
      obtain ⟨rfl, hbuffer'⟩ := frameBytes_withBytes hbuffer old
      obtain ⟨hok, rfl⟩ := returns_pure.1 hanswer
      cases result with
      | error cause => cases hok
      | ok u =>
          exact ⟨_, _, hbuffer', _, _, readFromSwap_withBytes hread old, _, _,
            setFrameBytes_overwrites hset, returns_pure.2 ⟨rfl, rfl⟩⟩

/-! ### Operations on pages -/

/-- A claim that succeeds comes to the same end whatever the frame held when it was acquired. -/
theorem claimInto_overwrites (hslot : m.listed[index]? = some ⟨f, none⟩)
    (h : Answers (claimInto key page d index) m (.ok ()) m') :
    Answers (claimInto key page d index) (m.withBytes f old) (.ok ()) m' := by
  simp only [claimInto, answers_liftM_bind, returns_getSlot, and_assoc, exists_and_left,
    exists_eq_left] at h ⊢
  obtain ⟨_, hslot', result, m₁, hbring, h⟩ := h
  rw [hslot] at hslot'
  cases hslot'
  refine ⟨_, hslot, result, m₁, ?_, h⟩
  cases result with
  | some contents => exact bringIn_overwrites hbring
  | none =>
      simp only [answers_liftM_bind] at h
      obtain ⟨_, _, -, h⟩ := h
      cases (answers_throw.1 h).1

theorem copyInto_overwrites (hslot : m.listed[index]? = some ⟨f, none⟩) {copy : Page}
    {copyKey : Key Page} {source : CopySource} (hapart : source ≠ .frame f)
    (h : Answers (copyInto copy source d index) m (.ok copyKey) m') :
    Answers (copyInto copy source d index) (m.withBytes f old) (.ok copyKey) m' := by
  simp only [copyInto, answers_liftM_bind, returns_getSlot, and_assoc, exists_and_left,
    exists_eq_left] at h ⊢
  obtain ⟨_, hslot', copied, m₁, hbytes, h⟩ := h
  rw [hslot] at hslot'
  cases hslot'
  refine ⟨_, hslot, copied, m₁, ?_, h⟩
  cases copied with
  | true => exact copyBytes_overwrites hapart hbytes
  | false =>
      simp only [Bool.false_eq_true, if_false, answers_liftM_bind] at h
      obtain ⟨_, _, -, h⟩ := h
      cases (answers_throw.1 h).1

/-! ### On the way to a frame -/

/-- Which frame of the pool is handed out does not depend on its bytes. -/
theorem acquire_withBytes (htidy : m.Tidy) (hfree : m.view.isAllocated f = some false)
    (h : Returns acquire m (some index) m') :
    Returns acquire (m.withBytes f old) (some index) (m'.withBytes f old) := by
  simp only [acquire, allocateFrame, returns_bind, returns_get, and_assoc, exists_and_left,
    exists_eq_left] at h ⊢
  obtain ⟨frame?, m₁, hallocate, h⟩ := h
  cases hpool : m.pool.allocate with
  | none =>
      have hmem : f ∈ m.pool.freeList := (htidy.pool.mem_freeList f).2 hfree
      unfold Pool.allocate at hpool
      split at hpool
      · next hempty =>
        rw [hempty] at hmem
        cases hmem
      · cases hpool
  | some handed =>
      obtain ⟨g, pool⟩ := handed
      rw [hpool] at hallocate
      rw [show (m.withBytes f old).pool.allocate = _ from Pool.allocate_withBytes hpool]
      simp only [returns_bind, returns_setPool, returns_record, returns_pure, exists_and_left,
        exists_eq_left, exists_const] at hallocate ⊢
      obtain ⟨rfl, rfl⟩ := hallocate
      refine ⟨_, _, ⟨rfl, rfl⟩, ?_⟩
      simp only [returns_bind, returns_get, returns_setListed, returns_pure, and_assoc,
        exists_and_left, exists_eq_left, exists_const] at h ⊢
      obtain ⟨he, rfl⟩ := h
      exact ⟨he, rfl⟩

theorem pinFrame_withBytes {g : FrameNumber} {on : Bool} {u : Unit}
    (h : Returns (pinFrame g on) m u m') :
    Returns (pinFrame g on) (m.withBytes f old) u (m'.withBytes f old) := by
  simp only [pinFrame, returns_bind, returns_get, returns_liftM, returns_setPool, and_assoc,
    exists_and_left, exists_eq_left] at h ⊢
  obtain ⟨pool, hpinned, rfl⟩ := h
  exact ⟨_, Pool.setPinned_withBytes hpinned, rfl⟩

theorem acquireBeside_withBytes (htidy : m.Tidy) (hfree : m.view.isAllocated f = some false)
    {source : CopySource} (h : Returns (acquireBeside source) m (some index) m') :
    Returns (acquireBeside source) (m.withBytes f old) (some index) (m'.withBytes f old) := by
  cases source with
  | slot slot => exact acquire_withBytes htidy hfree h
  | frame g =>
      simp only [acquireBeside, returns_bind, returns_pure] at h ⊢
      obtain ⟨_, m₁, hpin, acquired, m₂, hacquire, _, m₃, hunpin, he, rfl⟩ := h
      cases he
      obtain ⟨pool, hpinned, hm₁⟩ := returns_pinFrame hpin
      have hsame := Pool.sameAllocation_setPinned hpinned
      have htidy₁ : m₁.Tidy := htidy.congr (by rw [hm₁]; exact hsame) (by rw [hm₁])
      have hfree₁ : m₁.view.isAllocated f = some false := by
        rw [hm₁]
        exact (hsame.allocation f).trans hfree
      exact ⟨_, _, pinFrame_withBytes hpin, _, _, acquire_withBytes htidy₁ hfree₁ hacquire,
        _, _, pinFrame_withBytes hunpin, rfl, rfl⟩

theorem reopen_withBytes {file : Key File} {handle? : Option Handle}
    (h : Returns (reopen file) m handle? m') :
    Returns (reopen file) (m.withBytes f old) handle? (m'.withBytes f old) := by
  simp only [reopen, returns_bind, returns_getFile, returns_get, and_assoc, exists_and_left,
    exists_eq_left] at h ⊢
  obtain ⟨current, hfile, h⟩ := h
  refine ⟨current, hfile, ?_⟩
  rw [show (m.withBytes f old).canReopen file current = m.canReopen file current from rfl]
  split at h
  · next hcan =>
    rw [if_pos hcan]
    simp only [returns_bind, returns_updateFile, returns_pure, exists_and_left, exists_eq_left,
      exists_const] at h ⊢
    obtain ⟨rfl, rfl⟩ := h
    exact ⟨rfl, rfl⟩
  · next hcannot =>
    rw [if_neg hcannot]
    obtain ⟨rfl, rfl⟩ := returns_pure.1 h
    exact returns_pure.2 ⟨rfl, rfl⟩

theorem duplicateSlice_withBytes {slice : FileSlice} {slice? : Option FileSlice}
    (h : Returns (duplicateSlice slice) m slice? m') :
    Returns (duplicateSlice slice) (m.withBytes f old) slice? (m'.withBytes f old) := by
  simp only [duplicateSlice, returns_bind, returns_pure] at h ⊢
  obtain ⟨handle?, _, hreopen, he, rfl⟩ := h
  exact ⟨_, _, reopen_withBytes hreopen, he, rfl⟩

theorem duplicatePending_withBytes {source : Pending} {source? : Option Pending}
    (h : Returns (duplicatePending source) m source? m') :
    Returns (duplicatePending source) (m.withBytes f old) source? (m'.withBytes f old) := by
  cases source with
  | zeros =>
      obtain ⟨rfl, rfl⟩ := returns_pure.1 h
      exact returns_pure.2 ⟨rfl, rfl⟩
  | loader loader =>
      cases loader with
      | segment slice =>
          simp only [duplicatePending, returns_bind, returns_pure] at h ⊢
          obtain ⟨slice?, _, hslice, he, rfl⟩ := h
          exact ⟨_, _, duplicateSlice_withBytes hslice, he, rfl⟩
      | fill byte count succeeds =>
          obtain ⟨rfl, rfl⟩ := returns_pure.1 h
          exact returns_pure.2 ⟨rfl, rfl⟩
  | file slice =>
      simp only [duplicatePending, returns_bind, returns_pure] at h ⊢
      obtain ⟨slice?, _, hslice, he, rfl⟩ := h
      exact ⟨_, _, duplicateSlice_withBytes hslice, he, rfl⟩

theorem copyContents_withBytes {parts : Contents × Option CopySource}
    (h : Answers (copyContents page) m (.ok parts) m') :
    Answers (copyContents page) (m.withBytes f old) (.ok parts) (m'.withBytes f old) := by
  unfold copyContents at h ⊢
  split at h
  · next source hcontents =>
    simp only [answers_liftM_bind] at h ⊢
    obtain ⟨source?, m₁, hduplicate, h⟩ := h
    refine ⟨_, _, duplicatePending_withBytes hduplicate, ?_⟩
    cases source? with
    | none => cases (answers_throw.1 h).1
    | some source' =>
        obtain ⟨he, rfl⟩ := answers_pure.1 h
        exact answers_pure.2 ⟨he, rfl⟩
  · next slot hcontents =>
    obtain ⟨he, rfl⟩ := answers_pure.1 h
    exact answers_pure.2 ⟨he, rfl⟩
  · next slice hcontents =>
    simp only [answers_liftM_bind] at h ⊢
    obtain ⟨slice?, m₁, hduplicate, h⟩ := h
    refine ⟨_, _, duplicateSlice_withBytes hduplicate, ?_⟩
    cases slice? with
    | none => cases (answers_throw.1 h).1
    | some slice' =>
        obtain ⟨he, rfl⟩ := answers_pure.1 h
        exact answers_pure.2 ⟨he, rfl⟩

end DemandPaging.Machine
