import DemandPaging.Proofs.Fate
import DemandPaging.Proofs.Machine.Components

/-!
How the bytes of a page get into a frame, and out of it.

Three actions do all of it: `bringIn` fills a frame, `moveOut` empties one for another page, and
`giveUp` lets go of the bytes for good. Each is said here by what it leaves in the state, and each
leaves the frame list, the pages, the page directories and the address spaces alone.
-/

namespace DemandPaging.Machine

variable {m m' : Machine} {f : FrameNumber}

/-! ### Frames and files -/

theorem returns_frameBytes {bytes : PageBytes} (h : Returns (frameBytes f) m bytes m') :
    m.view.bytes f = some bytes ∧ m' = m := by
  simp only [frameBytes, returns_get_bind, returns_liftM] at h
  exact ⟨Pool.bytes_eq_ok h.1, h.2⟩

theorem returns_setFrameBytes {bytes : PageBytes} {u : Unit}
    (h : Returns (setFrameBytes f bytes) m u m') :
    ∃ pool, m.pool.setBytes f bytes = .ok pool ∧ m' = { m with pool } := by
  simpa only [setFrameBytes, returns_bind, returns_get, returns_liftM, returns_setPool, and_assoc,
    exists_and_left, exists_eq_left] using h

theorem view_file_eq {file : File} {key : Key File} (h : m.files.get? key = some file) :
    m.view.file key = some file.unissued := by
  change (m.files.get? key).map _ = _
  rw [h, Option.map_some]

theorem view_shown_eq {slice : FileSlice} {file : File}
    (h : m.files.get? slice.handle.file = some file) : m.view.shown slice = slice.bytesIn file := by
  rw [View.shown, view_file_eq h]
  rfl

theorem returns_fillFromSlice {slice : FileSlice} {buffer bytes : PageBytes} {filled : Bool}
    (h : Returns (fillFromSlice slice buffer) m (filled, bytes) m') :
    m' = m ∧ (filled = true → bytes = m.view.shown slice) := by
  simp only [fillFromSlice, returns_bind, returns_getFile, returns_liftM, and_assoc,
    exists_and_left, exists_eq_left] at h
  obtain ⟨file, hfile, hread, rfl⟩ := h
  refine ⟨rfl, fun hfilled => ?_⟩
  rw [view_shown_eq hfile]
  exact FileSlice.readInto_eq_ok hread hfilled

/-- A buffer is filled from a slice where the file has all its bytes. -/
theorem filled_fillFromSlice_iff {slice : FileSlice} {buffer bytes : PageBytes} {filled : Bool}
    (h : Returns (fillFromSlice slice buffer) m (filled, bytes) m') :
    filled = true ↔ m.view.HasAll slice := by
  simp only [fillFromSlice, returns_bind, returns_getFile, returns_liftM, and_assoc,
    exists_and_left, exists_eq_left] at h
  obtain ⟨file, hfile, hread, rfl⟩ := h
  cases (slice.readInto_eq file buffer).symm.trans hread
  simp only [View.HasAll, view_file_eq hfile, Option.some.injEq, exists_eq_left', beq_iff_eq]
  rfl

theorem returns_fillPending {source : Pending} {buffer bytes : PageBytes} {filled : Bool}
    (h : Returns (fillPending source buffer) m (filled, bytes) m') :
    m' = m ∧ (filled = true → bytes = m.view.pendingBytes source) := by
  cases source with
  | zeros =>
      simp only [fillPending, returns_pure] at h
      obtain ⟨he, rfl⟩ := h
      cases he
      exact ⟨rfl, fun _ => rfl⟩
  | loader loader =>
      cases loader with
      | segment slice => exact returns_fillFromSlice h
      | fill byte count succeeds =>
          simp only [fillPending] at h
          split at h
          · simp only [returns_bind, not_returns_throw, false_and, exists_false] at h
          · obtain ⟨he, rfl⟩ := returns_pure.1 h
            cases he
            exact ⟨rfl, fun _ => rfl⟩
  | file slice => exact returns_fillFromSlice h

theorem returns_writeSliceBack {slice : FileSlice} {bytes : PageBytes} {u : Unit}
    (h : Returns (writeSliceBack slice bytes) m u m') :
    WrittenBack slice bytes true m.view m'.view ∧
      ∃ files events, m' = { m with files, events } := by
  simp only [writeSliceBack, returns_bind, returns_getFile, returns_liftM, returns_updateFile,
    and_assoc, exists_and_left, exists_eq_left, exists_const] at h
  obtain ⟨file, hfile, ⟨written, changed⟩, hback, h⟩ := h
  have hunissued : slice.writeBack file.unissued bytes = .ok (written, changed.unissued) := by
    unfold FileSlice.writeBack at hback ⊢
    split at hback
    · next hzero =>
      cases pure_eq_ok.1 hback
      rw [if_pos hzero]
      rfl
    · next hzero =>
      obtain ⟨hfits, hback⟩ := refuse_eq_ok.1 hback
      rw [if_neg hzero]
      refine refuse_eq_ok.2 ⟨hfits, ?_⟩
      have hpair := pure_eq_ok.1 hback
      rw [Prod.mk.injEq] at hpair
      obtain ⟨rfl, rfl⟩ := hpair
      rfl
  have hview := view_modifyFile _ hfile changed
  have hwritten : WrittenBack slice bytes true _ _ :=
    WrittenBack.dirty (view_file_eq hfile) hunissued
  rw [← hview] at hwritten
  split at h
  · rw [returns_record] at h
    subst h
    exact ⟨hwritten, _, _, rfl⟩
  · obtain ⟨-, rfl⟩ := returns_pure.1 h
    exact ⟨hwritten, _, _, rfl⟩

theorem returns_evictToSlice {slice : FileSlice} {bytes : PageBytes} {dirty : Bool} {u : Unit}
    (h : Returns (evictToSlice slice bytes dirty) m u m') :
    WrittenBack slice bytes dirty m.view m'.view ∧ ∃ files events, m' = { m with files, events } := by
  unfold evictToSlice at h
  split at h
  · next hdirty =>
    subst hdirty
    exact returns_writeSliceBack h
  · next hclean =>
    obtain ⟨-, rfl⟩ := returns_pure.1 h
    rw [Bool.not_eq_true] at hclean
    subst hclean
    exact ⟨.clean, _, _, rfl⟩

/-! ### Swap -/

theorem returns_asPage {bytes page : PageBytes} (h : Returns (liftM bytes.asPage) m page m') :
    page = bytes ∧ m' = m := by
  obtain ⟨hpage, rfl⟩ := returns_liftM.1 h
  refine ⟨?_, rfl⟩
  cases hpage
  rfl

theorem returns_storeInSwap {bytes : PageBytes} {slot : SwapSlot}
    (h : Returns (storeInSwap bytes) m (.ok slot) m') :
    m.view.isOccupied slot = false ∧ m'.view = m.view.occupy slot bytes ∧
      ∃ swap events, m' = { m with swap, events } := by
  simp only [storeInSwap, returns_bind, returns_get, returns_setSwap, and_assoc, exists_and_left,
    exists_eq_left, exists_const] at h
  obtain ⟨page, m₁, hpage, h⟩ := h
  obtain ⟨rfl, rfl⟩ := returns_asPage hpage
  cases hstore : m₁.swap.store page with
  | mk result swap =>
  rw [hstore] at h
  cases result with
  | error cause =>
      obtain ⟨he, -⟩ := returns_pure.1 h
      cases he
  | ok stored =>
      simp only [returns_bind, returns_record, returns_pure, exists_and_left, exists_eq_left,
        exists_const] at h
      obtain ⟨he, rfl⟩ := h
      cases he
      obtain ⟨hfree, hview⟩ := view_store _ hstore
      exact ⟨hfree, hview, swap, _, rfl⟩

theorem returns_readFromSwap {slot : SwapSlot} {buffer bytes : PageBytes}
    {result : Except SwapError Unit}
    (h : Returns (readFromSwap slot buffer) m (result, bytes) m') :
    m'.view = m.view ∧ (result = .ok () → bytes = m.view.pageIn slot) ∧
      ∃ swap, m' = { m with swap } := by
  simp only [readFromSwap, returns_bind, returns_get, returns_liftM, returns_setSwap,
    returns_pure, and_assoc, exists_and_left, exists_eq_left, exists_const] at h
  obtain ⟨page, -, ⟨answer, got, swap⟩, hread, he, rfl⟩ := h
  obtain ⟨hanswer, hbytes⟩ := Prod.mk.inj he
  subst hanswer hbytes
  obtain ⟨-, hunmoved, hgot⟩ := Swap.read_eq_ok hread
  exact ⟨view_unmoved _ hunmoved, hgot, swap, rfl⟩

theorem returns_loadFromSwap {slot : SwapSlot} {buffer bytes : PageBytes}
    {result : Except SwapError Unit}
    (h : Returns (loadFromSwap slot buffer) m (result, bytes) m') :
    (result = .ok () → bytes = m.view.pageIn slot ∧ m'.view = m.view.vacate (some slot)) ∧
      (result ≠ .ok () → m'.view = m.view) ∧ ∃ swap events, m' = { m with swap, events } := by
  simp only [loadFromSwap, returns_bind, returns_get, returns_liftM, returns_setSwap, and_assoc,
    exists_and_left, exists_eq_left, exists_const] at h
  obtain ⟨page, -, ⟨answer, got, swap⟩, hload, h⟩ := h
  obtain ⟨-, hsectors, hslots, hok, hfailed⟩ := Swap.load_eq_ok hload
  cases answer with
  | ok u =>
      simp only [returns_bind, returns_record, returns_pure, exists_and_left, exists_eq_left,
        exists_const] at h
      obtain ⟨he, rfl⟩ := h
      cases he
      obtain ⟨hgot, hoccupied⟩ := hok rfl
      exact ⟨fun _ => ⟨hgot, view_vacate _ hsectors hslots hoccupied⟩, fun hne => absurd rfl hne,
        swap, _, rfl⟩
  | error cause =>
      obtain ⟨he, rfl⟩ := returns_pure.1 h
      cases he
      exact ⟨fun he => (by cases he), fun _ => view_unmoved _ (hfailed fun he => by cases he),
        swap, _, rfl⟩

theorem returns_freeSwapSlot {slot : SwapSlot} {u : Unit}
    (h : Returns (freeSwapSlot slot) m u m') :
    m'.view = m.view.vacate (some slot) ∧ ∃ swap, m' = { m with swap } := by
  simp only [freeSwapSlot, returns_bind, returns_get, returns_liftM, returns_setSwap, and_assoc,
    exists_and_left, exists_eq_left] at h
  obtain ⟨swap, hfree, rfl⟩ := h
  obtain ⟨-, hoccupied, hdisk, hslots⟩ := Swap.free_eq_ok hfree
  exact ⟨view_vacate _ (by rw [hdisk]) hslots hoccupied, swap, rfl⟩

theorem vacate_none (v : View) : v.vacate none = v := by
  simp [View.vacate]

/-- Anonymous bytes are read from their slot, which is freed, or are zeros. -/
theorem returns_fillAnonymous {slot slot' : Option SwapSlot} {buffer bytes : PageBytes}
    {result : Except SwapError Unit}
    (h : Returns (fillAnonymous slot buffer) m (slot', result, bytes) m') :
    (result = .ok () → slot' = none ∧ bytes = m.view.contentsBytes (.anonymous slot) ∧
      m'.view = m.view.vacate slot) ∧
      (result ≠ .ok () → m'.view = m.view) ∧ ∃ swap events, m' = { m with swap, events } := by
  cases slot with
  | none =>
      simp only [fillAnonymous, returns_pure] at h
      obtain ⟨he, rfl⟩ := h
      cases he
      exact ⟨fun _ => ⟨rfl, rfl, (vacate_none _).symm⟩, fun hne => absurd rfl hne, _, _, rfl⟩
  | some slot =>
      simp only [fillAnonymous, dite_true, returns_bind] at h
      obtain ⟨⟨answer, got⟩, m₁, hload, h⟩ := h
      obtain ⟨hok, hfailed, hsame⟩ := returns_loadFromSwap hload
      cases answer with
      | ok u =>
          obtain ⟨he, rfl⟩ := returns_pure.1 h
          cases he
          obtain ⟨hgot, hview⟩ := hok rfl
          exact ⟨fun _ => ⟨rfl, hgot, hview⟩, fun hne => absurd rfl hne, hsame⟩
      | error cause =>
          obtain ⟨he, rfl⟩ := returns_pure.1 h
          cases he
          exact ⟨fun he => (by cases he), fun _ => hfailed (fun he => (by cases he)), hsame⟩

/-! ### Into a frame -/

/-- What was brought in are the bytes of the page; what was not leaves the frame to be given back. -/
theorem returns_bringIn {contents : Contents} {result : Option Contents}
    (h : Returns (bringIn contents f) m result m') :
    ∃ bytes pool swap events, m' = { m with pool, swap, events } ∧
      Pool.SameAllocation m.pool pool ∧
      (∀ settled, result = some settled → settled = contents.settled ∧
        bytes = m.view.contentsBytes contents ∧
        m'.view = (m.view.setBytes f bytes).vacate contents.slot?) ∧
      (result = none → m'.view = m.view.setBytes f bytes) := by
  simp only [bringIn, returns_bind] at h
  obtain ⟨buffer, _, hbuffer, h⟩ := h
  obtain ⟨-, rfl⟩ := returns_frameBytes hbuffer
  cases contents with
  | pending source =>
      simp only [returns_bind, returns_pure] at h
      obtain ⟨⟨filled, bytes⟩, _, hfill, _, _, hset, rfl, rfl⟩ := h
      obtain ⟨rfl, hbytes⟩ := returns_fillPending hfill
      obtain ⟨pool, hpool, rfl⟩ := returns_setFrameBytes hset
      have hview := view_setBytes _ hpool
      refine ⟨bytes, pool, _, _, rfl, Pool.sameAllocation_setBytes hpool, ?_, fun _ => hview⟩
      intro settled hsettled
      split at hsettled
      · next hfilled =>
        cases hsettled
        exact ⟨rfl, hbytes hfilled, hview.trans (vacate_none _).symm⟩
      · cases hsettled
  | anonymous slot =>
      simp only [returns_bind] at h
      obtain ⟨⟨slot', result', bytes⟩, m₁, hfill, _, m₂, hset, h⟩ := h
      obtain ⟨hok, hfailed, swap, events, rfl⟩ := returns_fillAnonymous hfill
      obtain ⟨pool, hpool, rfl⟩ := returns_setFrameBytes hset
      have hview := view_setBytes _ hpool
      cases result' with
      | ok u =>
          obtain ⟨rfl, rfl⟩ := returns_pure.1 h
          obtain ⟨rfl, hbytes, hvacated⟩ := hok rfl
          refine ⟨bytes, pool, swap, _, rfl, Pool.sameAllocation_setBytes hpool, ?_,
            fun he => by cases he⟩
          intro settled hsettled
          cases hsettled
          rw [hvacated] at hview
          exact ⟨rfl, hbytes, hview⟩
      | error cause =>
          simp only [returns_bind, returns_record, returns_pure, exists_and_left, exists_eq_left,
            exists_const] at h
          obtain ⟨rfl, rfl⟩ := h
          have hunmoved := hfailed fun he => by cases he
          rw [hunmoved] at hview
          exact ⟨bytes, pool, swap, _, rfl, Pool.sameAllocation_setBytes hpool,
            fun _ he => (by cases he), fun _ => hview⟩
  | file slice =>
      simp only [returns_bind, returns_pure] at h
      obtain ⟨⟨filled, bytes⟩, _, hfill, _, _, hset, rfl, rfl⟩ := h
      obtain ⟨rfl, hbytes⟩ := returns_fillFromSlice hfill
      obtain ⟨pool, hpool, rfl⟩ := returns_setFrameBytes hset
      have hview := view_setBytes _ hpool
      refine ⟨bytes, pool, _, _, rfl, Pool.sameAllocation_setBytes hpool, ?_, fun _ => hview⟩
      intro settled hsettled
      split at hsettled
      · next hfilled =>
        cases hsettled
        exact ⟨rfl, hbytes hfilled, hview.trans (vacate_none _).symm⟩
      · cases hsettled

/-- Nothing is brought in from a slice unless the file has all its bytes. -/
theorem hasAll_of_bringIn {contents settled : Contents} {slice : FileSlice}
    (h : Returns (bringIn contents f) m (some settled) m') (hslice : contents.slice? = some slice) :
    m.view.HasAll slice := by
  simp only [bringIn, returns_bind] at h
  obtain ⟨buffer, _, hbuffer, h⟩ := h
  obtain ⟨-, rfl⟩ := returns_frameBytes hbuffer
  cases contents with
  | pending source =>
      simp only [returns_bind, returns_pure] at h
      obtain ⟨⟨filled, bytes⟩, _, hfill, _, _, -, he, -⟩ := h
      have hfilled : filled = true := by
        by_contra hnot
        rw [if_neg hnot] at he
        cases he
      cases source with
      | zeros => cases hslice
      | file own =>
          cases hslice
          exact (filled_fillFromSlice_iff hfill).1 hfilled
      | loader loader =>
          cases loader with
          | fill byte count succeeds => cases hslice
          | segment own =>
              cases hslice
              exact (filled_fillFromSlice_iff hfill).1 hfilled
  | anonymous slot => cases hslice
  | file own =>
      cases hslice
      simp only [returns_bind, returns_pure] at h
      obtain ⟨⟨filled, bytes⟩, _, hfill, _, _, -, he, -⟩ := h
      refine (filled_fillFromSlice_iff hfill).1 ?_
      by_contra hnot
      rw [if_neg hnot] at he
      cases he

/-! ### Out of a frame -/

theorem returns_moveOut {contents moved : Contents} {dirty : Bool}
    (h : Returns (moveOut contents f dirty) m moved m') :
    ∃ bytes, m.view.bytes f = some bytes ∧ Stowed bytes dirty contents m.view moved m'.view ∧
      ∃ swap files events, m' = { m with swap, files, events } := by
  simp only [moveOut, returns_bind] at h
  obtain ⟨buffer, _, hbuffer, h⟩ := h
  obtain ⟨hbytes, rfl⟩ := returns_frameBytes hbuffer
  refine ⟨buffer, hbytes, ?_⟩
  cases contents with
  | pending source => exact absurd h not_returns_throw
  | anonymous slot =>
      cases slot with
      | some slot =>
          simp only [evictAnonymous, Option.isSome_some, if_true, returns_bind,
            not_returns_throw, false_and, exists_false] at h
      | none =>
          simp only [evictAnonymous, Option.isSome_none, Bool.false_eq_true, if_false,
            returns_bind, returns_pure] at h
          obtain ⟨slot, _, ⟨result, m₁, hstore, h⟩, rfl, rfl⟩ := h
          cases result with
          | error cause => exact absurd h not_returns_throw
          | ok stored =>
              obtain ⟨rfl, rfl⟩ := returns_pure.1 h
              obtain ⟨hfree, hview, swap, events, rfl⟩ := returns_storeInSwap hstore
              refine ⟨?_, swap, _, events, rfl⟩
              rw [hview]
              exact .slot hfree
  | file slice =>
      simp only [returns_bind, returns_pure] at h
      obtain ⟨_, m₁, hevict, rfl, rfl⟩ := h
      obtain ⟨hback, files, events, rfl⟩ := returns_evictToSlice hevict
      exact ⟨.file hback, _, files, events, rfl⟩

theorem returns_giveUp_of_resident {contents left : Contents} {dirty : Bool}
    (hfits : contents.Fits true) (h : Returns (giveUp contents (some f) dirty) m left m') :
    ∃ bytes, m.view.bytes f = some bytes ∧ GivenUp bytes dirty contents m.view m'.view ∧
      ∃ files events, m' = { m with files, events } := by
  simp only [giveUp, Option.mapM_some, returns_bind, returns_pure, map_eq_pure_bind] at h
  obtain ⟨_, _, ⟨buffer, _, hbuffer, rfl, rfl⟩, h⟩ := h
  obtain ⟨hbytes, rfl⟩ := returns_frameBytes hbuffer
  refine ⟨buffer, hbytes, ?_⟩
  cases contents with
  | pending source => cases hfits
  | anonymous slot =>
      cases slot with
      | some slot => cases hfits
      | none =>
          simp only [discardAnonymous, returns_bind, returns_pure] at h
          obtain ⟨_, _, ⟨-, _, ⟨-, rfl⟩, -, rfl⟩, -, rfl⟩ := h
          exact ⟨.anonymous, _, _, rfl⟩
  | file slice =>
      simp only [returns_bind, returns_pure] at h
      obtain ⟨_, m₁, hevict, -, rfl⟩ := h
      obtain ⟨hback, hsame⟩ := returns_evictToSlice hevict
      exact ⟨.file hback, hsame⟩

/-- Giving up a page that is in no frame frees its slot, if it has one. -/
theorem returns_giveUp_of_absent {contents left : Contents} {dirty : Bool}
    (h : Returns (giveUp contents none dirty) m left m') :
    m'.view = m.view.vacate contents.slot? ∧ ∃ swap, m' = { m with swap } := by
  simp only [giveUp, Option.mapM_none, returns_bind, returns_pure] at h
  obtain ⟨_, _, ⟨rfl, rfl⟩, h⟩ := h
  cases contents with
  | pending source =>
      obtain ⟨-, rfl⟩ := returns_pure.1 h
      exact ⟨(vacate_none _).symm, _, rfl⟩
  | anonymous slot =>
      cases slot with
      | none =>
          simp only [discardAnonymous, returns_bind, returns_pure] at h
          obtain ⟨_, _, ⟨-, _, ⟨-, rfl⟩, -, rfl⟩, -, rfl⟩ := h
          exact ⟨(vacate_none _).symm, _, rfl⟩
      | some slot =>
          simp only [discardAnonymous, returns_bind, returns_pure] at h
          obtain ⟨_, _, ⟨_, _, hfree, -, rfl⟩, -, rfl⟩ := h
          exact returns_freeSwapSlot hfree
  | file slice =>
      obtain ⟨-, rfl⟩ := returns_pure.1 h
      exact ⟨(vacate_none _).symm, _, rfl⟩

end DemandPaging.Machine
