import DemandPaging.Proofs.Claiming

/-!
What it takes to bring a page in.

A page needs a frame and its bytes. The frame comes from the pool or from the page that has to leave
for it, which an anonymous page can only if swap takes it. The bytes can be had if the file has all of
them, or if the device grants each request of the transfer from the slot of the page. Which requests
a device grants may depend on how many came before, and a page that leaves for swap makes eight of
them, so these are counted.

Whether a claim is answered, and how, is decided by these two in the state in which it begins.
-/

namespace DemandPaging

open Machine

/-! ### The bytes of a page -/

/-- Whether contents load if all their bytes are there. A loader may fail of its own accord. -/
def Contents.loads : Contents → Bool
  | .pending (.loader (.fill _ _ succeeds)) => succeeds
  | _ => true

/-- The bytes of a page can be had, after `later` other requests to the device. -/
structure Machine.Obtainable (m : Machine) (later : Nat) (contents : Contents) : Prop where
  slice : ∀ slice, contents.slice? = some slice → m.view.HasAll slice
  slot : ∀ slot, contents.slot? = some slot → m.swap.Grants later .read slot
  loads : contents.loads = true

instance (m : Machine) (later : Nat) (contents : Contents) : Decidable (m.Obtainable later contents) :=
  decidable_of_iff ((∀ slice ∈ contents.slice?, m.view.HasAll slice) ∧
      (∀ slot ∈ contents.slot?, m.swap.Grants later .read slot) ∧ contents.loads = true)
    ⟨fun h => ⟨h.1, h.2.1, h.2.2⟩, fun h => ⟨h.slice, h.slot, h.loads⟩⟩

variable {m m₁ m' : Machine} {later : Nat} {contents : Contents} {f : FrameNumber}

namespace Machine

theorem obtainable_file_iff {slice : FileSlice} :
    m.Obtainable later (.file slice) ↔ m.view.HasAll slice := by
  refine ⟨fun h => h.slice slice rfl, fun h => ⟨?_, nofun, rfl⟩⟩
  rintro _ ⟨⟩
  exact h

theorem obtainable_anonymous_iff {slot? : Option SwapSlot} :
    m.Obtainable later (.anonymous slot?) ↔
      ∀ slot, slot? = some slot → m.swap.Grants later .read slot :=
  ⟨fun h => h.slot, fun h => ⟨nofun, h, rfl⟩⟩

theorem obtainable_zeros : m.Obtainable later (.pending .zeros) := ⟨nofun, nofun, rfl⟩

theorem filled_fillPending_iff {source : Pending} {buffer bytes : PageBytes} {filled : Bool}
    (h : Returns (fillPending source buffer) m (filled, bytes) m') :
    filled = true ↔ m.Obtainable later (.pending source) := by
  cases source with
  | zeros =>
      obtain ⟨he, -⟩ := returns_pure.1 h
      cases he
      exact ⟨fun _ => obtainable_zeros, fun _ => rfl⟩
  | file slice =>
      rw [filled_fillFromSlice_iff h]
      refine ⟨fun hall => ⟨?_, fun _ he => (by cases he), rfl⟩,
        fun hobtainable => hobtainable.slice slice rfl⟩
      rintro _ ⟨⟩
      exact hall
  | loader loader =>
      cases loader with
      | segment slice =>
          rw [filled_fillFromSlice_iff h]
          refine ⟨fun hall => ⟨?_, fun _ he => (by cases he), rfl⟩,
            fun hobtainable => hobtainable.slice slice rfl⟩
          rintro _ ⟨⟩
          exact hall
      | fill byte count succeeds =>
          simp only [fillPending] at h
          split at h
          · simp only [returns_bind, not_returns_throw, false_and, exists_false] at h
          · obtain ⟨he, -⟩ := returns_pure.1 h
            cases he
            exact ⟨fun hfilled => ⟨fun _ he => (by cases he), fun _ he => (by cases he), hfilled⟩,
              fun hobtainable => hobtainable.loads⟩

theorem isOk_loadFromSwap_iff {slot : SwapSlot} {buffer bytes : PageBytes}
    {result : Except SwapError Unit}
    (h : Returns (loadFromSwap slot buffer) m (result, bytes) m') :
    result = .ok () ↔ m.swap.Grants 0 .read slot := by
  simp only [loadFromSwap, returns_bind, returns_get, returns_liftM, returns_setSwap, and_assoc,
    exists_and_left, exists_eq_left, exists_const] at h
  obtain ⟨page, -, ⟨answer, got, swap⟩, hload, h⟩ := h
  rw [← Swap.isOk_load_iff hload]
  cases answer with
  | ok u =>
      simp only [returns_bind, returns_pure] at h
      obtain ⟨_, _, -, he, -⟩ := h
      cases he
      exact Iff.rfl
  | error cause =>
      obtain ⟨he, -⟩ := returns_pure.1 h
      cases he
      exact Iff.rfl

theorem isOk_fillAnonymous_iff {slot slot' : Option SwapSlot} {buffer bytes : PageBytes}
    {result : Except SwapError Unit}
    (h : Returns (fillAnonymous slot buffer) m (slot', result, bytes) m') :
    result = .ok () ↔ ∀ occupied, slot = some occupied → m.swap.Grants 0 .read occupied := by
  cases slot with
  | none =>
      obtain ⟨he, -⟩ := returns_pure.1 h
      cases he
      simp
  | some slot =>
      simp only [fillAnonymous, dite_true, returns_bind] at h
      obtain ⟨⟨answer, got⟩, m₁, hload, h⟩ := h
      simp only [Option.some.injEq, forall_eq', ← isOk_loadFromSwap_iff hload]
      cases answer with
      | ok u =>
          obtain ⟨he, -⟩ := returns_pure.1 h
          cases he
          exact Iff.rfl
      | error cause =>
          obtain ⟨he, -⟩ := returns_pure.1 h
          cases he
          exact Iff.rfl

theorem isSome_bringIn_iff {result : Option Contents}
    (h : Returns (bringIn contents f) m result m') :
    result.isSome = true ↔ m.Obtainable 0 contents := by
  simp only [bringIn, returns_bind] at h
  obtain ⟨buffer, _, hbuffer, h⟩ := h
  obtain ⟨-, rfl⟩ := returns_frameBytes hbuffer
  cases contents with
  | pending source =>
      simp only [returns_bind, returns_pure] at h
      obtain ⟨⟨filled, bytes⟩, _, hfill, _, _, -, rfl, -⟩ := h
      rw [← filled_fillPending_iff hfill]
      cases filled <;> simp
  | anonymous slot =>
      simp only [returns_bind] at h
      obtain ⟨⟨slot', answer, bytes⟩, m₁, hfill, _, m₂, -, h⟩ := h
      rw [obtainable_anonymous_iff, ← isOk_fillAnonymous_iff hfill]
      cases answer with
      | ok u =>
          obtain ⟨rfl, -⟩ := returns_pure.1 h
          simp
      | error cause =>
          simp only [returns_bind, returns_pure] at h
          obtain ⟨_, _, -, rfl, -⟩ := h
          simp
  | file slice =>
      simp only [returns_bind, returns_pure] at h
      obtain ⟨⟨filled, bytes⟩, _, hfill, _, _, -, rfl, -⟩ := h
      rw [obtainable_file_iff, ← filled_fillFromSlice_iff hfill]
      cases filled <;> simp

theorem isOk_claimInto_iff {key : Key Page} {page : Page} {d : Key Directory} {index : Nat}
    (hslot : m.listed[index]? = some ⟨f, none⟩) {answer : Except VmError Unit}
    (hrun : Answers (claimInto key page d index) m answer m') :
    (answer = .ok () ↔ m.Obtainable 0 page.contents) ∧
      (answer ≠ .ok () → answer = .error .loadFailed) := by
  obtain ⟨result, m₁, hbring, hrest⟩ := claimInto_parts hslot hrun
  rw [← isSome_bringIn_iff hbring]
  obtain ⟨rfl, rfl, -⟩ | ⟨contents, m₂, rfl, rfl, -⟩ := hrest <;> simp

end Machine

/-! ### A frame -/

def Contents.requestsOut : Contents → Nat
  | .anonymous _ => sectorsPerPage
  | _ => 0

namespace Machine

/-- The page that leaves its frame if one has to. -/
def leaving? (m : Machine) : Option Page :=
  ((m.victim? none).bind (·.owner)).bind fun o => m.pages.get? o.page

/-- The requests that are made before a page is brought in: those of the page that leaves for it. -/
def requestsAhead (m : Machine) : Nat :=
  if m.freeFrames = 0 then m.leaving?.elim 0 (·.contents.requestsOut) else 0

/-- A frame can be had: there is one in the pool, or the page that has to leave can do so. -/
def FrameToSpare (m : Machine) : Prop :=
  m.freeFrames ≠ 0 ∨ ∃ page, m.leaving? = some page ∧
    (page.contents = .anonymous none → m.swap.TakesPage)

instance (m : Machine) : Decidable m.FrameToSpare :=
  decidable_of_iff (m.freeFrames ≠ 0 ∨ (m.leaving?.any fun page =>
      decide (page.contents = .anonymous none → m.swap.TakesPage)) = true)
    (by simp only [Option.any_eq_true, decide_eq_true_eq, FrameToSpare])

/-- No frame can be had, since the pool is empty and no page has to leave its frame. -/
def Exhausted (m : Machine) : Prop :=
  m.freeFrames = 0 ∧ ∀ slot ∈ m.listed, slot.owner = none ∨ m.pool.isPinned slot.frame = true

/-- No frame can be had, since the pool is empty and the page that has to leave is an anonymous one
that swap does not take. -/
def Blocked (m : Machine) : Prop :=
  m.freeFrames = 0 ∧ ∃ page, m.leaving? = some page ∧ page.contents = .anonymous none ∧
    ¬m.swap.TakesPage

variable {o : Owner} {v : FrameSlot} {page : Page} {index : Nat}

theorem leaving?_eq_some (hvictim : m.victim? none = some v) (howner : v.owner = some o)
    (hpage : m.pages.get? o.page = some page) : m.leaving? = some page := by
  rw [leaving?, hvictim, Option.bind_some, howner, Option.bind_some, hpage]

theorem Exhausted.leaving? (h : m.Exhausted) : m.leaving? = none := by
  rw [Machine.leaving?, victim?_eq_none_iff.2 h.2, Option.bind_none, Option.bind_none]

theorem Exhausted.not_frameToSpare (h : m.Exhausted) : ¬m.FrameToSpare := by
  rintro (hfree | ⟨page, hleaving, -⟩)
  · exact hfree h.1
  · rw [h.leaving?] at hleaving
    cases hleaving

theorem Blocked.not_frameToSpare (h : m.Blocked) : ¬m.FrameToSpare := by
  obtain ⟨hempty, page, hleaving, hcontents, hfull⟩ := h
  rintro (hfree | ⟨_, he, htakes⟩)
  · exact hfree hempty
  · cases hleaving.symm.trans he
    exact hfull (htakes hcontents)

theorem Blocked.not_exhausted (h : m.Blocked) : ¬m.Exhausted := by
  obtain ⟨-, page, hleaving, -⟩ := h
  intro hexhausted
  rw [hexhausted.leaving?] at hleaving
  cases hleaving

theorem requests_of_storeInSwap {bytes : PageBytes} {slot : SwapSlot}
    (h : Returns (storeInSwap bytes) m (.ok slot) m') :
    m'.swap.disk.requests.length = m.swap.disk.requests.length + sectorsPerPage ∧
      m.swap.TakesPage := by
  simp only [storeInSwap, returns_bind, returns_get, returns_setSwap, and_assoc, exists_and_left,
    exists_eq_left, exists_const] at h
  obtain ⟨page, m₁, hpage, h⟩ := h
  obtain ⟨rfl, rfl⟩ := returns_asPage hpage
  cases hstore : m₁.swap.store page with
  | mk result swap =>
  rw [hstore] at h
  cases result with
  | error cause => cases (returns_pure.1 h).1
  | ok stored =>
      simp only [returns_bind, returns_record, returns_pure, exists_and_left, exists_eq_left,
        exists_const] at h
      obtain ⟨he, rfl⟩ := h
      cases he
      exact ⟨Swap.length_requests_store hstore, Swap.isOk_store_iff.1 (by rw [hstore]; rfl)⟩

/-- Moving contents out of a frame makes as many requests as there are sectors to write. -/
theorem requests_of_moveOut {moved : Contents} {dirty : Bool}
    (h : Returns (moveOut contents f dirty) m moved m') :
    m'.swap.disk.requests.length = m.swap.disk.requests.length + contents.requestsOut ∧
      (contents = .anonymous none → m.swap.TakesPage) := by
  simp only [moveOut, returns_bind] at h
  obtain ⟨buffer, _, hbuffer, h⟩ := h
  obtain ⟨-, rfl⟩ := returns_frameBytes hbuffer
  cases contents with
  | pending source => exact absurd h not_returns_throw
  | anonymous slot =>
      cases slot with
      | some slot =>
          simp only [evictAnonymous, Option.isSome_some, if_true, returns_bind,
            not_returns_throw, false_and, exists_false] at h
      | none =>
          simp only [evictAnonymous, Option.isSome_none, Bool.false_eq_true, if_false,
            returns_bind, returns_pure] at h
          obtain ⟨slot, _, ⟨result, m₁, hstore, h⟩, -, rfl⟩ := h
          cases result with
          | error cause => exact absurd h not_returns_throw
          | ok stored =>
              obtain ⟨-, rfl⟩ := returns_pure.1 h
              obtain ⟨hmade, htaken⟩ := requests_of_storeInSwap hstore
              exact ⟨hmade, fun _ => htaken⟩
  | file slice =>
      simp only [returns_bind, returns_pure] at h
      obtain ⟨_, m₁, hevict, -, rfl⟩ := h
      obtain ⟨-, files, events, rfl⟩ := returns_evictToSlice hevict
      exact ⟨rfl, fun he => by cases he⟩

/-- The requests of a page that leaves are made by the time the frame is in hand. -/
theorem requests_of_acquire (h : Sound none m) (hhand : m.HandInList)
    (hrun : Returns acquire m (some index) m') :
    m'.swap.disk.requests.length = m.swap.disk.requests.length + m.requestsAhead ∧
      m.FrameToSpare := by
  by_cases hempty : m.freeFrames = 0
  swap
  · obtain ⟨f, -, hhanded⟩ := handed_of_acquire h hempty hrun
    obtain ⟨pool, events, rfl⟩ := hhanded.state
    rw [requestsAhead, if_neg hempty]
    exact ⟨rfl, .inl hempty⟩
  · obtain ⟨victim, m₁, hselect, hrest⟩ := (returns_acquire_of_empty hempty).1 hrun
    obtain ⟨-, he, -⟩ | ⟨_, rfl, he, hevict⟩ := hrest
    · cases he
    cases he
    cases hvictim : m.victim? none with
    | none => cases ((chosen_of_selectVictim h hhand hselect).1 hvictim).1
    | some v =>
        obtain ⟨_, he, hchosen⟩ := (chosen_of_selectVictim h hhand hselect).2 v hvictim
        cases he
        obtain ⟨o, howner⟩ := exists_owner_of_victim hvictim
        have hlinked : m.view.owner v.frame = some (some o) := by
          rw [← howner]
          exact ownerIn_of_getElem? h.tidy.nodup hchosen.slot
        obtain ⟨page, -, hpage, -⟩ := h.coherent.residency.linked hlinked
        have hleaving := leaving?_eq_some hvictim howner hpage
        obtain ⟨directories, hm₁⟩ := hchosen.state
        obtain ⟨dirty, m₂, contents, m₃, hunmap, hmove, rfl⟩ :=
          evict_parts (by rw [hm₁, hchosen.slot]) howner (by rw [hm₁]; exact hpage) hevict
        obtain ⟨-, -, directories', hm₂⟩ := returns_unmapOwner hunmap
        have hswap : m₂.swap = m.swap := by rw [hm₂, hm₁]
        obtain ⟨hmade, htaken⟩ := requests_of_moveOut hmove
        rw [hswap] at hmade htaken
        rw [requestsAhead, if_pos hempty, hleaving]
        exact ⟨hmade, .inr ⟨page, hleaving, htaken⟩⟩

/-- Which bytes can be had does not depend on the moment, apart from the requests made so far. -/
theorem obtainable_iff_of_requests {made : Nat} (hfiles : m.view.FilesSince m'.view)
    (hdevice : m.swap.disk.SameDevice m'.swap.disk)
    (hmade : m'.swap.disk.requests.length = m.swap.disk.requests.length + made) :
    m'.Obtainable later contents ↔ m.Obtainable (made + later) contents := by
  constructor
  · exact fun h => ⟨fun slice hslice => hfiles.hasAll_iff.1 (h.slice slice hslice),
      fun slot hslot => (Swap.grants_iff_of_requests hdevice hmade).1 (h.slot slot hslot), h.loads⟩
  · exact fun h => ⟨fun slice hslice => hfiles.hasAll_iff.2 (h.slice slice hslice),
      fun slot hslot => (Swap.grants_iff_of_requests hdevice hmade).2 (h.slot slot hslot), h.loads⟩

/-- No frame is had only where nothing gives one, and then nothing is done. -/
theorem exhausted_of_acquire (h : Sound none m) (hhand : m.HandInList)
    (hrun : Returns acquire m none m') : m.Exhausted ∧ m' = m := by
  have hempty : m.freeFrames = 0 := by
    by_contra hfree
    obtain ⟨f, he, -⟩ := handed_of_acquire h hfree hrun
    cases he
  cases hvictim : m.victim? none with
  | none => exact ⟨⟨hempty, victim?_eq_none_iff.1 hvictim⟩, (idle_of_acquire h hhand hempty hvictim hrun).2⟩
  | some v =>
      obtain ⟨_, _, he, -⟩ := vacated_of_acquire h hhand hempty hvictim hrun
      cases he

/-- Acquiring a frame stops only where the page that has to leave cannot. -/
theorem blocked_of_acquire (h : Ready none m) (hhand : m.HandInList) :
    PanicsOnly (fun panic _ => m.Blocked ∧ ∃ cause, panic = .anonymousPageStuck cause) acquire m := by
  refine panicsOnly_acquire_of_evict h fun index m₁ hempty hselect => ?_
  cases hvictim : m.victim? none with
  | none => cases ((chosen_of_selectVictim h.sound hhand hselect).1 hvictim).1
  | some v =>
      obtain ⟨_, he, hchosen⟩ := (chosen_of_selectVictim h.sound hhand hselect).2 v hvictim
      cases he
      obtain ⟨o, howner⟩ := exists_owner_of_victim hvictim
      obtain ⟨directories, hm₁⟩ := hchosen.state
      have h₁ := h.silent hchosen.view (h.sound.tidy.of_eq (by rw [hm₁]) (by rw [hm₁]))
      refine (stuck_of_evict h₁ (by rw [hm₁, hchosen.slot]) howner).mono
        fun panic _ ⟨cause, hbroken, hpanic, _⟩ => ?_
      obtain ⟨_, page, _, _, hpage, hcontents, -⟩ := hbroken.stuck
      have htakes := hbroken.stuck.refuses.not_takesPage
      rw [hm₁] at hpage htakes
      exact ⟨⟨hempty, page, leaving?_eq_some hvictim howner hpage, hcontents, htakes⟩, cause, hpanic⟩

end Machine

/-! ### The bytes that a page gets -/

/-- What is written to files when a page leaves its frame is determined. -/
theorem Stowed.file_unique {bytes : PageBytes} {dirty : Bool} {before after after' : Contents}
    {v w w' : View} (h : Stowed bytes dirty before v after w)
    (h' : Stowed bytes dirty before v after' w') : w'.file = w.file := by
  cases h with
  | slot =>
      cases h' with
      | slot => rfl
  | file hback =>
      cases h' with
      | file hback' =>
          cases hback with
          | clean =>
              cases hback' with
              | clean => rfl
          | dirty hfile hwritten =>
              cases hback' with
              | dirty hfile' hwritten' =>
                  cases hfile.symm.trans hfile'
                  cases hwritten.symm.trans hwritten'
                  rfl

namespace Machine

/-- What is in files and slots when there is a frame for one more page. A page that had to leave for it
was put away. -/
inductive Readied (m : Machine) : View → Prop where
  | free (hfree : m.freeFrames ≠ 0) : Readied m m.view
  | left {slot : FrameSlot} {o : Owner} {page : Page} {bytes : PageBytes} {contents : Contents}
      {stowed : View} (hempty : m.freeFrames = 0) (hvictim : m.victim? none = some slot)
      (howner : slot.owner = some o) (hpage : m.pages.get? o.page = some page)
      (hbytes : m.view.bytes slot.frame = some bytes)
      (hstowed : Stowed bytes (m.view.isDirty o.directory o.va) page.contents m.view contents stowed) :
      Readied m stowed

def Yields (m : Machine) (contents : Contents) (bytes : PageBytes) : Prop :=
  ∃ v, m.Readied v ∧ bytes = v.contentsBytes contents

/-- There is one way to be ready, but for the slot to which a page goes, and that one was free. -/
theorem Readied.contentsBytes_eq {v v' : View} (h : m.Readied v) (h' : m.Readied v')
    (hslot : ∀ slot, contents.slot? = some slot → m.view.isOccupied slot = true) :
    v'.contentsBytes contents = v.contentsBytes contents := by
  cases h with
  | free hfree =>
      cases h' with
      | free _ => rfl
      | left hempty => exact absurd hempty hfree
  | left hempty hvictim howner hpage hbytes hstowed =>
      cases h' with
      | free hfree => exact absurd hempty hfree
      | left _ hvictim' howner' hpage' hbytes' hstowed' =>
          cases hvictim.symm.trans hvictim'
          cases howner.symm.trans howner'
          cases hpage.symm.trans hpage'
          cases hbytes.symm.trans hbytes'
          exact View.contentsBytes_congr (fun _ _ => by rw [hstowed.file_unique hstowed'])
            fun slot hs => by
              rw [(hstowed.keeps (hslot slot hs)).2, (hstowed'.keeps (hslot slot hs)).2]

theorem Yields.unique {bytes bytes' : PageBytes} (h : m.Yields contents bytes)
    (h' : m.Yields contents bytes')
    (hslot : ∀ slot, contents.slot? = some slot → m.view.isOccupied slot = true) :
    bytes' = bytes := by
  obtain ⟨v, hv, rfl⟩ := h
  obtain ⟨v', hv', rfl⟩ := h'
  exact hv.contentsBytes_eq hv' hslot

theorem readied_of_acquire (h : Sound none m) (hhand : m.HandInList) {index : Nat}
    (hrun : Returns acquire m (some index) m') :
    ∃ v, m.Readied v ∧ m'.view.file = v.file ∧ m'.view.pageIn = v.pageIn := by
  by_cases hempty : m.freeFrames = 0
  swap
  · obtain ⟨f, -, hhanded⟩ := handed_of_acquire h hempty hrun
    exact ⟨m.view, .free hempty, by rw [hhanded.view]; rfl, by rw [hhanded.view]; rfl⟩
  · cases hvictim : m.victim? none with
    | none => cases (idle_of_acquire h hhand hempty hvictim hrun).1
    | some v =>
        obtain ⟨_, o, he, hvacated⟩ := vacated_of_acquire h hhand hempty hvictim hrun
        cases he
        obtain ⟨page, bytes, contents, stowed, hpage, hbytes, hstowed, hview⟩ :=
          evicted_of_step h.coherent (hvacated.owner_eq h) hvacated.step
        exact ⟨stowed, .left hempty hvictim hvacated.owner hpage hbytes hstowed,
          by rw [hview]; rfl, by rw [hview]; rfl⟩

end Machine

/-! ### The claim -/

/-- A page of an address space, in a state in which it can be claimed. Requests claim pages in such
states only. -/
structure Machine.Claimable (m : Machine) (s : Key AddressSpace) (key : Key Page) (d : Key Directory)
    (page : Page) : Prop where
  ready : Ready none m
  hand : m.HandInList
  directory : m.view.directoryOf s = some d
  place : m.view.pageOf s page.va.number = some key
  page : m.pages.get? key = some page

/-- How a claim of a page that is not resident is answered, by what the state in which it begins can
give. -/
inductive Machine.ClaimAnswered (own : Owner) (page : Page) (m m' : Machine) :
    Except VmError Unit → Prop where
  | ok {f : FrameNumber} (hframe : m.FrameToSpare)
      (hbytes : m.Obtainable m.requestsAhead page.contents) (hbrought : m'.BroughtIn own page f) :
      ClaimAnswered own page m m' (.ok ())
  | loadFailed (hframe : m.FrameToSpare) (hbytes : ¬m.Obtainable m.requestsAhead page.contents) :
      ClaimAnswered own page m m' (.error .loadFailed)
  | outOfMemory (hframe : m.Exhausted) (hsame : m' = m) :
      ClaimAnswered own page m m' (.error .outOfMemory)

variable {key : Key Page} {page : Page} {s : Key AddressSpace} {d : Key Directory}
  {answer : Except VmError Unit}

/-- Between the requests of a run every page of an address space can be claimed. -/
theorem Run.claimable {start : Machine} {history : List Done} (h : Run start history m)
    (hcapacity : start.pool.capacity ≤ maxFrames) (hhand : start.hand = 0)
    (hdirectory : m.view.directoryOf s = some d) (hplace : m.view.pageOf s page.va.number = some key)
    (hpage : m.pages.get? key = some page) : m.Claimable s key d page :=
  ⟨h.ready hcapacity, h.handInList hhand, hdirectory, hplace, hpage⟩

theorem answered_of_claim (h : Sound none m) (hhand : m.HandInList)
    (hpage : m.pages.get? key = some page) (habsent : page.frame = none)
    (hrun : Answers (claim key d) m answer m') :
    answer = .ok () ∧ m.FrameToSpare ∧ m.Obtainable m.requestsAhead page.contents ∨
      answer = .error .loadFailed ∧ m.FrameToSpare ∧
        ¬m.Obtainable m.requestsAhead page.contents ∨
      answer = .error .outOfMemory ∧ m.Exhausted ∧ m' = m := by
  obtain ⟨acquired, m₁, hacquire, hrest⟩ := answers_claim_of_absent hpage habsent hrun
  cases acquired with
  | none =>
      obtain ⟨hexhausted, rfl⟩ := exhausted_of_acquire h hhand hacquire
      obtain ⟨-, rfl, rfl⟩ | ⟨_, he, -⟩ := hrest
      · exact .inr (.inr ⟨rfl, hexhausted, rfl⟩)
      · cases he
  | some index =>
      obtain ⟨he, -⟩ | ⟨_, he, hrest⟩ := hrest
      · cases he
      cases he
      obtain ⟨hmade, hframe⟩ := requests_of_acquire h hhand hacquire
      obtain ⟨f, hacquired⟩ := (course_acquire h hacquire).2.2 index rfl
      have hdevice := (keeps_acquire.returns hacquire).steady.device
      obtain ⟨hok, hfailed⟩ := isOk_claimInto_iff hacquired.slot hrest
      rw [obtainable_iff_of_requests hacquired.step.filesSince hdevice hmade, Nat.add_zero] at hok
      by_cases hbytes : m.Obtainable m.requestsAhead page.contents
      · exact .inl ⟨hok.2 hbytes, hframe, hbytes⟩
      · exact .inr (.inl ⟨hfailed (mt hok.1 hbytes), hframe, hbytes⟩)

theorem exhausted_of_claim_zeros (h : Sound none m) (hhand : m.HandInList)
    (hpage : m.pages.get? key = some page) (habsent : page.frame = none)
    (hzeros : page.contents = .pending .zeros) {cause : VmError}
    (hrun : Answers (claim key d) m (.error cause) m') : m.Exhausted ∧ m' = m := by
  obtain ⟨he, -⟩ | ⟨-, -, hbytes⟩ | ⟨-, hexhausted⟩ := answered_of_claim h hhand hpage habsent hrun
  · cases he
  · rw [hzeros] at hbytes
    exact absurd obtainable_zeros hbytes
  · exact hexhausted

namespace Machine.Claimable

theorem broughtIn (h : m.Claimable s key d page) (habsent : page.frame = none)
    (hrun : Answers (claim key d) m (.ok ()) m') : ∃ f, m'.BroughtIn ⟨key, page.va, d⟩ page f := by
  by_cases hempty : m.freeFrames = 0
  swap
  · obtain ⟨-, f, -, hbrought⟩ | ⟨he, -⟩ := (claims_of_free h.ready h.directory h.place h.page habsent
      hempty hrun).settled
    · exact ⟨f, hbrought⟩
    · cases he
  · cases hvictim : m.victim? none with
    | none => cases (idle_of_claim h.ready.sound h.hand h.page habsent hempty hvictim hrun).1
    | some v =>
        obtain ⟨o, howner⟩ := exists_owner_of_victim hvictim
        obtain ⟨_, -, ⟨-, -, hbrought⟩ | ⟨he, -⟩⟩ := (claims_of_victim h.ready h.hand h.directory
          h.place h.page habsent hempty hvictim howner hrun).settled
        · exact ⟨_, hbrought⟩
        · cases he

/-- A claim succeeds where there is a frame and the bytes can be had. It stops only where a page has to
leave its frame for it and swap does not take that page. -/
theorem ends (h : m.Claimable s key d page) (habsent : page.frame = none) :
    Ends (claim key d).run m (fun answer m' => ClaimAnswered ⟨key, page.va, d⟩ page m m' answer)
      fun panic _ => m.Blocked ∧ ∃ cause, panic = .anonymousPageStuck cause := by
  refine Ends.intro (fun answer m' hrun => ?_) fun panic m' hpanic =>
    (panicsOnly_claim_of_acquire h.ready h.directory h.page
      (blocked_of_acquire h.ready h.hand)).panicked hpanic
  obtain ⟨rfl, hframe, hbytes⟩ | ⟨rfl, hframe, hbytes⟩ | ⟨rfl, hexhausted, rfl⟩ :=
    answered_of_claim h.ready.sound h.hand h.page habsent hrun
  · obtain ⟨f, hbrought⟩ := h.broughtIn habsent hrun
    exact .ok hframe hbytes hbrought
  · exact .loadFailed hframe hbytes
  · exact .outOfMemory hexhausted rfl

/-- The bytes behind a page do not change while it is brought in, nor if that fails. -/
theorem yields (h : m.Claimable s key d page) (habsent : page.frame = none)
    (hrun : Answers (claim key d) m answer m') (hframe : answer ≠ .error .outOfMemory) :
    m.Yields page.contents (m'.view.contentsBytes page.contents) := by
  obtain ⟨acquired, m₁, hacquire, ⟨-, he, -⟩ | ⟨index, rfl, hrest⟩⟩ :=
    answers_claim_of_absent h.page habsent hrun
  · exact absurd he hframe
  obtain ⟨v, hreadied, hfile, hpageIn⟩ := readied_of_acquire h.ready.sound h.hand hacquire
  obtain ⟨hsame, -, hsome⟩ := course_acquire h.ready.sound hacquire
  obtain ⟨f, hacquired⟩ := hsome index rfl
  have hpage₁ : m₁.pages.get? key = some page :=
    hsame.pages h.page fun f hf => by rw [habsent] at hf; cases hf
  have hkept : m'.view.file = m₁.view.file ∧ m'.view.pageIn = m₁.view.pageIn := by
    obtain ⟨-, hfailed, hfilled⟩ := answers_claimInto hacquired.tidy hacquired.slot hpage₁ hrest
    cases answer with
    | ok u =>
        obtain ⟨-, pa, -, hview⟩ := hfilled rfl
        rw [hview]
        exact ⟨rfl, rfl⟩
    | error cause =>
        obtain ⟨-, bytes, hview⟩ := hfailed cause rfl
        rw [hview]
        exact ⟨rfl, rfl⟩
  exact ⟨v, hreadied, View.contentsBytes_congr (fun _ _ => by rw [hkept.1, hfile])
    fun _ _ => by rw [hkept.2, hpageIn]⟩

end Machine.Claimable

end DemandPaging
