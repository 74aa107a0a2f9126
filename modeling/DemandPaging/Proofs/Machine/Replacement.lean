import DemandPaging.Proofs.Machine.Clock

/-!
A frame for a page.

A page that is brought in gets its frame in two moves, and so does a copy. First a frame is taken in
hand: from the pool, and then it joins the list at the end, or, if the pool is empty, from the page
that the clock chose, and then it stays where it is. Next the frame gets its page, or goes back to the
pool because the bytes could not be had. What the moves do to memory is said by their steps; here it is
said what becomes of the list of frames, of the hand and of the accessed bits.
-/

namespace DemandPaging.Machine

variable {m m₁ m' : Machine} {index : Nat} {v slot : FrameSlot} {o : Owner} {f : FrameNumber}
  {spared : Option FrameNumber} {acquired : Option Nat} {key : Key Page} {page : Page}
  {d : Key Directory}

/-! ### Taking a frame in hand -/

structure Handed (f : FrameNumber) (m m' : Machine) : Prop where
  state : ∃ pool events, m' = { m with pool, events, listed := m.listed ++ [⟨f, none⟩] }
  view : m'.view = (m.view.setOwner f (some none)).setAllocated f true
  tidy : m'.Tidy
  free : m.view.isAllocated f = some false

/-- A frame was taken from its page, which was the one that the rule of the second chance says. -/
structure Vacated (spared : Option FrameNumber) (index : Nat) (v : FrameSlot) (o : Owner)
    (m m' : Machine) : Prop where
  slot : m.listed[index]? = some v
  owner : v.owner = some o
  listed : m'.listed = m.listed.modify index fun slot => { slot with owner := none }
  hand : m'.hand = (index + 1) % m.listed.length
  accessed : ∀ d va, m'.isAccessed d va =
    (m.isAccessed d va && !(m.reprieved spared).any (·.covers d va))
  step : Step [] none m.view (some v.frame) m'.view
  tidy : m'.Tidy

theorem isDirty_setGrant (view : View) (grant? : Option Grant) (d : Key Directory)
    (va : VirtualAddress) : (view.setGrant o.directory o.va.number grant?).isDirty d va =
      (view.isDirty d va && !o.covers d va) := by
  simp only [View.setGrant, Owner.covers, eq_comm (a := d), eq_comm (a := va.number)]
  by_cases hcovers : o.directory = d ∧ o.va.number = va.number
  · rw [if_pos hcovers, decide_eq_true hcovers, Bool.not_true, Bool.and_false]
  · rw [if_neg hcovers, decide_eq_false hcovers, Bool.not_false, Bool.and_true]

theorem grant_setGrant_of_not_covers (grant? : Option Grant) {view : View}
    {va : VirtualAddress} (h : o.covers d va = false) :
    (view.setGrant o.directory o.va.number grant?).grant d va = view.grant d va := by
  rw [Owner.covers, decide_eq_false_iff_not, eq_comm, eq_comm (a := o.va.number)] at h
  exact if_neg h

theorem evicted_of_step {view view' : View} (h : Coherent none view)
    (howner : view.owner f = some (some o)) (hstep : Step [] none view (some f) view') :
    ∃ page bytes contents stowed, view.page o.page = some page ∧ view.bytes f = some bytes ∧
      Stowed bytes (view.isDirty o.directory o.va) page.contents view contents stowed ∧
      view' = ((stowed.setOwner f (some none)).setGrant o.directory o.va.number none).setPage o.page
        (some { page with contents, frame := none }) := by
  cases hstep with
  | take hfree =>
      rw [h.residency.allocated howner] at hfree
      cases hfree
  | evict howner' hpage hbytes hstowed =>
      cases howner.symm.trans howner'
      exact ⟨_, _, _, _, hpage, hbytes, hstowed, rfl⟩

theorem Vacated.owner_eq (h : Vacated spared index v o m m') (hsound : Sound none m) :
    m.view.owner v.frame = some (some o) := by
  rw [← h.owner]
  exact ownerIn_of_getElem? hsound.tidy.nodup h.slot

theorem Vacated.slot_left (h : Vacated spared index v o m m') :
    m'.listed[index]? = some ⟨v.frame, none⟩ := by
  rw [h.listed]
  simp [h.slot]

/-- The page of the victim is in no frame any more, and nothing becomes of any other page. -/
theorem Vacated.get?_pages (h : Vacated spared index v o m m') (hsound : Sound none m) :
    ∃ page contents, m.pages.get? o.page = some page ∧ page.frame = some v.frame ∧
      ∀ key, m'.pages.get? key = if key = o.page then some { page with contents, frame := none }
        else m.pages.get? key := by
  have howner := h.owner_eq hsound
  obtain ⟨page, bytes, contents, stowed, hpage, -, hstowed, hview⟩ :=
    evicted_of_step hsound.coherent howner h.step
  obtain ⟨_, -, hpage', hframe, -⟩ := hsound.coherent.residency.linked howner
  cases hpage.symm.trans hpage'
  obtain ⟨isOccupied, pageIn, file, rfl⟩ := hstowed.exists_eq
  have hget : m'.pages.get? =
      Function.update m.pages.get? o.page (some { page with contents, frame := none }) :=
    congrArg View.page hview
  exact ⟨page, contents, hpage, hframe, fun key => by rw [hget, Function.update_apply]⟩

theorem Vacated.isDirty (h : Vacated spared index v o m m') (hsound : Sound none m)
    (d : Key Directory) (va : VirtualAddress) :
    m'.view.isDirty d va = (m.view.isDirty d va && !o.covers d va) := by
  obtain ⟨page, bytes, contents, stowed, -, -, hstowed, hview⟩ :=
    evicted_of_step hsound.coherent (h.owner_eq hsound) h.step
  obtain ⟨isOccupied, pageIn, file, rfl⟩ := hstowed.exists_eq
  have hdirty : m'.view.isDirty = (m.view.setGrant o.directory o.va.number none).isDirty := by
    rw [hview]
    rfl
  rw [hdirty, isDirty_setGrant]

theorem handed_of_acquire (h : Sound none m) (hfree : m.freeFrames ≠ 0)
    (hrun : Returns acquire m acquired m') :
    ∃ f, acquired = some m.listed.length ∧ Handed f m m' := by
  rw [Ne, freeFrames_eq_zero] at hfree
  obtain ⟨⟨f, pool⟩, hpool⟩ := Option.ne_none_iff_exists'.1 hfree
  simp only [acquire, allocateFrame, returns_bind, returns_get, and_assoc, exists_and_left,
    exists_eq_left, hpool, returns_setPool, returns_record, returns_pure, exists_const,
    returns_setListed] at hrun
  obtain ⟨rfl, rfl⟩ := hrun
  obtain ⟨hallocated, hconsistent, -, -⟩ := Pool.allocate_eq_some h.tidy.pool hpool
  have hfresh : ownerIn m.listed f = none := h.coherent.residency.owner_eq_none hallocated
  exact ⟨f, rfl, ⟨pool, _, rfl⟩, view_take m h.tidy.pool hfresh hpool,
    ⟨hconsistent, map_frame_append_nodup h.tidy.nodup hfresh none⟩, hallocated⟩

theorem returns_acquire_of_empty (hempty : m.freeFrames = 0) :
    Returns acquire m acquired m' ↔ ∃ victim m₁, Returns selectVictim m victim m₁ ∧
      (victim = none ∧ acquired = none ∧ m' = m₁ ∨
        ∃ index, victim = some index ∧ acquired = some index ∧ Returns (evict index) m₁ () m') := by
  rw [freeFrames_eq_zero] at hempty
  simp only [acquire, allocateFrame, returns_bind, returns_get, and_assoc, exists_and_left,
    exists_eq_left, hempty, returns_pure]
  constructor
  · rintro ⟨victim, m₁, hselect, hrest⟩
    refine ⟨victim, m₁, hselect, ?_⟩
    cases victim with
    | none =>
        obtain ⟨rfl, rfl⟩ := returns_pure.1 hrest
        exact .inl ⟨rfl, rfl, rfl⟩
    | some index =>
        simp only [returns_bind, returns_pure] at hrest
        obtain ⟨_, m₂, hevict, rfl, rfl⟩ := hrest
        exact .inr ⟨index, rfl, rfl, hevict⟩
  · rintro ⟨_, m₁, hselect, ⟨rfl, rfl, rfl⟩ | ⟨index, rfl, rfl, hevict⟩⟩
    · exact ⟨none, m', hselect, returns_pure.2 ⟨rfl, rfl⟩⟩
    · exact ⟨some index, m₁, hselect, returns_bind.2 ⟨_, _, hevict, returns_pure.2 ⟨rfl, rfl⟩⟩⟩

theorem isAccessed_evict (h : Sound none m) (hslot : m.listed[index]? = some slot)
    (howner : slot.owner = some o) {u : Unit} (hrun : Returns (evict index) m u m')
    (d : Key Directory) (va : VirtualAddress) :
    m'.isAccessed d va = (m.isAccessed d va && !o.covers d va) := by
  have hview : m.view.owner slot.frame = some (some o) := by
    rw [← howner]
    exact ownerIn_of_getElem? h.tidy.nodup hslot
  obtain ⟨page, -, hpage, -⟩ := h.coherent.residency.linked hview
  obtain ⟨dirty, m₁, contents, m₂, hunmap, hmove, rfl⟩ := evict_parts hslot howner hpage hrun
  obtain ⟨-, -, -, swap, files, events, rfl⟩ := returns_moveOut hmove
  exact isAccessed_unmapOwner hunmap d va

/-- The bit of the victim was cleared before it was taken out, or had not been set. -/
theorem isAccessed_of_victim (hvictim : m.victim? spared = some v) (howner : v.owner = some o)
    (hcovers : o.covers d va = true) :
    (m.isAccessed d va && !(m.reprieved spared).any (·.covers d va)) = false := by
  cases hset : m.isAccessed d va with
  | false => rfl
  | true =>
      have hwas : m.wasAccessed v = true := by
        rw [wasAccessed, howner, Option.any_some, ← isAccessed_of_covers hcovers, hset]
      have hany : (m.reprieved spared).any (·.covers d va) = true :=
        List.any_eq_true.2 ⟨v, mem_reprieved_of_victim hvictim hwas, by
          rw [FrameSlot.covers, howner, Option.any_some, hcovers]⟩
      rw [hany, Bool.not_true, Bool.and_false]

/-- With an empty pool the victim of the second chance loses its frame. -/
theorem vacated_of_acquire (h : Sound none m) (hhand : m.HandInList) (hempty : m.freeFrames = 0)
    (hvictim : m.victim? none = some v) (hrun : Returns acquire m acquired m') :
    ∃ index o, acquired = some index ∧ Vacated none index v o m m' := by
  obtain ⟨victim, m₁, hselect, hrest⟩ := (returns_acquire_of_empty hempty).1 hrun
  obtain ⟨index, rfl, hchosen⟩ := (chosen_of_selectVictim h hhand hselect).2 v hvictim
  obtain ⟨hnone, -⟩ | ⟨_, he, rfl, hevict⟩ := hrest
  · cases hnone
  cases he
  obtain ⟨o, howner⟩ := exists_owner_of_victim hvictim
  obtain ⟨directories, hm₁⟩ := hchosen.state
  have htidy₁ : m₁.Tidy := h.tidy.of_eq (by rw [hm₁]) (by rw [hm₁])
  have h₁ : Sound none m₁ := h.of_view hchosen.view htidy₁
  have hslot₁ : m₁.listed[index]? = some v := by rw [hm₁, hchosen.slot]
  obtain ⟨⟨contents, swap, files, directories', events, hm'⟩, hstep⟩ :=
    returns_evict h₁ hslot₁ howner hevict
  refine ⟨index, o, rfl, hchosen.slot, howner, by rw [hm', hm₁], by rw [hm', hm₁], fun d va => ?_,
    hchosen.view ▸ hstep, htidy₁.congr (by rw [hm']; exact ⟨rfl, fun _ => rfl⟩)
      (by rw [hm']; exact map_frame_modify _ _ _)⟩
  rw [isAccessed_evict h₁ hslot₁ howner hevict, hchosen.accessed]
  cases hcovers : o.covers d va with
  | false => rw [Bool.not_false, Bool.and_true]
  | true => rw [isAccessed_of_victim hvictim howner hcovers, Bool.false_and]

theorem idle_of_acquire (h : Sound none m) (hhand : m.HandInList) (hempty : m.freeFrames = 0)
    (hnone : m.victim? none = none) (hrun : Returns acquire m acquired m') :
    acquired = none ∧ m' = m := by
  obtain ⟨victim, m₁, hselect, hrest⟩ := (returns_acquire_of_empty hempty).1 hrun
  obtain ⟨rfl, rfl⟩ := (chosen_of_selectVictim h hhand hselect).1 hnone
  obtain ⟨-, rfl, rfl⟩ | ⟨_, he, -⟩ := hrest
  · exact ⟨rfl, rfl⟩
  · cases he

/-! ### Beside the source of a copy -/

/-- A frame that is pinned for the time being is a frame that is spared. -/
theorem isEligible_pinned {pool : Pool} (h : m.pool.setPinned f true = .ok pool) :
    ({ m with pool } : Machine).isEligible none = m.isEligible (some f) := by
  funext slot
  simp only [isEligible, Pool.isPinned_setPinned h]
  by_cases hf : f = slot.frame <;> simp [hf]

theorem victim?_pinned {pool : Pool} (h : m.pool.setPinned f true = .ok pool) :
    ({ m with pool } : Machine).victim? none = m.victim? (some f) := by
  rw [victim?, eligible, isEligible_pinned h]
  rfl

theorem reprieved_pinned {pool : Pool} (h : m.pool.setPinned f true = .ok pool) :
    ({ m with pool } : Machine).reprieved none = m.reprieved (some f) := by
  rw [reprieved, eligible, isEligible_pinned h]
  rfl

theorem freeFrames_pinned {pool : Pool} {on : Bool} (h : m.pool.setPinned f on = .ok pool) :
    ({ m with pool } : Machine).freeFrames = m.freeFrames := by
  rw [freeFrames, freeFrames, Pool.freeCount, (Pool.sameAllocation_setPinned h).freeList]
  rfl

section

variable {contents : Contents} {source : CopySource}

theorem vacated_of_acquireBeside (h : Sound none m) (hhand : m.HandInList)
    (hempty : m.freeFrames = 0) (hfrom : CopiesFrom page contents (some source))
    (hvictim : m.victim? page.frame = some v) (hrun : Returns (acquireBeside source) m acquired m') :
    ∃ index o, acquired = some index ∧ Vacated page.frame index v o m m' := by
  cases hfrom with
  | slot hframe =>
      rw [hframe] at hvictim ⊢
      exact vacated_of_acquire h hhand hempty hvictim hrun
  | @frame f hframe =>
      rw [hframe] at hvictim ⊢
      simp only [acquireBeside, returns_bind, returns_pure] at hrun
      obtain ⟨_, m₁, hpin, acquired', m₂, hacquire, _, m₃, hunpin, rfl, rfl⟩ := hrun
      obtain ⟨pool, hpinned, rfl⟩ := returns_pinFrame hpin
      obtain ⟨pool', hunpinned, rfl⟩ := returns_pinFrame hunpin
      have hview := view_setPinned m hpinned
      have h₁ : Sound none { m with pool } := h.of_view hview
        (h.tidy.congr (Pool.sameAllocation_setPinned hpinned) rfl)
      obtain ⟨index, o, rfl, hvacated⟩ := vacated_of_acquire h₁ hhand
        ((freeFrames_pinned hpinned).trans hempty) ((victim?_pinned hpinned).trans hvictim) hacquire
      refine ⟨index, o, rfl, hvacated.slot, hvacated.owner, hvacated.listed, hvacated.hand,
        fun d va => ?_, ?_, hvacated.tidy.congr (Pool.sameAllocation_setPinned hunpinned) rfl⟩
      · rw [← reprieved_pinned hpinned]
        exact hvacated.accessed d va
      · rw [view_setPinned m₂ hunpinned, ← hview]
        exact hvacated.step

theorem idle_of_acquireBeside (h : Sound none m) (hhand : m.HandInList)
    (hempty : m.freeFrames = 0) (hfrom : CopiesFrom page contents (some source))
    (hnone : m.victim? page.frame = none) (hrun : Returns (acquireBeside source) m acquired m') :
    acquired = none ∧ m'.view = m.view ∧ ∃ pool, m' = { m with pool } := by
  cases hfrom with
  | slot hframe =>
      rw [hframe] at hnone
      obtain ⟨rfl, rfl⟩ := idle_of_acquire h hhand hempty hnone hrun
      exact ⟨rfl, rfl, m'.pool, rfl⟩
  | @frame f hframe =>
      rw [hframe] at hnone
      simp only [acquireBeside, returns_bind, returns_pure] at hrun
      obtain ⟨_, m₁, hpin, acquired', m₂, hacquire, _, m₃, hunpin, rfl, rfl⟩ := hrun
      obtain ⟨pool, hpinned, rfl⟩ := returns_pinFrame hpin
      obtain ⟨pool', hunpinned, rfl⟩ := returns_pinFrame hunpin
      have hview := view_setPinned m hpinned
      have h₁ : Sound none { m with pool } := h.of_view hview
        (h.tidy.congr (Pool.sameAllocation_setPinned hpinned) rfl)
      obtain ⟨rfl, rfl⟩ := idle_of_acquire h₁ hhand ((freeFrames_pinned hpinned).trans hempty)
        ((victim?_pinned hpinned).trans hnone) hacquire
      exact ⟨rfl, (view_setPinned _ hunpinned).trans hview, pool', rfl⟩

end

/-! ### Giving it a page -/

structure HandedOn (index : Nat) (o : Owner) (m m' : Machine) : Prop where
  listed : m'.listed = m.listed.modify index fun slot => { slot with owner := some o }
  hand : m'.hand = m.hand
  pages : ∀ key, key ≠ o.page → m'.pages.get? key = m.pages.get? key
  accessed : ∀ d va, m'.isAccessed d va = (m.isAccessed d va && !o.covers d va)
  dirty : ∀ d va, m'.view.isDirty d va = (m.view.isDirty d va && !o.covers d va)

structure HandedBack (index : Nat) (m m' : Machine) : Prop where
  listed : m'.listed = m.listed.eraseIdx index
  hand : m'.hand = handAfterRemoval m.hand index m'.listed.length
  pages : m'.pages = m.pages
  directories : m'.directories = m.directories

theorem HandedOn.listed_eq (h : HandedOn index o m m') (hslot : m.listed[index]? = some slot) :
    m'.listed = m.listed.set index { slot with owner := some o } := by
  rw [h.listed, List.modify_eq_set_getElem?, hslot]
  rfl

/-- Where nothing was mapped before, no bit changes. -/
theorem HandedOn.bits (h : HandedOn index o m m') (hclear : ∀ d va, o.covers d va = true →
    m.isAccessed d va = false ∧ m.view.isDirty d va = false) (d : Key Directory)
    (va : VirtualAddress) :
    m'.isAccessed d va = m.isAccessed d va ∧ m'.view.isDirty d va = m.view.isDirty d va := by
  rw [h.accessed, h.dirty]
  cases hcovers : o.covers d va with
  | false => simp only [Bool.not_false, Bool.and_true, and_self]
  | true =>
      obtain ⟨haccessed, hdirty⟩ := hclear d va hcovers
      simp only [haccessed, hdirty, Bool.false_and, and_self]

theorem handedOn_of_link (hslot : m.listed[index]? = some slot) (hpage : m.pages.get? key = some page)
    {u : Unit} (hrun : Returns (link index key d) m u m') : HandedOn index ⟨key, page.va, d⟩ m m' := by
  obtain ⟨pa, -, hmap⟩ := link_parts hslot hpage hrun
  have haccessed := isAccessed_mapPage (o := ⟨key, page.va, d⟩) hmap
  obtain ⟨hview, directories, rfl⟩ := returns_mapPage hmap
  refine ⟨rfl, rfl, fun key' hkey => (Arena.get?_modify ..).trans (if_neg (Ne.symm hkey)), haccessed,
    fun d' va => ?_⟩
  rw [hview]
  exact isDirty_setGrant (o := ⟨key, page.va, d⟩) _ _ d' va

theorem handedBack_of_removeSlot (htidy : m.Tidy) (hslot : m.listed[index]? = some slot) {u : Unit}
    (hrun : Returns (removeSlot index) m u m') : HandedBack index m m' := by
  have hhand := hand_removeSlot hrun
  obtain ⟨-, -, hand, pool, events, rfl⟩ := returns_removeSlot htidy hslot hrun
  exact ⟨rfl, hhand, rfl, rfl⟩

/-- A page that is claimed gets the frame, or its contents could not be had. -/
theorem settled_of_claimInto (htidy : m.Tidy) (hslot : m.listed[index]? = some ⟨f, none⟩)
    (hpage : m.pages.get? key = some page) {answer : Except VmError Unit}
    (hrun : Answers (claimInto key page d index) m answer m') :
    answer = .ok () ∧ HandedOn index ⟨key, page.va, d⟩ m m' ∨
      answer = .error .loadFailed ∧ HandedBack index m m' := by
  obtain ⟨result, m₁, hbring, hrest⟩ := claimInto_parts hslot hrun
  obtain ⟨bytes, pool, swap, events, rfl, hallocation, -, -⟩ := returns_bringIn hbring
  obtain ⟨rfl, rfl, hremove⟩ | ⟨contents, m₂, rfl, rfl, hlink, rfl⟩ := hrest
  · obtain ⟨hlisted, hhand, hpages, hdirectories⟩ :=
      handedBack_of_removeSlot (m := { m with pool, swap, events }) (htidy.congr hallocation rfl) hslot
        hremove
    exact .inr ⟨rfl, hlisted, hhand, hpages, hdirectories⟩
  · have hfound : (m.pages.modify key fun page => { page with contents }).get? key =
        some { page with contents } := by rw [Arena.get?_modify, if_pos rfl, hpage, Option.map_some]
    obtain ⟨hlisted, hhand, hpages, haccessed, hdirty⟩ := handedOn_of_link (m := { m with
      pool, swap, events, pages := m.pages.modify key fun page => { page with contents } }) hslot
        hfound hlink
    refine .inl ⟨rfl, hlisted, hhand, fun key' hkey => (hpages key' hkey).trans ?_, haccessed,
      hdirty⟩
    exact (Arena.get?_modify ..).trans (if_neg (Ne.symm hkey))

theorem settled_of_copyInto (htidy : m.Tidy) (hslot : m.listed[index]? = some ⟨f, none⟩)
    (hpage : m.pages.get? key = some page) {contents : Contents} {source : CopySource}
    (hfrom : CopiesFrom page contents (some source)) {copy : Page}
    {answer : Except VmError (Key Page)} (hrun : Answers (copyInto copy source d index) m answer m') :
    answer = .ok m.pages.nextKey ∧ HandedOn index ⟨m.pages.nextKey, copy.va, d⟩ m m' ∨
      answer = .error .loadFailed ∧ HandedBack index m m' := by
  obtain ⟨copied, m₁, hbytes, hrest⟩ := copyInto_parts hslot hrun
  obtain ⟨-, -, -, pool, swap, rfl, hallocation⟩ := returns_copyBytes hpage hfrom hbytes
  obtain ⟨rfl, rfl, hremove⟩ | ⟨rfl, rfl, hlink⟩ := hrest
  · obtain ⟨hlisted, hhand, hpages, hdirectories⟩ :=
      handedBack_of_removeSlot (m := { m with pool, swap }) (htidy.congr hallocation rfl) hslot hremove
    exact .inr ⟨rfl, hlisted, hhand, hpages, hdirectories⟩
  · have hfound : (m.pages.add copy).get? m.pages.nextKey = some copy := by
      rw [Arena.get?_add, if_pos rfl]
    obtain ⟨hlisted, hhand, hpages, haccessed, hdirty⟩ := handedOn_of_link
      (m := { m with pool, swap, pages := m.pages.add copy }) hslot hfound hlink
    refine .inl ⟨rfl, hlisted, hhand, fun key' hkey => (hpages key' hkey).trans ?_, haccessed,
      hdirty⟩
    exact (Arena.get?_add ..).trans (if_neg hkey)

/-! ### The next sweep -/

theorem Vacated.exists_around (h : Vacated spared index v o m m₁) :
    ∃ before behind, m.listed = before ++ v :: behind ∧ before.length = index := by
  obtain ⟨hlt, hget⟩ := List.getElem?_eq_some_iff.1 h.slot
  refine ⟨m.listed.take index, m.listed.drop (index + 1), ?_, List.length_take_of_le hlt.le⟩
  rw [← hget, List.getElem_cons_drop, List.take_append_drop]

/-- After a frame was refilled the clock comes to it last. -/
theorem Vacated.order_of_handedOn (h : Vacated spared index v o m m₁) {o' : Owner}
    (hgiven : HandedOn index o' m₁ m') : ∃ before behind,
      m.listed.map (·.frame) = before ++ v.frame :: behind ∧
        m'.clockOrder.map (·.frame) = behind ++ before ++ [v.frame] := by
  obtain ⟨before, behind, hlisted, rfl⟩ := h.exists_around
  refine ⟨before.map (·.frame), behind.map (·.frame), by rw [hlisted]; simp, ?_⟩
  have hframes : m'.listed.map (·.frame) = m.listed.map (·.frame) := by
    rw [hgiven.listed, map_frame_modify, h.listed, map_frame_modify]
  have hlength : m.listed.length = (m.listed.map (·.frame)).length := (List.length_map ..).symm
  have hrotate := List.rotate_append_length_eq ((before ++ [v]).map (·.frame)) (behind.map (·.frame))
  rw [clockOrder, List.map_rotate, hframes, hgiven.hand, h.hand, hlength, List.rotate_mod, hlisted]
  simpa using hrotate

/-- After a frame went back to the pool the clock comes to the one behind it first. -/
theorem Vacated.order_of_handedBack (h : Vacated spared index v o m m₁)
    (hback : HandedBack index m₁ m') : ∃ before behind, m.listed.map (·.frame) = before ++ v.frame :: behind ∧
      m'.clockOrder.map (·.frame) = behind ++ before := by
  obtain ⟨before, behind, hlisted, rfl⟩ := h.exists_around
  refine ⟨before.map (·.frame), behind.map (·.frame), by rw [hlisted]; simp, ?_⟩
  have hleft : m'.listed = before ++ behind := by
    rw [hback.listed, h.listed, hlisted, List.eraseIdx_modify_of_eq, List.eraseIdx_append_of_length_le
      (Nat.le_refl _), Nat.sub_self, List.eraseIdx_cons_zero]
  have hhand : m'.hand = handAfterRemoval
      ((before.length + 1) % (before.length + (behind.length + 1))) before.length
      (before.length + behind.length) := by
    rw [hback.hand, h.hand, hleft, hlisted, List.length_append, List.length_append,
      List.length_cons]
  rw [clockOrder, hleft, hhand, ← List.map_append]
  congr 1
  cases behind with
  | nil => simp [handAfterRemoval]
  | cons next behind =>
      rw [Nat.mod_eq_of_lt (by simp), handAfterRemoval, if_pos (Nat.lt_succ_self _),
        Nat.add_sub_cancel, if_neg (by simp)]
      exact List.rotate_append_length_eq before (next :: behind)

end DemandPaging.Machine
