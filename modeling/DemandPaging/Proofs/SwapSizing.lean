import DemandPaging.Proofs.Panics

/-!
How much swap is enough.

The one panic is that an anonymous page has to leave its frame and swap does not take it. Over a device
that fails no write this means that every slot is occupied, and so by a page of its own; the page that
is stuck is one more. So a system with a slot for each anonymous page never stops, although a page that
is brought in keeps its slot until another one was evicted to make room for it.

What counts is the number of anonymous pages at the moments of a request: when it begins, when it
returns, and where it is stopped. A fork that is stopped ends what it has copied, so there the moment
that counts is the one before.
-/

namespace DemandPaging

open Machine Space

/-! ### Anonymous pages -/

def Machine.anonymousPages (m : Machine) : Nat :=
  (m.spaces.values.flatMap (·.pages.values)).countP fun key =>
    (m.pages.get? key).any (·.contents.kind == .anonymous)

variable {start m m₁ m' : Machine} {history : List Done} {s : Key AddressSpace} {α : Type}
  {request : Request α} {effects : List Effect}

theorem Machine.Sound.mem_maps {x : Option FrameNumber} (h : Sound x m) {key : Key Page} {page : Page}
    (hpage : m.pages.get? key = some page) : key ∈ m.spaces.values.flatMap (·.pages.values) := by
  obtain ⟨s, hplace⟩ := h.coherent.placement.held hpage
  obtain ⟨space, hspace, -⟩ := Option.bind_eq_some_iff.1 hplace
  exact List.mem_flatMap.2 ⟨space, (Arena.mem_values_iff ..).2 ⟨s, hspace⟩,
    (mem_pages hspace).2 ⟨_, hplace⟩⟩

/-- Where every slot holds a page, an anonymous page without a slot is one more than there are
slots. -/
theorem slotCount_lt_anonymousPages {x : Option FrameNumber} (h : Sound x m)
    (hbooks : SlotBooks (fun _ => false) m.view.isOccupied m.view.slotOf)
    (hfull : ∀ slot : SwapSlot, slot.index < m.swap.slotCount → m.swap.isOccupied slot = true)
    {key : Key Page} {page : Page} (hpage : m.pages.get? key = some page)
    (hcontents : page.contents = .anonymous none) : m.swap.slotCount < m.anonymousPages := by
  let isAnonymous : Key Page → Bool := fun key =>
    (m.pages.get? key).any (·.contents.kind == .anonymous)
  let anonymous : Finset (Key Page) :=
    ((m.spaces.values.flatMap (·.pages.values)).filter isAnonymous).toFinset
  have hmem : ∀ {key page slot?}, m.pages.get? key = some page →
      page.contents = .anonymous slot? → key ∈ anonymous := by
    intro key page slot? hpage hcontents
    refine List.mem_toFinset.2 (List.mem_filter.2 ⟨h.mem_maps hpage, ?_⟩)
    simp [isAnonymous, hpage, hcontents, Contents.kind]
  have hnamed : ∀ index, ∃ key, index < m.swap.slotCount → m.view.slotOf key = some ⟨index⟩ := by
    intro index
    by_cases hlt : index < m.swap.slotCount
    · obtain ⟨key, hkey⟩ := (hbooks.occupied.1 (hfull ⟨index⟩ hlt)).resolve_left (by simp)
      exact ⟨key, fun _ => hkey⟩
    · exact ⟨key, fun hlt' => absurd hlt' hlt⟩
  choose holder hholder using hnamed
  have hcard : (Finset.range m.swap.slotCount).card ≤ (anonymous.erase key).card := by
    refine Finset.card_le_card_of_injOn holder (fun index hindex => ?_)
      fun index hindex index' hindex' he => ?_
    · have hslot := hholder index (Finset.mem_range.1 hindex)
      obtain ⟨held, hheld, hslot?⟩ := Option.bind_eq_some_iff.1 hslot
      refine Finset.mem_erase.2 ⟨fun he => ?_, hmem hheld (slot?_eq_some_iff.1 hslot?)⟩
      rw [he, View.slotOf_eq hpage, hcontents] at hslot
      cases hslot
    · have hslot := hholder index (Finset.mem_range.1 hindex)
      rw [he, hholder index' (Finset.mem_range.1 hindex')] at hslot
      exact (congrArg SwapSlot.index (Option.some.inj hslot)).symm
  calc m.swap.slotCount = (Finset.range m.swap.slotCount).card := (Finset.card_range _).symm
    _ ≤ (anonymous.erase key).card := hcard
    _ < anonymous.card := Finset.card_erase_lt_of_mem (hmem hpage hcontents)
    _ ≤ ((m.spaces.values.flatMap (·.pages.values)).filter isAnonymous).length :=
        List.toFinset_card_le _
    _ = m.anonymousPages := (List.countP_eq_length_filter ..).symm

/-! ### Stops -/

/-- Over a device that fails no write, an eviction is broken off only where there are more anonymous
pages than slots. -/
theorem Machine.BrokenOff.slotCount_lt {key : Key Page} {cause : SwapError}
    (h : m₁.BrokenOff key cause m') (hsound : Sound none m₁)
    (hbooks : SlotBooks (fun _ => false) m₁.view.isOccupied m₁.view.slotOf)
    (hwrites : m₁.swap.TakesWrites) : m'.swap.slotCount < m'.anonymousPages := by
  obtain ⟨page, f, bytes, hpage, hcontents, -, -, hstore⟩ := h.denied
  have hsame : m'.anonymousPages = m₁.anonymousPages := by
    rw [anonymousPages, anonymousPages, h.pages, h.spaces]
  rw [hsame, Swap.slotCount_of_store hstore]
  have hfull := (Swap.refuses_of_store hstore).1.full_of_takesWrites hwrites
  exact slotCount_lt_anonymousPages hsound hbooks hfull hpage hcontents

/-- What is known of the swap area at every moment: no slot is occupied but by a page, and the device
fails no write. -/
structure Machine.SwapInService (m : Machine) : Prop where
  books : SlotBooks (fun _ => false) m.view.isOccupied m.view.slotOf
  writes : m.swap.TakesWrites

theorem Machine.Course.slotBooks {kept : SwapSlot → Bool} (h : Course effects none m none m₁)
    (hsound : Sound none m) (hbooks : SlotBooks kept m.view.isOccupied m.view.slotOf) :
    SlotBooks kept m₁.view.isOccupied m₁.view.slotOf :=
  (h.steps.preserves (P := fun x v => Coherent x v ∧ SlotBooks kept v.isOccupied v.slotOf)
    (fun hstep hand => ⟨hstep.coherent hand.1, hstep.slotBooks hand.1 hand.2⟩)
    ⟨hsound.coherent, hbooks⟩).2

theorem Machine.Course.slotCount_eq (h : Course effects none m none m₁) :
    m₁.swap.slotCount = m.swap.slotCount :=
  h.steps.preserves (P := fun _ v => v.slots = m.swap.slotCount)
    (fun hstep hslots => hstep.slots_eq.trans hslots) rfl

theorem Machine.SwapInService.course (h : m.SwapInService) (hsound : Sound none m)
    (hcourse : Course effects none m none m₁) (hdevice : m.swap.disk.SameDevice m₁.swap.disk) :
    m₁.SwapInService :=
  ⟨hcourse.slotBooks hsound h.books, h.writes.of_sameDevice hdevice hcourse.slotCount_eq⟩

theorem Stopped.slotCount_lt {asked : Key Page → Prop} {panic : Panic}
    (h : Stopped asked m panic m') (hsound : Sound none m) (hservice : m.SwapInService)
    (hsteady : Steady m m') : m'.swap.slotCount < m'.anonymousPages := by
  obtain ⟨effects, m₁, key, cause, hcourse, -, hbroken, -⟩ := h.cause
  obtain ⟨_, _, _, -, -, -, -, hstore⟩ := hbroken.denied
  -- the device that refused the page is the one that was there before
  have hdevice := hsteady.device.trans (Swap.sameDevice_store hstore).symm
  have hservice₁ := hservice.course hsound hcourse hdevice
  exact hbroken.slotCount_lt (hcourse.sound hsound) hservice₁.books hservice₁.writes

/-! ### Requests -/

/-- A moment of a request that is carried out in `m`. -/
inductive Request.Moment (s : Key AddressSpace) (m : Machine) :
    {α : Type} → Request α → Machine → Prop where
  | begins {α : Type} {request : Request α} : Moment s m request m
  | returns {α : Type} {request : Request α} {answer : Option α} {m' : Machine}
      (h : Returns (request.perform? s) m answer m') : Moment s m request m'
  | stops {α : Type} {request : Request α} {panic : Panic} {m' : Machine}
      (h : Panics (request.perform? s) m panic m') : Moment s m request m'
  /-- A fork was stopped while it copied, and what was copied is still there. -/
  | copying {name : String} {current : AddressSpace} {child : Key AddressSpace} {panic : Panic}
      {m₁ m' : Machine} (hbegun : ForkBegun s name m current child m₁)
      (h : Panics (do
        copyRegions child current.regions.values
        copyPages child current.pages.values : ExceptT VmError Action Unit).run m₁ panic m') :
      Moment s m (.fork name) m'

/-- A request other than a fork that returns has no moments in between. -/
theorem Request.Moment.eq_of_returns (h : request.Moment s m m₁) (hforks : ¬request.Forks)
    {answer : Option α} (hreturns : Returns (request.perform? s) m answer m') : m₁ = m ∨ m₁ = m' := by
  cases h with
  | begins => exact .inl rfl
  | returns h =>
      cases (show EStateM.Result.ok answer m' = .ok _ m₁ from hreturns.symm.trans h)
      exact .inr rfl
  | stops h => cases (show EStateM.Result.ok answer m' = .error _ m₁ from hreturns.symm.trans h)
  | copying => exact absurd trivial hforks

/-- There is a slot for every anonymous page at every moment of a request. -/
def Request.HasRoom (s : Key AddressSpace) (m : Machine) (request : Request α) : Prop :=
  ∀ m', request.Moment s m m' → m'.anonymousPages ≤ m'.swap.slotCount

theorem Space.ForkBegun.steady {name : String} {current : AddressSpace} {child : Id}
    (h : ForkBegun s name m current child m₁) : Steady m m₁ := by
  have hbegun := h.begun
  simp only [returns_bind, returns_pure] at hbegun
  obtain ⟨_, m₂, hcreate, _, m₃, hstack, _, m₄, hsaved, rfl, rfl⟩ := hbegun
  have hset := (keeps_updateSpace _ _).returns hstack
  exact ((others_of_create hcreate).2.steady.trans hset.steady).trans
    ((keeps_updateSpace _ _).returns hsaved).steady

theorem panicsOnly_perform? {stop : Panic → Machine → Prop}
    (h : ∀ space, m.spaces.get? s = some space → PanicsOnly stop (request.perform s) m) :
    PanicsOnly stop (request.perform? s) m := by
  unfold Request.perform?
  refine .get_bind ?_
  split
  · next space hspace => exact .bind (h space hspace) fun _ _ _ => .pure _
  · exact .pure _

theorem Request.keeps_perform? (hforks : ¬request.Forks) :
    Keeps (Others s) (request.perform? s) := by
  refine .bind .get fun m => ?_
  split
  · exact .bind (Request.keeps_others hforks) fun _ => .pure _
  · exact .pure _

/-- A request that stops has come to a moment with more anonymous pages than slots. -/
theorem Request.exists_crowded (hserves : ∀ space, m.spaces.get? s = some space → m.Serves s)
    (hsound : Sound none m) (hservice : m.SwapInService) (hfiles : request.FilesIn m.view)
    {panic : Panic} (hpanic : Panics (request.perform? s) m panic m') :
    ∃ m₁, request.Moment s m m₁ ∧ m₁.swap.slotCount < m₁.anonymousPages := by
  have hothers : ¬request.Forks → m'.swap.slotCount < m'.anonymousPages := fun hforks => by
    have hends := panicsOnly_perform? fun space hspace =>
      stopped_of_perform (hserves space hspace) hfiles hforks
    exact (hends.panicked hpanic).slotCount_lt hsound hservice
      ((Request.keeps_perform? hforks).panics hpanic).steady
  cases request with
  | fork name =>
      have hends : PanicsOnly (fun panic _ => ∃ current child m₁ m',
          ForkBegun s name m current child m₁ ∧ Course [.opened child] none m none m₁ ∧
            CopyStopped (fun _ => False) child current m₁ panic m')
          ((Request.fork name).perform? s) m :=
        panicsOnly_perform? fun space hspace => copyStopped_of_fork (hserves space hspace) name
      obtain ⟨current, child, m₁, m₂, hbegun, hcourse, hcopy⟩ := hends.panicked hpanic
      have hsteady := ((keeps_copy child current).panics hcopy.panics).others.steady
      exact ⟨m₂, .copying hbegun hcopy.panics, hcopy.stopped.slotCount_lt (hcourse.sound hsound)
        (hservice.course hsound hcourse hbegun.steady.device) hsteady⟩
  | _ => exact ⟨m', .stops hpanic, hothers id⟩

/-! ### Runs -/

theorem Run.swapInService (h : Run start history m)
    (hempty : ∀ slot, start.swap.isOccupied slot = false) (hwrites : start.swap.TakesWrites) :
    m.SwapInService where
  books := by
    have hbooks := h.slotBooks
    rwa [funext hempty] at hbooks
  writes := hwrites.of_sameDevice h.reaches.steady.device h.slotCount_eq

/-- With a slot for every anonymous page at every moment, over a device that fails no write, every
request of a run returns. -/
theorem Run.returns_of_hasRoom (h : Run start history m) (hcapacity : start.pool.capacity ≤ maxFrames)
    (hempty : ∀ slot, start.swap.isOccupied slot = false) (hwrites : start.swap.TakesWrites)
    (hfiles : request.FilesIn m.view) (hroom : request.HasRoom s m) :
    ∃ answer m', Returns (request.perform? s) m answer m' := by
  cases hrun : request.perform? s m with
  | ok answer m' => exact ⟨answer, m', hrun⟩
  | error panic m' =>
      obtain ⟨m₁, hmoment, hcrowded⟩ := Request.exists_crowded (fun _ => h.serves hcapacity) h.sound
        (h.swapInService hempty hwrites) hfiles (show Panics _ m panic m' from hrun)
      exact absurd (hroom m₁ hmoment) (Nat.not_le.2 hcrowded)

/-- One frame, two slots and two pages of a stack. The page that comes back keeps its slot until the
other one is in the second slot. -/
theorem returns_of_twoPages : ∃ history m s fault, Run (bare 1 2 .empty) history m ∧
    (bare 1 2 .empty).pool.capacity ≤ maxFrames ∧
      (∀ slot, (bare 1 2 .empty).swap.isOccupied slot = false) ∧ (bare 1 2 .empty).swap.TakesWrites ∧
        (Request.handleFault fault).FilesIn m.view ∧ (Request.handleFault fault).HasRoom s m ∧
          m.anonymousPages = m.swap.slotCount ∧
            ∃ answer m', Returns ((Request.handleFault fault).perform? s) m answer m' := by
  let grows : PageFault := ⟨⟨userStack - 2 * pageSize, by decide⟩, true, true, true, userStack - 8192⟩
  let comesBack : PageFault := ⟨⟨userStack - 1, by decide⟩, true, true, true, userStack - 8192⟩
  have htest : returnsWith (do
      let s ← Space.create "init"
      let _ ← Request.setUpStack.perform? s
      let _ ← (Request.handleFault grows).perform? s
      let before ← get
      return (s, before, ← (Request.handleFault comesBack).perform? s)) (bare 1 2 .empty)
      (fun (_, before, _) m => before.anonymousPages == before.swap.slotCount &&
        m.anonymousPages == m.swap.slotCount) = true := by
    decide +kernel
  obtain ⟨⟨s, before, answer⟩, m', hrun, htest⟩ := exists_returns htest
  simp only [returns_bind, returns_pure] at hrun
  obtain ⟨_, m₁, hcreate, _, m₂, hstack, _, m, hgrow, _, _, hget, _, _, hreturn, he, rfl⟩ := hrun
  obtain ⟨rfl, rfl⟩ := returns_get.1 hget
  cases he
  simp only [Bool.and_eq_true, beq_iff_eq] at htest
  obtain ⟨hbefore, hafter⟩ := htest
  obtain ⟨history, hstacked⟩ := (Reaches.refl.create hcreate).perform? hstack
  obtain ⟨history', hgrown⟩ := hstacked.perform? hgrow
  have hrun : Run (bare 1 2 .empty) history' before := ⟨fresh_bare 1 2 .empty, hgrown⟩
  have hcapacity : (bare 1 2 .empty).pool.capacity ≤ maxFrames := by decide
  have hwrites : (bare 1 2 .empty).swap.TakesWrites := Swap.takesWrites_ofSize 2
  have hroom : (Request.handleFault comesBack).HasRoom s before := by
    intro m₃ hmoment
    obtain rfl | rfl := hmoment.eq_of_returns id hreturn
    · exact hbefore.le
    · exact hafter.le
  exact ⟨history', before, s, comesBack, hrun, hcapacity, isOccupied_bare 1 2 .empty, hwrites, trivial,
    hroom, hbefore, hrun.returns_of_hasRoom hcapacity (isOccupied_bare 1 2 .empty) hwrites trivial hroom⟩

end DemandPaging
