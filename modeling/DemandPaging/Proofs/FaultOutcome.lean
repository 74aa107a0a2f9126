import DemandPaging.Proofs.Refusal

/-!
How a fault ends.

A fault is judged by its address first, then by what was attempted, and then by what the address space
knows of the page. Only where these allow it a frame is asked for: for a page of the stack that is not
there yet, or for a page that is there but in no frame. So there are three things that can end a fault
that passed all checks: a frame is had and the bytes too, one of them cannot be had, or the page that has
to leave its frame for this one is stuck, and then the run stops.

A page is added in one case alone, and everywhere else the address space is what it was.
-/

namespace DemandPaging

open Machine Space

/-! ### What is asked -/

/-- The stack pointer that counts for a fault: that of the process if it was running, and the one that
was saved if the kernel was. -/
def PageFault.countedPointer (fault : PageFault) (space : AddressSpace) : Nat :=
  if fault.user then fault.stackPointer else space.savedStackPointer

/-- An address within the stack, and no more than a push below the stack pointer. -/
structure IsPush (address : VirtualAddress) (stackPointer : Nat) : Prop where
  set : stackPointer ≠ 0
  above : stackLimit ≤ address.toNat
  below : address.toNat ≤ userStack
  near : stackPointer ≤ address.toNat + stackSlack

theorem isStackAccess_iff {address : VirtualAddress} {stackPointer : Nat} :
    isStackAccess address stackPointer = true ↔ IsPush address stackPointer := by
  simp only [isStackAccess, decide_eq_true_eq]
  exact ⟨fun ⟨hset, habove, hbelow, hnear⟩ => ⟨hset, habove, hbelow, Nat.sub_le_iff_le_add.1 hnear⟩,
    fun h => ⟨h.set, h.above, h.below, Nat.sub_le_iff_le_add.2 h.near⟩⟩

instance (address : VirtualAddress) (stackPointer : Nat) : Decidable (IsPush address stackPointer) :=
  decidable_of_iff _ isStackAccess_iff

structure PageFault.IsMiss (fault : PageFault) : Prop where
  notNull : fault.address.toNat ≠ 0
  user : fault.address.toNat < kernelBase
  notPresent : fault.notPresent = true

namespace Machine

def pageAt? (m : Machine) (space : AddressSpace) (address : VirtualAddress) : Option Page :=
  (space.pages.find? address).bind m.pages.get?

def CanLoad (m : Machine) (page : Page) : Prop :=
  page.isResident = true ∨ m.FrameToSpare ∧ m.Obtainable m.requestsAhead page.contents

instance (m : Machine) (page : Page) : Decidable (m.CanLoad page) :=
  inferInstanceAs (Decidable (_ ∨ _))

/-- The answer to a fault, by what is asked first. -/
def verdict (m : Machine) (space : AddressSpace) (fault : PageFault) :
    Except Rejection Resolution :=
  if fault.address.toNat = 0 then .error .nullAddress
  else if kernelBase ≤ fault.address.toNat then .error .kernelAddress
  else if fault.notPresent = false then .error .protectionViolation
  else
    match m.pageAt? space fault.address with
    | none =>
        if ¬IsPush fault.address (fault.countedPointer space) then .error .unmapped
        else if m.FrameToSpare then .ok .stackGrown
        else .error .loadFailed
    | some page =>
        if fault.write = true ∧ page.writable = false then .error .readOnly
        else if m.CanLoad page then .ok .resolved
        else .error .loadFailed

/-- A fault passes all checks, and the page that it is about is in no frame. -/
def AsksForFrame (m : Machine) (space : AddressSpace) (fault : PageFault) : Prop :=
  fault.IsMiss ∧
    match m.pageAt? space fault.address with
    | none => IsPush fault.address (fault.countedPointer space)
    | some page => ¬(fault.write = true ∧ page.writable = false) ∧ page.frame = none

end Machine

/-! ### What is left -/

namespace Machine

/-- The page in a place of an address space is in a frame, and it is mapped there for the user, with its
rights. -/
structure Maps (m : Machine) (s : Key AddressSpace) (n : PageNumber) (page : Page) (f : FrameNumber) :
    Prop where
  resident : ∃ key, m.view.pageOf s n = some key ∧ m.pages.get? key = some page ∧
    page.frame = some f
  mapped : ∃ space directory pa flags, m.spaces.get? s = some space ∧
    m.directories.get? space.directory = some directory ∧ f.start = .ok pa ∧
      directory.locate page.va = some (pa, flags) ∧ flags.test .present = true ∧
        flags.test .user = true ∧ flags.test .writable = page.writable

/-- An address space got one more page in a place that was free, a writable one of zeros in a frame.
Nothing else about address spaces is different. -/
structure GrewBy (m : Machine) (s : Key AddressSpace) (space : AddressSpace) (va : VirtualAddress)
    (m' : Machine) : Prop where
  free : space.pages[va.number]? = none
  spaces : m'.spaces.get? = Function.update m.spaces.get? s
    (some { space with pages := space.pages.insert va.number m.pages.nextKey })
  page : ∃ page f, m'.pages.get? m.pages.nextKey = some page ∧ page.va = va ∧
    page.writable = true ∧ page.frame = some f ∧ m'.view.bytes f = some (.zeros pageSize)

/-- A fault was answered by the rule. Where the stack grew there is one page more, and everywhere else
the address spaces are what they were. Where the fault was resolved its page is there. -/
structure FaultSettled (m : Machine) (s : Key AddressSpace) (space : AddressSpace) (fault : PageFault)
    (m' : Machine) (answer : Except Rejection Resolution) : Prop where
  answered : answer = m.verdict space fault
  unblocked : m.AsksForFrame space fault → ¬m.Blocked
  grown : answer = .ok .stackGrown → m.GrewBy s space fault.address.roundDown m'
  kept : answer ≠ .ok .stackGrown → m'.spaces.get? = m.spaces.get?
  present : ∀ resolution, answer = .ok resolution → ∃ page f, m'.Maps s fault.address.number page f

end Machine

variable {m m₁ m' : Machine} {s : Key AddressSpace} {space : AddressSpace} {key : Key Page}
  {page : Page} {f : FrameNumber} {d : Key Directory} {fault : PageFault}

theorem Machine.Sound.maps (h : Sound none m) {n : PageNumber} (hplace : m.view.pageOf s n = some key)
    (hpage : m.pages.get? key = some page) (hframe : page.frame = some f) : m.Maps s n page f := by
  obtain ⟨o, howner, rfl⟩ := h.coherent.residency.listed hpage hframe
  have hhome := h.coherent.home howner hplace
  obtain ⟨space, hspace, hdirectory⟩ := Option.map_eq_some_iff.1 hhome
  obtain ⟨_, directory, pa, flags, hpage', -, -, hstart, hfound, hlocate, hpresent, huser, hwritable⟩ :=
    h.located howner
  cases hpage.symm.trans hpage'
  exact ⟨⟨_, hplace, hpage, hframe⟩, space, directory, pa, flags, hspace,
    by rw [hdirectory, hfound], hstart, hlocate, hpresent, huser, hwritable⟩

/-! ### A page that is there -/

structure Machine.PageSettled (m : Machine) (s : Key AddressSpace) (page : Page) (m' : Machine)
    (answer : Except VmError Unit) : Prop where
  spaces : m'.spaces = m.spaces
  unblocked : page.frame = none → ¬m.Blocked
  settled : answer = .ok () ∧ m.CanLoad page ∧ (∃ page' f, m'.Maps s page.va.number page' f) ∨
    answer ≠ .ok () ∧ ¬m.CanLoad page

theorem Machine.Claimable.settles (h : m.Claimable s key d page) :
    Ends (claim key d).run m (fun answer m' => m.PageSettled s page m' answer)
      fun panic _ => page.frame = none ∧ m.Blocked ∧ ∃ cause, panic = .anonymousPageStuck cause := by
  cases hframe : page.frame with
  | some f =>
      have hresident : page.isResident = true := by rw [Page.isResident, hframe, Option.isSome_some]
      refine .of_returns (answers_claim_of_resident h.page hresident) ⟨rfl, fun he => ?_,
        .inl ⟨rfl, .inl hresident, page, f, h.ready.sound.maps h.place h.page hframe⟩⟩
      cases hframe.symm.trans he
  | none =>
      have habsent : ¬page.isResident = true := by
        rw [Page.isResident, hframe, Option.isSome_none]
        exact Bool.false_ne_true
      refine (h.ends hframe).mono (fun answer m' hrun hanswered => ?_) fun panic _ hstop => ⟨rfl, hstop⟩
      obtain ⟨hspaces, effects, hcourse, -⟩ :=
        course_claim h.ready.sound h.directory h.place hrun
      cases hanswered with
      | @ok f hspare hbytes hbrought =>
          have hplace : m'.view.pageOf s page.va.number = some key := by
            rw [view_pageOf_congr hspaces, h.place]
          exact ⟨hspaces, fun _ hblocked => hblocked.not_frameToSpare hspare, .inl ⟨rfl,
            .inr ⟨hspare, hbytes⟩, _, f,
              (hcourse.sound h.ready.sound).maps hplace hbrought.resident rfl⟩⟩
      | loadFailed hspare hbytes =>
          exact ⟨hspaces, fun _ hblocked => hblocked.not_frameToSpare hspare,
            .inr ⟨fun he => (by cases he), fun hcan => hcan.elim habsent fun hand => hbytes hand.2⟩⟩
      | outOfMemory hexhausted =>
          exact ⟨hspaces, fun _ hblocked => hblocked.not_exhausted hexhausted,
            .inr ⟨fun he => (by cases he),
              fun hcan => hcan.elim habsent fun hand => hexhausted.not_frameToSpare hand.1⟩⟩

/-! ### A page of the stack that is new -/

section

variable (h : Sound none m)

include h

/-- A page that is new has no frame yet, so the page that has to leave is the same. -/
theorem leaving?_withPage : (m.withPage s page).leaving? = m.leaving? := by
  change ((m.victim? none).bind (·.owner)).bind (fun o => (m.pages.add page).get? o.page) = m.leaving?
  rw [leaving?]
  refine Option.bind_congr fun o ho => ?_
  obtain ⟨v, hvictim, howner⟩ := Option.bind_eq_some_iff.1 ho
  have hlisted : ⟨v.frame, some o⟩ ∈ m.listed := by
    rw [← howner]
    exact (mem_eligible.1 (mem_eligible_of_victim hvictim)).1
  obtain ⟨found, -, hfound, -⟩ :=
    h.coherent.residency.linked ((ownerIn_eq_some h.tidy.nodup).2 hlisted)
  have hold : m.pages.get? o.page = some found := hfound
  rw [Arena.get?_add, if_neg]
  rintro he
  rw [he, Arena.get?_nextKey] at hold
  cases hold

theorem frameToSpare_withPage : (m.withPage s page).FrameToSpare ↔ m.FrameToSpare := by
  rw [FrameToSpare, leaving?_withPage h]
  exact Iff.rfl

theorem blocked_withPage : (m.withPage s page).Blocked ↔ m.Blocked := by
  rw [Blocked, leaving?_withPage h]
  exact Iff.rfl

end

theorem claimable_withPage (h : Ready none m) (hhand : m.HandInList)
    (hspace : m.spaces.get? s = some space) (hfree : space.pages[page.va.number]? = none)
    (hcontents : page.contents = .pending .zeros) (habsent : page.frame = none)
    (hholders : page.holders = 1) :
    (m.withPage s page).Claimable s m.pages.nextKey space.directory page := by
  have hinsert := (answers_insertPage_iff hspace).2 (.inr ⟨rfl, hfree, rfl⟩)
  rcases answers_insertPage h.sound hcontents habsent hholders hinsert with ⟨_, he, -⟩ | ⟨-, hone⟩
  · cases he
  refine ⟨h.passed (passed_insertPage h.sound hone), hhand, ?_, ?_, ?_⟩
  · rw [view_directoryOf_eq (space_withPage hspace)]
  · rw [hone.pageOf_eq, if_pos rfl]
    rfl
  · rw [withPage, Arena.get?_add, if_pos rfl]

inductive Machine.GrowthSettled (m : Machine) (s : Key AddressSpace) (space : AddressSpace)
    (address : VirtualAddress) (m' : Machine) : Except Rejection Unit → Prop where
  | grown (hspare : m.FrameToSpare) (hgrew : m.GrewBy s space address.roundDown m')
      (hmaps : ∃ page f, m'.Maps s address.number page f) : GrowthSettled m s space address m' (.ok ())
  | refused (hexhausted : m.Exhausted) (hrestored : m.Restored m') :
      GrowthSettled m s space address m' (.error .loadFailed)

theorem growthSettled_of_broughtIn (h : Sound none m) (hspace : m.spaces.get? s = some space)
    (hfree : space.pages[page.va.number]? = none) {address : VirtualAddress}
    (hva : page.va = address.roundDown) (hwritable : page.writable = true)
    (hcontents : page.contents = .pending .zeros)
    (h₁ : (m.withPage s page).Claimable s m.pages.nextKey space.directory page)
    (hrun : Answers (claim m.pages.nextKey space.directory) (m.withPage s page) (.ok ()) m₁)
    (hspare : (m.withPage s page).FrameToSpare)
    (hbrought : m₁.BroughtIn ⟨m.pages.nextKey, page.va, space.directory⟩ page f)
    {events : Array Event} : m.GrowthSettled s space address { m₁ with events } (.ok ()) := by
  obtain ⟨hspaces, effects, hcourse, -⟩ := course_claim h₁.ready.sound h₁.directory h₁.place hrun
  have hplace : m₁.view.pageOf s page.va.number = some m.pages.nextKey := by
    rw [view_pageOf_congr hspaces, h₁.place]
  have hzeros : m₁.view.contentsBytes page.contents = .zeros pageSize := by
    rw [hcontents]
    rfl
  have hmaps := (hcourse.sound h₁.ready.sound).maps hplace hbrought.resident rfl
  have hnumber : page.va.number = address.number := by rw [hva, Number.number_roundDown]
  refine .grown ((frameToSpare_withPage h).1 hspare)
    ⟨hva ▸ hfree, ?_, _, f, hbrought.resident, hva, hwritable, rfl,
      hbrought.bytes.trans (congrArg some hzeros)⟩
    ⟨_, f, hnumber ▸ hmaps.resident, hmaps.mapped⟩
  funext s'
  change m₁.spaces.get? s' = _
  rw [hspaces, Function.update_apply, ← hva]
  split
  · next he => rw [he, space_withPage hspace]
  · next hne => rw [withPage, Arena.get?_modify, if_neg (Ne.symm hne)]

theorem ends_growStack (h : Ready none m) (hhand : m.HandInList)
    (hspace : m.spaces.get? s = some space) {address : VirtualAddress}
    (hfree : space.pages[address.number]? = none) :
    Ends (growStack s address).run m (fun answer m' => m.GrowthSettled s space address m' answer)
      fun panic _ => m.Blocked ∧ ∃ cause, panic = .anonymousPageStuck cause := by
  have haligned : address.roundDown.isPageAligned = true := by
    simp only [Address.isPageAligned, Address.toNat_roundDown, pageSize, beq_iff_eq]
    omega
  rw [← Number.number_roundDown] at hfree
  obtain ⟨page, hcreate, hva, hwritable, hcontents, habsent, hholders⟩ :
      ∃ page, Page.create address.roundDown true (.pending .zeros) = .ok page ∧
        page.va = address.roundDown ∧ page.writable = true ∧ page.contents = .pending .zeros ∧
          page.frame = none ∧ page.holders = 1 :=
    ⟨_, dif_pos haligned, rfl, rfl, rfl, rfl, rfl⟩
  rw [← hva] at hfree
  have hinsert := (answers_insertPage_iff hspace).2 (.inr ⟨rfl, hfree, rfl⟩)
  have h₁ := claimable_withPage h hhand hspace hfree hcontents habsent hholders
  unfold growStack
  refine .run_step (returns_getSpace.2 ⟨hspace, rfl⟩) (.run_computed hcreate (.run_step hinsert
    (.run_step (returns_getSpace.2 ⟨space_withPage hspace, rfl⟩) (.run_liftM_bind
      ((h₁.ends habsent).mono (fun _ _ _ => id) fun panic _ hstop => ?_)
        fun claimed m₁ hclaim hanswered => ?_))))
  · rwa [blocked_withPage h.sound] at hstop
  cases hanswered with
  | @ok f hspare hbytes hbrought =>
      exact .run_liftM (.modify (growthSettled_of_broughtIn h.sound hspace hfree hva hwritable
        hcontents h₁ hclaim hspare hbrought))
  | loadFailed hspare hbytes =>
      -- Zeros can always be had.
      rw [hcontents] at hbytes
      exact absurd obtainable_zeros hbytes
  | outOfMemory hexhausted hsame =>
      subst hsame
      refine .run_step (a := ()) (returns_record.2 rfl) (.run_liftM_bind
        (completes_removePage ?_ ?_).panicsOnly
          fun _ m₃ hremove _ => .run_throw (.refused hexhausted ?_))
      · exact Ready.solid (h₁.ready.silent rfl (h₁.ready.sound.tidy.of_eq rfl rfl))
      · exact ⟨_, space_withPage hspace⟩
      · rw [← hva] at hremove
        exact restored_of_removePage hspace hfree hcontents habsent hholders ⟨_, rfl⟩ hremove

/-! ### Faults -/

section

variable {events : Array Event} {answer : Except Rejection Resolution}

theorem obtainable_silent {later : Nat} {contents : Contents} :
    ({ m with events } : Machine).Obtainable later contents ↔ m.Obtainable later contents :=
  ⟨fun h => ⟨h.slice, h.slot, h.loads⟩, fun h => ⟨h.slice, h.slot, h.loads⟩⟩

theorem verdict_silent :
    ({ m with events } : Machine).verdict space fault = m.verdict space fault := by
  simp only [verdict, CanLoad, obtainable_silent]
  rfl

theorem Machine.FaultSettled.silent
    (h : ({ m with events } : Machine).FaultSettled s space fault m' answer) :
    m.FaultSettled s space fault m' answer where
  answered := h.answered.trans verdict_silent
  unblocked := h.unblocked
  grown he := ⟨(h.grown he).free, (h.grown he).spaces, (h.grown he).page⟩
  kept := h.kept
  present := h.present

theorem Machine.FaultSettled.reported (h : m.FaultSettled s space fault m' answer) :
    m.FaultSettled s space fault { m' with events } answer where
  answered := h.answered
  unblocked := h.unblocked
  grown he := ⟨(h.grown he).free, (h.grown he).spaces, (h.grown he).page⟩
  kept := h.kept
  present resolution he := by
    obtain ⟨page, f, hmaps⟩ := h.present resolution he
    exact ⟨page, f, hmaps.resident, hmaps.mapped⟩

end

theorem verdict_of_none (hmiss : fault.IsMiss) (hnone : m.pageAt? space fault.address = none) :
    m.verdict space fault =
      if ¬IsPush fault.address (fault.countedPointer space) then .error .unmapped
      else if m.FrameToSpare then .ok .stackGrown
      else .error .loadFailed := by
  rw [verdict, if_neg hmiss.notNull, if_neg (Nat.not_le.2 hmiss.user),
    if_neg (Bool.eq_false_iff.not.2 (not_not.2 hmiss.notPresent)), hnone]

theorem verdict_of_some (hmiss : fault.IsMiss) (hpage : m.pageAt? space fault.address = some page) :
    m.verdict space fault =
      if fault.write = true ∧ page.writable = false then .error .readOnly
      else if m.CanLoad page then .ok .resolved
      else .error .loadFailed := by
  rw [verdict, if_neg hmiss.notNull, if_neg (Nat.not_le.2 hmiss.user),
    if_neg (Bool.eq_false_iff.not.2 (not_not.2 hmiss.notPresent)), hpage]

theorem asksForFrame_of_none (hnone : m.pageAt? space fault.address = none) :
    m.AsksForFrame space fault ↔
      fault.IsMiss ∧ IsPush fault.address (fault.countedPointer space) := by
  rw [AsksForFrame, hnone]

theorem asksForFrame_of_some (hpage : m.pageAt? space fault.address = some page) :
    m.AsksForFrame space fault ↔
      fault.IsMiss ∧ ¬(fault.write = true ∧ page.writable = false) ∧ page.frame = none := by
  rw [AsksForFrame, hpage]

theorem faultSettled_of_rejected {cause : Rejection} (hidle : ¬m.AsksForFrame space fault)
    (hverdict : m.verdict space fault = .error cause) :
    m.FaultSettled s space fault m (.error cause) :=
  ⟨hverdict.symm, fun hasks => absurd hasks hidle, nofun, fun _ => rfl, nofun⟩

theorem faultSettled_of_grown {growth : Except Rejection Unit}
    (h : m.GrowthSettled s space fault.address m' growth)
    (hverdict : m.verdict space fault =
      if m.FrameToSpare then .ok .stackGrown else .error .loadFailed) :
    m.FaultSettled s space fault m' (growth.map fun _ => .stackGrown) := by
  cases h with
  | grown hspare hgrew hmaps =>
      exact ⟨(hverdict.trans (if_pos hspare)).symm, fun _ hblocked => hblocked.not_frameToSpare hspare,
        fun _ => hgrew, fun hne => absurd rfl hne, fun _ _ => hmaps⟩
  | refused hexhausted hrestored =>
      exact ⟨(hverdict.trans (if_neg hexhausted.not_frameToSpare)).symm,
        fun _ hblocked => hblocked.not_exhausted hexhausted, nofun, fun _ => hrestored.spaces, nofun⟩

theorem faultSettled_of_claimed {claimed : Except VmError Unit}
    (h : m.PageSettled s page m' claimed) (hnumber : page.va.number = fault.address.number)
    (hasks : m.AsksForFrame space fault → page.frame = none)
    (hverdict : m.verdict space fault =
      if m.CanLoad page then .ok .resolved else .error .loadFailed) :
    m.FaultSettled s space fault m' ((claimed.mapError fun _ => .loadFailed).map fun _ => .resolved) := by
  have hkept : m'.spaces.get? = m.spaces.get? := by rw [h.spaces]
  obtain ⟨rfl, hcan, hmaps⟩ | ⟨hfailed, hcannot⟩ := h.settled
  · exact ⟨(hverdict.trans (if_pos hcan)).symm, fun hin => h.unblocked (hasks hin), nofun,
      fun _ => hkept, fun _ _ => hnumber ▸ hmaps⟩
  cases claimed with
  | ok u => exact absurd rfl hfailed
  | error cause =>
      exact ⟨(hverdict.trans (if_neg hcannot)).symm, fun hin => h.unblocked (hasks hin), nofun,
        fun _ => hkept, nofun⟩

theorem exists_claimable (h : Ready none m) (hhand : m.HandInList)
    (hspace : m.spaces.get? s = some space) {address : VirtualAddress}
    (hkey : space.pages.find? address = some key) :
    ∃ page, m.pages.get? key = some page ∧ m.pageAt? space address = some page ∧
      page.va.number = address.number ∧ m.Claimable s key space.directory page := by
  have hplace : m.view.pageOf s address.number = some key := by
    rw [view_pageOf_eq hspace]
    exact hkey
  obtain ⟨page, hpage, hnumber⟩ := h.sound.coherent.placement.placed hplace
  refine ⟨page, hpage, ?_, hnumber, h, hhand, view_directoryOf_eq hspace, ?_, hpage⟩
  · rw [pageAt?, hkey, Option.bind_some]
    exact hpage
  · rw [hnumber, hplace]

theorem ends_resolveFault (h : Ready none m) (hhand : m.HandInList)
    (hspace : m.spaces.get? s = some space) (fault : PageFault) :
    Ends (resolveFault s fault).run m (fun answer m' => m.FaultSettled s space fault m' answer)
      fun panic _ => m.AsksForFrame space fault ∧ m.Blocked ∧
        ∃ cause, panic = .anonymousPageStuck cause := by
  have hnull : fault.address.isNull = true ↔ fault.address.toNat = 0 := beq_iff_eq
  have hkernel : fault.address.isKernel = true ↔ kernelBase ≤ fault.address.toNat :=
    decide_eq_true_iff
  unfold resolveFault
  dsimp only
  refine .run_refuse (fun hzero => ?_) fun hnotNull => .run_refuse (fun hhigh => ?_) fun hlow => ?_
  · rw [hnull] at hzero
    exact faultSettled_of_rejected (fun hasks => hasks.1.notNull hzero) (if_pos hzero)
  · rw [hnull] at hnotNull
    rw [hkernel] at hhigh
    exact faultSettled_of_rejected (fun hasks => Nat.not_le.2 hasks.1.user hhigh)
      (by rw [verdict, if_neg hnotNull, if_pos hhigh])
  rw [hnull] at hnotNull
  rw [hkernel] at hlow
  refine .run_require (fun hpresent => ?_) fun hnotPresent =>
    .run_step (returns_getSpace.2 ⟨hspace, rfl⟩) ?_
  · exact faultSettled_of_rejected (fun hasks => hpresent hasks.1.notPresent)
      (by rw [verdict, if_neg hnotNull, if_neg hlow, if_pos (Bool.eq_false_iff.2 hpresent)])
  have hmiss : fault.IsMiss := ⟨hnotNull, Nat.not_le.1 hlow, hnotPresent⟩
  -- From here on it depends on the page: one that is not there can only be a page of the stack, and one
  -- that is there can lack a right or a frame.
  split
  · next hfree =>
    have hnone : m.pageAt? space fault.address = none := by rw [pageAt?, hfree, Option.bind_none]
    refine .run_require (fun hstays => ?_) fun hpush => ?_
    · have hstays : ¬IsPush fault.address (fault.countedPointer space) :=
        mt isStackAccess_iff.2 hstays
      exact faultSettled_of_rejected (fun hasks => hstays ((asksForFrame_of_none hnone).1 hasks).2)
        ((verdict_of_none hmiss hnone).trans (if_pos hstays))
    have hpush : IsPush fault.address (fault.countedPointer space) := isStackAccess_iff.1 hpush
    have hverdict := (verdict_of_none hmiss hnone).trans (if_neg (not_not.2 hpush))
    exact .run_bind ((ends_growStack h hhand hspace hfree).mono (fun _ _ _ => id)
      fun panic _ hstop => ⟨(asksForFrame_of_none hnone).2 ⟨hmiss, hpush⟩, hstop⟩)
        (fun cause m₁ _ hgrown => faultSettled_of_grown hgrown hverdict)
          fun u m₁ _ hgrown => .run_pure (faultSettled_of_grown hgrown hverdict)
  · next key hkey =>
    obtain ⟨page, hpage, hfound, hnumber, hclaimable⟩ := exists_claimable h hhand hspace hkey
    refine .run_step (returns_getPage.2 ⟨hpage, rfl⟩) (.run_refuse (fun hreadOnly => ?_)
      fun hrights => ?_)
    · rw [Bool.and_eq_true, Bool.not_eq_true'] at hreadOnly
      exact faultSettled_of_rejected (fun hasks => ((asksForFrame_of_some hfound).1 hasks).2.1 hreadOnly)
        ((verdict_of_some hmiss hfound).trans (if_pos hreadOnly))
    rw [Bool.and_eq_true, Bool.not_eq_true'] at hrights
    have hverdict := (verdict_of_some hmiss hfound).trans (if_neg hrights)
    have hasks : m.AsksForFrame space fault ↔ page.frame = none := by
      rw [asksForFrame_of_some hfound]
      exact ⟨fun hasks => hasks.2.2, fun habsent => ⟨hmiss, hrights, habsent⟩⟩
    refine .run_liftM_bind (hclaimable.settles.mono (fun _ _ _ => id) fun panic _ hstop =>
      ⟨hasks.2 hstop.1, hstop.2⟩) fun claimed m₁ _ hsettled => ?_
    have hsettled := faultSettled_of_claimed hsettled hnumber hasks.1 hverdict
    cases claimed with
    | ok u => exact .run_pure hsettled
    | error cause => exact .run_step (a := ()) (returns_record.2 rfl) (.run_throw hsettled.reported)

theorem ends_handleFault (h : Ready none m) (hhand : m.HandInList)
    (hspace : m.spaces.get? s = some space) (fault : PageFault) :
    Ends (handleFault s fault).run m (fun answer m' => m.FaultSettled s space fault m' answer)
      fun panic _ => m.AsksForFrame space fault ∧ m.Blocked ∧
        ∃ cause, panic = .anonymousPageStuck cause := by
  have hreported : Ready none { m with events := m.events.push (.faulted space.name fault) } :=
    h.silent rfl (h.sound.tidy.of_eq rfl rfl)
  unfold handleFault
  refine .run_step (returns_getSpace.2 ⟨hspace, rfl⟩) (.run_step (a := ()) (returns_record.2 rfl)
    (.run_tryCatch ((ends_resolveFault hreported hhand hspace fault).mono (fun _ _ _ => id)
      fun panic _ hstop => hstop) (fun resolution m₁ _ hsettled => hsettled.silent)
        fun cause m₁ _ hsettled => ?_))
  exact .run_step (a := ()) (returns_record.2 rfl) (.run_throw hsettled.silent.reported)

/-- In a run every fault is answered by the rule, with one exception: where a frame is asked for and the
page that has to leave for it is stuck, the run stops instead. -/
theorem Run.faultSettled {start : Machine} {history : List Done} (h : Run start history m)
    (hcapacity : start.pool.capacity ≤ maxFrames) (hhand : start.hand = 0)
    (hspace : m.spaces.get? s = some space) (fault : PageFault) :
    Ends ((Request.handleFault fault).perform? s) m
      (fun answer? m' => ∃ answer, answer? = some answer ∧ m.FaultSettled s space fault m' answer)
      fun panic _ => m.AsksForFrame space fault ∧ m.Blocked ∧
        ∃ cause, panic = .anonymousPageStuck cause :=
  Request.ends_perform? hspace ((ends_handleFault (h.ready hcapacity) (h.handInList hhand) hspace
    fault).mono (fun answer _ _ hsettled => ⟨answer, rfl, hsettled⟩) fun _ _ => id)

/-- A push of the process puts the first page under its stack pointer. -/
theorem faultSettled_of_push : ∃ history s space m m', Run (bare 1 0 .empty) history m ∧
    m.spaces.get? s = some space ∧
      m.FaultSettled s space ⟨⟨userStack - 4, by decide⟩, true, true, true, userStack⟩ m'
        (.ok .stackGrown) := by
  let fault : PageFault := ⟨⟨userStack - 4, by decide⟩, true, true, true, userStack⟩
  have htest : returnsWith (do
        let s ← Space.create "init"
        let before ← get
        return (s, before, ← (Request.handleFault fault).perform? s)) (bare 1 0 .empty)
      (fun (s, m, answer) _ => (m.spaces.get? s).isSome && answer == some (.ok .stackGrown)) = true := by
    decide +kernel
  obtain ⟨⟨s, m, answer⟩, m', hrun, htest⟩ := exists_returns htest
  simp only [returns_bind, returns_pure] at hrun
  obtain ⟨_, _, hcreate, _, _, hget, _, _, hfault, he, rfl⟩ := hrun
  obtain ⟨rfl, rfl⟩ := returns_get.1 hget
  cases he
  rw [Bool.and_eq_true, Option.isSome_iff_exists, beq_iff_eq] at htest
  obtain ⟨⟨space, hspace⟩, rfl⟩ := htest
  have hrun : Run (bare 1 0 .empty) [] m := ⟨fresh_bare 1 0 .empty, Reaches.refl.create hcreate⟩
  obtain ⟨_, he, hsettled⟩ :=
    (hrun.faultSettled (by decide) rfl hspace fault).returned hfault
  cases he
  exact ⟨_, s, space, m, m', hrun, hspace, hsettled⟩

/-- One frame, which has the first page of the stack, and no swap area: a push to the page below cannot
be served, and there is no answer that says so. -/
theorem unanswered_of_push : ∃ history s space m fault, Run (bare 1 0 .empty) history m ∧
    m.spaces.get? s = some space ∧ m.verdict space fault = .error .loadFailed ∧
      ¬∃ answer? m', Returns ((Request.handleFault fault).perform? s) m answer? m' := by
  let address : VirtualAddress := ⟨userStack - 2 * pageSize, by decide⟩
  let fault : PageFault := ⟨address, true, true, true, address.toNat⟩
  have htest : returnsWith (do
        let s ← Space.create "init"
        return (s, ← Request.setUpStack.perform? s)) (bare 1 0 .empty)
      (fun (s, answer) m => answer.isSome &&
        ((m.spaces.get? s).any (fun space => decide (m.verdict space fault = .error .loadFailed)) &&
          panicsWith ((Request.handleFault fault).perform? s) m fun _ _ => true)) = true := by
    decide +kernel
  obtain ⟨⟨s, answer?⟩, m, hrun, htest⟩ := exists_returns htest
  simp only [returns_bind, returns_pure] at hrun
  obtain ⟨_, m₁, hcreate, _, _, hstack, he, rfl⟩ := hrun
  cases he
  simp only [Bool.and_eq_true, Option.isSome_iff_exists, Option.any_eq_true, decide_eq_true_eq] at htest
  obtain ⟨⟨answer, rfl⟩, ⟨space, hspace, hverdict⟩, hpanics⟩ := htest
  obtain ⟨panic, m', hpanic, -⟩ := exists_panics hpanics
  refine ⟨_, s, space, m, fault,
    ⟨fresh_bare 1 0 .empty, (Reaches.refl.create hcreate).request hstack⟩, hspace, hverdict, ?_⟩
  rintro ⟨answer?, m'', hreturns⟩
  cases hpanic.symm.trans hreturns

end DemandPaging
