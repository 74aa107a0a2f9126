import DemandPaging.Proofs.Machine.Replacement
import DemandPaging.Proofs.Panics

/-!
Which page is evicted.

An operation that needs a frame while the pool is empty takes it from the page that the rule of the
second chance names, or does not get one, and then it was for nothing: the hand stays where it is and
no accessed bit is cleared. If a page is evicted, the pages that were passed over lose their accessed
bits and no other page does, and the next sweep begins behind the frame that was taken. Nothing is
assumed of the state but that pages can be brought in at all, so the pins, the accessed bits and the
hand may be any.
-/

namespace DemandPaging

open Machine

variable {m m₁ m' : Machine} {index : Nat} {v : FrameSlot} {o o' : Owner}
  {spared : Option FrameNumber} {d : Key Directory} {va : VirtualAddress} {α : Type}
  {action : ExceptT VmError Action α} {key : Key Page} {page : Page}

/-- An operation that needs a frame, with the frame that it spares. A page is claimed that is not
resident, or a page is copied whose bytes are in a frame or in a slot. -/
inductive Machine.NeedsFrame (m : Machine) :
    {α : Type} → Option FrameNumber → ExceptT VmError Action α → Prop where
  | claim {s : Key AddressSpace} {d : Key Directory} {key : Key Page} {page : Page}
      (hpage : m.pages.get? key = some page) (habsent : page.frame = none)
      (hplace : m.view.pageOf s page.va.number = some key)
      (hdirectory : m.view.directoryOf s = some d) : NeedsFrame m none (claim key d)
  | duplicate {s : Key AddressSpace} {d : Key Directory} {key : Key Page} {page : Page}
      {contents : Contents} {source : CopySource} {m₁ : Machine}
      (hpage : m.pages.get? key = some page)
      (hsource : Answers (copyContents page) m (.ok (contents, some source)) m₁)
      (hplace : m.view.pageOf s page.va.number = none)
      (hdirectory : m.view.directoryOf s = some d) : NeedsFrame m page.frame (duplicate key d)

structure Machine.Evicts (spared : Option FrameNumber) (v : FrameSlot) (o : Owner)
    (refilled : Bool) (m m' : Machine) : Prop where
  resident : ∃ page, m.pages.get? o.page = some page ∧ page.frame = some v.frame
  evicted : ∃ page, m'.pages.get? o.page = some page ∧ page.frame = none
  others : ∀ key page, m.pages.get? key = some page → page.isResident = true → key ≠ o.page →
    m'.pages.get? key = some page
  /-- The accessed bits of the pages that got a second chance are cleared, and no others. -/
  accessed : ∀ d va, m'.isAccessed d va =
    (m.isAccessed d va && !(m.reprieved spared).any (·.covers d va))
  /-- The dirty bit of the page that is evicted goes with its mapping. -/
  dirty : ∀ d va, m'.view.isDirty d va = (m.view.isDirty d va && !o.covers d va)
  /-- The next sweep begins behind the frame that was taken. -/
  order : ∃ before behind, m.listed.map (·.frame) = before ++ v.frame :: behind ∧
    m'.clockOrder.map (·.frame) = behind ++ before ++ if refilled then [v.frame] else []

/-! ### Entries that are not there -/

theorem Machine.Sound.clear_of_unmapped {x : Option FrameNumber} (h : Sound x m)
    (hunmapped : ∀ g o', m.view.owner g = some (some o') → o'.directory = o.directory →
      o'.va.number ≠ o.va.number) (d : Key Directory) (va : VirtualAddress)
    (hcovers : o.covers d va = true) :
    m.isAccessed d va = false ∧ m.view.isDirty d va = false := by
  rw [Owner.covers, decide_eq_true_eq] at hcovers
  obtain ⟨rfl, hn⟩ := hcovers
  have hgrant : m.view.grant o.directory va = none := by
    rw [Option.eq_none_iff_forall_ne_some]
    intro grant hgrant
    obtain ⟨g, o', howner, hd, hn'⟩ := h.coherent.residency.granted hgrant
    exact hunmapped g o' howner hd (hn'.trans hn.symm)
  have hfound : (m.directories.get? o.directory).bind (·.find? va) = none := by
    cases hdirectory : m.directories.get? o.directory with
    | none => rfl
    | some directory =>
        rw [view_grant_eq m hdirectory, Directory.grant?, Option.map_eq_none_iff] at hgrant
        exact hgrant
  have hclear : ∀ flag, (m.directories.get? o.directory).any (·.test va flag) = false := by
    intro flag
    cases hdirectory : m.directories.get? o.directory with
    | none => rfl
    | some directory =>
        rw [hdirectory, Option.bind_some] at hfound
        rw [Option.any_some, Directory.test, hfound, Option.any_none]
  exact ⟨hclear .accessed, hclear .dirty⟩

/-! ### The two moves together -/

theorem evicts_of_handedOn (h : Sound none m) (hvacated : Vacated spared index v o m m₁)
    (hgiven : HandedOn index o' m₁ m')
    (habsent : ∀ page, m.pages.get? o'.page = some page → page.frame = none)
    (hunmapped : ∀ g o'', m.view.owner g = some (some o'') → o''.directory = o'.directory →
      o''.va.number ≠ o'.va.number) : m.Evicts spared v o true m' := by
  obtain ⟨page, contents, hpage, hframe, hpages⟩ := hvacated.get?_pages h
  have hne : o.page ≠ o'.page := by
    intro he
    rw [he] at hpage
    rw [habsent page hpage] at hframe
    cases hframe
  have hbits := hgiven.bits fun d va hcovers => by
    obtain ⟨haccessed, hdirty⟩ := h.clear_of_unmapped hunmapped d va hcovers
    rw [hvacated.accessed, hvacated.isDirty h, haccessed, hdirty]
    exact ⟨rfl, rfl⟩
  refine ⟨⟨page, hpage, hframe⟩, ⟨_, by rw [hgiven.pages _ hne, hpages, if_pos rfl], rfl⟩,
    fun key page' hkey hresident hother => ?_,
    fun d va => (hbits d va).1.trans (hvacated.accessed d va),
    fun d va => (hbits d va).2.trans (hvacated.isDirty h d va), hvacated.order_of_handedOn hgiven⟩
  have hkept : key ≠ o'.page := by
    rintro rfl
    rw [Page.isResident, habsent page' hkey] at hresident
    cases hresident
  rw [hgiven.pages _ hkept, hpages, if_neg hother, hkey]

theorem evicts_of_handedBack (h : Sound none m) (hvacated : Vacated spared index v o m m₁)
    (hback : HandedBack index m₁ m') : m.Evicts spared v o false m' := by
  obtain ⟨page, contents, hpage, hframe, hpages⟩ := hvacated.get?_pages h
  refine ⟨⟨page, hpage, hframe⟩, ⟨_, by rw [hback.pages, hpages, if_pos rfl], rfl⟩,
    fun key page' hkey _ hother => by rw [hback.pages, hpages, if_neg hother, hkey],
    fun d va => ?_, fun d va => ?_, ?_⟩
  · rw [isAccessed, hback.directories]
    exact hvacated.accessed d va
  · rw [← hvacated.isDirty h]
    simp only [view, hback.directories]
  · obtain ⟨before, behind, hlisted, horder⟩ := hvacated.order_of_handedBack hback
    exact ⟨before, behind, hlisted, horder.trans (List.append_nil _).symm⟩

theorem Machine.Evicts.of_files {files : Arena File} {refilled : Bool}
    (hview : ({ m with files } : Machine).view = m.view)
    (h : ({ m with files } : Machine).Evicts spared v o refilled m') :
    m.Evicts spared v o refilled m' where
  resident := h.resident
  evicted := h.evicted
  others := h.others
  accessed := h.accessed
  dirty d va := by
    rw [← hview]
    exact h.dirty d va
  order := h.order

/-! ### Operations that need a frame -/

theorem answers_claim_of_absent (hpage : m.pages.get? key = some page) (habsent : page.frame = none)
    {answer : Except VmError Unit} (hrun : Answers (claim key d) m answer m') :
    ∃ acquired m₁, Returns acquire m acquired m₁ ∧
      (acquired = none ∧ answer = .error .outOfMemory ∧ m' = m₁ ∨
        ∃ index, acquired = some index ∧ Answers (claimInto key page d index) m₁ answer m') := by
  simp only [claim_eq, answers_liftM_bind, returns_getPage, and_assoc, exists_and_left,
    exists_eq_left] at hrun
  obtain ⟨_, hpage', hrun⟩ := hrun
  rw [hpage] at hpage'
  cases hpage'
  rw [if_neg (by simp [Page.isResident, habsent])] at hrun
  simp only [answers_liftM_bind] at hrun
  obtain ⟨acquired, m₁, hacquire, hrun⟩ := hrun
  refine ⟨acquired, m₁, hacquire, ?_⟩
  cases acquired with
  | none =>
      obtain ⟨rfl, rfl⟩ := answers_throw.1 hrun
      exact .inl ⟨rfl, rfl, rfl⟩
  | some index => exact .inr ⟨index, rfl, hrun⟩

theorem answers_duplicate_of_source (hpage : m.pages.get? key = some page) {contents : Contents}
    {source : CopySource} (hsource : Answers (copyContents page) m (.ok (contents, some source)) m₁)
    {answer : Except VmError (Key Page)} (hrun : Answers (duplicate key d) m answer m') :
    ∃ acquired m₂ copy, copy.va = page.va ∧ Returns (acquireBeside source) m₁ acquired m₂ ∧
      (acquired = none ∧ answer = .error .outOfMemory ∧ m' = m₂ ∨
        ∃ index, acquired = some index ∧ Answers (copyInto copy source d index) m₂ answer m') := by
  simp only [duplicate_eq, answers_liftM_bind, returns_getPage, and_assoc, exists_and_left,
    exists_eq_left] at hrun
  obtain ⟨_, hpage', hrun⟩ := hrun
  rw [hpage] at hpage'
  cases hpage'
  rw [answers_bind] at hrun
  rcases hrun with ⟨cause, rfl, hcontents⟩ | ⟨⟨contents', source'⟩, m₂, hcontents, hrun⟩
  · cases hsource.symm.trans hcontents
  cases hsource.symm.trans hcontents
  rw [answers_liftM_computed_bind] at hrun
  obtain ⟨copy, hcreate, hrun⟩ := hrun
  obtain ⟨aligned, rfl⟩ := Page.create_eq_ok hcreate
  simp only [answers_liftM_bind] at hrun
  obtain ⟨acquired, m₃, hacquire, hrun⟩ := hrun
  refine ⟨acquired, m₃, ⟨page.va, page.writable, contents, none, 1, aligned⟩, rfl, hacquire, ?_⟩
  cases acquired with
  | none =>
      obtain ⟨rfl, rfl⟩ := answers_throw.1 hrun
      exact .inl ⟨rfl, rfl, rfl⟩
  | some index => exact .inr ⟨index, rfl, hrun⟩

/-- A duplication does not show until a frame is looked for. -/
theorem source_of_copyContents (h : Sound none m) (hpage : m.pages.get? key = some page)
    {contents : Contents} {source : CopySource}
    (hsource : Answers (copyContents page) m (.ok (contents, some source)) m₁) :
    CopiesFrom page contents (some source) ∧ m₁.view = m.view ∧ ∃ files, m₁ = { m with files } := by
  obtain ⟨hview, hfiles, hcopied⟩ := answers_copyContents (h.coherent.fits hpage) hsource
  exact ⟨(hcopied contents source rfl).2.1, hview, hfiles⟩

namespace Machine.NeedsFrame

variable {answer : Except VmError α}

theorem idle (hneeds : m.NeedsFrame spared action) (h : Sound none m) (hhand : m.HandInList)
    (hempty : m.freeFrames = 0) (hnone : m.victim? spared = none)
    (hrun : Answers action m answer m') :
    answer = .error .outOfMemory ∧ ∃ pool files, m' = { m with pool, files } := by
  cases hneeds with
  | claim hpage habsent hplace hdirectory =>
      obtain ⟨acquired, m₁, hacquire, hrest⟩ := answers_claim_of_absent hpage habsent hrun
      obtain ⟨rfl, rfl⟩ := idle_of_acquire h hhand hempty hnone hacquire
      obtain ⟨-, rfl, rfl⟩ | ⟨_, he, -⟩ := hrest
      · exact ⟨rfl, m'.pool, m'.files, rfl⟩
      · cases he
  | duplicate hpage hsource hplace hdirectory =>
      obtain ⟨hfrom, hview, files, rfl⟩ := source_of_copyContents h hpage hsource
      have h₁ : Sound none { m with files } := h.of_view hview (h.tidy.of_eq rfl rfl)
      obtain ⟨acquired, m₂, copy, -, hacquire, hrest⟩ :=
        answers_duplicate_of_source hpage hsource hrun
      obtain ⟨rfl, -, pool, rfl⟩ := idle_of_acquireBeside h₁ hhand hempty hfrom hnone hacquire
      obtain ⟨-, rfl, rfl⟩ | ⟨_, he, -⟩ := hrest
      · exact ⟨rfl, pool, files, rfl⟩
      · cases he

/-- Otherwise the page in that frame is evicted, whether or not the frame can be filled again. -/
theorem evicts (hneeds : m.NeedsFrame spared action) (h : Sound none m) (hhand : m.HandInList)
    (hempty : m.freeFrames = 0) (hvictim : m.victim? spared = some v) (howner : v.owner = some o)
    (hrun : Answers action m answer m') :
    answer ≠ .error .outOfMemory ∧ m.Evicts spared v o answer.isOk m' := by
  cases hneeds with
  | @claim s d key page hpage habsent hplace hdirectory =>
      obtain ⟨acquired, m₁, hacquire, hrest⟩ := answers_claim_of_absent hpage habsent hrun
      obtain ⟨index, o', rfl, hvacated⟩ := vacated_of_acquire h hhand hempty hvictim hacquire
      cases howner.symm.trans hvacated.owner
      have hpage₁ : m₁.pages.get? key = some page :=
        (course_acquire h hacquire).1.pages hpage fun f hf => by rw [habsent] at hf; cases hf
      obtain ⟨he, -⟩ | ⟨_, he, hrest⟩ := hrest
      · cases he
      cases he
      obtain ⟨rfl, hgiven⟩ | ⟨rfl, hback⟩ :=
        settled_of_claimInto hvacated.tidy hvacated.slot_left hpage₁ hrest
      · refine ⟨nofun, evicts_of_handedOn h hvacated hgiven (fun page' hpage' => ?_)
          (h.coherent.unmapped_of_absent hpage habsent hplace hdirectory)⟩
        cases hpage.symm.trans hpage'
        exact habsent
      · exact ⟨nofun, evicts_of_handedBack h hvacated hback⟩
  | @duplicate s d key page contents source m₀ hpage hsource hplace hdirectory =>
      obtain ⟨hfrom, hview, files, rfl⟩ := source_of_copyContents h hpage hsource
      have h₁ : Sound none { m with files } := h.of_view hview (h.tidy.of_eq rfl rfl)
      obtain ⟨acquired, m₂, copy, hva, hacquire, hrest⟩ :=
        answers_duplicate_of_source hpage hsource hrun
      obtain ⟨index, o', rfl, hvacated⟩ :=
        vacated_of_acquireBeside h₁ hhand hempty hfrom hvictim hacquire
      cases howner.symm.trans hvacated.owner
      obtain ⟨-, hpage₂, hnext, -⟩ := course_acquireBeside h₁ hpage hfrom hacquire
      obtain ⟨he, -⟩ | ⟨_, he, hrest⟩ := hrest
      · cases he
      cases he
      obtain ⟨rfl, hgiven⟩ | ⟨rfl, hback⟩ :=
        settled_of_copyInto hvacated.tidy hvacated.slot_left hpage₂ hfrom hrest
      · rw [hnext, hva] at hgiven
        refine ⟨nofun, .of_files hview (evicts_of_handedOn h₁ hvacated hgiven (fun page' hpage' => ?_)
          (h₁.coherent.unmapped_of_free (by rw [hview, hdirectory]) (by rw [hview, hplace])))⟩
        rw [show ({ m with files } : Machine).pages.get? _ = none from Arena.get?_nextKey _] at hpage'
        cases hpage'
      · exact ⟨nofun, .of_files hview (evicts_of_handedBack h₁ hvacated hback)⟩

end Machine.NeedsFrame

/-! ### Panics -/

/-- The pool is empty, and the page that has to leave its frame is an anonymous one that swap does not
take. -/
def Machine.VictimStuck (m : Machine) (spared : Option FrameNumber) (panic : Panic) : Prop :=
  m.freeFrames = 0 ∧ ¬m.swap.TakesPage ∧ ∃ v o cause, m.victim? spared = some v ∧
    v.owner = some o ∧ m.Stuck o.page cause ∧ panic = .anonymousPageStuck cause

theorem stuck_of_acquire (h : Ready none m) (hhand : m.HandInList) :
    PanicsOnly (fun panic _ => m.VictimStuck none panic) acquire m := by
  refine panicsOnly_acquire_of_evict h fun index m₁ hempty hselect => ?_
  cases hvictim : m.victim? none with
  | none => cases ((chosen_of_selectVictim h.sound hhand hselect).1 hvictim).1
  | some v =>
      obtain ⟨_, he, hchosen⟩ := (chosen_of_selectVictim h.sound hhand hselect).2 v hvictim
      cases he
      obtain ⟨o, howner⟩ := exists_owner_of_victim hvictim
      obtain ⟨directories, rfl⟩ := hchosen.state
      have h₁ := h.silent hchosen.view (h.sound.tidy.of_eq rfl rfl)
      refine (stuck_of_evict h₁ hchosen.slot howner).mono fun panic _ ⟨cause, hbroken, hpanic, _⟩ => ?_
      have hstuck : m.Stuck o.page cause := hbroken.stuck
      exact ⟨hempty, hstuck.refuses.not_takesPage, v, o, cause, hvictim, howner, hstuck, hpanic⟩

theorem stuck_of_acquireBeside (h : Ready none m) (hhand : m.HandInList)
    (hpage : m.pages.get? key = some page) {contents : Contents} {source : CopySource}
    (hfrom : CopiesFrom page contents (some source)) :
    PanicsOnly (fun panic _ => m.VictimStuck page.frame panic) (acquireBeside source) m := by
  refine panicsOnly_acquireBeside_of_acquire h hpage hfrom (fun hframe => ?_)
    fun f pool hframe hpinned => ?_
  · rw [hframe]
    exact stuck_of_acquire h hhand
  · refine (stuck_of_acquire (h.pinned hpinned) hhand).mono
      fun panic _ ⟨hempty, htakes, v, o, cause, hvictim, howner, hstuck, hpanic⟩ => ?_
    rw [victim?_pinned hpinned] at hvictim
    rw [freeFrames_pinned hpinned] at hempty
    obtain ⟨swap, page', g, bytes, hpage', hcontents, hg, hbytes, hstore⟩ := hstuck
    refine ⟨hempty, htakes, v, o, cause, by rw [hframe, hvictim], howner, ⟨swap, page', g, bytes,
      hpage', hcontents, hg, ?_, hstore⟩, hpanic⟩
    rw [← Pool.bytes?_setPinned hpinned]
    exact hbytes

/-- An operation that needs a frame stops only where the victim is stuck. -/
theorem Machine.NeedsFrame.stuck (hneeds : m.NeedsFrame spared action) (h : Ready none m)
    (hhand : m.HandInList) : PanicsOnly (fun panic _ => m.VictimStuck spared panic) action.run m := by
  cases hneeds with
  | claim hpage habsent hplace hdirectory =>
      exact panicsOnly_claim_of_acquire h hdirectory hpage (stuck_of_acquire h hhand)
  | duplicate hpage hsource hplace hdirectory =>
      refine panicsOnly_duplicate_of_acquire h hdirectory hpage fun contents source m₁ hsource => ?_
      obtain ⟨hfrom, hview, files, rfl⟩ := source_of_copyContents h.sound hpage hsource
      exact stuck_of_acquireBeside (h.silent hview (h.sound.tidy.of_eq rfl rfl)) hhand hpage hfrom

/-! ### Runs -/

section

variable {start : Machine} {history : List Done}

theorem Run.ready (h : Run start history m) (hcapacity : start.pool.capacity ≤ maxFrames) :
    Ready none m := h.reaches.ready (h.fresh.ready hcapacity)

theorem Run.handInList (h : Run start history m) (hhand : start.hand = 0) : m.HandInList :=
  h.reaches.steady.hand (.inl hhand)

end

/-! ### The rule -/

/-- An operation that finds the pool empty takes its frame from the page that the second chance
names. If there is none it fails, and neither the hand nor an accessed bit is touched. It stops where
that page is an anonymous one and swap takes no page. -/
theorem Machine.Ready.secondChance (h : Ready none m) (hhand : m.HandInList)
    (hempty : m.freeFrames = 0) (hneeds : m.NeedsFrame spared action) :
    (m.eligible spared = [] → ∃ m', Answers action m (.error .outOfMemory) m' ∧
      m'.hand = m.hand ∧ m'.directories = m.directories ∧ m'.listed = m.listed ∧
        m'.pages = m.pages) ∧
    ∀ v, m.victim? spared = some v → ∃ o, v.owner = some o ∧ Ends action.run m
      (fun answer m' => answer ≠ .error .outOfMemory ∧ m.Evicts spared v o answer.isOk m')
      fun panic _ => ¬m.swap.TakesPage ∧ ∃ cause, m.Stuck o.page cause ∧
        panic = .anonymousPageStuck cause := by
  have hstuck := hneeds.stuck h hhand
  constructor
  · intro hnil
    have hnone := victim?_eq_none.2 hnil
    have hcompletes : Completes action.run m fun _ _ => True :=
      hstuck.mono fun panic _ ⟨_, _, v, _, _, hvictim, _⟩ => by rw [hnone] at hvictim; cases hvictim
    obtain ⟨answer, m', hrun, -⟩ := hcompletes.exists_returns
    obtain ⟨rfl, pool, files, rfl⟩ := hneeds.idle h.sound hhand hempty hnone hrun
    exact ⟨_, hrun, rfl, rfl, rfl, rfl⟩
  · intro v hvictim
    obtain ⟨o, howner⟩ := exists_owner_of_victim hvictim
    refine ⟨o, howner, Ends.intro (fun answer m' hrun =>
      hneeds.evicts h.sound hhand hempty hvictim howner hrun) fun panic m' hpanic => ?_⟩
    obtain ⟨-, htakes, v', o', cause, hvictim', howner', hstuck, rfl⟩ := hstuck.panicked hpanic
    cases hvictim.symm.trans hvictim'
    cases howner.symm.trans howner'
    exact ⟨htakes, cause, hstuck, rfl⟩

/-- Four pages of a stack have come to three frames, and the first one is claimed again. Of the other
pages one was accessed and one is pinned. -/
theorem secondChance_of_pinned : ∃ m m' v o, Ready none m ∧ m.HandInList ∧ m.freeFrames = 0 ∧
    m.NeedsFrame none (claim ⟨0⟩ ⟨0⟩) ∧ m.clockOrder.map (·.frame) = [⟨1⟩, ⟨2⟩, ⟨0⟩] ∧
      (m.reprieved none).map (·.frame) = [⟨1⟩] ∧ m.victim? none = some v ∧ v.frame = ⟨0⟩ ∧
        Answers (claim ⟨0⟩ ⟨0⟩) m (.ok ()) m' ∧ m.Evicts none v o true m' := by
  have htest : returnsWith (do
        let s ← Space.create "init"
        let _ ← Request.setUpStack.perform? s
        let _ ← (Request.handleFault ⟨⟨userStack - 2 * pageSize, by decide⟩, true, true, true,
          userStack - 4 * pageSize⟩).perform? s
        let _ ← (Request.handleFault ⟨⟨userStack - 3 * pageSize, by decide⟩, true, true, true,
          userStack - 4 * pageSize⟩).perform? s
        let _ ← (Request.handleFault ⟨⟨userStack - 4 * pageSize, by decide⟩, true, true, true,
          userStack - 4 * pageSize⟩).perform? s
        let _ ← (Request.writeUser ⟨userStack - 2 * pageSize, by decide⟩ #[1]).perform? s
        pinFrame ⟨2⟩ true
        let before ← get
        return (s, before, ← (claim ⟨0⟩ ⟨0⟩).run)) (bare 3 3 .empty)
      (fun (s, m, answer) _ => m.freeFrames == 0 &&
        (m.clockOrder.map (·.frame) == [⟨1⟩, ⟨2⟩, ⟨0⟩] &&
          ((m.reprieved none).map (·.frame) == [⟨1⟩] && ((m.victim? none).any (·.frame == ⟨0⟩) &&
            (m.view.directoryOf s == some ⟨0⟩ && ((m.view.page ⟨0⟩).any (fun page =>
              page.frame == none && m.view.pageOf s page.va.number == some ⟨0⟩) &&
                answer.isOk)))))) = true := by
    decide +kernel
  obtain ⟨⟨s, before, answer⟩, m', hrun, htest⟩ := exists_returns htest
  simp only [returns_bind, returns_pure] at hrun
  obtain ⟨_, m₁, hcreate, _, m₂, hstack, _, m₃, hgrow₂, _, m₄, hgrow₃, _, m₅, hgrow₄, _, m₆, hwrite,
    _, m₇, hpin, _, _, hget, _, _, hclaim, he, rfl⟩ := hrun
  obtain ⟨rfl, rfl⟩ := returns_get.1 hget
  cases he
  obtain ⟨pool, hpinned, rfl⟩ := returns_pinFrame hpin
  obtain ⟨_, hreached⟩ := (Reaches.refl.create hcreate).perform? hstack
  obtain ⟨_, hreached⟩ := hreached.perform? hgrow₂
  obtain ⟨_, hreached⟩ := hreached.perform? hgrow₃
  obtain ⟨_, hreached⟩ := hreached.perform? hgrow₄
  obtain ⟨history, hreached⟩ := hreached.perform? hwrite
  have hrun : Run (bare 3 3 .empty) history m₆ := ⟨fresh_bare 3 3 .empty, hreached⟩
  have hready : Ready none { m₆ with pool } := (hrun.ready (by decide)).pinned hpinned
  have hhand : HandInList { m₆ with pool } := hrun.handInList rfl
  simp only [Bool.and_eq_true, beq_iff_eq] at htest
  obtain ⟨hempty, horder, hreprieved, hvictim, hdirectory, hplace, hok⟩ := htest
  obtain ⟨page, hpage, hplace⟩ := (Option.any_eq_true ..).1 hplace
  simp only [Bool.and_eq_true, beq_iff_eq] at hplace
  obtain ⟨v, hvictim, hframe⟩ := (Option.any_eq_true ..).1 hvictim
  have hneeds : NeedsFrame { m₆ with pool } none (claim ⟨0⟩ ⟨0⟩) :=
    .claim hpage hplace.1 hplace.2 hdirectory
  obtain ⟨o, howner, hends⟩ := (hready.secondChance hhand hempty hneeds).2 v hvictim
  cases answer with
  | error cause => cases hok
  | ok u =>
      exact ⟨_, m', v, o, hready, hhand, hempty, hneeds, horder, hreprieved, hvictim,
        by simpa using hframe, hclaim, (hends.returned hclaim).2⟩

end DemandPaging
