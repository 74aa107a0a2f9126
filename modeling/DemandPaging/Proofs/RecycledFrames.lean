import DemandPaging.Proofs.Fate
import DemandPaging.Proofs.Machine.Overwriting
import DemandPaging.Proofs.SlotOwnership

/-!
What a process finds in a frame that was used before.

Frames go from page to page and are never cleared. A frame that a page gets may hold what a page that
was removed left in it, or what a load that failed has put there, or the bytes of the page that was
evicted for it. None of this can be seen: a page that was brought in shows what stands behind it, a
copy shows what it is a copy of, and the frame is filled alike whatever it held before.

The bytes behind a page are those it had behind it before a frame was taken for it. Taking the frame
may evict another page, and only in one case does this reach them: if that page was changed, and is
over the file that the first one is loaded from, the file is written on the way and then read.
-/

namespace DemandPaging

open Machine

/-- The page has bytes of its own, in a frame or in a slot. -/
def Page.HasBytes (page : Page) : Prop := page.frame ≠ none ∨ page.contents.slot? ≠ none

/-! ### Taking a frame -/

/-- The page that is in a frame was changed and is over the file that some contents come from, so that
the file is written when the page is evicted. -/
def View.Rewrites (v : View) (f : FrameNumber) (contents : Contents) : Prop :=
  ∃ o evicted slice own, v.owner f = some (some o) ∧ v.page o.page = some evicted ∧
    evicted.contents = .file slice ∧ v.isDirty o.directory o.va = true ∧
      contents.slice? = some own ∧ own.handle.file = slice.handle.file

/-- A frame that is taken leaves the bytes of every page alone, but for the file of the page that was
in it. -/
theorem Step.bytesOf_of_taken {v v' : View} {f : FrameNumber} (h : Step [] none v (some f) v')
    {kept : SwapSlot → Bool} (hbooks : SlotBooks kept v.isOccupied v.slotOf) {key : Key Page}
    {page : Page} (hpage : v.page key = some page) :
    v'.bytesOf page = v.bytesOf page ∨ page.frame = none ∧ v.Rewrites f page.contents := by
  have hslot : ∀ slot, page.contents.slot? = some slot → v'.pageIn slot = v.pageIn slot :=
    fun slot hslot => h.pageIn_of_occupied (hbooks.occupied_of_page hpage hslot)
  cases h with
  | take hfree => exact .inl rfl
  | @evict _ v₁ _ o evicted bytes contents howner hevicted hbytes hstowed =>
      cases hframe : page.frame with
      | some g =>
          obtain ⟨isOccupied, pageIn, file, rfl⟩ := hstowed.exists_eq
          simp only [View.bytesOf, hframe]
          exact .inl rfl
      | none =>
          rw [View.bytesOf_of_absent hframe, View.bytesOf_of_absent hframe]
          generalize hbefore : evicted.contents = before at hstowed
          generalize hdirty : v.isDirty o.directory o.va = dirty at hstowed
          cases hstowed with
          | slot hfree => exact .inl (View.contentsBytes_congr (fun _ _ => rfl) hslot)
          | @file slice _ _ hback =>
              cases hback with
              | clean => exact .inl rfl
              | dirty hfile hback =>
                  by_cases hsame : ∃ own, page.contents.slice? = some own ∧
                      own.handle.file = slice.handle.file
                  · obtain ⟨own, hown, hfile'⟩ := hsame
                    exact .inr ⟨rfl, o, evicted, slice, own, howner, hevicted, hbefore, hdirty,
                      hown, hfile'⟩
                  · exact .inl (View.contentsBytes_congr (fun own hown =>
                      Function.update_of_ne (fun he => hsame ⟨own, hown, he⟩) _ _) hslot)

/-! ### States that differ in one frame -/

namespace Machine

variable {m m' : Machine} {f g : FrameNumber} {key copy : Key Page} {page : Page}
  {d : Key Directory} {bytes : PageBytes}

theorem view_withBytes (m : Machine) (g : FrameNumber) (bytes : PageBytes) :
    (m.withBytes g bytes).view = { m.view with bytes := (m.pool.withBytes g bytes).bytes? } := by
  have hsame : Pool.SameAllocation m.pool (m.pool.withBytes g bytes) :=
    Pool.sameAllocation_modify m.pool g fun _ => rfl
  have hallocation : (m.pool.withBytes g bytes).allocation = m.pool.allocation :=
    funext hsame.allocation
  simp only [view, withBytes, hallocation]
  rfl

theorem Sound.withBytes {x : Option FrameNumber} (h : Sound x m) (g : FrameNumber)
    (bytes : PageBytes) : Sound x (m.withBytes g bytes) where
  tidy := h.tidy.congr (Pool.sameAllocation_modify _ _ fun _ => rfl) rfl
  coherent := by
    rw [view_withBytes]
    exact ⟨h.coherent.residency, h.coherent.placement, h.coherent.home, h.coherent.fits⟩

theorem bytesOf_withBytes (hapart : page.frame ≠ some g) :
    (m.withBytes g bytes).view.bytesOf page = m.view.bytesOf page := by
  rw [view_withBytes]
  cases hframe : page.frame with
  | none =>
      rw [View.bytesOf_of_absent hframe, View.bytesOf_of_absent hframe]
      rfl
  | some f =>
      have hne : g ≠ f := fun he => hapart (by rw [hframe, he])
      simp only [View.bytesOf, hframe]
      rw [Pool.withBytes, Pool.bytes?_modify, if_neg hne]
      rfl

/-! ### Pages that were filled -/

/-- A page is in a frame and mapped to it, and the frame holds certain bytes. -/
structure Visible (m : Machine) (key : Key Page) (d : Key Directory) (f : FrameNumber)
    (bytes : PageBytes) : Prop where
  mapped : ∃ page pa, m.view.page key = some page ∧ page.frame = some f ∧ f.start = .ok pa ∧
    m.view.grant d page.va = some ⟨pa, true, page.writable⟩
  held : m.view.bytes f = some bytes

/-- An operation comes to its end, and to the same end if the frame held other bytes. -/
structure Regardless {ε α : Type} (operation : ExceptT ε Action α) (f : FrameNumber)
    (m : Machine) (a : α) (m' : Machine) : Prop where
  ends : Answers operation m (.ok a) m'
  overwrites : ∀ bytes, Answers operation (m.withBytes f bytes) (.ok a) m'

theorem exists_claimInto (h : Sound none m) (hrun : Answers (claim key d) m (.ok ()) m') :
    ∃ page, m.view.page key = some page ∧
      (page.isResident = true ∧ m' = m ∨ page.frame = none ∧ ∃ index f m₁,
        Returns acquire m (some index) m₁ ∧ Acquired f index m m₁ ∧
          Answers (claimInto key page d index) m₁ (.ok ()) m' ∧
            m'.Visible key d f (m₁.view.contentsBytes page.contents)) := by
  simp only [claim_eq, answers_liftM_bind, returns_getPage, and_assoc, exists_and_left,
    exists_eq_left] at hrun
  obtain ⟨page, hpage, hrun⟩ := hrun
  refine ⟨page, hpage, ?_⟩
  split at hrun
  · next hresident => exact .inl ⟨hresident, (answers_pure.1 hrun).2⟩
  next habsent =>
  have hframe : page.frame = none := by simpa [Page.isResident] using habsent
  simp only [answers_liftM_bind] at hrun
  obtain ⟨acquired, m₁, hacquire, hrun⟩ := hrun
  cases acquired with
  | none => cases (answers_throw.1 hrun).1
  | some index =>
      obtain ⟨hsame, -, hsome⟩ := course_acquire h hacquire
      obtain ⟨f, hacquired⟩ := hsome index rfl
      have hpage₁ : m₁.pages.get? key = some page :=
        hsame.pages hpage fun g hg => by rw [hframe] at hg; cases hg
      obtain ⟨-, -, hfilled⟩ := answers_claimInto hacquired.tidy hacquired.slot hpage₁ hrun
      obtain ⟨-, pa, hstart, hview⟩ := hfilled rfl
      refine .inr ⟨hframe, index, f, m₁, hacquire, hacquired, hrun, ?_⟩
      refine ⟨⟨{ page with contents := page.contents.settled, frame := some f }, pa, ?_, rfl, hstart,
        ?_⟩, ?_⟩ <;> rw [hview]
      · exact Function.update_self _ _ _
      · exact if_pos ⟨rfl, rfl⟩
      · exact Function.update_self _ _ _

/-- How a page was duplicated. Only one that has bytes of its own takes a frame for its copy. -/
inductive Copying (page : Page) (d : Key Directory) (copy : Key Page) (m m' : Machine) : Prop where
  | aside {p : Page} (hnone : ¬page.HasBytes) (hcopy : m'.view.page copy = some p)
      (habsent : p.frame = none) : Copying page d copy m m'
  | into {contents : Contents} {source : CopySource} {p : Page} {index : Nat} {f : FrameNumber}
      {m₁ m₂ : Machine} (hcontents : Answers (copyContents page) m (.ok (contents, some source)) m₁)
      (hfrom : CopiesFrom page contents (some source))
      (hcreate : Page.create page.va page.writable contents = .ok p)
      (hacquire : Returns (acquireBeside source) m₁ (some index) m₂)
      (hacquired : Acquired f index m m₂) (hapart : source ≠ .frame f)
      (hinto : Answers (copyInto p source d index) m₂ (.ok copy) m')
      (hvisible : m'.Visible copy d f (m₂.view.bytesOf page)) : Copying page d copy m m'

theorem copying_of_duplicate (h : Sound none m)
    (hrun : Answers (duplicate key d) m (.ok copy) m') :
    ∃ page, m.view.page key = some page ∧ Copying page d copy m m' := by
  simp only [duplicate_eq, answers_liftM_bind, returns_getPage, and_assoc, exists_and_left,
    exists_eq_left] at hrun
  obtain ⟨page, hpage, hrun⟩ := hrun
  rw [answers_bind] at hrun
  rcases hrun with ⟨_, he, -⟩ | ⟨⟨contents, source⟩, m₁, hcontents, hrun⟩
  · cases he
  obtain ⟨hview₁, ⟨files, hm₁⟩, hsource⟩ := answers_copyContents (h.coherent.fits hpage) hcontents
  obtain ⟨hcopied, hfrom, -⟩ := hsource contents source rfl
  have htidy₁ : m₁.Tidy := h.tidy.of_eq (by rw [hm₁]) (by rw [hm₁])
  have hpage₁ : m₁.pages.get? key = some page := by
    rw [hm₁]
    exact hpage
  rw [answers_liftM_computed_bind] at hrun
  obtain ⟨p, hcreate, hrun⟩ := hrun
  refine ⟨page, hpage, ?_⟩
  cases source with
  | none =>
      obtain ⟨hframe, hkind⟩ : page.frame = none ∧ contents.kind ≠ .anonymous := by
        cases hfrom with
        | aside hframe hkind => exact ⟨hframe, hkind⟩
      have hslot : page.contents.slot? = none := by
        generalize page.contents = before at hcopied
        cases hcopied with
        | pending | file => rfl
        | anonymous => exact absurd rfl hkind
      have hnone : ¬page.HasBytes := fun hhas => hhas.elim (absurd hframe) (absurd hslot)
      rw [answers_liftM] at hrun
      obtain ⟨_, he, hadd⟩ := hrun
      cases he
      obtain ⟨rfl, rfl⟩ := returns_addPage.1 hadd
      obtain ⟨aligned, rfl⟩ := Page.create_eq_ok hcreate
      exact .aside hnone ((Arena.get?_add _ _ _).trans (if_pos rfl)) rfl
  | some source =>
      simp only [answers_liftM_bind] at hrun
      obtain ⟨acquired, m₂, hacquire, hrun⟩ := hrun
      obtain ⟨-, hpage₂, -, -, hsome⟩ :=
        course_acquireBeside (h.of_view hview₁ htidy₁) hpage₁ hfrom hacquire
      cases acquired with
      | none => cases (answers_throw.1 hrun).1
      | some index =>
      obtain ⟨f, hslot, hstep, htidy₂⟩ := hsome index rfl
      rw [hview₁] at hstep
      have hacquired : Acquired f index m m₂ := ⟨hslot, hstep, htidy₂⟩
      obtain ⟨-, -, hmade⟩ := answers_copyInto htidy₂ hslot hpage₂ hfrom hrun
      obtain ⟨-, -, pa, hstart, hview⟩ := hmade copy rfl
      refine .into hcontents hfrom hcreate hacquire hacquired ?_ hrun ?_
      · -- the page that is copied is still in its frame, and that has an owner
        rintro rfl
        have hframe : page.frame = some f := by
          cases hfrom
          assumption
        exact (hacquired.course.sound h).coherent.ne_of_unowned hpage₂ hframe rfl
      · refine ⟨⟨{ p with frame := some f }, pa, ?_, rfl, hstart, ?_⟩, ?_⟩ <;> rw [hview]
        · exact Function.update_self _ _ _
        · exact if_pos ⟨rfl, rfl⟩
        · exact Function.update_self _ _ _

/-! ### Nothing stale -/

/-- A claim that brought a page into a frame. The page shows what stood behind it. -/
structure ClaimedAfresh (key : Key Page) (page : Page) (d : Key Directory) (f : FrameNumber)
    (m m' : Machine) : Prop where
  absent : page.frame = none
  /-- What was left in the frame when it was acquired is overwritten. -/
  filled : ∃ index m₁, Returns acquire m (some index) m₁ ∧ m₁.listed[index]? = some ⟨f, none⟩ ∧
    m'.Visible key d f (m₁.view.contentsBytes page.contents) ∧
      (m₁.view.contentsBytes page.contents = m.view.contentsBytes page.contents ∨
        m.view.Rewrites f page.contents) ∧
        Regardless (claimInto key page d index) f m₁ () m'
  /-- What a frame of the pool held is overwritten. -/
  pooled : m.view.isAllocated f = some false → Regardless (claim key d) f m () m'
  /-- With other bytes in any frame, the page would show the same. -/
  unseen : ∀ {g bytes m''}, Answers (claim key d) (m.withBytes g bytes) (.ok ()) m'' →
    ∃ f' shown, m''.Visible key d f' shown ∧
      (shown = m.view.contentsBytes page.contents ∨ m.view.Rewrites f' page.contents)

structure CopiedAfresh (key : Key Page) (page : Page) (d : Key Directory) (copy : Key Page)
    (f : FrameNumber) (m m' : Machine) : Prop where
  /-- What was left in the frame when it was acquired is overwritten. -/
  filled : ∃ contents source p index m₁ m₂,
    Answers (copyContents page) m (.ok (contents, some source)) m₁ ∧
      Page.create page.va page.writable contents = .ok p ∧
        Returns (acquireBeside source) m₁ (some index) m₂ ∧
          m₂.listed[index]? = some ⟨f, none⟩ ∧ Regardless (copyInto p source d index) f m₂ copy m'
  backing : m'.Visible copy d f (m.view.bytesOf page)
  /-- What a frame of the pool held is overwritten. -/
  pooled : m.view.isAllocated f = some false → Regardless (duplicate key d) f m copy m'
  /-- With other bytes in any frame but that of the page, the copy would show the same. -/
  unseen : ∀ {g bytes copy' m''}, page.frame ≠ some g →
    Answers (duplicate key d) (m.withBytes g bytes) (.ok copy') m'' →
      ∃ f', m''.Visible copy' d f' (m.view.bytesOf page)

section

variable {kept : SwapSlot → Bool}

/-- What stands behind a page that is in no frame stays when a frame is taken for it, unless the file
is written then. -/
theorem Acquired.contentsBytes_eq_or_rewrites {index : Nat} {m₁ : Machine}
    (hacquired : Acquired f index m m₁) (hbooks : SlotBooks kept m.view.isOccupied m.view.slotOf)
    (hpage : m.view.page key = some page) (habsent : page.frame = none) :
    m₁.view.contentsBytes page.contents = m.view.contentsBytes page.contents ∨
      m.view.Rewrites f page.contents := by
  have hbytes := hacquired.step.bytesOf_of_taken hbooks hpage
  rw [View.bytesOf_of_absent habsent, View.bytesOf_of_absent habsent] at hbytes
  exact hbytes.imp_right And.right

theorem slotBooks_withBytes (hbooks : SlotBooks kept m.view.isOccupied m.view.slotOf)
    (g : FrameNumber) (bytes : PageBytes) :
    SlotBooks kept (m.withBytes g bytes).view.isOccupied (m.withBytes g bytes).view.slotOf := by
  rw [view_withBytes]
  exact hbooks

theorem claimedAfresh (h : Sound none m)
    (hbooks : SlotBooks kept m.view.isOccupied m.view.slotOf)
    (hrun : Answers (claim key d) m (.ok ()) m') :
    ∃ page, m.view.page key = some page ∧
      (page.isResident = true ∧ m' = m ∨ ∃ f, ClaimedAfresh key page d f m m') := by
  obtain ⟨page, hpage, hcases⟩ := exists_claimInto h hrun
  refine ⟨page, hpage, hcases.imp_right ?_⟩
  rintro ⟨habsent, index, f, m₁, hacquire, hacquired, hinto, hvisible⟩
  have hnot : ¬page.isResident = true := by
    rw [Page.isResident, habsent]
    decide
  have hregardless : Regardless (claimInto key page d index) f m₁ () m' :=
    ⟨hinto, fun _ => claimInto_overwrites hacquired.slot hinto⟩
  refine ⟨f, habsent, ⟨index, m₁, hacquire, hacquired.slot, hvisible,
    hacquired.contentsBytes_eq_or_rewrites hbooks hpage habsent, hregardless⟩,
    fun hfree => ⟨hrun, fun bytes => ?_⟩, fun {g bytes m''} hrun' => ?_⟩
  · simp only [claim_eq, answers_liftM_bind, returns_getPage, and_assoc, exists_and_left,
      exists_eq_left]
    refine ⟨page, hpage, ?_⟩
    simp only [if_neg hnot, answers_liftM_bind]
    exact ⟨some index, _, acquire_withBytes h.tidy hfree hacquire, hregardless.overwrites bytes⟩
  · obtain ⟨found, hfound, hcases⟩ := exists_claimInto (h.withBytes g bytes) hrun'
    rw [view_withBytes] at hfound
    cases hpage.symm.trans hfound
    rcases hcases with ⟨hresident, -⟩ | ⟨-, index', f', m₂, -, hacquired', -, hvisible'⟩
    · exact absurd hresident hnot
    · have hshown := hacquired'.contentsBytes_eq_or_rewrites (slotBooks_withBytes hbooks g bytes)
        (by rw [view_withBytes]; exact hpage) habsent
      rw [view_withBytes m] at hshown
      exact ⟨f', _, hvisible', hshown⟩

/-- Taking a frame for a copy leaves the bytes alone that are to be copied. -/
theorem Acquired.bytesOf_eq {index : Nat} {m₂ : Machine} (hacquired : Acquired f index m m₂)
    (hbooks : SlotBooks kept m.view.isOccupied m.view.slotOf) (hpage : m.view.page key = some page)
    {contents : Contents} {source : CopySource} (hfrom : CopiesFrom page contents (some source)) :
    m₂.view.bytesOf page = m.view.bytesOf page := by
  rcases hacquired.step.bytesOf_of_taken hbooks hpage with hsame | ⟨habsent, hrewrites⟩
  · exact hsame
  · obtain ⟨-, -, -, own, -, -, -, -, hown, -⟩ := hrewrites
    cases hfrom with
    | frame hframe => cases habsent.symm.trans hframe
    | slot _ hcontents =>
        rw [hcontents] at hown
        cases hown

theorem CopiesFrom.hasBytes {contents : Contents} {source : CopySource}
    (h : CopiesFrom page contents (some source)) : page.HasBytes := by
  cases h with
  | frame hframe =>
      rw [Page.HasBytes, hframe]
      exact .inl (Option.some_ne_none _)
  | slot _ hcontents =>
      rw [Page.HasBytes, hcontents]
      exact .inr (Option.some_ne_none _)

theorem copiedAfresh (h : Sound none m)
    (hbooks : SlotBooks kept m.view.isOccupied m.view.slotOf)
    (hrun : Answers (duplicate key d) m (.ok copy) m') :
    ∃ page, m.view.page key = some page ∧
      (¬page.HasBytes ∧ (∃ p, m'.view.page copy = some p ∧ p.frame = none) ∨
        ∃ f, CopiedAfresh key page d copy f m m') := by
  obtain ⟨page, hpage, hcopying⟩ := copying_of_duplicate h hrun
  refine ⟨page, hpage, ?_⟩
  cases hcopying with
  | aside hnone hcopy habsent => exact .inl ⟨hnone, _, hcopy, habsent⟩
  | @into contents source p index f m₁ m₂ hcontents hfrom hcreate hacquire hacquired hapart hinto
      hvisible =>
      have hregardless : Regardless (copyInto p source d index) f m₂ copy m' :=
        ⟨hinto, fun _ => copyInto_overwrites hacquired.slot hapart hinto⟩
      rw [hacquired.bytesOf_eq hbooks hpage hfrom] at hvisible
      refine .inr ⟨f, ⟨contents, source, p, index, m₁, m₂, hcontents, hcreate, hacquire,
        hacquired.slot, hregardless⟩, hvisible, fun hfree => ⟨hrun, fun bytes => ?_⟩,
        fun {g bytes copy' m''} hother hrun' => ?_⟩
      · obtain ⟨hview₁, ⟨files, hm₁⟩, -⟩ :=
          answers_copyContents (h.coherent.fits hpage) hcontents
        have htidy₁ : m₁.Tidy := h.tidy.of_eq (by rw [hm₁]) (by rw [hm₁])
        rw [← hview₁] at hfree
        simp only [duplicate_eq, answers_liftM_bind, returns_getPage, and_assoc, exists_and_left,
          exists_eq_left]
        refine ⟨page, hpage, answers_bind.2 (.inr ⟨_, _, copyContents_withBytes hcontents, ?_⟩)⟩
        refine answers_liftM_computed_bind.2 ⟨p, hcreate, ?_⟩
        simp only [answers_liftM_bind]
        exact ⟨some index, _, acquireBeside_withBytes htidy₁ hfree hacquire,
          hregardless.overwrites bytes⟩
      · obtain ⟨found, hfound, hcopying'⟩ := copying_of_duplicate (h.withBytes g bytes) hrun'
        rw [view_withBytes] at hfound
        cases hpage.symm.trans hfound
        cases hcopying' with
        | aside hnone => exact absurd hfrom.hasBytes hnone
        | @into _ _ _ _ f' _ _ _ hfrom' _ _ hacquired' _ _ hvisible' =>
            have hpage' : (m.withBytes g bytes).view.page key = some page := by
              rw [view_withBytes]
              exact hpage
            rw [hacquired'.bytesOf_eq (slotBooks_withBytes hbooks g bytes) hpage' hfrom',
              bytesOf_withBytes hother] at hvisible'
            exact ⟨f', hvisible'⟩

end

/-- No byte that was left in a frame is seen by the next page that gets the frame. -/
structure NothingStale (m : Machine) : Prop where
  claimed : ∀ {key d m'}, Answers (claim key d) m (.ok ()) m' → ∃ page, m.view.page key = some page ∧
    (page.isResident = true ∧ m' = m ∨ ∃ f, ClaimedAfresh key page d f m m')
  copied : ∀ {key d copy m'}, Answers (duplicate key d) m (.ok copy) m' →
    ∃ page, m.view.page key = some page ∧
      (¬page.HasBytes ∧ (∃ p, m'.view.page copy = some p ∧ p.frame = none) ∨
        ∃ f, CopiedAfresh key page d copy f m m')

end Machine

variable {start m₀ m : Machine} {history : List Done} {effects : List Effect}

/-- After any run, and after any steps of the request that comes next, pages are claimed and copied
into frames of which nothing is left. -/
theorem Run.nothingStale (h : Run start history m₀) (hcourse : Course effects none m₀ none m) :
    NothingStale m := by
  have hsound := hcourse.sound h.sound
  have hbooks := hcourse.steps.slotBooks h.sound.coherent h.slotBooks
  exact ⟨claimedAfresh hsound hbooks, copiedAfresh hsound hbooks⟩

/-- The next page of a file is claimed, for which the first one leaves the only frame. -/
theorem nothingStale_of_evicted : ∃ history m m',
    Run (bare 1 0 (Arena.empty.add (.ofData #[1, 2] none))) history m ∧
      (m.view.page ⟨0⟩).any (·.frame == some ⟨0⟩) = true ∧
        Answers (claim ⟨1⟩ ⟨0⟩) m (.ok ()) m' ∧
          (m'.view.page ⟨1⟩).any (·.frame == some ⟨0⟩) = true ∧ NothingStale m := by
  have htest : returnsWith (do
        let s ← Space.create "init"
        let _ ← (Request.mapFile ⟨pageSize, by decide⟩ (pageSize + 1) false ⟨⟨0⟩, 0⟩ 0).perform? s
        let _ ← (Request.handleFault ⟨⟨pageSize, by decide⟩, true, false, true, 0⟩).perform? s
        let before ← get
        return (before, ← (claim ⟨1⟩ ⟨0⟩).run))
      (bare 1 0 (Arena.empty.add (.ofData #[1, 2] none)))
      (fun (before, answer) after =>
        (before.view.page ⟨0⟩).any (·.frame == some ⟨0⟩) &&
          (answer.isOk && (after.view.page ⟨1⟩).any (·.frame == some ⟨0⟩))) = true := by
    decide +kernel
  obtain ⟨⟨before, answer⟩, m', hrun, htest⟩ := exists_returns htest
  simp only [returns_bind, returns_pure] at hrun
  obtain ⟨s, m₁, hcreate, _, m₂, hmap, _, m, hfault, _, _, hget, _, _, hclaim, he, rfl⟩ := hrun
  obtain ⟨rfl, rfl⟩ := returns_get.1 hget
  cases he
  rw [Bool.and_eq_true, Bool.and_eq_true] at htest
  obtain ⟨hbefore, hok, hafter⟩ := htest
  cases answer with
  | error cause => cases hok
  | ok u =>
      obtain ⟨_, hmapped⟩ := (Reaches.refl.create hcreate).perform? hmap
      obtain ⟨history, hreached⟩ := hmapped.perform? hfault
      have hrun : Run (bare 1 0 (Arena.empty.add (.ofData #[1, 2] none))) history _ :=
        ⟨fresh_bare _ _ _, hreached⟩
      exact ⟨history, _, _, hrun, hbefore, hclaim, hafter, hrun.nothingStale (.refl hrun.sound)⟩

end DemandPaging
