import DemandPaging.Proofs.FrameOwnership
import DemandPaging.Proofs.Memory.Conservation

/-!
What a fork does to pins.

The frame of a page is pinned while another frame is looked for to copy it into, and then it is unpinned,
no matter whether it was pinned before. So a fork leaves no pin behind, and it takes the pins of the
pages that it came to. Those are the first pages of the address space, and all of them if it succeeded.

A frame that is pinned and belongs to no such page keeps its page as well as its pin. It is not taken for
a copy, and the copies that a failed fork gives up are in other frames.
-/

namespace DemandPaging

open Machine Space

/-- The frames of some pages were unpinned, and nothing was done to any other frame that was pinned. -/
structure Machine.Unpins (keys : List (Key Page)) (m m' : Machine) : Prop where
  noMore : ∀ f, m'.pool.isPinned f = true → m.pool.isPinned f = true
  kept : ∀ f o, m.view.owner f = some (some o) → m.pool.isPinned f = true → o.page ∉ keys →
    m'.view.owner f = some (some o) ∧ m'.pool.isPinned f = true
  lost : ∀ f o, m.view.owner f = some (some o) → o.page ∈ keys → m'.pool.isPinned f = false

section

variable {m m₁ m' : Machine} {keys rest : List (Key Page)} {key : Key Page} {page copy : Page}
  {f : FrameNumber} {o : Owner} {index : Nat} {s : Key AddressSpace} {d : Key Directory}
  {contents : Contents} {source : CopySource} {u : Unit}

namespace Machine.Unpins

/-- A frame that has an owner is pinned afterwards if it was and if its page is none of those. -/
theorem isPinned_eq (h : m.Unpins keys m') (howner : m.view.owner f = some (some o)) :
    m'.pool.isPinned f = (m.pool.isPinned f && decide (o.page ∉ keys)) := by
  by_cases hmem : o.page ∈ keys
  · rw [h.lost f o howner hmem, decide_eq_false (not_not_intro hmem), Bool.and_false]
  · rw [decide_eq_true hmem, Bool.and_true, Bool.eq_iff_iff]
    exact ⟨h.noMore f, fun hpinned => (h.kept f o howner hpinned hmem).2⟩

theorem congr (h : m.Unpins keys m') (hsame : ∀ f o, m.view.owner f = some (some o) →
    (o.page ∈ keys ↔ o.page ∈ rest)) : m.Unpins rest m' where
  noMore := h.noMore
  kept f o howner hpinned hnot := h.kept f o howner hpinned (mt (hsame f o howner).1 hnot)
  lost f o howner hmem := h.lost f o howner ((hsame f o howner).2 hmem)

theorem append (h : m.Unpins keys m₁) (h' : m₁.Unpins rest m') : m.Unpins (keys ++ rest) m' where
  noMore f hpinned := h.noMore f (h'.noMore f hpinned)
  kept f o howner hpinned hnot := by
    rw [List.mem_append, not_or] at hnot
    obtain ⟨howner₁, hpinned₁⟩ := h.kept f o howner hpinned hnot.1
    exact h'.kept f o howner₁ hpinned₁ hnot.2
  lost f o howner hmem := by
    by_contra hpinned
    rw [Bool.not_eq_false] at hpinned
    have hpinned₁ := h'.noMore f hpinned
    by_cases hfirst : o.page ∈ keys
    · rw [h.lost f o howner hfirst] at hpinned₁
      cases hpinned₁
    · -- a pin that is not lost at first is lost together with the others, from the same page
      obtain ⟨howner₁, -⟩ := h.kept f o howner (h.noMore f hpinned₁) hfirst
      rw [h'.lost f o howner₁ ((List.mem_append.1 hmem).resolve_left hfirst)] at hpinned
      cases hpinned

theorem of_same (howner : m'.view.owner = m.view.owner)
    (hpins : ∀ f, m'.pool.isPinned f = m.pool.isPinned f) : m.Unpins [] m' where
  noMore f hpinned := by rwa [hpins] at hpinned
  kept f o howned hpinned _ := ⟨by rw [howner, howned], by rw [hpins, hpinned]⟩
  lost _ _ _ hmem := absurd hmem List.not_mem_nil

theorem and_same (h : m.Unpins keys m₁) (howner : m'.view.owner = m₁.view.owner)
    (hpins : ∀ f, m'.pool.isPinned f = m₁.pool.isPinned f) : m.Unpins keys m' := by
  have hboth := h.append (of_same howner hpins)
  rwa [List.append_nil] at hboth

theorem of_update {entry : Option (Option Owner)}
    (howner : m'.view.owner = Function.update m.view.owner f entry)
    (hpins : ∀ g, g ≠ f → m'.pool.isPinned g = m.pool.isPinned g)
    (hmore : m'.pool.isPinned f = true → m.pool.isPinned f = true)
    (hfree : ∀ o, m.view.owner f = some (some o) → m.pool.isPinned f = false) :
    m.Unpins [] m' where
  noMore g hpinned := by
    by_cases hg : g = f
    · subst hg
      exact hmore hpinned
    · rwa [hpins g hg] at hpinned
  kept g o howned hpinned _ := by
    have hg : g ≠ f := by
      rintro rfl
      rw [hfree o howned] at hpinned
      cases hpinned
    exact ⟨by rw [howner, Function.update_of_ne hg, howned], by rw [hpins g hg, hpinned]⟩
  lost _ _ _ hmem := absurd hmem List.not_mem_nil

end Machine.Unpins

theorem frame_of_owner (h : Sound none m) (hpage : m.pages.get? key = some page)
    (howner : m.view.owner f = some (some o)) (hkey : o.page = key) : page.frame = some f := by
  subst hkey
  obtain ⟨found, -, hfound, hframe, -⟩ := h.coherent.residency.linked howner
  cases hpage.symm.trans hfound
  exact hframe

theorem Machine.Unpins.of_absent (hunpins : m.Unpins [] m') (h : Sound none m)
    (hpage : m.pages.get? key = some page) (habsent : page.frame = none) : m.Unpins [key] m' := by
  refine hunpins.congr fun f o howner => ?_
  have hne : o.page ≠ key := fun hkey => by
    cases habsent.symm.trans (frame_of_owner h hpage howner hkey)
  simp [hne]

/-! ### A frame for a copy -/

/-- Whatever frame is acquired, no frame with a pin changes hands. -/
theorem unpins_acquire (h : Sound none m) {acquired : Option Nat}
    (hrun : Returns acquire m acquired m') : m.Unpins [] m' := by
  simp only [acquire, returns_bind] at hrun
  obtain ⟨frame?, m₁, hallocate, hrun⟩ := hrun
  cases hpool : m.pool.allocate with
  | some handed =>
      obtain ⟨f, pool⟩ := handed
      obtain ⟨rfl, rfl⟩ := hallocate.unique (returns_allocateFrame_some hpool)
      simp only [returns_bind, returns_get, returns_setListed, returns_pure, and_assoc,
        exists_and_left, exists_eq_left, exists_const] at hrun
      obtain ⟨-, rfl⟩ := hrun
      obtain ⟨hfree, -⟩ := Pool.allocate_eq_some h.tidy.pool hpool
      have hfresh : m.view.owner f = none := h.coherent.residency.owner_eq_none hfree
      have hpins : ∀ g, pool.isPinned g = m.pool.isPinned g := Pool.isPinned_allocate hpool
      refine .of_update (ownerIn_append hfresh none) (fun g _ => hpins g) (fun hpinned => ?_)
        fun o howner => ?_
      · exact (hpins f).symm.trans hpinned
      · rw [hfresh] at howner
        cases howner
  | none =>
      obtain ⟨rfl, rfl⟩ := hallocate.unique (returns_allocateFrame_none hpool)
      simp only [returns_bind] at hrun
      obtain ⟨victim, m₂, hselect, hrun⟩ := hrun
      obtain ⟨hview, ⟨hand, directories, rfl⟩, hvictim⟩ := returns_selectVictim hselect
      cases victim with
      | none =>
          obtain ⟨-, rfl⟩ := returns_pure.1 hrun
          exact .of_same rfl fun _ => rfl
      | some index =>
          simp only [returns_bind, returns_pure] at hrun
          obtain ⟨_, m₃, hevict, -, rfl⟩ := hrun
          obtain ⟨slot, o, hslot, howner, hunpinned⟩ := hvictim index rfl
          obtain ⟨⟨contents, swap, files, directories', events, rfl⟩, -⟩ :=
            returns_evict (h.of_view hview (h.tidy.of_eq rfl rfl)) hslot howner hevict
          exact .of_update (ownerIn_modify h.tidy.nodup hslot none) (fun _ _ => rfl) id
            fun _ _ => hunpinned

/-- The frame of a page that is copied is unpinned after the search for another frame. -/
theorem unpins_acquireBeside (h : Sound none m) (hpage : m.pages.get? key = some page)
    (hfrom : CopiesFrom page contents (some source)) {acquired : Option Nat}
    (hrun : Returns (acquireBeside source) m acquired m') : m.Unpins [key] m' := by
  cases hfrom with
  | slot habsent => exact (unpins_acquire h hrun).of_absent h hpage habsent
  | @frame f hresident =>
      simp only [acquireBeside, returns_bind, returns_pure] at hrun
      obtain ⟨_, m₁, hpin, acquired', m₂, hacquire, _, m₃, hunpin, rfl, rfl⟩ := hrun
      obtain ⟨pool, hpinned, rfl⟩ := returns_pinFrame hpin
      obtain ⟨pool', hunpinned, rfl⟩ := returns_pinFrame hunpin
      have hfirst := unpins_acquire (h.of_view (view_setPinned m hpinned)
        (h.tidy.congr (Pool.sameAllocation_setPinned hpinned) rfl)) hacquire
      have hbefore := Pool.isPinned_setPinned hpinned
      have hafter := Pool.isPinned_setPinned hunpinned
      refine ⟨fun g hg => ?_, fun g o howner hg hnot => ?_, fun g o howner hmem => ?_⟩
      · rw [hafter] at hg
        split at hg
        · cases hg
        · next hne => rw [← hfirst.noMore g hg, hbefore, if_neg hne]
      · have hne : f ≠ g := by
          rintro rfl
          obtain ⟨o', howner', hkey⟩ := h.coherent.residency.listed hpage hresident
          cases howner.symm.trans howner'
          exact hnot (List.mem_singleton.2 hkey)
        obtain ⟨howner₂, hpinned₂⟩ := hfirst.kept g o howner
          (by rw [hbefore, if_neg hne, hg]) List.not_mem_nil
        exact ⟨howner₂, by rw [hafter, if_neg hne, hpinned₂]⟩
      · have hg := frame_of_owner h hpage howner (List.mem_singleton.1 hmem)
        rw [hresident] at hg
        cases hg
        rw [hafter, if_pos rfl]

theorem isPinned_copyBytes {copied : Bool} (hrun : Returns (copyBytes source f) m copied m')
    (g : FrameNumber) : m'.pool.isPinned g = m.pool.isPinned g := by
  cases source with
  | frame origin =>
      simp only [copyBytes, copyFrame, returns_bind, returns_get, returns_liftM, returns_setPool,
        returns_pure, and_assoc, exists_and_left, exists_eq_left, exists_const] at hrun
      obtain ⟨_, ⟨pool, hcopy, rfl⟩, -, rfl⟩ := hrun
      obtain ⟨bytes, -, hset⟩ := Pool.copy_eq_ok hcopy
      exact Pool.isPinned_setBytes hset g
  | slot slot =>
      simp only [copyBytes, returns_bind, returns_pure] at hrun
      obtain ⟨buffer, _, hbuffer, ⟨result, bytes⟩, m₁, hread, _, m₂, hset, -, rfl⟩ := hrun
      obtain ⟨-, rfl⟩ := returns_frameBytes hbuffer
      obtain ⟨-, -, swap, rfl⟩ := returns_readFromSwap hread
      obtain ⟨pool, hpool, rfl⟩ := returns_setFrameBytes hset
      exact Pool.isPinned_setBytes hpool g

theorem isPinned_removeSlot {slot : FrameSlot} (hslot : m.listed[index]? = some slot)
    (hrun : Returns (removeSlot index) m u m') (g : FrameNumber) :
    m'.pool.isPinned g = if slot.frame = g then false else m.pool.isPinned g := by
  simp only [removeSlot, releaseFrame, returns_bind, returns_getSlot, returns_get,
    returns_setListed, returns_setHand, returns_liftM, returns_setPool, returns_record, and_assoc,
    exists_and_left, exists_eq_left, exists_const] at hrun
  obtain ⟨_, hslot', pool, hrelease, rfl⟩ := hrun
  cases hslot.symm.trans hslot'
  exact Pool.isPinned_release hrelease g

theorem unpins_removeSlot (htidy : m.Tidy) (hslot : m.listed[index]? = some ⟨f, none⟩)
    (hrun : Returns (removeSlot index) m u m') : m.Unpins [] m' := by
  have hpins := isPinned_removeSlot hslot hrun
  have hunowned : m.view.owner f = some none := ownerIn_of_getElem? htidy.nodup hslot
  obtain ⟨hview, -⟩ := returns_removeSlot htidy hslot hrun
  refine .of_update (by rw [hview]; rfl) (fun g hg => ?_) (fun hpinned => ?_) fun o howner => ?_
  · rw [hpins, if_neg hg.symm]
  · rw [hpins, if_pos rfl] at hpinned
    cases hpinned
  · rw [hunowned] at howner
    cases howner

theorem unpins_copyInto (htidy : m.Tidy) (hslot : m.listed[index]? = some ⟨f, none⟩)
    (hpage : m.pages.get? key = some page) (hfrom : CopiesFrom page contents (some source))
    {answer : Except VmError (Key Page)} (hrun : Answers (copyInto copy source d index) m answer m') :
    m.Unpins [] m' := by
  obtain ⟨copied, m₁, hbytes, hrest⟩ := copyInto_parts hslot hrun
  have hpins := isPinned_copyBytes hbytes
  obtain ⟨bytes, hview, -, pool, swap, rfl, hallocation⟩ := returns_copyBytes hpage hfrom hbytes
  have hfilled : m.Unpins [] { m with pool, swap } := .of_same (by rw [hview]; rfl) hpins
  have htidy₁ : Tidy { m with pool, swap } := htidy.congr hallocation rfl
  obtain ⟨-, -, hremove⟩ | ⟨-, -, hlink⟩ := hrest
  · exact hfilled.append (unpins_removeSlot htidy₁ hslot hremove)
  · refine hfilled.append ?_
    have hmade : (m.pages.add copy).get? m.pages.nextKey = some copy := by
      rw [Arena.get?_add, if_pos rfl]
    obtain ⟨pa, -, hmap⟩ := link_parts (m := { m with pool, swap, pages := m.pages.add copy })
      hslot hmade hlink
    obtain ⟨-, directories, rfl⟩ := returns_mapPage hmap
    have hunowned : m.view.owner f = some none := ownerIn_of_getElem? htidy.nodup hslot
    refine .of_update (ownerIn_modify htidy.nodup hslot _) (fun _ _ => rfl) id fun o howner => ?_
    cases hunowned.symm.trans howner

/-- The page that is copied loses its pin, unless its file could not be opened again. -/
theorem unpins_duplicate (h : Sound none m) (hpage : m.pages.get? key = some page)
    {answer : Except VmError (Key Page)} (hrun : Answers (duplicate key d) m answer m') :
    (∃ cause, answer = .error cause) ∧ m.Unpins [] m' ∨ m.Unpins [key] m' := by
  simp only [duplicate_eq, answers_liftM_bind, returns_getPage, and_assoc, exists_and_left,
    exists_eq_left] at hrun
  obtain ⟨_, hpage', hrun⟩ := hrun
  cases hpage.symm.trans hpage'
  have hfits : page.contents.Fits page.isResident := h.coherent.fits hpage
  rw [answers_bind] at hrun
  rcases hrun with ⟨cause, rfl, hcontents⟩ | ⟨⟨contents, source⟩, m₁, hcontents, hrun⟩
  · obtain ⟨-, ⟨files, rfl⟩, -⟩ := answers_copyContents hfits hcontents
    exact .inl ⟨⟨cause, rfl⟩, .of_same rfl fun _ => rfl⟩
  obtain ⟨hview, ⟨files, rfl⟩, hsource⟩ := answers_copyContents hfits hcontents
  obtain ⟨-, hfrom, -⟩ := hsource contents source rfl
  have h₁ : Sound none { m with files } := h.of_view hview (h.tidy.of_eq rfl rfl)
  have hopened : m.Unpins [] { m with files } := .of_same rfl fun _ => rfl
  rw [answers_liftM_computed_bind] at hrun
  obtain ⟨copy, -, hrun⟩ := hrun
  right
  cases source with
  | none =>
      obtain ⟨_, -, hadd⟩ := answers_liftM.1 hrun
      obtain ⟨-, rfl⟩ := returns_addPage.1 hadd
      have habsent : page.frame = none := by
        cases hfrom with
        | aside habsent => exact habsent
      exact Machine.Unpins.of_absent (.of_same rfl fun _ => rfl) h hpage habsent
  | some source =>
      simp only [answers_liftM_bind] at hrun
      obtain ⟨acquired, m₂, hacquire, hrun⟩ := hrun
      have hbeside := hopened.append (unpins_acquireBeside h₁ hpage hfrom hacquire)
      cases acquired with
      | none =>
          obtain ⟨-, rfl⟩ := answers_throw.1 hrun
          exact hbeside
      | some index =>
          obtain ⟨-, hpage₂, -, -, hsome⟩ := course_acquireBeside h₁ hpage hfrom hacquire
          obtain ⟨f, hslot, -, htidy⟩ := hsome index rfl
          exact hbeside.append (unpins_copyInto htidy hslot hpage₂ hfrom hrun)

/-! ### The pages of an address space -/

/-- Pages are copied in order, and the pins that are lost are those of the pages that were come to. -/
theorem unpins_copyPages {parent child : Key AddressSpace} (hne : parent ≠ child) (h : Sound none m)
    (hnodup : keys.Nodup) (hkeys : ∀ key ∈ keys, ∃ n, m.view.pageOf parent n = some key ∧
      m.view.pageOf child n = none)
    {answer : Except VmError Unit} (hrun : Answers (copyPages child keys) m answer m') :
    ∃ tried, tried <+: keys ∧ (answer = .ok () → tried = keys) ∧ m.Unpins tried m' := by
  induction keys generalizing m with
  | nil =>
      obtain ⟨-, rfl⟩ := answers_pure.1 hrun
      exact ⟨[], List.prefix_rfl, fun _ => rfl, .of_same rfl fun _ => rfl⟩
  | cons key rest ih =>
      obtain ⟨n, hparent, hchild⟩ := hkeys key List.mem_cons_self
      obtain ⟨page, hpage, rfl⟩ := h.coherent.placement.placed hparent
      rw [List.nodup_cons] at hnodup
      obtain ⟨d, ⟨cause, rfl, hduplicate⟩ | ⟨copy, m₁, m₂, hduplicate, ⟨spaces, hm₂⟩, hplaced, hrest⟩⟩ :=
        copyPages_parts h hpage hchild hrun
      · obtain ⟨-, hnone⟩ | hone := unpins_duplicate h hpage hduplicate
        · exact ⟨[], List.nil_prefix, (fun he => by cases he), hnone⟩
        · exact ⟨[key], (List.prefix_cons_inj key).2 List.nil_prefix, (fun he => by cases he), hone⟩
      · obtain ⟨⟨_, he⟩, -⟩ | hone := unpins_duplicate h hpage hduplicate
        · cases he
        obtain ⟨tried, hprefix, hall, htried⟩ := ih (hplaced.course.sound h) hnodup.2
          (hplaced.rest hne hparent hnodup.1
            fun key' hkey' => hkeys key' (List.mem_cons_of_mem _ hkey')) hrest
        have hstored : m₁.Unpins [] m₂ := by
          rw [hm₂]
          exact .of_same rfl fun _ => rfl
        exact ⟨key :: tried, (List.prefix_cons_inj key).2 hprefix, fun he => by rw [hall he],
          hone.append (hstored.append htried)⟩

theorem same_of_copyRegions {regions : List Region} {answer : Except VmError Unit}
    (hrun : Answers (copyRegions s regions) m answer m') :
    m'.listed = m.listed ∧ m'.pool = m.pool := by
  induction regions generalizing m with
  | nil =>
      obtain ⟨-, rfl⟩ := answers_pure.1 hrun
      exact ⟨rfl, rfl⟩
  | cons region rest ih =>
      simp only [copyRegions, answers_liftM_bind] at hrun
      obtain ⟨handle?, m₁, hreopen, hrun⟩ := hrun
      obtain ⟨-, ⟨files, rfl⟩, -⟩ := returns_reopen hreopen
      cases handle? with
      | none =>
          obtain ⟨-, rfl⟩ := answers_throw.1 hrun
          exact ⟨rfl, rfl⟩
      | some handle =>
          simp only [answers_liftM_bind, returns_updateSpace, exists_eq_left, exists_const] at hrun
          obtain ⟨hlisted, hpool⟩ := ih hrun
          exact ⟨hlisted, hpool⟩

/-! ### The end of a copy -/

theorem unpins_release (h : Sound none m) (hpage : m.pages.get? key = some page)
    (hrun : Returns (release key) m u m') : m.Unpins [key] m' := by
  cases hframe : page.frame with
  | none =>
      obtain ⟨hlisted, hpool, -⟩ := same_of_release_of_absent hpage hframe hrun
      have hsame : m.Unpins [] m' :=
        .of_same (congrArg ownerIn hlisted) fun f => by rw [hpool]
      exact hsame.of_absent h hpage hframe
  | some f =>
      obtain ⟨index, o, m₁, hslot, hlisted, hpool, -, hremove⟩ :=
        removeSlot_of_release h hpage hframe hrun
      have hslot₁ : m₁.listed[index]? = some ⟨f, none⟩ := by
        rw [hlisted]
        simp [hslot]
      have htidy₁ : m₁.Tidy := h.tidy.congr (by rw [hpool]; exact .refl _)
        (by rw [hlisted]; exact map_frame_modify _ _ _)
      have hpins := isPinned_removeSlot hslot₁ hremove
      obtain ⟨hview, -⟩ := returns_removeSlot htidy₁ hslot₁ hremove
      have howners : m'.view.owner = Function.update m.view.owner f none := by
        have hunowned : m₁.view.owner = Function.update m.view.owner f (some none) :=
          (congrArg ownerIn hlisted).trans (ownerIn_modify h.tidy.nodup hslot none)
        rw [hview]
        exact (congrArg (Function.update · f none) hunowned).trans (Function.update_idem ..)
      refine ⟨fun g hg => ?_, fun g o' howner hg hnot => ?_, fun g o' howner hmem => ?_⟩
      · rw [hpins] at hg
        split at hg
        · cases hg
        · rwa [hpool] at hg
      · have hne : g ≠ f := by
          rintro rfl
          obtain ⟨_, howner', hkey⟩ := h.coherent.residency.listed hpage hframe
          cases howner.symm.trans howner'
          exact hnot (List.mem_singleton.2 hkey)
        exact ⟨by rw [howners, Function.update_of_ne hne, howner],
          by rw [hpins, if_neg hne.symm, hpool, hg]⟩
      · cases hframe.symm.trans (frame_of_owner h hpage howner (List.mem_singleton.1 hmem))
        rw [hpins, if_pos rfl]

theorem unpins_releaseHeld (h : Sound none m) (hpage : m.pages.get? key = some page)
    (hrun : Returns (releaseHeld key) m u m') : m.Unpins [key] m' := by
  simp only [releaseHeld, dropPage, returns_bind, returns_getPage, and_assoc, exists_and_left,
    exists_eq_left] at hrun
  obtain ⟨_, m₁, hrelease, left, -, hdrop⟩ := hrun
  have hgiven := unpins_release h hpage hrelease
  split at hdrop
  · obtain rfl := returns_modify.1 hdrop
    exact hgiven.and_same rfl fun _ => rfl
  · obtain rfl := returns_updatePage.1 hdrop
    exact hgiven.and_same rfl fun _ => rfl

def Machine.UnpinsIn (s : Key AddressSpace) (m m' : Machine) : Prop :=
  ∃ keys, (∀ key ∈ keys, ∃ n, m.view.pageOf s n = some key) ∧ m.Unpins keys m'

namespace Machine.UnpinsIn

theorem of_none (h : m.Unpins [] m') : UnpinsIn s m m' :=
  ⟨[], fun _ hmem => absurd hmem List.not_mem_nil, h⟩

theorem and_same (h : UnpinsIn s m m₁) (howner : m'.view.owner = m₁.view.owner)
    (hpins : ∀ f, m'.pool.isPinned f = m₁.pool.isPinned f) : UnpinsIn s m m' := by
  obtain ⟨keys, hkeys, hunpins⟩ := h
  exact ⟨keys, hkeys, hunpins.and_same howner hpins⟩

theorem trans (h : UnpinsIn s m m₁) (h' : UnpinsIn s m₁ m')
    (hplace : ∀ n key, m₁.view.pageOf s n = some key → m.view.pageOf s n = some key) :
    UnpinsIn s m m' := by
  obtain ⟨keys, hkeys, hfirst⟩ := h
  obtain ⟨rest, hrest, hlater⟩ := h'
  refine ⟨keys ++ rest, fun key hmem => ?_, hfirst.append hlater⟩
  obtain hmem | hmem := List.mem_append.1 hmem
  · exact hkeys key hmem
  · exact (hrest key hmem).imp fun n => hplace n key

end Machine.UnpinsIn

theorem unpinsIn_removePage {n : PageNumber} (h : Sound none m) {removed : Bool}
    (hrun : Returns (removePage s n) m removed m') : UnpinsIn s m m' := by
  simp only [removePage, returns_bind, returns_getSpace, and_assoc, exists_and_left,
    exists_eq_left] at hrun
  obtain ⟨space, hspace, pages?, m₁, hremove, hrun⟩ := hrun
  cases hkey : space.pages[n]? with
  | none =>
      simp only [removeFromMap, hkey, returns_pure] at hremove
      obtain ⟨rfl, rfl⟩ := hremove
      obtain ⟨-, rfl⟩ := returns_pure.1 hrun
      exact .of_none (.of_same rfl fun _ => rfl)
  | some key =>
      have hplace : m.view.pageOf s n = some key := by rw [view_pageOf_eq hspace, hkey]
      obtain ⟨page, hpage, -⟩ := h.coherent.placement.placed hplace
      simp only [removeFromMap, hkey, returns_bind, returns_pure] at hremove
      obtain ⟨_, m₂, hrelease, rfl, rfl⟩ := hremove
      simp only [returns_bind, returns_updateSpace, returns_pure, exists_eq_left,
        exists_const] at hrun
      obtain ⟨-, rfl⟩ := hrun
      refine ⟨[key], fun other hother => ⟨n, by rw [hplace, List.mem_singleton.1 hother]⟩, ?_⟩
      exact (unpins_releaseHeld h hpage hrelease).and_same rfl fun _ => rfl

theorem unpinsIn_removePages {numbers : List PageNumber} (h : Sound none m)
    (hrun : Returns (removePages s numbers) m u m') : UnpinsIn s m m' := by
  induction numbers generalizing m with
  | nil =>
      obtain ⟨-, rfl⟩ := returns_pure.1 hrun
      exact .of_none (.of_same rfl fun _ => rfl)
  | cons n rest ih =>
      simp only [removePages, returns_bind] at hrun
      obtain ⟨_, m₁, hremove, hrest⟩ := hrun
      obtain ⟨-, -, -, hplace, effects, hcourse, -⟩ := returns_removePage h hremove
      refine (unpinsIn_removePage h hremove).trans (ih (hcourse.sound h) hrest) fun n' key hkey => ?_
      rw [hplace, Function.update_apply] at hkey
      split at hkey
      · cases hkey
      · exact hkey

theorem unpinsIn_unmapFile {start : VirtualAddress} (h : Sound none m)
    (hrun : Returns (unmapFile s start) m u m') : UnpinsIn s m m' := by
  simp only [unmapFile, returns_bind, returns_getSpace, and_assoc, exists_and_left,
    exists_eq_left] at hrun
  obtain ⟨space, -, found, -, hrun⟩ := hrun
  split at hrun
  · obtain rfl := returns_record.1 hrun
    exact .of_none (.of_same rfl fun _ => rfl)
  · simp only [returns_bind, returns_liftM, returns_updateSpace, returns_record, and_assoc,
      exists_and_left, exists_eq_left, exists_const] at hrun
    obtain ⟨numbers, -, _, m₁, hremove, rfl⟩ := hrun
    exact (unpinsIn_removePages h hremove).and_same rfl fun _ => rfl

theorem unpinsIn_unmapFiles {starts : List VirtualAddress} (h : Sound none m)
    (hrun : Returns (unmapFiles s starts) m u m') : UnpinsIn s m m' := by
  induction starts generalizing m with
  | nil =>
      obtain ⟨-, rfl⟩ := returns_pure.1 hrun
      exact .of_none (.of_same rfl fun _ => rfl)
  | cons start rest ih =>
      simp only [unmapFiles, returns_bind] at hrun
      obtain ⟨_, m₁, hunmap, hrest⟩ := hrun
      obtain ⟨effects, hcleared⟩ := cleared_unmapFile h hunmap
      exact (unpinsIn_unmapFile h hunmap).trans (ih (hcleared.course.sound h) hrest) hcleared.place

theorem unpinsIn_drop (h : Sound none m) (hrun : Returns (drop s) m u m') : UnpinsIn s m m' := by
  simp only [drop, tearDown, returns_bind, returns_getSpace, returns_eraseSpace, and_assoc,
    exists_and_left, exists_eq_left] at hrun
  obtain ⟨_, m₂, ⟨space, -, _, m₁, hunmap, left, -, hremove⟩, rfl⟩ := hrun
  obtain ⟨effects, hcleared⟩ := cleared_unmapFiles h hunmap
  have htorn := (unpinsIn_unmapFiles h hunmap).trans
    (unpinsIn_removePages (hcleared.course.sound h) hremove) hcleared.place
  exact htorn.and_same rfl fun _ => rfl

/-! ### A fork -/

theorem unpins_copyAll {parent child : Key AddressSpace} {current : AddressSpace}
    (hne : parent ≠ child) (h : Sound none m) (hparent : m.spaces.get? parent = some current)
    (hchild : ∃ space, m.spaces.get? child = some space)
    (hempty : ∀ n, m.view.pageOf child n = none) {answer : Except VmError Unit}
    (hrun : Answers (copyAll child current) m answer m') :
    ∃ tried, tried <+: current.pages.values ∧ (answer = .ok () → tried = current.pages.values) ∧
      m.Unpins tried m' := by
  unfold copyAll at hrun
  rw [answers_tryCatchThe, answers_bind] at hrun
  rcases hrun with ⟨cause, rfl, hregions⟩ | ⟨_, m₁, hregions, hpages⟩
  · obtain ⟨hlisted, hpool⟩ := same_of_copyRegions hregions
    exact ⟨[], List.nil_prefix, (fun he => by cases he),
      .of_same (congrArg ownerIn hlisted) fun f => by rw [hpool]⟩
  obtain ⟨hlisted, hpool⟩ := same_of_copyRegions hregions
  obtain ⟨effects, hcopied, -⟩ := answers_copyRegions h hregions hchild
  have hstill : m.Unpins [] m₁ := .of_same (congrArg ownerIn hlisted) fun f => by rw [hpool]
  obtain ⟨tried, hprefix, hall, htried⟩ :=
    unpins_copyPages hne (hcopied.course.sound h) (h.nodup_pages hparent) (fun key hkey => by
      obtain ⟨n, hn⟩ := (mem_pages hparent).1 hkey
      exact ⟨n, by rw [hcopied.pageOf, hn], by rw [hcopied.pageOf, hempty]⟩) hpages
  exact ⟨tried, hprefix, hall, hstill.append htried⟩

/-- Whether it succeeds or not, a fork takes the pins of the first pages of an address space, and leaves
all others. -/
theorem unpins_fork {space : AddressSpace} (h : Sound none m) (hspace : m.spaces.get? s = some space)
    {name : String} {answer : Except VmError Id} (hrun : Answers (fork s name) m answer m') :
    ∃ tried, tried <+: space.pages.values ∧
      (∀ child, answer = .ok child → tried = space.pages.values) ∧ m.Unpins tried m' := by
  obtain ⟨current, child, m₁, m₂, hcurrent, hcreated, ⟨hlisted, hpool⟩, hrun⟩ := fork_parts h hrun
  cases hspace.symm.trans hcurrent
  have hmade : m.Unpins [] m₁ := .of_same (congrArg ownerIn hlisted) fun f => by rw [hpool]
  have hsound := hcreated.course.sound h
  have hne := hcreated.ne_of_there hspace
  have hthere : m₁.spaces.get? s = some space := by rw [hcreated.elsewhere s hne, hspace]
  have hempty : ∀ n, m₁.view.pageOf child n = none := fun n => by
    rw [hcreated.pageOf, pageOf_of_closed hcreated.fresh n]
  obtain ⟨cause, events, rfl, hcopy, hdrop⟩ | ⟨events, rfl, hcopy, rfl⟩ := hrun
  · obtain ⟨tried, hprefix, -, htried⟩ :=
      unpins_copyAll hne hsound hthere hcreated.exists_space hempty hcopy
    obtain ⟨current, hchild⟩ := hcreated.exists_space
    obtain ⟨effects, hcopying, -⟩ := answers_copyAll hne hsound hthere hchild hempty
      (fun start => by rw [hcreated.regionOf, regionOf_of_closed hcreated.fresh start]) hcopy
    have hcourse := hcreated.course.trans hcopying.course
    obtain ⟨keys, hkeys, hgiven⟩ :=
      unpinsIn_drop (m := { m₂ with events }) ((hcourse.sound h).of_view rfl
        (hcourse.tidy.of_eq rfl rfl)) hdrop
    have htaken : m.Unpins tried { m₂ with events } :=
      (hmade.append htried).and_same rfl fun _ => rfl
    refine ⟨tried, hprefix, (fun _ he => by cases he),
      (htaken.append hgiven).congr fun f o howner => ?_⟩
    -- the pages that are given up were made by the fork, and so they had no frames before
    have hold : o.page ∉ keys := fun hmem => by
      obtain ⟨n, hplace⟩ := hkeys o.page hmem
      obtain ⟨page, -, hpage, -⟩ := h.coherent.residency.linked howner
      exact Nat.not_lt.2 (created_le_of_fresh hcourse hcreated.fresh hplace)
        (h.coherent.placement.created hpage)
    simp [hold]
  · obtain ⟨tried, hprefix, hall, htried⟩ :=
      unpins_copyAll hne hsound hthere hcreated.exists_space hempty hcopy
    exact ⟨tried, hprefix, fun _ _ => hall rfl,
      (hmade.append htried).and_same rfl fun _ => rfl⟩

/-- After a fork a frame that was in use is pinned if it was pinned before and the fork did not come to
its page. -/
theorem Run.unpins_of_fork {start : Machine} {history : List Done} {space : AddressSpace}
    {name : String} {answer : Except VmError Id} (h : Run start history m)
    (hspace : m.spaces.get? s = some space)
    (hfork : Returns ((Request.fork name).perform? s) m (some answer) m') :
    ∃ tried, tried <+: space.pages.values ∧
      (∀ child, answer = .ok child → tried = space.pages.values) ∧ m.Unpins tried m' ∧
        ∀ slot ∈ m.listed, ∃ o, slot.owner = some o ∧ m'.pool.isPinned slot.frame =
          (m.pool.isPinned slot.frame && decide (o.page ∉ tried)) := by
  obtain ⟨tried, hprefix, hall, hunpins⟩ :=
    unpins_fork h.sound hspace (Request.returns_perform?.1 hfork).2
  refine ⟨tried, hprefix, hall, hunpins, fun slot hslot => ?_⟩
  obtain ⟨o, ho, howner⟩ := h.sound.exists_owner hslot
  exact ⟨o, ho, hunpins.isPinned_eq howner⟩

/-- There is one frame, and it is pinned from the start. A fork finds no frame for the copy of the page
in it, and the pin is gone all the same. -/
example : returnsWith (do
      let s ← Space.create "init"
      let _ ← Request.setUpStack.perform? s
      let before := (← get).pool.isPinned ⟨0⟩
      let _ ← (Request.fork "child").perform? s
      return before)
    { bare 1 0 .empty with pool := (Pool.ofCapacity 1).setFlag ⟨0⟩ .pinned true }
    (fun before m => before && m.listed.any (·.frame == ⟨0⟩) && !m.pool.isPinned ⟨0⟩) = true := by
  decide +kernel

end

end DemandPaging
