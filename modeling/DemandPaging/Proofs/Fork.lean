import DemandPaging.Proofs.FailedFork
import DemandPaging.Proofs.WriteBack

/-!
A fork that succeeds makes a copy of an address space, and the two share nothing.

While the pages are copied, frames may run out, and then any page may be evicted: one of the parent
that is still to be copied, or a copy that was just made. Neither its address nor its rights nor its
kind change by that, and those are what a copy takes over. So a page that is new at the end is like
the page it is a copy of was at the start.

That the two share nothing is a matter of the books. A frame has one owner, a slot is named by one
page and a handle is held in one address space, after every request, and so also after a fork.
-/

namespace DemandPaging

open Machine Space

/-! ### Copies of pages -/

theorem Contents.Copied.kind_eq {contents contents' : Contents}
    (h : Contents.Copied contents contents') : contents'.kind = contents.kind := by
  cases h <;> rfl

/-- What a page keeps when it is evicted, and what a copy of it takes over. -/
structure Page.Like (page copy : Page) : Prop where
  va : copy.va = page.va
  writable : copy.writable = page.writable
  kind : copy.contents.kind = page.contents.kind

/-- It shows the same part of the same file as well, if it shows one. -/
structure Page.Twin (page copy : Page) : Prop extends Page.Like page copy where
  part : copy.contents.part? = page.contents.part?

theorem Page.Twin.trans {page₁ page₂ page₃ : Page} (h : page₁.Twin page₂) (h' : page₂.Twin page₃) :
    page₁.Twin page₃ :=
  ⟨⟨h'.va.trans h.va, h'.writable.trans h.writable, h'.kind.trans h.kind⟩, h'.part.trans h.part⟩

theorem Page.Evicted.twin {page page' : Page} (h : page.Evicted page') : page.Twin page' :=
  ⟨⟨by cases h <;> rfl, h.writable_eq, h.kind_eq⟩, by
    cases h with
    | toSlot _ _ hcontents =>
        rw [hcontents]
        rfl
    | _ => rfl⟩

/-- The labels of a chain that does nothing to pages but copy the ones that were there before. -/
def Effect.Copies (created : Nat) : Effect → Prop
  | .copied source _ => source.index < created
  | .opened _ => True
  | .registered _ _ => True
  | _ => False

section

variable {effects : List Effect} {x x' : Option FrameNumber} {v v' : View} {created : Nat}
  {copy : Key Page} {page' : Page}

theorem Steps.spares_of_copies (h : Steps effects x v x' v')
    (hcopies : ∀ e ∈ effects, Effect.Copies created e) {key : Key Page}
    (hold : key.index < v.created) : ∀ e ∈ effects, Effect.Spares key e := by
  intro e he
  cases e with
  | copied source new =>
      refine ⟨fun hsets => ?_, Effect.noConfusion, Effect.noConfusion⟩
      cases hsets
      -- whatever handle a copy has, it is a page that was made
      exact absurd (h.created_le_of_brings he (show Effect.Brings key ⟨⟨0⟩, 0⟩ _ from rfl))
        (Nat.not_le.2 hold)
  | opened | registered => exact ⟨id, Effect.noConfusion, Effect.noConfusion⟩
  | _ => exact (hcopies _ he).elim

theorem Step.twin_of_copies (h : Step effects x v x' v') (hcoherent : Coherent x v)
    (hcopies : ∀ e ∈ effects, Effect.Copies created e) (hnew : v.created ≤ copy.index)
    (hpage' : v'.page copy = some page') :
    ∃ source page, .copied source copy ∈ effects ∧ v.page source = some page ∧
      page.Twin page' := by
  have hnone : ∀ {page}, v.page copy ≠ some page := fun hpage =>
    Nat.not_lt.2 hnew (hcoherent.placement.created hpage)
  cases h.fate hcoherent copy with
  | copied _ _ hsource hcopied hmade =>
      cases hpage'.symm.trans hmade
      exact ⟨_, _, List.mem_singleton_self _, hsource, ⟨rfl, rfl, hcopied.kind_eq⟩, hcopied.part?_eq⟩
  | added => exact (hcopies _ (List.mem_singleton_self _)).elim
  | absent _ hgone => cases hpage'.symm.trans hgone
  | kept hpage => exact absurd hpage hnone
  | stored hpage => exact absurd hpage hnone
  | evicted hpage => exact absurd hpage hnone
  | broughtIn hpage => exact absurd hpage hnone
  | removedAbsent hpage => exact absurd hpage hnone
  | removedPresent hpage => exact absurd hpage hnone

/-- Evictions on the way do not matter: a page that is new at the end is the twin of what its source
was. -/
theorem Steps.twin_of_copies (h : Steps effects x v x' v') (hcoherent : Coherent x v)
    (hcopies : ∀ e ∈ effects, Effect.Copies created e) (hcreated : created ≤ v.created)
    (hnew : v.created ≤ copy.index) (hpage' : v'.page copy = some page') :
    ∃ source page, .copied source copy ∈ effects ∧ v.page source = some page ∧
      page.Twin page' := by
  induction h with
  | nil => exact absurd (hcoherent.placement.created hpage') (Nat.not_lt.2 hnew)
  | @cons effects rest x x₁ x' v v₁ v' head tail ih =>
      have hcoherent₁ := head.coherent hcoherent
      have hfirst := fun e he => hcopies e (List.mem_append_left rest he)
      have hrest := fun e he => hcopies e (List.mem_append_right effects he)
      by_cases hold : copy.index < v₁.created
      · -- the copy is made by the first step, and may be evicted later
        obtain ⟨made, hmade⟩ := Option.ne_none_iff_exists'.1 ((tail.page_old hold).1 (by
          rw [hpage']
          exact Option.some_ne_none _))
        obtain ⟨source, page, he, hsource, htwin⟩ :=
          head.twin_of_copies hcoherent hfirst hnew hmade
        obtain ⟨_, hlast, hevicted⟩ :=
          tail.evicted hcoherent₁ hmade (tail.spares_of_copies hrest hold)
        cases hpage'.symm.trans hlast
        exact ⟨source, page, List.mem_append_left _ he, hsource, htwin.trans hevicted.twin⟩
      · -- the copy is made later, and its source may be evicted by the first step
        obtain ⟨source, page₁, he, hsource, htwin⟩ :=
          ih hcoherent₁ hrest (hcreated.trans head.created_le) (Nat.not_lt.1 hold) hpage'
        have hlt : source.index < v.created :=
          (show source.index < created from hrest _ he).trans_le hcreated
        obtain ⟨page, hpage⟩ := Option.ne_none_iff_exists'.1 ((head.page_old hlt).1 (by
          rw [hsource]
          exact Option.some_ne_none _))
        obtain ⟨_, hsame, hevicted⟩ := head.evicted hcoherent hpage
          ((Steps.single head).spares_of_copies hfirst hlt)
        cases hsource.symm.trans hsame
        exact ⟨source, page, List.mem_append_right _ he, hpage, hevicted.twin.trans htwin⟩

theorem Coherent.absent_of_slot (h : Coherent x v) {key : Key Page} {page : Page}
    {slot : SwapSlot} (hpage : v.page key = some page)
    (hcontents : page.contents = .anonymous (some slot)) : page.frame = none := by
  have hfits := h.fits hpage
  rw [hcontents] at hfits
  exact Option.isNone_iff_eq_none.1 (Option.isSome_eq_false_iff.1 hfits.symm)

/-! ### Clean entries -/

theorem Step.isDirty_old (h : Step effects x v x' v') {d : Key Directory} {va : VirtualAddress}
    (hdirty : v'.isDirty d va = true) : v.isDirty d va = true ∨
      ∃ key offset data, Effect.stored key offset data ∈ effects := by
  have hgrant : ∀ {d' : Key Directory} {n : PageNumber},
      (if d = d' ∧ va.number = n then false else v.isDirty d va) = true → v.isDirty d va = true := by
    intro d' n hdirty
    split at hdirty
    · cases hdirty
    · exact hdirty
  cases h with
  | evict _ _ _ hstowed =>
      obtain ⟨isOccupied, pageIn, file, rfl⟩ := hstowed.exists_eq
      exact .inl (hgrant hdirty)
  | removePresent _ _ _ _ hgiven =>
      obtain ⟨file, rfl⟩ := hgiven.exists_eq
      exact .inl (hgrant hdirty)
  | bringIn => exact .inl (hgrant hdirty)
  | copyIn => exact .inl (hgrant hdirty)
  | store => exact .inr ⟨_, _, _, List.mem_singleton_self _⟩
  | _ => exact .inl hdirty

theorem Steps.isDirty_old (h : Steps effects x v x' v') {d : Key Directory} {va : VirtualAddress}
    (hdirty : v'.isDirty d va = true) : v.isDirty d va = true ∨
      ∃ key offset data, Effect.stored key offset data ∈ effects := by
  induction h with
  | nil => exact .inl hdirty
  | cons head tail ih =>
      rcases ih hdirty with hdirty | ⟨key, offset, data, he⟩
      · exact (head.isDirty_old hdirty).imp_right fun ⟨key, offset, data, he⟩ =>
          ⟨key, offset, data, List.mem_append_left _ he⟩
      · exact .inr ⟨key, offset, data, List.mem_append_right _ he⟩

end

/-! ### Stack pointers -/

namespace Space

variable {m m' : Machine}

/-- The copy gets the stack pointers first, and filling it keeps them. -/
theorem stackPointersOf_of_fork {parent child : Id} {name : String}
    (hrun : Answers (fork parent name) m (.ok child) m') :
    m'.stackPointersOf child = m.stackPointersOf parent := by
  simp only [fork, answers_liftM_bind, returns_getSpace, and_assoc, exists_and_left,
    exists_eq_left] at hrun
  obtain ⟨current, hparent, new, m₁, hcreate, _, m₂, hstack, _, m₃, hsaved, hrun⟩ := hrun
  have hset : m₃.stackPointersOf new = some (current.stackPointer, current.savedStackPointer) := by
    simp only [create, returns_bind, returns_record, returns_addDirectory, returns_addSpace,
      and_assoc, exists_and_left, exists_eq_left, exists_const] at hcreate
    obtain ⟨rfl, rfl⟩ := hcreate
    obtain rfl := returns_updateSpace.1 hstack
    obtain rfl := returns_updateSpace.1 hsaved
    simp [stackPointersOf, Arena.get?_modify, Arena.get?_add]
  rw [answers_bind] at hrun
  rcases hrun with ⟨_, he, -⟩ | ⟨_, m₄, hdone, hrun⟩
  · cases he
  rw [answers_tryCatch] at hdone
  rcases hdone with ⟨_, -, hcopy⟩ | ⟨_, _, -, hundo⟩
  · unfold copyAll at hcopy
    rw [answers_tryCatchThe] at hcopy
    have hkept := ((keeps_copy new current).returns hcopy).stackPointers
    simp only [answers_liftM_bind, returns_getSpace, returns_record, answers_pure, and_assoc,
      exists_and_left, exists_eq_left, exists_const] at hrun
    obtain ⟨_, -, he, rfl⟩ := hrun
    cases he
    rw [stackPointersOf, stackPointersOf, hparent]
    exact hkept.trans hset
  · simp only [answers_liftM_bind] at hundo
    obtain ⟨_, _, -, _, _, -, hthrow⟩ := hundo
    cases (answers_throw.1 hthrow).1

end Space

/-! ### What address spaces share -/

/-- Two address spaces that have nothing in common: no page, and so no frame, slot or handle. -/
structure Machine.Apart (m : Machine) (space space' : AddressSpace) : Prop where
  directory : space.directory ≠ space'.directory
  pages : ∀ {n n' : PageNumber} {key key'}, space.pages[n]? = some key →
    space'.pages[n']? = some key' → key ≠ key'
  frames : ∀ {n n' : PageNumber} {key key' page page' f}, space.pages[n]? = some key →
    space'.pages[n']? = some key' → m.pages.get? key = some page →
      m.pages.get? key' = some page' → page.frame = some f → page'.frame ≠ some f
  slots : ∀ {n n' : PageNumber} {key key' page page' slot}, space.pages[n]? = some key →
    space'.pages[n']? = some key' → m.pages.get? key = some page →
      m.pages.get? key' = some page' → page.contents = .anonymous (some slot) →
        page'.contents ≠ .anonymous (some slot)
  handles : ∀ handle ∈ m.handlesOf space, handle ∉ m.handlesOf space'

variable {start m m' : Machine} {history : List Done} {s t : Key AddressSpace}
  {space space' : AddressSpace}

theorem Run.apart (h : Run start history m) (hne : s ≠ t) (hspace : m.spaces.get? s = some space)
    (hspace' : m.spaces.get? t = some space') : m.Apart space space' := by
  have hcoherent := h.sound.coherent
  have hkeys : ∀ {n n' : PageNumber} {key key'}, space.pages[n]? = some key →
      space'.pages[n']? = some key' → key ≠ key' := by
    rintro n n' key _ hplace hplace' rfl
    rw [← view_pageOf_eq hspace] at hplace
    rw [← view_pageOf_eq hspace'] at hplace'
    exact hne (hcoherent.placement.alone hplace hplace')
  refine ⟨fun he => ?_, hkeys,
    fun hplace hplace' hpage hpage' hframe hframe' => hkeys hplace hplace' ?_,
    fun hplace hplace' hpage hpage' hslot hslot' => hkeys hplace hplace' ?_,
    fun handle hheld hheld' => ?_⟩
  · exact hne (hcoherent.placement.separate (view_directoryOf_eq hspace)
      (he ▸ view_directoryOf_eq hspace'))
  · obtain ⟨o, howner, rfl⟩ := hcoherent.residency.listed hpage hframe
    obtain ⟨o', howner', rfl⟩ := hcoherent.residency.listed hpage' hframe'
    cases howner.symm.trans howner'
    rfl
  · exact h.slotBooks.apart ((View.slotOf_eq hpage).trans (slot?_eq_some_iff.2 hslot))
      ((View.slotOf_eq hpage').trans (slot?_eq_some_iff.2 hslot'))
  · obtain ⟨x, hx⟩ := (mem_handlesOf hspace).1 hheld
    obtain ⟨x', hx'⟩ := (mem_handlesOf hspace').1 hheld'
    exact hne (h.handleBooks.apart hx hx')

/-! ### Handles that are opened -/

def Machine.pagesOver (m : Machine) (space : AddressSpace) (f : Key File) : Nat :=
  space.pages.values.countP fun key =>
    ((m.pages.get? key).bind Page.handle?).any (·.file == f)

theorem Machine.countP_handlesOf (m : Machine) (space : AddressSpace) (f : Key File) :
    (m.handlesOf space).countP (·.file == f) =
      space.regions.values.countP (·.handle.file == f) + m.pagesOver space f := by
  rw [handlesOf, List.countP_append, values_eq_map_toList space.regions, List.countP_map,
    List.countP_map, List.countP_filterMap, pagesOver]
  congr 1
  refine List.countP_congr fun key _ => ?_
  cases (m.pages.get? key).bind Page.handle? <;> rfl

/-- Where every holder has a handle of its own, no handle is mentioned twice. -/
theorem Machine.Sound.nodup_handlesOf (h : Sound none m) (hspace : m.spaces.get? s = some space)
    (halone : ∀ {x y handle}, m.view.held s x = some handle → m.view.held s y = some handle →
      x = y) : (m.handlesOf space).Nodup := by
  have hregion : ∀ {start : VirtualAddress} {region}, (start, region) ∈ space.regions.toList →
      m.view.held s (.region start) = some region.handle := by
    intro start region hin
    rw [Std.ExtTreeMap.mem_toList_iff_getElem?_eq_some] at hin
    rw [View.held, view_regionOf_eq hspace, hin, Option.map_some]
  have hpage : ∀ {n : PageNumber} {key}, space.pages[n]? = some key →
      m.view.held s (.page n) = (m.pages.get? key).bind Page.handle? := by
    intro n key hplace
    rw [View.held, view_pageOf_eq hspace, hplace, Option.bind_some]
    rfl
  refine List.Nodup.append ?_ ?_ ?_
  · refine List.Nodup.map_on ?_ (space.regions.distinct_keys_toList.imp fun hne he =>
      hne (by rw [he, Std.ReflOrd.compare_self]))
    rintro ⟨start, region⟩ hin ⟨start', region'⟩ hin' (he : region.handle = region'.handle)
    cases halone (hregion hin) (he ▸ hregion hin')
    rw [Std.ExtTreeMap.mem_toList_iff_getElem?_eq_some] at hin hin'
    cases hin.symm.trans hin'
    rfl
  · rw [List.Nodup, List.pairwise_filterMap]
    refine (h.nodup_pages hspace).imp_of_mem
      fun hin hin' hne handle hhandle handle' hhandle' he => hne ?_
    obtain ⟨n, hplace⟩ := mem_values_iff.1 hin
    obtain ⟨n', hplace'⟩ := mem_values_iff.1 hin'
    cases halone ((hpage hplace).trans hhandle) ((hpage hplace').trans (he ▸ hhandle'))
    exact Option.some.inj (hplace.symm.trans hplace')
  · intro handle hin hin'
    obtain ⟨⟨start, region⟩, hfound, rfl⟩ := List.mem_map.1 hin
    obtain ⟨key, hkey, hhandle⟩ := List.mem_filterMap.1 hin'
    obtain ⟨n, hplace⟩ := mem_values_iff.1 hkey
    cases halone (hregion hfound) ((hpage hplace).trans hhandle)

theorem Machine.openHandles_add {handles : List Handle} (hnodup : handles.Nodup)
    (h : ∀ handle, handle ∈ m'.heldHandles ↔ handle ∈ m.heldHandles ∨ handle ∈ handles)
    (hapart : ∀ handle ∈ handles, handle ∉ m.heldHandles) (f : Key File) :
    m'.openHandles f = m.openHandles f + handles.countP (·.file == f) := by
  rw [openHandles, openHandles, List.countP_eq_length_filter,
    ← length_eraseDups_of_nodup (hnodup.filter _)]
  refine length_eraseDups_add (fun handle => ?_) fun handle hold hnew => ?_
  · simp only [List.mem_filter, h, or_and_right]
  · exact hapart handle (List.mem_filter.1 hnew).1 (List.mem_filter.1 hold).1

/-! ### The copy -/

namespace Space.Forked

variable {effects : List Effect}

theorem copies (h : Forked s t effects m m') (hsound : Sound none m) :
    ∀ e ∈ effects, Effect.Copies m.view.created e := by
  intro e he
  rcases h.labels e he with rfl | ⟨start, rfl⟩ | ⟨n, source, copy, hplace, rfl, -⟩
  · trivial
  · trivial
  · obtain ⟨page, hpage, -⟩ := hsound.coherent.placement.placed hplace
    exact hsound.coherent.placement.created hpage

theorem evicted (h : Forked s t effects m m') (hsound : Sound none m) {key : Key Page}
    {page : Page} (hpage : m.pages.get? key = some page) :
    ∃ page', m'.pages.get? key = some page' ∧ page.Evicted page' :=
  h.course.steps.evicted hsound.coherent hpage
    (h.course.steps.spares_of_copies (h.copies hsound) (hsound.coherent.placement.created hpage))

theorem exists_page (h : Forked s t effects m m') (hsound : Sound none m) {n : PageNumber}
    {key : Key Page} {page : Page} (hplace : m.view.pageOf s n = some key)
    (hpage : m.view.page key = some page) : ∃ copy page', .copied key copy ∈ effects ∧
      m'.view.pageOf t n = some copy ∧ m'.view.page copy = some page' ∧ page.Twin page' := by
  obtain ⟨copy, hcopy, hnew, -⟩ := h.copied.place n key hplace
  obtain ⟨page', hpage', hnumber⟩ :=
    (h.course.sound hsound).coherent.placement.placed hcopy
  obtain ⟨source, found, he, hsource, htwin⟩ :=
    h.course.steps.twin_of_copies hsound.coherent (h.copies hsound) (Nat.le_refl _) hnew hpage'
  -- the source has the address of the copy, so it is the page at that place
  obtain ⟨n', hplace'⟩ : ∃ n', m.view.pageOf s n' = some source := by
    rcases h.labels _ he with he | ⟨_, he⟩ | ⟨n', _, _, hplace', he, -⟩
    · cases he
    · cases he
    · cases he
      exact ⟨n', hplace'⟩
  have hn : n' = n := by
    rw [← hsound.coherent.placement.number_eq hplace' hsource, ← hnumber, htwin.va]
  rw [hn, hplace] at hplace'
  cases hplace'
  cases hpage.symm.trans hsource
  exact ⟨copy, page', he, hcopy, hpage', htwin⟩

/-- For a region there is one that is like it, over a handle of its own. -/
theorem exists_region (h : Forked s t effects m m') (hregions : RegionsPlaced m.view)
    {start : VirtualAddress} {region : Region} (hregion : m.view.regionOf s start = some region) :
    ∃ copy, m'.view.regionOf t start = some copy ∧ region.Reopened copy := by
  have hstart := hregions.start hregion
  obtain ⟨copy, hcopy⟩ := Option.ne_none_iff_exists'.1 (h.copied.region start region hregion)
  obtain ⟨start', copied, hcopied, hstart', hreopened⟩ := h.copied.regionOf _ _ hcopy
  rw [hregions.start hcopied, hstart] at hstart'
  rw [hstart', hregion] at hcopied
  cases hcopied
  exact ⟨copy, by rw [← hcopy, hstart], hreopened⟩

/-- The pages of the copy are at the same addresses, in the same order. -/
theorem keys_pages (h : Forked s t effects m m') (hspace : m.spaces.get? s = some space)
    {copy : AddressSpace} (hcopy : m'.spaces.get? t = some copy) :
    copy.pages.keys = space.pages.keys := by
  refine keys_congr fun n => ?_
  rw [← view_pageOf_eq hcopy, ← view_pageOf_eq hspace]
  refine ⟨fun hnone => ?_, h.copied.free n⟩
  by_contra hsome
  obtain ⟨key, hplace⟩ := Option.ne_none_iff_exists'.1 hsome
  obtain ⟨_, hplace', -⟩ := h.copied.place n key hplace
  cases hnone.symm.trans hplace'

theorem keys_regions (h : Forked s t effects m m') (hregions : RegionsPlaced m.view)
    (hspace : m.spaces.get? s = some space) {copy : AddressSpace}
    (hcopy : m'.spaces.get? t = some copy) : copy.regions.keys = space.regions.keys := by
  refine keys_congr fun start => ?_
  rw [← view_regionOf_eq hcopy, ← view_regionOf_eq hspace]
  constructor <;> intro hnone <;> by_contra hsome
  · obtain ⟨region, hregion⟩ := Option.ne_none_iff_exists'.1 hsome
    obtain ⟨_, hregion', -⟩ := h.exists_region hregions hregion
    cases hnone.symm.trans hregion'
  · obtain ⟨region, hregion⟩ := Option.ne_none_iff_exists'.1 hsome
    obtain ⟨start', copied, hcopied, hstart, -⟩ := h.copied.regionOf _ _ hregion
    rw [hregions.start hcopied] at hstart
    cases (hstart ▸ hnone).symm.trans hcopied

/-- The directory of the copy is a new one, and nothing was written through it. -/
theorem clean (h : Forked s t effects m m') (hsound : Sound none m) {copy : AddressSpace}
    (hcopy : m'.spaces.get? t = some copy) :
    ∃ directory, m'.directories.get? copy.directory = some directory ∧
      ∀ va, directory.test va .dirty = false := by
  obtain ⟨directory, hfound⟩ := (h.course.sound hsound).exists_directory hcopy
  refine ⟨directory, hfound, fun va => ?_⟩
  by_contra hdirty
  have hstained : m'.view.isDirty copy.directory va = true := by
    simpa only [view, hfound, Option.any_some, Bool.not_eq_false] using hdirty
  rcases h.course.steps.isDirty_old hstained with hold | ⟨key, offset, data, he⟩
  · obtain ⟨d, hdirectory, hunused⟩ := h.opened
    cases (view_directoryOf_eq hcopy).symm.trans hdirectory
    simp only [view, Option.isSome_eq_false_iff, Option.isNone_iff_eq_none] at hunused hold
    rw [hunused] at hold
    cases hold
  · exact h.copies hsound _ he

theorem held_eq (h : Forked s t effects m m') (hsound : Sound none m) {s' : Key AddressSpace}
    (hs : s' ≠ t) (x : Holder) : m'.view.held s' x = m.view.held s' x := by
  obtain ⟨hpageOf, hregionOf, -⟩ := h.elsewhere s' hs
  cases x with
  | region start => rw [View.held, View.held, hregionOf]
  | page n =>
      rw [View.held, View.held, hpageOf]
      cases hplace : m.view.pageOf s' n with
      | none => rfl
      | some key =>
          obtain ⟨page, hpage, -⟩ := hsound.coherent.placement.placed hplace
          obtain ⟨page', hpage', hevicted⟩ := h.evicted hsound hpage
          rw [Option.bind_some, Option.bind_some, hpage,
            show m'.view.page key = some page' from hpage']
          exact hevicted.handle?_eq

theorem openHandles_eq (h : Forked s t effects m m') (hsound : Sound none m)
    (hbooks : HandleBooks m) (hclients : m'.clients = m.clients) {copy : AddressSpace}
    (hcopy : m'.spaces.get? t = some copy)
    (hissued : ∀ handle ∈ m.clients, handle.serial < m.issued handle.file) (f : Key File) :
    m'.openHandles f = m.openHandles f +
      (copy.regions.values.countP (·.handle.file == f) + m'.pagesOver copy f) := by
  have hsound' := h.course.sound hsound
  have hold : ∀ {handle}, handle ∈ m.heldHandles → handle.serial < m.issued handle.file := by
    intro handle hheld
    rcases hsound.mem_heldHandles.1 hheld with hclient | ⟨s', x, hx⟩
    · exact hissued handle hclient
    · exact hbooks.issued hx
  have hnone : ∀ x handle, m.view.held t x ≠ some handle := by
    intro x handle
    cases x with
    | region start => simp [View.held, regionOf_of_closed h.fresh]
    | page n => simp [View.held, pageOf_of_closed h.fresh]
  rw [← countP_handlesOf]
  refine openHandles_add (hsound'.nodup_handlesOf hcopy h.afresh.alone) (fun handle => ?_)
    (fun handle hin hheld => ?_) f
  · rw [hsound.mem_heldHandles, hsound'.mem_heldHandles, mem_handlesOf hcopy, hclients, or_assoc]
    refine or_congr Iff.rfl ⟨?_, ?_⟩
    · rintro ⟨s', x, hx⟩
      by_cases hs : s' = t
      · exact .inr ⟨x, hs ▸ hx⟩
      · exact .inl ⟨s', x, (h.held_eq hsound hs x).symm.trans hx⟩
    · rintro (⟨s', x, hx⟩ | ⟨x, hx⟩)
      · refine ⟨s', x, (h.held_eq hsound ?_ x).trans hx⟩
        rintro rfl
        exact hnone x handle hx
      · exact ⟨t, x, hx⟩
  · -- a handle that was held before was issued before
    obtain ⟨x, hx⟩ := (mem_handlesOf hcopy).1 hin
    exact absurd (hold hheld) (Nat.not_lt.2 (h.afresh.opened hx).new)

end Space.Forked

/-- The state after a fork that succeeded, next to the one before it. -/
structure SpaceForked (t : Key AddressSpace) (space copy : AddressSpace) (m m' : Machine) :
    Prop where
  fresh : m.spaces.get? t = none
  clients : m'.clients = m.clients
  /-- All other address spaces, the parent among them, have the same pages in the same places, the
  same regions and the same stack pointers. -/
  others : ∀ s, s ≠ t → m'.spaces.get? s = m.spaces.get? s
  /-- The copy has pages at the same addresses, in the same order. -/
  numbers : copy.pages.keys = space.pages.keys
  pages : ∀ {n : PageNumber} {key page}, space.pages[n]? = some key →
    m.pages.get? key = some page → ∃ key' page', copy.pages[n]? = some key' ∧
      m'.pages.get? key' = some page' ∧ page.Like page'
  starts : copy.regions.keys = space.regions.keys
  regions : ∀ {start : VirtualAddress} {region}, space.regions[start]? = some region →
    ∃ region', copy.regions[start]? = some region' ∧ region.Reopened region'
  stackPointer : copy.stackPointer = space.stackPointer
  savedStackPointer : copy.savedStackPointer = space.savedStackPointer
  apart : ∀ {s other}, s ≠ t → m'.spaces.get? s = some other → m'.Apart copy other
  /-- Every region of the copy, and every page of it that holds a part of a file, has a handle of its
  own that was not open before. What a client holds was issued to it. -/
  openHandles : (∀ handle ∈ m.clients, handle.serial < m.issued handle.file) → ∀ f,
    m'.openHandles f =
      m.openHandles f + (copy.regions.values.countP (·.handle.file == f) + m'.pagesOver copy f)
  clean : ∃ directory, m'.directories.get? copy.directory = some directory ∧
    ∀ va, directory.test va .dirty = false
  /-- A page that was there before has the same rights, the same kind and the same handle, and one
  that was in no frame is as it was, in its slot if it had one. -/
  kept : ∀ {key page}, m.pages.get? key = some page → ∃ page', m'.pages.get? key = some page' ∧
    page.Like page' ∧ page'.handle? = page.handle? ∧ (page.frame = none → page' = page)
  slots : ∀ {key page slot}, m.pages.get? key = some page →
    page.contents = .anonymous (some slot) → m.swap.isOccupied slot = true ∧
      m'.pages.get? key = some page ∧ m'.swap.isOccupied slot = true

/-- Whatever the run, a fork that succeeds copies the address space and shares nothing with it. -/
theorem Run.spaceForked (h : Run start history m) {name : String}
    (hspace : m.spaces.get? s = some space)
    (hfork : Returns ((Request.fork name).perform? s) m (some (.ok t)) m') :
    ∃ copy, m'.spaces.get? t = some copy ∧ SpaceForked t space copy m m' := by
  have h' : Run start _ m' := ⟨h.fresh, h.reaches.request hfork⟩
  have hrun : Answers (fork s name) m (.ok t) m' := (Request.returns_perform?.1 hfork).2
  obtain ⟨child, effects, ⟨⟨_, he⟩, -⟩ | ⟨he, hforked⟩⟩ := answers_fork h.sound hrun
  · cases he
  cases he
  have hsound := h.sound
  obtain ⟨d, hdirectory, -⟩ := hforked.opened
  obtain ⟨copy, hcopy, -⟩ := Option.map_eq_some_iff.1 hdirectory
  have hfresh : m.spaces.get? t = none := Option.map_eq_none_iff.1 hforked.fresh
  have hothers := others_of_fork hrun
  have ht : t = m.spaces.nextKey := by
    by_contra hne
    rw [hothers.elsewhere t hne, hfresh] at hcopy
    cases hcopy
  rw [← ht] at hothers
  have hpointers := stackPointersOf_of_fork hrun
  simp only [stackPointersOf, hcopy, hspace, Option.map_some, Option.some.injEq, Prod.mk.injEq]
    at hpointers
  exact ⟨copy, hcopy,
    { fresh := hfresh
      clients := hothers.clients
      others := hothers.elsewhere
      numbers := hforked.keys_pages hspace hcopy
      pages := fun {n key page} hplace hpage => by
        rw [← view_pageOf_eq hspace] at hplace
        simp only [← view_pageOf_eq hcopy]
        obtain ⟨copy, page', -, hcopied, hpage', htwin⟩ :=
          hforked.exists_page hsound hplace hpage
        exact ⟨copy, page', hcopied, hpage', htwin.toLike⟩
      starts := hforked.keys_regions h.regionsPlaced hspace hcopy
      regions := fun {start region} hregion => by
        rw [← view_regionOf_eq hspace] at hregion
        simp only [← view_regionOf_eq hcopy]
        exact hforked.exists_region h.regionsPlaced hregion
      stackPointer := hpointers.1
      savedStackPointer := hpointers.2
      apart := fun hs hother => h'.apart (Ne.symm hs) hcopy hother
      openHandles := hforked.openHandles_eq hsound h.handleBooks hothers.clients hcopy
      clean := hforked.clean hsound hcopy
      kept := fun hpage => by
        obtain ⟨page', hpage', hevicted⟩ := hforked.evicted hsound hpage
        exact ⟨page', hpage', hevicted.twin.toLike, hevicted.handle?_eq, hevicted.eq_of_absent⟩
      slots := fun {key page slot} hpage hcontents => by
        obtain ⟨page', hpage', hevicted⟩ := hforked.evicted hsound hpage
        cases hevicted.eq_of_absent (hsound.coherent.absent_of_slot hpage hcontents)
        have hslot := slot?_eq_some_iff.2 hcontents
        exact ⟨h.slotBooks.occupied.2 (.inr ⟨key, (View.slotOf_eq hpage).trans hslot⟩), hpage',
          h'.slotBooks.occupied.2 (.inr ⟨key, (View.slotOf_eq hpage').trans hslot⟩)⟩ }⟩

def forkOpensTwo : Nat × Nat × Option (Except VmError Space.Id) → Machine → Bool
  | (1, 1, some (.ok _)), m => m.openHandles ⟨0⟩ == 3
  | _, _ => false

/-- A page that is copied from the only slot, and a region with a page that was not touched yet. -/
theorem spaceForked_of_pageOut : ∃ s t space copy history m m',
    Run (bare 2 1 (Arena.empty.add (.ofData #[1, 2] none))) history m ∧
      m.spaces.get? s = some space ∧
        Returns ((Request.fork "child").perform? s) m (some (.ok t)) m' ∧
          m.swappedPages = 1 ∧ m.openHandles ⟨0⟩ = 1 ∧ m'.openHandles ⟨0⟩ = 3 ∧
            m'.spaces.get? t = some copy ∧ SpaceForked t space copy m m' := by
  have htest : returnsWith (do
        let s ← Space.create "init"
        let _ ← Request.setUpStack.perform? s
        let _ ← (Request.mapFile ⟨0x10000000, by decide⟩ 2 true ⟨⟨0⟩, 0⟩ 0).perform? s
        let _ ← (Request.pageOut ⟨userStack - 1, by decide⟩).perform? s
        let before ← get
        return (before.swappedPages, before.openHandles ⟨0⟩,
          ← (Request.fork "child").perform? s))
      (bare 2 1 (Arena.empty.add (.ofData #[1, 2] none))) forkOpensTwo = true := by
    decide +kernel
  obtain ⟨answers, m', hrun, htest⟩ := exists_returns htest
  simp only [returns_bind, returns_pure] at hrun
  obtain ⟨s, m₁, hcreate, _, m₂, hstack, _, m₃, hmap, _, m₄, hout, _, m, hget, fork, _, hfork,
    rfl, rfl⟩ := hrun
  obtain ⟨hsame, hsame'⟩ := returns_get.1 hget
  subst hsame hsame'
  unfold forkOpensTwo at htest
  split at htest
  swap
  · cases htest
  next he =>
  simp only [Prod.mk.injEq] at he
  obtain ⟨hswapped, hopen, rfl⟩ := he
  obtain ⟨_, hstacked⟩ := (Reaches.refl.create hcreate).perform? hstack
  obtain ⟨_, hmapped⟩ := hstacked.perform? hmap
  obtain ⟨history, hreached⟩ := hmapped.perform? hout
  have hrun : Run (bare 2 1 (Arena.empty.add (.ofData #[1, 2] none))) history _ :=
    ⟨fresh_bare _ _ _, hreached⟩
  obtain ⟨⟨space, hspace⟩, -⟩ := Request.returns_perform?.1 hfork
  obtain ⟨copy, hcopy, hforked⟩ := hrun.spaceForked hspace hfork
  exact ⟨s, _, space, copy, history, _, _, hrun, hspace, hfork, hswapped, hopen,
    beq_iff_eq.1 htest, hcopy, hforked⟩

end DemandPaging
