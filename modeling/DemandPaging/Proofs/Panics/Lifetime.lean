import DemandPaging.Proofs.Keeps
import DemandPaging.Proofs.Panics.Mapping

/-!
Copying and ending an address space.

An address space can be ended in every state that a run can be left in, and that is what a fork does
with a copy that it cannot complete, whether it was refused something or stopped by a panic. So a
fork stops only where a page of the copy finds no frame, and the panic that is passed on is the one
that was met there.
-/

namespace DemandPaging

open Machine Space

variable {m m₁ m' : Machine} {asked : Key Page → Prop} {stop : Panic → Machine → Prop}
  {s parent child : Key AddressSpace} {effects : List Effect}

/-! ### The end -/

theorem panicsOnly_unmapFile (h : m.Serves s) (start : VirtualAddress) :
    PanicsOnly stop (unmapFile s start) m :=
  (completes_unmapFile h.ready.solid h.exists_space).panicsOnly

theorem panicsOnly_drop (h : m.Serves s) : PanicsOnly stop (drop s) m :=
  (completes_drop h.ready.solid h.exists_space).panicsOnly

theorem panicsOnly_exit (h : m.Serves s) (status : Int) : PanicsOnly stop (exit s status) m := by
  obtain ⟨space, hspace⟩ := h.exists_space
  unfold exit
  refine .step (returns_getSpace.2 ⟨hspace, rfl⟩) (.modify_bind (.bind ?_ fun _ _ _ => .pure _))
  exact panicsOnly_drop (h.silent rfl (h.ready.sound.tidy.of_eq rfl rfl))

/-! ### Regions -/

theorem Region.Supplied.copied {v : View} {copied region : Region} (h : copied.Supplied v)
    (hreopened : copied.Reopened region) : region.Supplied v where
  inRange index hlt := by
    obtain ⟨n, hn⟩ := h.inRange index (by rwa [← hreopened.pages])
    refine ⟨n, ?_⟩
    rw [← hn, regionPage, regionPage, hreopened.start]
  file := by
    rw [hreopened.file]
    exact h.file

theorem Machine.Ready.regionsFrom (h : Ready none m) (hfrom : RegionsFrom parent child m m')
    {start : VirtualAddress} {region : Region} (hregion : m'.view.regionOf child start = some region) :
    region.Supplied m.view := by
  obtain ⟨start', copied, hcopied, -, hreopened⟩ := hfrom start region hregion
  exact (h.supplied.regions hcopied).copied hreopened

theorem panicsOnly_copyRegions {regions : List Region}
    (hfile : ∀ region ∈ regions, m.view.file region.handle.file ≠ none) :
    PanicsOnly stop (copyRegions s regions).run m := by
  induction regions generalizing m with
  | nil => exact .run_pure _
  | cons region rest ih =>
      refine .run_liftM_bind (panicsOnly_reopen (hfile region List.mem_cons_self))
        fun handle? m₁ hreopen => ?_
      obtain ⟨hview, -, -⟩ := returns_reopen hreopen
      cases handle? with
      | none => exact .run_throw _
      | some handle =>
          refine .run_liftM_bind (.modify _) fun _ m₂ hupdate => ih fun other hmem => ?_
          rw [returns_updateSpace] at hupdate
          subst hupdate
          change m₁.view.file other.handle.file ≠ none
          rw [hview]
          exact hfile other (List.mem_cons_of_mem _ hmem)

theorem Machine.Serves.regionsCopied (h : m.Serves s) {regions : List Region}
    (hregions : RegionsCopied s regions effects m m₁)
    (hsupplied : ∀ region ∈ regions, region.Supplied m.view) : m₁.Serves s where
  ready := by
    refine h.ready.course hregions.course (fun hin => ?_) fun {s' start region} hregion => ?_
    · obtain ⟨start, he⟩ := hregions.labels _ hin
      cases he
    · by_cases hs : s' = s
      · subst hs
        rcases hregions.regionOf start region hregion with hold | ⟨copied, hmem, -, hreopened⟩
        · exact h.ready.supplied.regions hold
        · exact (hsupplied copied hmem).copied hreopened
      · have hold : m.view.regionOf s' start = some region := by
          rw [← hregion]
          simp only [view, hregions.elsewhere s' hs]
        exact h.ready.supplied.regions hold
  opened := by
    rw [hregions.directoryOf]
    exact h.opened

/-! ### Pages -/

/-- Copying pages stops only for want of a frame: every copy finds its place. -/
theorem panicsOnly_copyPages (hne : parent ≠ child) {keys : List (Key Page)} (h : m.Serves child)
    (hnodup : keys.Nodup)
    (hkeys : ∀ key ∈ keys, ∃ n, m.view.pageOf parent n = some key ∧
      m.view.pageOf child n = none) :
    PanicsOnly (Stopped asked m) (copyPages child keys).run m := by
  induction keys generalizing m with
  | nil => exact .run_pure _
  | cons key rest ih =>
      obtain ⟨n, hparent, hchild⟩ := hkeys key List.mem_cons_self
      obtain ⟨page, hpage, rfl⟩ := h.ready.sound.coherent.placement.placed hparent
      obtain ⟨target, htarget⟩ := h.exists_space
      rw [List.nodup_cons] at hnodup
      refine .run_step (returns_getSpace.2 ⟨htarget, rfl⟩) (.run_bind
        (panicsOnly_duplicate h.ready (view_directoryOf_eq htarget) hpage)
        fun copy m₁ hduplicate => ?_)
      rcases answers_duplicate h.ready.sound hpage hduplicate with ⟨_, he, -⟩ | ⟨_, he, hduplicated⟩
      · cases he
      cases he
      obtain ⟨copied, hcopied, hva, -⟩ := hduplicated.copied
      have hfree : target.pages[page.va.number]? = none := by
        rw [← view_pageOf_eq htarget, hchild]
      refine .run_step (returns_getPage.2 ⟨hcopied, rfl⟩) ?_
      rw [hva, PageMap.insertNew_eq_ok.2 ⟨hfree, rfl⟩]
      refine .run_liftM_bind (.modify _) fun _ m₂ hupdate => ?_
      have hplaced := copyPlaced_of_duplicated hduplicated htarget hchild
        (returns_updateSpace.1 hupdate)
      have h₂ : m₂.Serves child :=
        ⟨h.ready.quiet hplaced.course (by simp) hplaced.pagesOnly.regionOf, by
          rw [hplaced.pagesOnly.directoryOf]
          exact h.opened⟩
      exact (ih h₂ hnodup.2 (hplaced.rest hne hparent hnodup.1 fun key' hmem =>
        hkeys key' (List.mem_cons_of_mem _ hmem))).after hplaced.course

/-! ### A copy is there until it is ended -/

theorem Keeps.panics {α : Type} {r : Machine → Machine → Prop} {action : Action α} {panic : Panic}
    (h : Keeps r action) (hrun : Panics action m panic m') : r m m' := by
  have hkept := h m
  rwa [final, show action m = .error panic m' from hrun] at hkept

def Machine.hasSpace (s : Key AddressSpace) (m : Machine) : Bool := (m.spaces.get? s).isSome

theorem Space.Filled.hasSpace (h : Filled s m m') : hasSpace s m' = hasSpace s m := by
  have hsome := congrArg Option.isSome h.stackPointers
  rw [stackPointersOf, stackPointersOf, Option.isSome_map, Option.isSome_map] at hsome
  exact hsome

/-! ### Fork -/

theorem panicsOnly_copy (hne : parent ≠ child) (h : m.Serves child) {current : AddressSpace}
    (hparent : m.spaces.get? parent = some current) (hempty : ∀ n, m.view.pageOf child n = none) :
    PanicsOnly (Stopped asked m) (do
      copyRegions child current.regions.values
      copyPages child current.pages.values : ExceptT VmError Action Unit).run m := by
  have hsound := h.ready.sound
  have hsupplied : ∀ region ∈ current.regions.values, region.Supplied m.view := by
    intro region hmem
    obtain ⟨start, hstart⟩ := mem_values_iff.1 hmem
    exact h.ready.supplied.regions (by rw [view_regionOf_eq hparent, hstart])
  have hnodup := hsound.nodup_pages hparent
  refine .run_bind (panicsOnly_copyRegions fun region hmem => (hsupplied region hmem).file)
    fun _ m₁ hregions => ?_
  obtain ⟨effects, hregions, -⟩ := answers_copyRegions hsound hregions h.exists_space
  have h₁ : m₁.Serves child := h.regionsCopied hregions hsupplied
  refine (panicsOnly_copyPages hne h₁ hnodup fun key hmem => ?_).after hregions.course
  obtain ⟨n, hn⟩ := (mem_pages hparent).1 hmem
  exact ⟨n, by rw [hregions.pageOf, hn], by rw [hregions.pageOf, hempty]⟩

/-- The copying of an address space was stopped in `m'`, before what was copied is ended. -/
structure Space.CopyStopped (asked : Key Page → Prop) (child : Id) (current : AddressSpace)
    (m : Machine) (panic : Panic) (m' : Machine) : Prop where
  panics : Panics (do
    copyRegions child current.regions.values
    copyPages child current.pages.values : ExceptT VmError Action Unit).run m panic m'
  stopped : Stopped asked m panic m'

/-- Copying an address space stops only for want of a frame, and what was copied is ended then. -/
theorem panicsOnly_copyAll (hne : parent ≠ child) (h : m.Serves child) {current : AddressSpace}
    (hparent : m.spaces.get? parent = some current) (hempty : ∀ n, m.view.pageOf child n = none) :
    PanicsOnly (fun panic _ => ∃ m', CopyStopped asked child current m panic m')
      (copyAll child current).run m := by
  unfold copyAll
  refine .run_tryCatchThe (panicsOnly_copy hne h hparent hempty)
    fun panic m₁ hpanic (hstop : Stopped asked m panic m₁) => ?_
  -- the copy is still there, and it can be ended in the state that the panic left
  obtain ⟨space, hchild⟩ := h.exists_space
  have hthere : hasSpace child m₁ = true := by
    rw [((keeps_copy child current).panics hpanic).hasSpace, hasSpace, hchild, Option.isSome_some]
  exact (completes_drop hstop.solid (Option.isSome_iff_exists.1 hthere)).mono
    (fun _ _ _ _ => ⟨m₁, hpanic, hstop⟩) fun _ _ => id

theorem Machine.Ready.created (h : Ready none m) (hcreated : Created s m m₁) : m₁.Serves s where
  ready := h.quiet hcreated.course (by simp) hcreated.regionOf
  opened := by
    obtain ⟨d, hd, -⟩ := hcreated.opened
    rw [hd]
    exact Option.some_ne_none d

theorem Machine.Serves.copying (h : m.Serves child) (hcopying : Copying parent child effects m m₁) :
    m₁.Serves child where
  ready := by
    refine h.ready.course hcopying.course (fun hin => ?_) fun {s start region} hregion => ?_
    · rcases hcopying.labels _ hin with ⟨_, he⟩ | ⟨_, _, _, -, he, -⟩ <;> cases he
    · by_cases hs : s = child
      · subst hs
        exact h.ready.regionsFrom hcopying.regionOf hregion
      · rw [(hcopying.elsewhere s hs).2] at hregion
        exact h.ready.supplied.regions hregion
  opened := by
    rw [hcopying.directoryOf]
    exact h.opened

/-- The copy of an address space was begun: it is there, with the stack pointers of the other. -/
structure Space.ForkBegun (parent : Id) (name : String) (m : Machine) (current : AddressSpace)
    (child : Id) (m₁ : Machine) : Prop where
  parent : m.spaces.get? parent = some current
  begun : Returns (do
    let child ← create name
    setStackPointer child current.stackPointer
    saveStackPointer child current.savedStackPointer
    return child) m child m₁

theorem copyStopped_of_fork (h : m.Serves parent) (name : String) :
    PanicsOnly (fun panic _ => ∃ current child m₁ m', ForkBegun parent name m current child m₁ ∧
      Course [.opened child] none m none m₁ ∧ CopyStopped asked child current m₁ panic m')
      (fork parent name).run m := by
  obtain ⟨current, hparent⟩ := h.exists_space
  unfold fork
  refine .run_step (returns_getSpace.2 ⟨hparent, rfl⟩) (.run_liftM_bind ?_ fun child m₁ hcreate =>
    .run_liftM_bind (.modify _) fun _ m₂ hstack => .run_liftM_bind (.modify _) fun _ m₃ hsaved => ?_)
  · exact .modify_bind (.step (returns_addDirectory.2 ⟨rfl, rfl⟩)
      (.of_returns (returns_addSpace.2 ⟨rfl, rfl⟩)))
  have hbegun : ForkBegun parent name m current child m₃ :=
    ⟨hparent, returns_bind.2 ⟨_, _, hcreate, returns_bind.2 ⟨_, _, hstack, returns_bind.2
      ⟨_, _, hsaved, returns_pure.2 ⟨rfl, rfl⟩⟩⟩⟩⟩
  obtain ⟨hview₂, htidy₂, hspaces₂, hfiles₂⟩ := returns_setStackPointer hstack
  obtain ⟨hview₃, htidy₃, hspaces₃, hfiles₃⟩ := returns_saveStackPointer hsaved
  have hcreated := ((returns_create h.ready.sound hcreate).and_same hview₂ htidy₂ hspaces₂
    hfiles₂).and_same hview₃ htidy₃ hspaces₃ hfiles₃
  have h₃ := h.ready.created hcreated
  have hne : parent ≠ child := by
    rintro rfl
    exact h.opened hcreated.fresh
  have hparent₃ : m₃.spaces.get? parent = some current := by
    rw [hcreated.elsewhere parent hne, hparent]
  have hempty : ∀ n, m₃.view.pageOf child n = none := fun n => by
    rw [hcreated.pageOf]
    exact pageOf_of_closed hcreated.fresh n
  -- however the copy ends, it is an address space that can be ended
  have hcopies : ∀ {answer m₄}, Answers (copyAll child current) m₃ answer m₄ → m₄.Serves child := by
    intro answer m₄ hcopy
    obtain ⟨space, hchild⟩ := h₃.exists_space
    obtain ⟨effects, hcopying, -⟩ := answers_copyAll hne h₃.ready.sound hparent₃ hchild hempty
      (fun start => by rw [hcreated.regionOf]; exact regionOf_of_closed hcreated.fresh start) hcopy
    exact h₃.copying hcopying
  refine .run_bind (.run_tryCatch ((panicsOnly_copyAll hne h₃ hparent₃ hempty).mono
    fun _ _ ⟨m', hstop⟩ => ⟨current, child, m₃, m', hbegun, hcreated.course, hstop⟩)
      fun cause m₄ hfailed => ?_) fun _ m₄ hdone => ?_
  · have h₄ := hcopies hfailed
    exact .run_liftM_bind (.modify _) fun _ m₅ hrecord => .run_liftM_bind
      (panicsOnly_drop (h₄.passed (passed_record (s := child) h₄.ready.sound hrecord)))
      fun _ _ _ => .run_throw _
  · rw [answers_tryCatch] at hdone
    rcases hdone with ⟨_, -, hcopy⟩ | ⟨cause, m₅, -, hundo⟩
    · obtain ⟨space, hchild⟩ := (hcopies hcopy).exists_space
      exact .run_step (returns_getSpace.2 ⟨hchild, rfl⟩) (.run_liftM_bind (.modify _) fun _ _ _ =>
        .run_pure _)
    · simp only [answers_liftM_bind] at hundo
      obtain ⟨_, _, -, _, _, -, hthrow⟩ := hundo
      cases (answers_throw.1 hthrow).1

end DemandPaging
