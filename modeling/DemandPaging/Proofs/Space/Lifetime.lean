import DemandPaging.Proofs.Handles
import DemandPaging.Proofs.Space.Mapping

/-!
The life of an address space: creation, duplication by fork, and the end.

The end of an address space takes its regions and pages away and touches no other. A fork adds an
address space, page by page: each page of the parent is copied to the same place, and as no place is
used twice no copy is ever without one. A fork that fails ends the copy like any other address
space, so all that is left of it are keys that name nothing.
-/

namespace DemandPaging.Space

open Machine

variable {m m' : Machine} {s : Key AddressSpace}

/-! ### Creation -/

structure Created (s : Key AddressSpace) (m m' : Machine) : Prop where
  course : Course [.opened s] none m none m'
  fresh : m.view.directoryOf s = none
  pageOf : m'.view.pageOf = m.view.pageOf
  regionOf : m'.view.regionOf = m.view.regionOf
  elsewhere : ∀ s', s' ≠ s → m'.spaces.get? s' = m.spaces.get? s'
  files : m'.files = m.files
  opened : ∃ d, m'.view.directoryOf s = some d ∧ m.view.hasDirectory d = false

theorem returns_create (h : Sound none m) {name : String} (hrun : Returns (create name) m s m') :
    Created s m m' := by
  simp only [create, returns_bind, returns_record, returns_addDirectory, returns_addSpace,
    and_assoc, exists_and_left, exists_eq_left, exists_const] at hrun
  obtain ⟨rfl, hm'⟩ := hrun
  have hfresh : m.view.directoryOf m.spaces.nextKey = none := by
    simp only [view, Arena.get?_nextKey, Option.map_none]
  have hunused : m.view.hasDirectory m.directories.nextKey = false := by
    simp only [view, Arena.get?_nextKey, Option.isSome_none]
  have hview : m'.view = m.view.addSpace m.spaces.nextKey m.directories.nextKey := by
    rw [hm']
    exact view_addSpace (m := m) rfl rfl rfl
  refine ⟨.single (.openSpace hfresh hunused) hview
    (h.tidy.of_eq (by rw [hm']) (by rw [hm'])), hfresh, by rw [hview]; rfl, by rw [hview]; rfl,
    fun s' hs' => ?_, by rw [hm'], m.directories.nextKey, ?_, hunused⟩
  · rw [hm', Arena.get?_add, if_neg hs']
  · rw [hview]
    exact Function.update_self _ _ _

theorem returns_updateSpace_of_same {change : AddressSpace → AddressSpace} {u : Unit}
    (hrun : Returns (updateSpace s change) m u m')
    (hpages : ∀ space, (change space).pages = space.pages)
    (hdirectory : ∀ space, (change space).directory = space.directory)
    (hregions : ∀ space, (change space).regions = space.regions) :
    m'.view = m.view ∧ (m.Tidy → m'.Tidy) ∧
      (∀ s', s' ≠ s → m'.spaces.get? s' = m.spaces.get? s') ∧ m'.files = m.files := by
  obtain rfl := returns_updateSpace.1 hrun
  refine ⟨view_modifySpace_of_same m s change hpages hdirectory hregions,
    fun htidy => htidy.of_eq rfl rfl, fun s' hs' => ?_, rfl⟩
  rw [Arena.get?_modify, if_neg (Ne.symm hs')]

theorem Created.and_same {m₁ : Machine} (h : Created s m m₁) (hview : m'.view = m₁.view)
    (htidy : m₁.Tidy → m'.Tidy) (hspaces : ∀ s', s' ≠ s → m'.spaces.get? s' = m₁.spaces.get? s')
    (hfiles : m'.files = m₁.files) : Created s m m' where
  course := h.course.to_view hview (htidy h.course.tidy)
  fresh := h.fresh
  pageOf := by rw [hview, h.pageOf]
  regionOf := by rw [hview, h.regionOf]
  elsewhere s' hs' := (hspaces s' hs').trans (h.elsewhere s' hs')
  files := hfiles.trans h.files
  opened := by
    rw [hview]
    exact h.opened

theorem Created.ne_of_there {parent : Key AddressSpace} {current : AddressSpace}
    (h : Created s m m') (hparent : m.spaces.get? parent = some current) : parent ≠ s := by
  rintro rfl
  have hfresh := h.fresh
  rw [view_directoryOf_eq hparent] at hfresh
  cases hfresh

theorem Created.exists_space (h : Created s m m') : ∃ space, m'.spaces.get? s = some space := by
  obtain ⟨d, hdirectory, -⟩ := h.opened
  obtain ⟨space, hspace, -⟩ := Option.map_eq_some_iff.1 hdirectory
  exact ⟨space, hspace⟩

theorem returns_setStackPointer {stackPointer : Nat} {u : Unit}
    (hrun : Returns (setStackPointer s stackPointer) m u m') :
    m'.view = m.view ∧ (m.Tidy → m'.Tidy) ∧
      (∀ s', s' ≠ s → m'.spaces.get? s' = m.spaces.get? s') ∧ m'.files = m.files :=
  returns_updateSpace_of_same hrun (fun _ => rfl) (fun _ => rfl) (fun _ => rfl)

theorem returns_saveStackPointer {stackPointer : Nat} {u : Unit}
    (hrun : Returns (saveStackPointer s stackPointer) m u m') :
    m'.view = m.view ∧ (m.Tidy → m'.Tidy) ∧
      (∀ s', s' ≠ s → m'.spaces.get? s' = m.spaces.get? s') ∧ m'.files = m.files :=
  returns_updateSpace_of_same hrun (fun _ => rfl) (fun _ => rfl) (fun _ => rfl)

/-! ### The end -/

structure Cleared (s : Key AddressSpace) (effects : List Effect) (m m' : Machine) : Prop where
  course : Course effects none m none m'
  elsewhere : ∀ s', s' ≠ s → m'.view.pageOf s' = m.view.pageOf s' ∧
    m'.view.regionOf s' = m.view.regionOf s'
  untouched : Untouched s m m'
  directoryOf : m'.view.directoryOf = m.view.directoryOf
  place : ∀ n key, m'.view.pageOf s n = some key → m.view.pageOf s n = some key
  labels : ∀ e ∈ effects, (∃ start, e = .registered s start) ∨
    ∃ n key, m.view.pageOf s n = some key ∧ e = .removed key

namespace Cleared

variable {effects rest : List Effect} {m₁ : Machine}

theorem trans (h : Cleared s effects m m₁) (h' : Cleared s rest m₁ m') :
    Cleared s (effects ++ rest) m m' where
  course := h.course.trans h'.course
  elsewhere s' hs' := ⟨(h'.elsewhere s' hs').1.trans (h.elsewhere s' hs').1,
    (h'.elsewhere s' hs').2.trans (h.elsewhere s' hs').2⟩
  untouched := h.untouched.trans h'.untouched h.place (congrFun h.directoryOf s)
  directoryOf := h'.directoryOf.trans h.directoryOf
  place n key hplace := h.place n key (h'.place n key hplace)
  labels e he := by
    rcases List.mem_append.1 he with he | he
    · exact h.labels e he
    · rcases h'.labels e he with hregistered | ⟨n, key, hplace, rfl⟩
      · exact .inl hregistered
      · exact .inr ⟨n, key, h.place n key hplace, rfl⟩

theorem of_view (htidy : m'.Tidy) (hview : m'.view = m.view)
    (hdirectories : m'.directories = m.directories) : Cleared s [] m m' where
  course := .silent htidy hview
  elsewhere s' _ := by rw [hview]; exact ⟨rfl, rfl⟩
  untouched := .of_same hview hdirectories
  directoryOf := by rw [hview]
  place n key := by
    rw [hview]
    exact id
  labels e he := by cases he

end Cleared

theorem FileUnmapped.cleared {start : VirtualAddress} {region : Region} {effects : List Effect}
    (h : FileUnmapped s start region effects m m') : Cleared s effects m m' where
  course := h.course
  elsewhere s' hs' := by
    refine ⟨h.elsewhere s' hs', ?_⟩
    rw [h.regionOf, Function.update_of_ne hs']
  untouched := h.untouched
  directoryOf := h.directoryOf
  place n key hplace := by
    rw [h.place] at hplace
    split at hplace
    · cases hplace
    · exact hplace
  labels e he := by
    rcases h.labels e he with rfl | ⟨n, key, hplace, rfl, -⟩
    · exact .inl ⟨start, rfl⟩
    · exact .inr ⟨n, key, hplace, rfl⟩

theorem cleared_unmapFile {start : VirtualAddress} (h : Sound none m) {u : Unit}
    (hrun : Returns (unmapFile s start) m u m') : ∃ effects, Cleared s effects m m' := by
  rcases returns_unmapFile h hrun with ⟨-, htidy, hview, hdirectories⟩ |
    ⟨region, effects, -, hunmapped⟩
  · exact ⟨[], .of_view htidy hview hdirectories⟩
  · exact ⟨effects, hunmapped.cleared⟩

theorem cleared_unmapFiles {starts : List VirtualAddress} (h : Sound none m) {u : Unit}
    (hrun : Returns (unmapFiles s starts) m u m') : ∃ effects, Cleared s effects m m' := by
  induction starts generalizing m with
  | nil =>
      obtain ⟨-, rfl⟩ := returns_pure.1 hrun
      exact ⟨[], .of_view h.tidy rfl rfl⟩
  | cons start rest ih =>
      simp only [unmapFiles, returns_bind] at hrun
      obtain ⟨_, m₁, hunmap, hrest⟩ := hrun
      obtain ⟨effects, hfirst⟩ := cleared_unmapFile h hunmap
      obtain ⟨effects', hrest⟩ := ih (hfirst.course.sound h) hrest
      exact ⟨_, hfirst.trans hrest⟩

theorem cleared_removePages {numbers : List PageNumber} (h : Sound none m) {u : Unit}
    (hrun : Returns (removePages s numbers) m u m') :
    (∃ effects, Cleared s effects m m') ∧
      ∀ n, m'.view.pageOf s n = if n ∈ numbers then none else m.view.pageOf s n := by
  obtain ⟨honly, huntouched, -, hplace, effects, hcourse, hremoved⟩ := returns_removePages h hrun
  refine ⟨⟨effects, hcourse, fun s' hs' => ⟨honly.elsewhere s' hs', by rw [honly.regionOf]⟩,
    huntouched, honly.directoryOf, fun n key hkey => ?_, fun e he => .inr ?_⟩, hplace⟩
  · rw [hplace] at hkey
    split at hkey
    · cases hkey
    · exact hkey
  · obtain ⟨n, -, key, hkey, rfl⟩ := hremoved e he
    exact ⟨n, key, hkey, rfl⟩

theorem returns_tearDown (h : Sound none m) {u : Unit} (hrun : Returns (tearDown s) m u m') :
    (∃ effects, Cleared s effects m m') ∧ ∀ n, m'.view.pageOf s n = none := by
  simp only [tearDown, returns_bind, returns_getSpace, and_assoc, exists_and_left,
    exists_eq_left] at hrun
  obtain ⟨space, -, _, m₁, hunmap, left, hleft, hremove⟩ := hrun
  obtain ⟨effects, hunmapped⟩ := cleared_unmapFiles h hunmap
  obtain ⟨⟨effects', hremoved⟩, hplace⟩ :=
    cleared_removePages (hunmapped.course.sound h) hremove
  refine ⟨⟨_, hunmapped.trans hremoved⟩, fun n => ?_⟩
  rw [hplace, view_pageOf_eq hleft]
  split
  · rfl
  · next hn =>
    rw [Std.ExtTreeMap.mem_keys] at hn
    exact Std.ExtTreeMap.getElem?_eq_none hn

structure Closed (s : Key AddressSpace) (effects : List Effect) (m m' : Machine) : Prop where
  course : Course effects none m none m'
  elsewhere : ∀ s', s' ≠ s → m'.view.pageOf s' = m.view.pageOf s' ∧
    m'.view.regionOf s' = m.view.regionOf s' ∧ m'.view.directoryOf s' = m.view.directoryOf s'
  untouched : Untouched s m m'
  pageOf : ∀ n, m'.view.pageOf s n = none
  regionOf : ∀ start, m'.view.regionOf s start = none
  directoryOf : m'.view.directoryOf s = none
  labels : ∀ e ∈ effects, (∃ start, e = .registered s start) ∨
    (∃ n key, m.view.pageOf s n = some key ∧ e = .removed key) ∨ e = .closed s

theorem closed_drop (h : Sound none m) {u : Unit} (hrun : Returns (drop s) m u m') :
    ∃ effects, Closed s effects m m' := by
  simp only [drop, returns_bind, returns_eraseSpace] at hrun
  obtain ⟨_, m₁, htear, rfl⟩ := hrun
  obtain ⟨⟨effects, hcleared⟩, hempty⟩ := returns_tearDown h htear
  have hview := view_eraseSpace m₁ s
  have hstep : Course [.closed s] none m₁ none { m₁ with spaces := m₁.spaces.erase s } :=
    .single (.closeSpace hempty) hview (hcleared.course.tidy.of_eq rfl rfl)
  refine ⟨_, hcleared.course.trans hstep, fun s' hs' => ?_,
    ⟨hcleared.untouched.page, hcleared.untouched.bytes, hcleared.untouched.pageIn,
      hcleared.untouched.directory⟩, fun n => ?_, fun start => ?_, ?_, fun e he => ?_⟩
  · obtain ⟨hpageOf, hregionOf⟩ := hcleared.elsewhere s' hs'
    rw [hview, ← hpageOf, ← hregionOf, ← hcleared.directoryOf]
    exact ⟨Function.update_of_ne hs' _ _, Function.update_of_ne hs' _ _,
      Function.update_of_ne hs' _ _⟩
  · rw [hview]
    simp only [View.eraseSpace, Function.update_self]
  · rw [hview]
    simp only [View.eraseSpace, Function.update_self]
  · rw [hview]
    exact Function.update_self _ _ _
  · rcases List.mem_append.1 he with he | he
    · exact (hcleared.labels e he).imp_right .inl
    · exact .inr (.inr (List.mem_singleton.1 he))

theorem closed_drop_of_view {m₁ : Machine} (h : Sound none m) {u : Unit}
    (hrun : Returns (drop s) m₁ u m') (hview : m₁.view = m.view) (hpool : m₁.pool = m.pool)
    (hlisted : m₁.listed = m.listed) (hdirectories : m₁.directories = m.directories) :
    ∃ effects, Closed s effects m m' := by
  obtain ⟨effects, hclosed⟩ := closed_drop (h.of_view hview (h.tidy.of_eq hpool hlisted)) hrun
  have huntouched := hclosed.untouched
  exact ⟨effects, hclosed.course.of_view hview, by rw [← hview]; exact hclosed.elsewhere,
    ⟨by rw [← hview]; exact huntouched.page, by rw [← hview]; exact huntouched.bytes,
      by rw [← hview]; exact huntouched.pageIn,
      by rw [← hview, ← hdirectories]; exact huntouched.directory⟩,
    hclosed.pageOf, hclosed.regionOf, hclosed.directoryOf, by
      rw [← hview]
      exact hclosed.labels⟩

theorem closed_exit (h : Sound none m) {status answer : Int}
    (hrun : Returns (exit s status) m answer m') :
    answer = status ∧ ∃ effects, Closed s effects m m' := by
  simp only [exit, returns_bind, returns_getSpace, returns_record, returns_pure, and_assoc,
    exists_and_left, exists_eq_left, exists_const] at hrun
  obtain ⟨space, -, _, m₁, hdrop, rfl, rfl⟩ := hrun
  exact ⟨rfl, closed_drop_of_view h hdrop rfl rfl rfl rfl⟩

/-! ### Fork -/

structure RegionsCopied (s : Key AddressSpace) (regions : List Region) (effects : List Effect)
    (m m' : Machine) : Prop where
  course : Course effects none m none m'
  pageOf : m'.view.pageOf = m.view.pageOf
  directoryOf : m'.view.directoryOf = m.view.directoryOf
  elsewhere : ∀ s', s' ≠ s → m'.spaces.get? s' = m.spaces.get? s'
  regionOf : ∀ start region, m'.view.regionOf s start = some region →
    m.view.regionOf s start = some region ∨
      ∃ copied ∈ regions, copied.start = start ∧ copied.Reopened region
  kept : ∀ start, m.view.regionOf s start ≠ none → m'.view.regionOf s start ≠ none
  labels : ∀ e ∈ effects, ∃ start, e = .registered s start
  afresh : ∀ {m₀}, Afresh s m₀ m → Afresh s m₀ m'

namespace RegionsCopied

variable {regions rest : List Region} {effects effects' : List Effect} {m₁ : Machine}

theorem silent (hview : m'.view = m.view) (htidy : m'.Tidy) (hspaces : m'.spaces = m.spaces)
    (hissued : ∀ f, m.issued f ≤ m'.issued f) : RegionsCopied s regions [] m m' where
  course := .silent htidy hview
  pageOf := by rw [hview]
  directoryOf := by rw [hview]
  elsewhere _ _ := by rw [hspaces]
  regionOf start region hregion := .inl (by rwa [hview] at hregion)
  kept start hsome := by rwa [hview]
  labels e he := by cases he
  afresh hafresh := hafresh.keep hissued (by rw [hview]; exact id)

theorem append (h : RegionsCopied s regions effects m m₁)
    (h' : RegionsCopied s rest effects' m₁ m') :
    RegionsCopied s (regions ++ rest) (effects ++ effects') m m' where
  course := h.course.trans h'.course
  pageOf := h'.pageOf.trans h.pageOf
  directoryOf := h'.directoryOf.trans h.directoryOf
  elsewhere s' hs' := (h'.elsewhere s' hs').trans (h.elsewhere s' hs')
  regionOf start region hregion := by
    rcases h'.regionOf start region hregion with hold | ⟨copied, hcopied, hsame⟩
    · exact (h.regionOf start region hold).imp_right fun ⟨copied, hcopied, hsame⟩ =>
        ⟨copied, List.mem_append_left _ hcopied, hsame⟩
    · exact .inr ⟨copied, List.mem_append_right _ hcopied, hsame⟩
  kept start hsome := h'.kept start (h.kept start hsome)
  labels e he := (List.mem_append.1 he).elim (h.labels e) (h'.labels e)
  afresh hafresh := h'.afresh (h.afresh hafresh)

end RegionsCopied

theorem regionsCopied_register (h : Sound none m) {region : Region} {handle : Handle}
    {m₁ : Machine} {space : AddressSpace} (hspace : m.spaces.get? s = some space)
    (hreopen : Returns (reopen region.handle.file) m (some handle) m₁)
    (hm' : m' = { m₁ with spaces := m₁.spaces.modify s fun space =>
      { space with regions := space.regions.insert region.start { region with handle } } }) :
    RegionsCopied s [region] [.registered s region.start] m m' ∧
      m'.view.regionOf s region.start ≠ none := by
  obtain ⟨hview₁, ⟨files, hm₁⟩, hfile⟩ := returns_reopen hreopen
  have hspaces : m₁.spaces = m.spaces := by rw [hm₁]
  have hissued : ∀ f, m.issued f ≤ m'.issued f := by
    rw [hm']
    exact ((keeps_reopen _).returns hreopen).issued
  have hview : m'.view = m.view.setRegion s region.start (some { region with handle }) := by
    rw [hm', ← hview₁]
    rw [← hspaces] at hspace
    exact view_setRegion hspace _ _ rfl rfl fun va => getElem?_insert_eq_ite _ _ _ _
  have hregionOf : ∀ start, m'.view.regionOf s start =
      if start = region.start then some { region with handle } else m.view.regionOf s start := by
    intro start
    rw [hview]
    simp only [View.setRegion, Function.update_self, Function.update_apply]
  refine ⟨⟨.single .register hview (h.tidy.of_eq (by rw [hm', hm₁]) (by rw [hm', hm₁])),
    by rw [hview]; rfl, by rw [hview]; rfl, fun s' hs' => ?_, fun start found hfound => ?_,
    fun start hsome => ?_, fun e he => ⟨_, List.mem_singleton.1 he⟩,
    fun hafresh => hafresh.add hissued (.region region.start) fun {x _} hheld => ?_⟩, ?_⟩
  · rw [hm', Arena.get?_modify, if_neg (Ne.symm hs'), hspaces]
  · rw [hregionOf] at hfound
    split at hfound
    · next hstart =>
      cases hfound
      exact .inr ⟨region, List.mem_singleton_self _, hstart.symm, rfl, rfl, rfl, rfl,
        hfile _ rfl⟩
    · exact .inl hfound
  · rw [hregionOf]
    split
    · exact Option.some_ne_none _
    · exact hsome
  · cases x with
    | page n =>
        rw [hview] at hheld
        exact .inl hheld
    | region start =>
        rw [View.held, hregionOf] at hheld
        split at hheld
        · next hstart =>
          cases hheld
          obtain ⟨hnew, hold⟩ := opened_of_reopen hreopen
          exact .inr ⟨by rw [hstart], hnew, by rwa [hm']⟩
        · exact .inl hheld
  · rw [hregionOf, if_pos rfl]
    exact Option.some_ne_none _

theorem answers_copyRegions {regions : List Region} (h : Sound none m)
    {answer : Except VmError Unit} (hrun : Answers (copyRegions s regions) m answer m')
    (hspace : ∃ space, m.spaces.get? s = some space) :
    ∃ effects, RegionsCopied s regions effects m m' ∧
      (answer = .ok () → ∀ region ∈ regions, m'.view.regionOf s region.start ≠ none) := by
  induction regions generalizing m with
  | nil =>
      obtain ⟨-, rfl⟩ := answers_pure.1 hrun
      exact ⟨[], .silent rfl h.tidy rfl fun _ => Nat.le_refl _,
        fun _ region hregion => by cases hregion⟩
  | cons region rest ih =>
      simp only [copyRegions, answers_liftM_bind] at hrun
      obtain ⟨handle?, m₁, hreopen, hrun⟩ := hrun
      cases handle? with
      | none =>
          obtain ⟨rfl, rfl⟩ := answers_throw.1 hrun
          obtain ⟨hview, ⟨files, hm₁⟩, -⟩ := returns_reopen hreopen
          exact ⟨[], .silent hview (h.tidy.of_eq (by rw [hm₁]) (by rw [hm₁])) (by rw [hm₁])
            ((keeps_reopen _).returns hreopen).issued, fun he => by cases he⟩
      | some handle =>
          simp only [answers_liftM_bind] at hrun
          obtain ⟨_, m₂, hupdate, hrun⟩ := hrun
          obtain ⟨space, hspace⟩ := hspace
          obtain ⟨hfirst, hregistered⟩ :=
            regionsCopied_register h hspace hreopen (returns_updateSpace.1 hupdate)
          have hthere := view_directoryOf_eq hspace
          rw [← hfirst.directoryOf] at hthere
          obtain ⟨space₂, hspace₂, -⟩ := Option.map_eq_some_iff.1 hthere
          obtain ⟨effects, hrest, hall⟩ := ih (hfirst.course.sound h) hrun ⟨space₂, hspace₂⟩
          refine ⟨_, hfirst.append hrest, fun he copied hcopied => ?_⟩
          rcases List.mem_cons.1 hcopied with rfl | hcopied
          · exact hrest.kept _ hregistered
          · exact hall he copied hcopied

structure PagesCopied (parent child : Key AddressSpace) (keys : List (Key Page))
    (effects : List Effect) (m m' : Machine) : Prop where
  course : Course effects none m none m'
  pagesOnly : PagesOnly child m m'
  labels : ∀ e ∈ effects, ∃ key ∈ keys, ∃ copy, e = .copied key copy ∧
    m.view.created ≤ copy.index
  kept : ∀ n, (∀ key ∈ keys, m.view.pageOf parent n ≠ some key) →
    m'.view.pageOf child n = m.view.pageOf child n
  afresh : ∀ {m₀}, Afresh child m₀ m → Afresh child m₀ m'

structure CopyPlaced (child : Key AddressSpace) (key copy : Key Page) (n : PageNumber)
    (m m' : Machine) : Prop where
  course : Course [.copied key copy] none m none m'
  created : copy.index = m.view.created
  pagesOnly : PagesOnly child m m'
  place : ∀ n', m'.view.pageOf child n' = if n' = n then some copy else m.view.pageOf child n'
  issued : ∀ f, m.issued f ≤ m'.issued f
  opened : ∀ {handle}, (m'.view.page copy).bind Page.handle? = some handle → Opened m m' handle

theorem copyPlaced_of_duplicated {child : Key AddressSpace} {key copy : Key Page} {page : Page}
    {target : AddressSpace} {m₁ : Machine}
    (h : Duplicated key page target.directory copy m m₁)
    (htarget : m.spaces.get? child = some target) (hfree : m.view.pageOf child page.va.number = none)
    (hm' : m' = { m₁ with spaces := m₁.spaces.modify child fun space =>
      { space with pages := target.pages.insert page.va.number copy } }) :
    CopyPlaced child key copy page.va.number m m' := by
  have hview : m'.view = m₁.view.setPlace child page.va.number (some copy) := by
    rw [hm']
    exact view_setPlace (by rw [h.spaces, htarget]) page.va.number (some copy)
      fun n' => getElem?_insert_eq_ite _ _ _ _
  refine ⟨⟨?_, h.tidy.of_eq (by rw [hm']) (by rw [hm'])⟩, by rw [h.created]; rfl,
    ⟨fun s' hs' => ?_, ?_, ?_⟩, fun n' => ?_, ?_, fun hhandle => ?_⟩
  · rw [hview]
    exact h.steps child (view_directoryOf_eq htarget) hfree
  · rw [hview, ← view_pageOf_congr h.spaces]
    exact Function.update_of_ne hs' _ _
  · rw [hview, ← view_directoryOf_congr h.spaces]
    rfl
  · rw [hview]
    simp only [View.setPlace, view, h.spaces]
  · rw [hview, ← view_pageOf_congr h.spaces]
    simp only [View.setPlace, Function.update_self, Function.update_apply]
  · rw [hm']
    exact h.issued
  · obtain ⟨p, hp, -, hopened⟩ := h.copied
    rw [hview, show (m₁.view.setPlace child page.va.number (some copy)).page copy = some p from hp]
      at hhandle
    obtain ⟨hnew, hold⟩ := hopened _ hhandle
    rw [hm']
    exact ⟨hnew, hold⟩

/-- Of the handles in the address space only that of the copy may be new. -/
theorem CopyPlaced.afresh {child : Key AddressSpace} {key copy : Key Page} {n : PageNumber}
    {m₀ : Machine} (h : CopyPlaced child key copy n m m') (hsound : Sound none m)
    (hafresh : Afresh child m₀ m) : Afresh child m₀ m' := by
  refine hafresh.add h.issued (.page n) fun {x handle} hheld => ?_
  cases x with
  | region start =>
      simp only [View.held, h.pagesOnly.regionOf] at hheld ⊢
      exact .inl hheld
  | page n' =>
      rcases h.course.steps.held_page_old hsound.coherent hheld with hold | ⟨new, hplace, e, he, hnew⟩
      · exact .inl hold
      · rw [List.mem_singleton.1 he] at hnew
        cases hnew
        have hplacement := (h.course.sound hsound).coherent.placement
        obtain ⟨page, hpage, hn⟩ := hplacement.placed hplace
        have hn' := hplacement.number_eq ((h.place n).trans (if_pos rfl)) hpage
        rw [View.held, hplace, Option.bind_some] at hheld
        exact .inr ⟨by rw [← hn, hn'], h.opened hheld⟩

theorem CopyPlaced.rest {parent child : Key AddressSpace} {key copy : Key Page} {n : PageNumber}
    (h : CopyPlaced child key copy n m m') (hne : parent ≠ child)
    (hparent : m.view.pageOf parent n = some key) {rest : List (Key Page)} (hnew : key ∉ rest)
    (hkeys : ∀ key' ∈ rest, ∃ n', m.view.pageOf parent n' = some key' ∧
      m.view.pageOf child n' = none) :
    ∀ key' ∈ rest, ∃ n', m'.view.pageOf parent n' = some key' ∧ m'.view.pageOf child n' = none := by
  intro key' hmem
  obtain ⟨n', hparent', hchild'⟩ := hkeys key' hmem
  refine ⟨n', by rw [h.pagesOnly.elsewhere parent hne, hparent'], ?_⟩
  rw [h.place, if_neg, hchild']
  rintro rfl
  rw [hparent] at hparent'
  cases hparent'
  exact hnew hmem

/-- Pages have copies in their places, with the bytes that they had. -/
def AllCopied (parent child : Key AddressSpace) (keys : List (Key Page)) (effects : List Effect)
    (m m' : Machine) : Prop :=
  ∀ key ∈ keys, ∀ n, m.view.pageOf parent n = some key →
    ∃ copy, m'.view.pageOf child n = some copy ∧ m.view.created ≤ copy.index ∧
      ∀ memory : Memory, memory.after effects copy = memory key

section

variable {parent child : Key AddressSpace} {key copy : Key Page} {keys rest : List (Key Page)}
  {n : PageNumber} {effects : List Effect} {m₁ : Machine}

theorem PagesCopied.silent (h : Sound none m) (hcourse : Course [] none m none m')
    (hspaces : m'.spaces = m.spaces) (hissued : ∀ f, m.issued f ≤ m'.issued f) :
    PagesCopied parent child keys [] m m' where
  course := hcourse
  pagesOnly := .of_spaces hspaces
  labels e he := by cases he
  kept n _ := by rw [view_pageOf_congr hspaces]
  afresh hafresh := hafresh.keep hissued fun {x _} hheld => by
    cases x with
    | region start =>
        simp only [View.held, view, hspaces] at hheld ⊢
        exact hheld
    | page n =>
        rcases hcourse.steps.held_page_old h.coherent hheld with hold | ⟨_, -, e, he, -⟩
        · exact hold
        · cases he

theorem CopyPlaced.lt_created (h : CopyPlaced child key copy n m m₁) (hsound : Sound none m) :
    copy.index < m₁.view.created := by
  have hplacement := (h.course.sound hsound).coherent.placement
  obtain ⟨page, hpage, -⟩ := hplacement.placed ((h.place n).trans (if_pos rfl))
  exact hplacement.created hpage

theorem CopyPlaced.pagesCopied (h : CopyPlaced child key copy n m m₁) (hsound : Sound none m)
    (hne : parent ≠ child) (hparent : m.view.pageOf parent n = some key)
    (hrest : PagesCopied parent child rest effects m₁ m') :
    PagesCopied parent child (key :: rest) ([.copied key copy] ++ effects) m m' where
  course := h.course.trans hrest.course
  pagesOnly := h.pagesOnly.trans hrest.pagesOnly
  labels e he := by
    rcases List.mem_append.1 he with he | he
    · exact ⟨key, List.mem_cons_self, copy, List.mem_singleton.1 he, h.created.ge⟩
    · obtain ⟨key', hkey', new, rfl, hle⟩ := hrest.labels e he
      exact ⟨key', List.mem_cons_of_mem _ hkey', new, rfl, h.course.steps.created_le.trans hle⟩
  kept n' hn' := by
    rw [hrest.kept n' fun key' hkey' => by
      rw [h.pagesOnly.elsewhere parent hne]
      exact hn' key' (List.mem_cons_of_mem _ hkey'), h.place, if_neg]
    rintro rfl
    exact hn' key List.mem_cons_self hparent
  afresh hafresh := hrest.afresh (h.afresh hsound hafresh)

theorem CopyPlaced.allCopied (h : CopyPlaced child key copy n m m₁) (hsound : Sound none m)
    (hne : parent ≠ child) (hparent : m.view.pageOf parent n = some key) (hnew : key ∉ rest)
    (hrest : PagesCopied parent child rest effects m₁ m')
    (hall : AllCopied parent child rest effects m₁ m') :
    AllCopied parent child (key :: rest) ([.copied key copy] ++ effects) m m' := by
  intro key' hkey' n' hplace'
  rcases List.mem_cons.1 hkey' with rfl | hkey'
  · obtain ⟨page, hpage, rfl⟩ := hsound.coherent.placement.placed hparent
    have hn' := hsound.coherent.placement.number_eq hplace' hpage
    refine ⟨copy, ?_, h.created.ge, fun memory => ?_⟩
    · rw [hrest.kept n' fun other hmem => ?_, h.place, if_pos hn'.symm]
      rw [h.pagesOnly.elsewhere parent hne, hplace']
      rintro ⟨⟩
      exact hnew hmem
    · rw [Memory.after_append, Memory.after_of_unset fun e he hsets => ?_]
      · exact Function.update_self _ _ _
      -- the copies that follow are newer
      obtain ⟨_, _, new, rfl, hle⟩ := hrest.labels e he
      cases hsets
      exact Nat.not_lt.2 hle (h.lt_created hsound)
  · obtain ⟨new, hplaced, hle, hmemory⟩ := hall key' hkey' n' (by
      rw [h.pagesOnly.elsewhere parent hne, hplace'])
    refine ⟨new, hplaced, h.course.steps.created_le.trans hle, fun memory => ?_⟩
    obtain ⟨page', hpage', -⟩ := hsound.coherent.placement.placed hplace'
    rw [Memory.after_append, hmemory]
    refine Memory.after_of_unset fun e he hsets => ?_
    rw [List.mem_singleton.1 he] at hsets
    cases hsets
    exact Nat.lt_irrefl _ (h.created ▸ hsound.coherent.placement.created hpage')

end

/-- The first of the pages could not be copied, or its copy is in its place and the others follow. -/
theorem copyPages_parts {child : Key AddressSpace} {key : Key Page} {page : Page}
    {rest : List (Key Page)} (h : Sound none m) (hpage : m.pages.get? key = some page)
    (hfree : m.view.pageOf child page.va.number = none) {answer : Except VmError Unit}
    (hrun : Answers (copyPages child (key :: rest)) m answer m') :
    ∃ d, (∃ cause, answer = .error cause ∧ Answers (duplicate key d) m (.error cause) m') ∨
      ∃ copy m₁ m₂, Answers (duplicate key d) m (.ok copy) m₁ ∧ (∃ spaces, m₂ = { m₁ with spaces }) ∧
        CopyPlaced child key copy page.va.number m m₂ ∧
          Answers (copyPages child rest) m₂ answer m' := by
  simp only [copyPages, answers_liftM_bind, returns_getSpace, and_assoc, exists_and_left,
    exists_eq_left] at hrun
  obtain ⟨target, htarget, hrun⟩ := hrun
  rw [answers_bind] at hrun
  refine ⟨target.directory, hrun.imp (fun ⟨cause, he, hfailed⟩ => ⟨cause, he, hfailed⟩) ?_⟩
  rintro ⟨copy, m₁, hduplicate, hrun⟩
  rcases answers_duplicate h hpage hduplicate with ⟨_, he, -⟩ | ⟨_, he, hduplicated⟩
  · cases he
  cases he
  obtain ⟨copied, hcopied, hva, -⟩ := hduplicated.copied
  simp only [answers_liftM_bind, returns_getPage, and_assoc, exists_and_left,
    exists_eq_left] at hrun
  obtain ⟨_, hfound, hrun⟩ := hrun
  rw [hcopied] at hfound
  cases hfound
  have hunused : target.pages[page.va.number]? = none := by
    rw [← view_pageOf_eq htarget, hfree]
  rw [hva, PageMap.insertNew_eq_ok.2 ⟨hunused, rfl⟩] at hrun
  simp only [answers_liftM_bind] at hrun
  obtain ⟨_, m₂, hupdate, hrun⟩ := hrun
  have hm₂ := returns_updateSpace.1 hupdate
  exact ⟨copy, m₁, m₂, hduplicate, ⟨_, hm₂⟩,
    copyPlaced_of_duplicated hduplicated htarget hfree hm₂, hrun⟩

/-- Copying pages one by one. No place is used twice, so every copy finds one. -/
theorem answers_copyPages {parent child : Key AddressSpace} (hne : parent ≠ child)
    {keys : List (Key Page)} (h : Sound none m) (hnodup : keys.Nodup)
    (hkeys : ∀ key ∈ keys, ∃ n, m.view.pageOf parent n = some key ∧
      m.view.pageOf child n = none)
    {answer : Except VmError Unit} (hrun : Answers (copyPages child keys) m answer m') :
    ∃ effects, PagesCopied parent child keys effects m m' ∧
      (answer = .ok () → AllCopied parent child keys effects m m') := by
  induction keys generalizing m with
  | nil =>
      obtain ⟨-, rfl⟩ := answers_pure.1 hrun
      exact ⟨[], .silent h (.refl h) rfl fun _ => Nat.le_refl _, fun _ key hkey => by cases hkey⟩
  | cons key rest ih =>
      obtain ⟨n, hparent, hchild⟩ := hkeys key List.mem_cons_self
      obtain ⟨page, hpage, rfl⟩ := h.coherent.placement.placed hparent
      rw [List.nodup_cons] at hnodup
      obtain ⟨d, ⟨cause, rfl, hduplicate⟩ | ⟨copy, m₁, m₂, -, -, hplaced, hrest⟩⟩ :=
        copyPages_parts h hpage hchild hrun
      · rcases answers_duplicate h hpage hduplicate with ⟨_, -, hspaces, hcourse⟩ | ⟨_, he, -⟩
        · exact ⟨[], .silent h hcourse hspaces ((keeps_duplicate _ _).returns hduplicate).issued,
            fun he => by cases he⟩
        · cases he
      obtain ⟨effects, hrest, hall⟩ := ih (hplaced.course.sound h) hnodup.2
        (hplaced.rest hne hparent hnodup.1
          fun key' hkey' => hkeys key' (List.mem_cons_of_mem _ hkey')) hrest
      exact ⟨_, hplaced.pagesCopied h hne hparent hrest,
        fun he => hplaced.allCopied h hne hparent hnodup.1 hrest (hall he)⟩

def RegionsFrom (parent child : Key AddressSpace) (m m' : Machine) : Prop :=
  ∀ start region, m'.view.regionOf child start = some region →
    ∃ start' copied, m.view.regionOf parent start' = some copied ∧ copied.start = start ∧
      copied.Reopened region

/-- What copying an address space into a new one does on its way. -/
structure Copying (parent child : Key AddressSpace) (effects : List Effect) (m m' : Machine) :
    Prop where
  course : Course effects none m none m'
  elsewhere : ∀ s', s' ≠ child → m'.view.pageOf s' = m.view.pageOf s' ∧
    m'.view.regionOf s' = m.view.regionOf s'
  directoryOf : m'.view.directoryOf = m.view.directoryOf
  regionOf : RegionsFrom parent child m m'
  labels : ∀ e ∈ effects, (∃ start, e = .registered child start) ∨
    ∃ n key copy, m.view.pageOf parent n = some key ∧ e = .copied key copy ∧
      m.view.created ≤ copy.index
  afresh : Afresh child m m'

/-- What a complete copy of an address space is. -/
structure SpaceCopied (parent child : Key AddressSpace) (effects : List Effect) (m m' : Machine) :
    Prop where
  place : ∀ n key, m.view.pageOf parent n = some key →
    ∃ copy, m'.view.pageOf child n = some copy ∧ m.view.created ≤ copy.index ∧
      ∀ memory : Memory, memory.after effects copy = memory key
  free : ∀ n, m.view.pageOf parent n = none → m'.view.pageOf child n = none
  regionOf : RegionsFrom parent child m m'
  region : ∀ start region, m.view.regionOf parent start = some region →
    m'.view.regionOf child region.start ≠ none

theorem answers_copyAll {parent child : Key AddressSpace} (hne : parent ≠ child)
    (h : Sound none m) {current space : AddressSpace} (hparent : m.spaces.get? parent = some current)
    (hchild : m.spaces.get? child = some space) (hempty : ∀ n, m.view.pageOf child n = none)
    (hbare : ∀ start, m.view.regionOf child start = none) {answer : Except VmError Unit}
    (hrun : Answers (copyAll child current) m answer m') :
    ∃ effects, Copying parent child effects m m' ∧
      (answer = .ok () → SpaceCopied parent child effects m m') := by
  have hfrom : ∀ {effects m₁}, RegionsCopied child current.regions.values effects m m₁ →
      RegionsFrom parent child m m₁ := by
    intro effects m₁ hregions start region hregion
    rcases hregions.regionOf start region hregion with hold | ⟨copied, hcopied, hregion⟩
    · rw [hbare] at hold
      cases hold
    · obtain ⟨start', hstart'⟩ := mem_values_iff.1 hcopied
      exact ⟨start', copied, by rw [view_regionOf_eq hparent, hstart'], hregion⟩
  have hbarely : Afresh child m m := .of_bare fun x => by
    cases x with
    | region start => rw [View.held, hbare, Option.map_none]
    | page n => rw [View.held, hempty, Option.bind_none, Option.bind_none]
  unfold copyAll at hrun
  rw [answers_tryCatchThe, answers_bind] at hrun
  rcases hrun with ⟨cause, rfl, hregions⟩ | ⟨_, m₁, hregions, hpages⟩
  · obtain ⟨effects, hregions, -⟩ := answers_copyRegions h hregions ⟨space, hchild⟩
    refine ⟨effects, ⟨hregions.course, fun s' hs' => ?_, hregions.directoryOf, hfrom hregions,
      fun e he => .inl (hregions.labels e he), hregions.afresh hbarely⟩, fun he => by cases he⟩
    simp only [view, hregions.elsewhere s' hs', and_self]
  obtain ⟨effects, hregions, hallRegions⟩ := answers_copyRegions h hregions ⟨space, hchild⟩
  have hsound₁ := hregions.course.sound h
  have hnodup := h.nodup_pages hparent
  obtain ⟨effects', hpages, hall⟩ := answers_copyPages hne hsound₁ hnodup (fun key hkey => by
    obtain ⟨n, hn⟩ := (mem_pages hparent).1 hkey
    exact ⟨n, by rw [hregions.pageOf, hn], by rw [hregions.pageOf, hempty]⟩) hpages
  have hregistered : ∀ {key}, ∀ e ∈ effects, ¬Effect.Sets key e := by
    intro key e he hsets
    obtain ⟨start, rfl⟩ := hregions.labels e he
    cases hsets
  have hcreated := hregions.course.steps.created_le
  have hfrom : RegionsFrom parent child m m' := fun start region hregion => by
    rw [hpages.pagesOnly.regionOf] at hregion
    exact hfrom hregions start region hregion
  refine ⟨_, ⟨hregions.course.trans hpages.course, fun s' hs' => ?_,
    hpages.pagesOnly.directoryOf.trans hregions.directoryOf, hfrom, fun e he => ?_,
    hpages.afresh (hregions.afresh hbarely)⟩, fun he =>
    ⟨fun n key hkey => ?_, fun n hn => ?_, hfrom, fun start region hregion => ?_⟩⟩
  · rw [hpages.pagesOnly.elsewhere s' hs', hpages.pagesOnly.regionOf]
    simp only [view, hregions.elsewhere s' hs', and_self]
  · rcases List.mem_append.1 he with he | he
    · exact .inl (hregions.labels e he)
    · obtain ⟨key, hkey, copy, rfl, hle⟩ := hpages.labels e he
      obtain ⟨n, hn⟩ := (mem_pages hparent).1 hkey
      exact .inr ⟨n, key, copy, hn, rfl, Nat.le_trans hcreated hle⟩
  · obtain ⟨copy, hplace, hle, hmemory⟩ := hall he key ((mem_pages hparent).2 ⟨n, hkey⟩) n (by
      rw [hregions.pageOf, hkey])
    refine ⟨copy, hplace, Nat.le_trans hcreated hle, fun memory => ?_⟩
    rw [Memory.after_append, hmemory, Memory.after_of_unset hregistered]
  · rw [hpages.kept n fun key _ => (by rw [hregions.pageOf, hn]; simp),
      hregions.pageOf, hempty]
  · rw [hpages.pagesOnly.regionOf]
    rw [view_regionOf_eq hparent] at hregion
    exact hallRegions rfl region (mem_values_iff.2 ⟨start, hregion⟩)

structure Forked (parent child : Key AddressSpace) (effects : List Effect) (m m' : Machine) :
    Prop where
  course : Course effects none m none m'
  fresh : m.view.directoryOf child = none
  opened : ∃ d, m'.view.directoryOf child = some d ∧ m.view.hasDirectory d = false
  elsewhere : ∀ s, s ≠ child → m'.view.pageOf s = m.view.pageOf s ∧
    m'.view.regionOf s = m.view.regionOf s ∧ m'.view.directoryOf s = m.view.directoryOf s
  copied : SpaceCopied parent child effects m m'
  labels : ∀ e ∈ effects, e = .opened child ∨ (∃ start, e = .registered child start) ∨
    ∃ n key copy, m.view.pageOf parent n = some key ∧ e = .copied key copy ∧
      m.view.created ≤ copy.index
  afresh : Afresh child m m'

/-- A fork that failed: everything is where it was, and the copy is gone. -/
structure ForkFailed (parent child : Key AddressSpace) (effects : List Effect) (m m' : Machine) :
    Prop where
  course : Course effects none m none m'
  fresh : m.view.directoryOf child = none
  pageOf : m'.view.pageOf = m.view.pageOf
  regionOf : m'.view.regionOf = m.view.regionOf
  directoryOf : m'.view.directoryOf = m.view.directoryOf
  labels : ∀ e ∈ effects, e = .opened child ∨ (∃ start, e = .registered child start) ∨
    (∃ n key copy, m.view.pageOf parent n = some key ∧ e = .copied key copy ∧
      m.view.created ≤ copy.index) ∨ (∃ key, e = .removed key ∧ m.view.created ≤ key.index) ∨
    e = .closed child

theorem pageOf_of_closed (h : m.view.directoryOf s = none) (n : PageNumber) :
    m.view.pageOf s n = none := by
  simp only [view, Option.map_eq_none_iff] at h ⊢
  rw [h, Option.bind_none]

theorem regionOf_of_closed (h : m.view.directoryOf s = none) (start : VirtualAddress) :
    m.view.regionOf s start = none := by
  simp only [view, Option.map_eq_none_iff] at h ⊢
  rw [h, Option.bind_none]

theorem created_le_of_fresh {effects : List Effect} {m₁ : Machine}
    (hcourse : Course effects none m none m₁) (hfresh : m.view.directoryOf s = none)
    {n : PageNumber} {key : Key Page} (hplace : m₁.view.pageOf s n = some key) :
    m.view.created ≤ key.index := by
  by_contra hold
  have hbefore := (hcourse.steps.page_old (Nat.not_le.1 hold)).2 s n hplace
  rw [pageOf_of_closed hfresh] at hbefore
  cases hbefore

section

variable {parent child : Key AddressSpace} {effects rest : List Effect} {m₁ m₂ : Machine}

theorem Created.directoryOf (h : Created child m m₁) {s : Key AddressSpace} (hs : s ≠ child) :
    m₁.view.directoryOf s = m.view.directoryOf s := by
  simp only [view, h.elsewhere s hs]

theorem Created.copying_labels (h : Created child m m₁)
    (hcopying : Copying parent child effects m₁ m₂) {e : Effect} (he : e ∈ effects) :
    (∃ start, e = .registered child start) ∨
      ∃ n key copy, m.view.pageOf parent n = some key ∧ e = .copied key copy ∧
        m.view.created ≤ copy.index := by
  rcases hcopying.labels e he with hregistered | ⟨n, key, copy, hplace, rfl, hle⟩
  · exact .inl hregistered
  · rw [h.pageOf] at hplace
    exact .inr ⟨n, key, copy, hplace, rfl, Nat.le_trans h.course.steps.created_le hle⟩

theorem Created.forkFailed (h : Created child m m₁) (hcopying : Copying parent child effects m₁ m₂)
    (hclosed : Closed child rest m₂ m') :
    ForkFailed parent child ([.opened child] ++ effects ++ rest) m m' where
  course := (h.course.trans hcopying.course).trans hclosed.course
  fresh := h.fresh
  pageOf := by
    funext s
    by_cases hs : s = child
    · subst hs
      funext n
      rw [hclosed.pageOf, pageOf_of_closed h.fresh]
    · rw [(hclosed.elsewhere s hs).1, (hcopying.elsewhere s hs).1, h.pageOf]
  regionOf := by
    funext s
    by_cases hs : s = child
    · subst hs
      funext start
      rw [hclosed.regionOf, regionOf_of_closed h.fresh]
    · rw [(hclosed.elsewhere s hs).2.1, (hcopying.elsewhere s hs).2, h.regionOf]
  directoryOf := by
    funext s
    by_cases hs : s = child
    · subst hs
      rw [hclosed.directoryOf, h.fresh]
    · rw [(hclosed.elsewhere s hs).2.2, hcopying.directoryOf, h.directoryOf hs]
  labels e he := by
    rcases List.mem_append.1 he with he | he
    · rcases List.mem_append.1 he with he | he
      · exact .inl (List.mem_singleton.1 he)
      · exact .inr ((h.copying_labels hcopying he).imp_right .inl)
    · rcases hclosed.labels e he with hregistered | ⟨n, key, hplace, rfl⟩ | rfl
      · exact .inr (.inl hregistered)
      · exact .inr (.inr (.inr (.inl ⟨key, rfl,
          created_le_of_fresh (h.course.trans hcopying.course) h.fresh hplace⟩)))
      · exact .inr (.inr (.inr (.inr rfl)))

theorem Created.forked (h : Created child m m₁) (hcopying : Copying parent child effects m₁ m')
    (hcopied : SpaceCopied parent child effects m₁ m') :
    Forked parent child ([.opened child] ++ effects) m m' where
  course := h.course.trans hcopying.course
  fresh := h.fresh
  opened := by
    obtain ⟨d, hdirectory, hnew⟩ := h.opened
    exact ⟨d, by rw [hcopying.directoryOf, hdirectory], hnew⟩
  elsewhere s hs := by
    rw [hcopying.directoryOf, h.directoryOf hs, ← h.pageOf, ← h.regionOf]
    exact ⟨(hcopying.elsewhere s hs).1, (hcopying.elsewhere s hs).2, rfl⟩
  copied :=
    { place := fun n key hplace => by
        rw [← h.pageOf] at hplace
        obtain ⟨copy, hcopy, hle, hmemory⟩ := hcopied.place n key hplace
        refine ⟨copy, hcopy, Nat.le_trans h.course.steps.created_le hle, fun memory => ?_⟩
        rw [Memory.after_append, hmemory]
        rfl
      free := fun n hn => hcopied.free n (by rw [h.pageOf, hn])
      regionOf := fun start region hregion => by
        rw [← h.regionOf]
        exact hcopied.regionOf start region hregion
      region := fun start region hregion =>
        hcopied.region start region (by rw [h.regionOf, hregion]) }
  labels e he := by
    rcases List.mem_append.1 he with he | he
    · exact .inl (List.mem_singleton.1 he)
    · exact .inr (h.copying_labels hcopying he)
  afresh := hcopying.afresh.of_earlier fun f => by rw [issued, issued, h.files]

end

theorem Forked.to_view {parent child : Key AddressSpace} {effects : List Effect} {m₁ : Machine}
    (h : Forked parent child effects m m₁) (hview : m'.view = m₁.view) (htidy : m'.Tidy)
    (hissued : ∀ f, m₁.issued f ≤ m'.issued f) : Forked parent child effects m m' where
  course := h.course.to_view hview htidy
  fresh := h.fresh
  opened := by
    rw [hview]
    exact h.opened
  elsewhere := by
    rw [hview]
    exact h.elsewhere
  copied :=
    { place := by
        rw [hview]
        exact h.copied.place
      free := by
        rw [hview]
        exact h.copied.free
      regionOf := by
        rw [RegionsFrom, hview]
        exact h.copied.regionOf
      region := by
        rw [hview]
        exact h.copied.region }
  labels := h.labels
  afresh := h.afresh.keep hissued (by rw [hview]; exact id)

/-- What a fork consists of: the copy is made, it is filled, and if it could not be filled it is given
up again. -/
theorem fork_parts {parent : Key AddressSpace} (h : Sound none m) {name : String}
    {answer : Except VmError Id} (hrun : Answers (fork parent name) m answer m') :
    ∃ current child m₁ m₂, m.spaces.get? parent = some current ∧ Created child m m₁ ∧
      (m₁.listed = m.listed ∧ m₁.pool = m.pool) ∧
      ((∃ cause events, answer = .error cause ∧
          Answers (copyAll child current) m₁ (.error cause) m₂ ∧
            Returns (drop child) { m₂ with events } () m') ∨
        ∃ events, answer = .ok child ∧ Answers (copyAll child current) m₁ (.ok ()) m₂ ∧
          m' = { m₂ with events }) := by
  simp only [fork, answers_liftM_bind, returns_getSpace, and_assoc, exists_and_left,
    exists_eq_left] at hrun
  obtain ⟨current, hparent, child, m₁, hcreate, _, m₂, hstack, _, m₃, hsaved, hrun⟩ := hrun
  obtain ⟨hview₂, htidy₂, hspaces₂, hfiles₂⟩ := returns_setStackPointer hstack
  obtain ⟨hview₃, htidy₃, hspaces₃, hfiles₃⟩ := returns_saveStackPointer hsaved
  have hcreated := ((returns_create h hcreate).and_same hview₂ htidy₂ hspaces₂ hfiles₂).and_same
    hview₃ htidy₃ hspaces₃ hfiles₃
  have hsame : m₃.listed = m.listed ∧ m₃.pool = m.pool := by
    simp only [create, returns_bind, returns_record, returns_addDirectory, returns_addSpace,
      and_assoc, exists_and_left, exists_eq_left, exists_const] at hcreate
    obtain ⟨-, rfl⟩ := hcreate
    obtain rfl := returns_updateSpace.1 hstack
    obtain rfl := returns_updateSpace.1 hsaved
    exact ⟨rfl, rfl⟩
  rw [answers_bind] at hrun
  rcases hrun with ⟨cause, rfl, hfailed⟩ | ⟨_, m₄, hdone, hrun⟩
  · rw [answers_tryCatch] at hfailed
    rcases hfailed with ⟨_, he, -⟩ | ⟨_, m₄, hcopy, hundo⟩
    · cases he
    simp only [answers_liftM_bind, returns_record, exists_eq_left, exists_const] at hundo
    obtain ⟨_, m₅, hdrop, hthrow⟩ := hundo
    obtain ⟨he, rfl⟩ := answers_throw.1 hthrow
    cases he
    exact ⟨current, child, m₃, m₄, hparent, hcreated, hsame, .inl ⟨_, _, rfl, hcopy, hdrop⟩⟩
  · rw [answers_tryCatch] at hdone
    rcases hdone with ⟨_, -, hcopy⟩ | ⟨_, _, -, hundo⟩
    · simp only [answers_liftM_bind, returns_getSpace, returns_record, answers_pure, and_assoc,
        exists_and_left, exists_eq_left, exists_const] at hrun
      obtain ⟨_, -, rfl, rfl⟩ := hrun
      exact ⟨current, child, m₃, m₄, hparent, hcreated, hsame, .inr ⟨_, rfl, hcopy, rfl⟩⟩
    · simp only [answers_liftM_bind] at hundo
      obtain ⟨_, _, -, _, _, -, hthrow⟩ := hundo
      cases (answers_throw.1 hthrow).1

theorem answers_fork {parent : Key AddressSpace} (h : Sound none m) {name : String}
    {answer : Except VmError Id} (hrun : Answers (fork parent name) m answer m') :
    ∃ child effects, ((∃ cause, answer = .error cause) ∧ ForkFailed parent child effects m m') ∨
      answer = .ok child ∧ Forked parent child effects m m' := by
  obtain ⟨current, child, m₁, m₂, hparent, hcreated, -, hrun⟩ := fork_parts h hrun
  have hsound := hcreated.course.sound h
  have hne := hcreated.ne_of_there hparent
  obtain ⟨space, hchild⟩ := hcreated.exists_space
  have hcopies : ∀ {answer}, Answers (copyAll child current) m₁ answer m₂ →
      ∃ effects, Copying parent child effects m₁ m₂ ∧
        (answer = .ok () → SpaceCopied parent child effects m₁ m₂) :=
    answers_copyAll hne hsound (by rw [hcreated.elsewhere parent hne, hparent]) hchild
      (fun n => by rw [hcreated.pageOf]; exact pageOf_of_closed hcreated.fresh n)
      (fun start => by rw [hcreated.regionOf]; exact regionOf_of_closed hcreated.fresh start)
  obtain ⟨cause, events, rfl, hcopy, hdrop⟩ | ⟨events, rfl, hcopy, rfl⟩ := hrun
  · obtain ⟨effects, hcopying, -⟩ := hcopies hcopy
    obtain ⟨rest, hclosed⟩ :=
      closed_drop_of_view (hcopying.course.sound hsound) hdrop rfl rfl rfl rfl
    exact ⟨child, _, .inl ⟨⟨_, rfl⟩, hcreated.forkFailed hcopying hclosed⟩⟩
  · obtain ⟨effects, hcopying, hcopied⟩ := hcopies hcopy
    exact ⟨child, _, .inr ⟨rfl, (hcreated.forked hcopying (hcopied rfl)).to_view rfl
      (hcopying.course.tidy.of_eq rfl rfl) fun _ => Nat.le_refl _⟩⟩

end DemandPaging.Space
