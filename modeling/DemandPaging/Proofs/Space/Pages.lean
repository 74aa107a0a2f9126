import DemandPaging.Proofs.Machine.Residency
import DemandPaging.Proofs.Space.PageMap

/-!
Pages that come and go.

A page is added to one address space and removed from one. Both are single steps, up to the frame
that a removed page leaves behind, and both leave everything that is not a page of that address
space in its place. The frame condition is said once, as `PagesOnly`, and composes like the
operations.
-/

namespace DemandPaging

open Machine

/-! ### What stays in place -/

structure PagesOnly (s : Key AddressSpace) (m m' : Machine) : Prop where
  elsewhere : ∀ s', s' ≠ s → m'.view.pageOf s' = m.view.pageOf s'
  directoryOf : m'.view.directoryOf = m.view.directoryOf
  regionOf : m'.view.regionOf = m.view.regionOf

namespace PagesOnly

variable {s : Key AddressSpace} {m m₁ m' : Machine}

theorem of_spaces (h : m'.spaces = m.spaces) : PagesOnly s m m' where
  elsewhere _ _ := by simp only [view, h]
  directoryOf := by simp only [view, h]
  regionOf := by simp only [view, h]

theorem trans (h : PagesOnly s m m₁) (h' : PagesOnly s m₁ m') : PagesOnly s m m' where
  elsewhere s' hs' := (h'.elsewhere s' hs').trans (h.elsewhere s' hs')
  directoryOf := h'.directoryOf.trans h.directoryOf
  regionOf := h'.regionOf.trans h.regionOf

end PagesOnly

/-! ### The pages of an address space -/

section

variable {m : Machine} {s : Key AddressSpace} {space : AddressSpace}

theorem Machine.mem_pages (hspace : m.spaces.get? s = some space) {key : Key Page} :
    key ∈ space.pages.values ↔ ∃ n, m.view.pageOf s n = some key := by
  rw [mem_values_iff]
  simp only [view_pageOf_eq hspace]

theorem Machine.Sound.nodup_pages (h : Sound none m) (hspace : m.spaces.get? s = some space) :
    space.pages.values.Nodup := nodup_values fun n n' key hn hn' => by
  rw [← view_pageOf_eq hspace] at hn hn'
  obtain ⟨page, hpage, rfl⟩ := h.coherent.placement.placed hn
  exact h.coherent.placement.number_eq hn' hpage

end

/-- Nothing is different that belongs to the pages of other address spaces. -/
structure Untouched (s : Key AddressSpace) (m m' : Machine) : Prop where
  page : ∀ {key}, (∀ n, m.view.pageOf s n ≠ some key) → m'.view.page key = m.view.page key
  bytes : m'.view.bytes = m.view.bytes
  pageIn : m'.view.pageIn = m.view.pageIn
  directory : ∀ {d}, m.view.directoryOf s ≠ some d → m'.directories.get? d = m.directories.get? d

namespace Untouched

variable {s : Key AddressSpace} {m m₁ m' : Machine}

theorem of_same (hview : m'.view = m.view) (hdirectories : m'.directories = m.directories) :
    Untouched s m m' := by
  constructor <;> simp only [hview, hdirectories, implies_true]

theorem trans (h : Untouched s m m₁) (h' : Untouched s m₁ m')
    (hplace : ∀ n key, m₁.view.pageOf s n = some key → m.view.pageOf s n = some key)
    (hdirectory : m₁.view.directoryOf s = m.view.directoryOf s) : Untouched s m m' where
  page hkey := (h'.page fun n he => hkey n (hplace n _ he)).trans (h.page hkey)
  bytes := h'.bytes.trans h.bytes
  pageIn := h'.pageIn.trans h.pageIn
  directory hd := (h'.directory (by rwa [hdirectory])).trans (h.directory hd)

end Untouched

/-! ### One more page -/

def Machine.withPage (m : Machine) (s : Key AddressSpace) (page : Page) : Machine :=
  { m with
    pages := m.pages.add page
    spaces := m.spaces.modify s fun space =>
      { space with pages := space.pages.insert page.va.number m.pages.nextKey } }

section

variable {m : Machine} {s : Key AddressSpace} {space : AddressSpace} {page : Page}

theorem Machine.withPage_eq (hspace : m.spaces.get? s = some space) :
    m.withPage s page = { m with
      pages := m.pages.add page
      spaces := m.spaces.modify s fun current =>
        { current with pages := space.pages.insert page.va.number m.pages.nextKey } } := by
  have hsame : ∀ current, m.spaces.get? s = some current →
      { current with pages := current.pages.insert page.va.number m.pages.nextKey } =
        { current with pages := space.pages.insert page.va.number m.pages.nextKey } := by
    rintro current hcurrent
    cases hspace.symm.trans hcurrent
    rfl
  rw [withPage, Arena.modify_congr hsame]

theorem Machine.space_withPage (hspace : m.spaces.get? s = some space) :
    (m.withPage s page).spaces.get? s =
      some { space with pages := space.pages.insert page.va.number m.pages.nextKey } := by
  rw [withPage, Arena.get?_modify, if_pos rfl, hspace, Option.map_some]

theorem Machine.view_withPage (hspace : m.spaces.get? s = some space) :
    (m.withPage s page).view =
      (m.view.addPage page).setPlace s page.va.number (some ⟨m.view.created⟩) := by
  rw [withPage_eq hspace, ← view_addPage m page]
  exact view_setPlace (m := { m with pages := m.pages.add page }) hspace page.va.number
    (some m.pages.nextKey) fun n' => getElem?_insert_eq_ite _ _ _ _

end

namespace Space

variable {m m' : Machine} {s : Key AddressSpace} {n : PageNumber} {page : Page}

/-- Whole pages of user memory, the first page of which is not the one at address zero. -/
structure UserRange (start : VirtualAddress) (count : Nat) : Prop where
  aligned : start.isPageAligned = true
  notNull : start.isNull = false
  below : start.toNat + count * pageSize ≤ kernelBase

/-- A range of pages that may be added to an address space: it lies in user memory, not at address
zero, and is free. -/
structure OpenRange (m : Machine) (s : Key AddressSpace) (start : VirtualAddress) (count : Nat) :
    Prop where
  notNull : start.isNull = false
  user : start.isKernel = false
  below : start.toNat + count * pageSize ≤ kernelBase
  free : ∀ n : PageNumber, start.number.toNat ≤ n.toNat → n.toNat < start.number.toNat + count →
    m.view.pageOf s n = none

theorem rangeEnd_eq_some_iff {start stop : VirtualAddress} {count : Nat} :
    (Word.mul? count pageSize).bind start.add? = some stop ↔
      stop.toNat = start.toNat + count * pageSize := by
  unfold Word.mul?
  split
  · rw [Option.bind_some, Address.add?_eq_some_iff]
  · next hwide =>
    rw [Option.bind_none]
    constructor
    · intro h
      cases h
    · intro h
      have hlt := stop.valid.lt_limit
      omega

/-- A request for a range of pages changes nothing, and is granted exactly for an open one. -/
theorem answers_requireFreeRange {start : VirtualAddress} {count : Nat}
    {answer : Except VmError Unit} (hrun : Answers (requireFreeRange s start count) m answer m') :
    m' = m ∧ (answer = .ok () ↔ OpenRange m s start count) := by
  unfold requireFreeRange at hrun
  rcases answers_refuse.1 hrun with ⟨houtside, rfl, rfl⟩ | ⟨huser, hrun⟩
  · refine ⟨rfl, fun he => (by cases he), fun hopen => ?_⟩
    rw [hopen.notNull, hopen.user] at houtside
    cases houtside
  rw [Bool.or_eq_true, not_or, Bool.not_eq_true, Bool.not_eq_true] at huser
  split at hrun
  swap
  · next hnone =>
    obtain ⟨rfl, rfl⟩ := answers_throw.1 hrun
    refine ⟨rfl, fun he => (by cases he), fun hopen => ?_⟩
    have hvalid : AddressKind.virtual.Valid (start.toNat + count * pageSize) :=
      AddressKind.valid_virtual_iff.2 (.inl (Nat.lt_of_le_of_lt hopen.below (by decide)))
    exact absurd (rangeEnd_eq_some_iff.2 rfl) (hnone ⟨_, hvalid⟩)
  next stop hstop =>
  have hstop := rangeEnd_eq_some_iff.1 hstop
  rcases answers_refuse.1 hrun with ⟨habove, rfl, rfl⟩ | ⟨hbelow, hrun⟩
  · refine ⟨rfl, fun he => (by cases he), fun hopen => ?_⟩
    have hopen := hopen.below
    omega
  simp only [answers_liftM_bind, answers_liftM_computed_bind, returns_getSpace, and_assoc,
    exists_and_left, exists_eq_left] at hrun
  obtain ⟨space, hspace, free, hfree, hrun⟩ := hrun
  have hiff := PageMap.isRangeFree_iff hfree
  simp only [← view_pageOf_eq hspace] at hiff
  cases free with
  | false =>
      obtain ⟨rfl, rfl⟩ := answers_throw.1 hrun
      refine ⟨rfl, fun he => (by cases he), fun hopen => ?_⟩
      cases hiff.2 hopen.free
  | true =>
      obtain ⟨rfl, rfl⟩ := answers_pure.1 hrun
      exact ⟨rfl, fun _ => ⟨huser.1, huser.2, by omega, hiff.1 rfl⟩, fun _ => rfl⟩

/-- A page is added where none was, and is refused where there is one. -/
theorem answers_insertPage_iff {space : AddressSpace} (hspace : m.spaces.get? s = some space)
    {answer : Except VmError (Key Page)} : Answers (insertPage s page) m answer m' ↔
      (answer = .error .alreadyMapped ∧ space.pages[page.va.number]? ≠ none ∧ m' = m) ∨
        answer = .ok m.pages.nextKey ∧ space.pages[page.va.number]? = none ∧
          m' = m.withPage s page := by
  simp only [insertPage, answers_liftM_bind, answers_get_bind, returns_getSpace, hspace, and_assoc,
    exists_and_left, exists_eq_left, Option.some.injEq, exists_eq_left']
  cases hinsert : space.pages.insertNew page.va m.pages.nextKey with
  | error cause =>
      obtain ⟨htaken, rfl⟩ := PageMap.insertNew_eq_error.1 hinsert
      simp only [answers_throw, ne_eq, htaken, not_false_eq_true, true_and, false_and, and_false,
        or_false]
  | ok pages =>
      obtain ⟨hfree, rfl⟩ := PageMap.insertNew_eq_ok.1 hinsert
      simp only [answers_liftM_bind, returns_addPage, returns_updateSpace, and_assoc,
        exists_and_left, exists_eq_left, exists_const, answers_pure, hfree, ne_eq, not_true_eq_false,
        false_and, and_false, false_or, true_and, withPage_eq hspace]

theorem exists_space_of_insertPage {answer : Except VmError (Key Page)}
    (hrun : Answers (insertPage s page) m answer m') : ∃ space, m.spaces.get? s = some space := by
  simp only [insertPage, answers_liftM_bind, returns_getSpace, and_assoc, exists_and_left] at hrun
  obtain ⟨space, hspace, -⟩ := hrun
  exact ⟨space, hspace⟩

structure InsertedOne (s : Key AddressSpace) (page : Page) (source : Pending) (m m' : Machine) :
    Prop where
  free : m.view.pageOf s page.va.number = none
  view_eq : m'.view = (m.view.addPage page).setPlace s page.va.number (some ⟨m.view.created⟩)
  pagesOnly : PagesOnly s m m'
  course : Course [.added ⟨m.view.created⟩ source (m.view.pendingBytes source)] none m none m'

theorem answers_insertPage (h : Sound none m) {source : Pending}
    (hcontents : page.contents = .pending source) (hframe : page.frame = none)
    (hholders : page.holders = 1) {answer : Except VmError (Key Page)}
    (hrun : Answers (insertPage s page) m answer m') :
    (∃ cause, answer = .error cause ∧ m' = m ∧ m.view.pageOf s page.va.number ≠ none) ∨
      answer = .ok ⟨m.view.created⟩ ∧ InsertedOne s page source m m' := by
  obtain ⟨space, hspace⟩ := exists_space_of_insertPage hrun
  rw [answers_insertPage_iff hspace, ← view_pageOf_eq hspace] at hrun
  obtain ⟨rfl, htaken, rfl⟩ | ⟨rfl, hplace, rfl⟩ := hrun
  · exact .inl ⟨_, rfl, rfl, htaken⟩
  have hview : (m.withPage s page).view = _ := view_withPage hspace
  have hstep := Step.add (v := m.view) (view_directoryOf_eq hspace) hplace hcontents hframe hholders
  refine .inr ⟨rfl, hplace, hview, ⟨fun s' hs' => ?_, ?_, ?_⟩,
    .single hstep hview (h.tidy.of_eq rfl rfl)⟩
  · rw [hview]
    exact Function.update_of_ne hs' _ _
  · rw [hview]
    rfl
  · rw [hview]
    rfl

/-- A page that is released is gone, but its place still names it. -/
theorem returns_releaseHeld (h : Sound none m) {key : Key Page}
    (hplace : m.view.pageOf s n = some key) {u : Unit} (hrun : Returns (releaseHeld key) m u m') :
    m'.Tidy ∧ m'.spaces = m.spaces ∧ Untouched s m m' ∧
      (∀ other, other ≠ key → m'.view.page other = m.view.page other) ∧
      Steps [.removed key] none m.view none (m'.view.setPlace s n none) := by
  obtain ⟨page, hpage, hnumber⟩ := h.coherent.placement.placed hplace
  have hholders := h.coherent.placement.holders hpage
  subst hnumber
  simp only [releaseHeld, dropPage, returns_bind, returns_getPage, and_assoc, exists_and_left,
    exists_eq_left] at hrun
  obtain ⟨_, m₁, hrelease, left, hleft, hdrop⟩ := hrun
  have hdropped : left.holders = page.holders → m'.view = m₁.view.setPage key none ∧
      m' = { m₁ with pages := m₁.pages.erase key } := by
    intro hsame
    rw [hsame, hholders, if_pos (Nat.le_refl 1), returns_modify] at hdrop
    rw [hdrop]
    exact ⟨view_erasePage m₁ key, rfl⟩
  have hother : ∀ {other}, (∀ n, m.view.pageOf s n ≠ some other) → other ≠ key := by
    rintro _ hnot rfl
    exact hnot _ hplace
  have hsparing : ∀ {v : View}, (∃ left, v.page = Function.update m.view.page key left) →
      ∀ other, other ≠ key → (v.setPage key none).page other = m.view.page other := by
    rintro v ⟨left, hv⟩ other hne
    simp only [View.setPage, hv, Function.update_of_ne hne]
  cases hframe : page.frame with
  | none =>
      obtain ⟨htidy, hspaces, hdirectories, left', hleft', hsame, hview⟩ :=
        returns_release_of_absent h hpage hframe hrelease
      rw [hleft] at hleft'
      cases hleft'
      obtain ⟨hview', hm'⟩ := hdropped hsame
      have hspared : ∀ other, other ≠ key → m'.view.page other = m.view.page other := by
        rw [hview', hview]
        exact hsparing ⟨_, rfl⟩
      refine ⟨htidy.of_eq (by rw [hm']) (by rw [hm']), by rw [hm', hspaces],
        ⟨fun hnot => hspared _ (hother hnot), by rw [hview', hview]; rfl, by rw [hview', hview]; rfl,
          fun _ => by rw [hm', hdirectories]⟩, hspared, ?_⟩
      have hstep := Step.removeAbsent (v := m.view) hplace hpage hframe
      rw [hview', hview]
      simp only [View.setPage, Function.update_idem] at hstep ⊢
      exact .single hstep
  | some f =>
      obtain ⟨o, howner, hkey⟩ := h.coherent.residency.listed hpage hframe
      obtain ⟨htidy, hspaces, hdirectories, left', bytes, v, hleft', hsame, hbytes, hgiven,
        hview⟩ := returns_release_of_resident h hpage hframe howner hrelease
      rw [hleft] at hleft'
      cases hleft'
      obtain ⟨hview', hm'⟩ := hdropped hsame
      subst hkey
      have hhome := h.coherent.home howner hplace
      obtain ⟨file, hfiles⟩ := hgiven.exists_eq
      have hspared : ∀ other, other ≠ o.page → m'.view.page other = m.view.page other := by
        rw [hview', hview, hfiles]
        exact hsparing ⟨_, rfl⟩
      refine ⟨htidy.of_eq (by rw [hm']) (by rw [hm']), by rw [hm', hspaces],
        ⟨fun hnot => hspared _ (hother hnot), by rw [hview', hview, hfiles]; rfl,
          by rw [hview', hview, hfiles]; rfl, fun {d} hd => ?_⟩, hspared, ?_⟩
      · rw [hm']
        refine hdirectories d fun he => hd ?_
        rw [he, hhome]
      have hstep := Step.removePresent (v := m.view) hplace howner hpage hbytes hgiven
      have hback := Step.giveBack (f := f)
        (v := (((v.setOwner f (some none)).setGrant o.directory o.va.number none).setPage o.page
          none).setPlace s page.va.number none)
      rw [hview', hview]
      simp only [View.setPage, View.setOwner, View.setGrant, View.setAllocated, View.setPlace,
        Function.update_idem] at hstep hback ⊢
      exact .cons hstep (.single hback)

theorem returns_removePage (h : Sound none m) {removed : Bool}
    (hrun : Returns (removePage s n) m removed m') :
    PagesOnly s m m' ∧ Untouched s m m' ∧
      (∀ other, m.view.pageOf s n ≠ some other → m'.view.page other = m.view.page other) ∧
      m'.view.pageOf s = Function.update (m.view.pageOf s) n none ∧
      ∃ effects, Course effects none m none m' ∧
        ∀ e ∈ effects, ∃ key, m.view.pageOf s n = some key ∧ e = .removed key := by
  simp only [removePage, returns_bind, returns_getSpace, and_assoc, exists_and_left,
    exists_eq_left] at hrun
  obtain ⟨space, hspace, pages?, m₁, hremove, hrun⟩ := hrun
  cases hkey : space.pages[n]? with
  | none =>
      simp only [removeFromMap, hkey, returns_pure] at hremove
      obtain ⟨rfl, rfl⟩ := hremove
      obtain ⟨-, rfl⟩ := returns_pure.1 hrun
      have hfree : m'.view.pageOf s n = none := by rw [view_pageOf_eq hspace, hkey]
      refine ⟨.of_spaces rfl, .of_same rfl rfl, fun _ _ => rfl, ?_, [], .refl h,
        fun e he => by cases he⟩
      rw [Function.update_eq_self_iff.2 hfree.symm]
  | some key =>
      have hplace : m.view.pageOf s n = some key := by rw [view_pageOf_eq hspace, hkey]
      simp only [removeFromMap, hkey, returns_bind, returns_pure] at hremove
      obtain ⟨_, m₂, hrelease, rfl, rfl⟩ := hremove
      obtain ⟨htidy, hspaces, huntouched, hspared, hsteps⟩ := returns_releaseHeld h hplace hrelease
      simp only [returns_bind, returns_updateSpace, returns_pure, exists_eq_left,
        exists_const] at hrun
      obtain ⟨-, hm'⟩ := hrun
      have hview : m'.view = m₁.view.setPlace s n none := by
        rw [hm']
        refine view_setPlace (by rw [hspaces, hspace]) n none fun n' => ?_
        rw [getElem?_erase_eq_ite]
      refine ⟨⟨fun s' hs' => ?_, ?_, ?_⟩, ⟨fun hnot => ?_, ?_, ?_, fun hd => ?_⟩,
        fun other hother => ?_, ?_, [.removed key], ⟨?_, htidy.of_eq ?_ ?_⟩,
        fun e he => ⟨key, hplace, List.mem_singleton.1 he⟩⟩
      · rw [hview, ← view_pageOf_congr hspaces]
        exact Function.update_of_ne hs' _ _
      · rw [hview, ← view_directoryOf_congr hspaces]
        rfl
      · rw [hview]
        simp only [View.setPlace, view, hspaces]
      · rw [hview]
        exact huntouched.page hnot
      · rw [hview]
        exact huntouched.bytes
      · rw [hview]
        exact huntouched.pageIn
      · rw [hm']
        exact huntouched.directory hd
      · rw [hview]
        exact hspared other fun he => hother (he ▸ hplace)
      · rw [hview, ← view_pageOf_congr hspaces]
        exact Function.update_self _ _ _
      · rw [hview]
        exact hsteps
      · rw [hm']
      · rw [hm']

theorem returns_removePages {numbers : List PageNumber} (h : Sound none m) {u : Unit}
    (hrun : Returns (removePages s numbers) m u m') :
    PagesOnly s m m' ∧ Untouched s m m' ∧
      (∀ other, (∀ n ∈ numbers, m.view.pageOf s n ≠ some other) →
        m'.view.page other = m.view.page other) ∧
      (∀ n, m'.view.pageOf s n = if n ∈ numbers then none else m.view.pageOf s n) ∧
      ∃ effects, Course effects none m none m' ∧
        ∀ e ∈ effects, ∃ n ∈ numbers, ∃ key, m.view.pageOf s n = some key ∧ e = .removed key := by
  induction numbers generalizing m with
  | nil =>
      obtain ⟨-, rfl⟩ := returns_pure.1 hrun
      exact ⟨.of_spaces rfl, .of_same rfl rfl, fun _ _ => rfl, fun n => by simp, [], .refl h,
        fun e he => by cases he⟩
  | cons number rest ih =>
      simp only [removePages, returns_bind] at hrun
      obtain ⟨_, m₁, hremove, hrest⟩ := hrun
      obtain ⟨honly, huntouched, hspared, hplace, effects, hcourse, hremoved⟩ :=
        returns_removePage h hremove
      obtain ⟨honly', huntouched', hspared', hplace', effects', hcourse', hremoved'⟩ :=
        ih (hcourse.sound h) hrest
      have hold : ∀ n key, m₁.view.pageOf s n = some key → m.view.pageOf s n = some key := by
        intro n key hkey
        rw [hplace, Function.update_apply] at hkey
        split at hkey
        · cases hkey
        · exact hkey
      refine ⟨honly.trans honly', huntouched.trans huntouched' hold (congrFun honly.directoryOf s),
        fun other hnot => ?_, fun n => ?_, _, hcourse.trans hcourse', fun e he => ?_⟩
      · rw [hspared' other fun n hn he => hnot n (List.mem_cons_of_mem _ hn) (hold n other he),
          hspared other (hnot number List.mem_cons_self)]
      · rw [hplace', hplace, Function.update_apply]
        by_cases hn : n = number <;> simp [hn]
      · rcases List.mem_append.1 he with he | he
        · obtain ⟨key, hkey, rfl⟩ := hremoved e he
          exact ⟨number, List.mem_cons_self, key, hkey, rfl⟩
        · obtain ⟨n, hn, key, hkey, rfl⟩ := hremoved' e he
          exact ⟨n, List.mem_cons_of_mem _ hn, key, hold n key hkey, rfl⟩

/-- What a run of new pages leaves behind: each page in its place, with the bytes of its source. -/
structure Inserted (s : Key AddressSpace) (pages : List Page) (effects : List Effect)
    (m m' : Machine) : Prop where
  course : Course effects none m none m'
  pagesOnly : PagesOnly s m m'
  labels : ∀ e ∈ effects, ∃ key source bytes, e = .added key source bytes ∧
    m.view.created ≤ key.index ∧ ∃ page ∈ pages, page.contents = .pending source
  placed : ∀ page ∈ pages, m.view.pageOf s page.va.number = none ∧
    ∃ key source, m'.view.pageOf s page.va.number = some key ∧ m.view.created ≤ key.index ∧
      m'.view.page key = some page ∧ page.contents = .pending source ∧
      ∀ memory : Memory, memory.after effects key = m.view.pendingBytes source
  kept : ∀ n, (∀ page ∈ pages, page.va.number ≠ n) → m'.view.pageOf s n = m.view.pageOf s n
  /-- Nothing else shows. -/
  same : ∃ page created pageOf, m'.view = { m.view with page, created, pageOf }
  old : ∀ key : Key Page, key.index < m.view.created → m'.view.page key = m.view.page key

namespace InsertedOne

variable {m₁ : Machine} {source : Pending}

theorem created_eq (h : InsertedOne s page source m m') :
    m'.view.created = m.view.created + 1 := by
  rw [h.view_eq]
  rfl

theorem pageOf_eq (h : InsertedOne s page source m m') (n : PageNumber) :
    m'.view.pageOf s n =
      if n = page.va.number then some ⟨m.view.created⟩ else m.view.pageOf s n := by
  rw [h.view_eq, ← Function.update_apply (m.view.pageOf s)]
  exact congrFun (Function.update_self _ _ _) n

theorem page_eq (h : InsertedOne s page source m m') (key : Key Page) :
    m'.view.page key = if key = ⟨m.view.created⟩ then some page else m.view.page key := by
  rw [h.view_eq, ← Function.update_apply]
  rfl

theorem pendingBytes_eq (h : InsertedOne s page source m m') :
    m'.view.pendingBytes = m.view.pendingBytes := by
  rw [h.view_eq]
  rfl

theorem inserted {rest : List Page} {effects : List Effect} (h : InsertedOne s page source m m₁)
    (hcontents : page.contents = .pending source) (hrest : Inserted s rest effects m₁ m') :
    Inserted s (page :: rest)
      (.added ⟨m.view.created⟩ source (m.view.pendingBytes source) :: effects) m m' := by
  have hle : ∀ {key : Key Page}, m₁.view.created ≤ key.index → m.view.created ≤ key.index := by
    intro key hkey
    rw [h.created_eq] at hkey
    omega
  refine ⟨h.course.trans hrest.course, h.pagesOnly.trans hrest.pagesOnly, ?_, ?_, ?_, ?_, ?_⟩
  · intro e he
    rcases List.mem_cons.1 he with rfl | he
    · exact ⟨_, _, _, rfl, Nat.le_refl _, page, List.mem_cons_self, hcontents⟩
    · obtain ⟨key, source', bytes, rfl, hkey, p, hp, hp'⟩ := hrest.labels e he
      exact ⟨key, source', bytes, rfl, hle hkey, p, List.mem_cons_of_mem _ hp, hp'⟩
  · intro p hp
    rcases List.mem_cons.1 hp with rfl | hp
    · have hplace := h.pageOf_eq p.va.number
      rw [if_pos rfl] at hplace
      refine ⟨h.free, ⟨m.view.created⟩, source, ?_, Nat.le_refl _, ?_, hcontents, fun memory => ?_⟩
      · rw [hrest.kept, hplace]
        intro q hq hn
        rw [← hn, (hrest.placed q hq).1] at hplace
        cases hplace
      · rw [hrest.old ⟨_⟩ (by rw [h.created_eq]; exact Nat.lt_succ_self _), h.page_eq, if_pos rfl]
      · rw [Memory.after_cons, Memory.after_of_unset]
        · exact Function.update_self _ _ _
        · intro e he hsets
          obtain ⟨key, source', bytes, rfl, hkey, -⟩ := hrest.labels e he
          cases hsets
          rw [h.created_eq] at hkey
          exact Nat.not_succ_le_self _ hkey
    · obtain ⟨hfree, key, source', hplace, hkey, hpage, hp', hmemory⟩ := hrest.placed p hp
      rw [h.pageOf_eq] at hfree
      split at hfree
      · cases hfree
      · refine ⟨hfree, key, source', hplace, hle hkey, hpage, hp', fun memory => ?_⟩
        rw [Memory.after_cons, hmemory, h.pendingBytes_eq]
  · intro n hn
    rw [hrest.kept n fun p hp => hn p (List.mem_cons_of_mem _ hp), h.pageOf_eq,
      if_neg (hn page List.mem_cons_self).symm]
  · obtain ⟨pages, created, pageOf, hview⟩ := hrest.same
    rw [hview, h.view_eq]
    exact ⟨_, _, _, rfl⟩
  · intro key hkey
    rw [hrest.old key (by rw [h.created_eq]; omega), h.page_eq, if_neg]
    rintro rfl
    exact Nat.lt_irrefl _ hkey

end InsertedOne

theorem answers_insertRun {pages : List Page} (h : Sound none m)
    (hpages : ∀ page ∈ pages, (∃ source, page.contents = .pending source) ∧ page.frame = none ∧
      page.holders = 1)
    (hfree : ∀ page ∈ pages, m.view.pageOf s page.va.number = none)
    (hnodup : (pages.map (·.va.number)).Nodup) {inserted : List PageNumber}
    {answer : Except VmError Unit} (hrun : Answers (insertRun s inserted pages) m answer m') :
    answer = .ok () ∧ ∃ effects, Inserted s pages effects m m' := by
  induction pages generalizing m inserted with
  | nil =>
      obtain ⟨rfl, rfl⟩ := answers_pure.1 hrun
      exact ⟨rfl, [], .refl h, .of_spaces rfl, fun e he => (by cases he),
        fun page hpage => (by cases hpage), fun n _ => rfl, ⟨_, _, _, rfl⟩, fun key _ => rfl⟩
  | cons page rest ih =>
      obtain ⟨⟨source, hcontents⟩, hframe, hholders⟩ := hpages page List.mem_cons_self
      rw [List.map_cons, List.nodup_cons] at hnodup
      have hinsert : ∀ {answer m₁}, Answers (do let _ ← insertPage s page : ExceptT _ _ _) m answer m₁ →
          answer = .ok () ∧ InsertedOne s page source m m₁ := by
        intro answer m₁ hinsert
        rw [answers_bind] at hinsert
        rcases hinsert with ⟨_, -, hinsert⟩ | ⟨_, _, hinsert, hpure⟩
        · rcases answers_insertPage h hcontents hframe hholders hinsert with ⟨_, -, -, htaken⟩ |
            ⟨he, -⟩
          · exact absurd (hfree page List.mem_cons_self) htaken
          · cases he
        · obtain ⟨rfl, rfl⟩ := answers_pure.1 hpure
          rcases answers_insertPage h hcontents hframe hholders hinsert with ⟨_, he, -⟩ | ⟨-, hone⟩
          · cases he
          · exact ⟨rfl, hone⟩
      simp only [insertRun] at hrun
      rw [answers_bind] at hrun
      rcases hrun with ⟨cause, rfl, hrun⟩ | ⟨_, m₁, hrun, hrest⟩
      · rw [answers_tryCatch] at hrun
        rcases hrun with ⟨_, he, -⟩ | ⟨_, m₁, hfailed, -⟩
        · cases he
        · cases (hinsert hfailed).1
      · rw [answers_tryCatch] at hrun
        rcases hrun with ⟨_, -, hdone⟩ | ⟨_, _, hfailed, -⟩
        swap
        · cases (hinsert hfailed).1
        obtain ⟨-, hone⟩ := hinsert hdone
        obtain ⟨rfl, effects, hinserted⟩ := ih (hone.course.sound h)
          (fun p hp => hpages p (List.mem_cons_of_mem _ hp)) (fun p hp => by
            rw [hone.pageOf_eq, if_neg, hfree p (List.mem_cons_of_mem _ hp)]
            intro he
            exact hnodup.1 (he ▸ List.mem_map_of_mem hp)) hnodup.2 hrest
        exact ⟨rfl, _, hone.inserted hcontents hinserted⟩

end Space

/-! ### Passing through -/

/-- What an operation may do that at most touches memory: no page that was there is missed or has
other bytes, and none is brought in whose file lacks bytes. -/
structure Passed (s : Key AddressSpace) (effects : List Effect) (m m' : Machine) : Prop where
  course : Course effects none m none m'
  pagesOnly : PagesOnly s m m'
  passing : ∀ e ∈ effects, Effect.Passing m.view.created e
  lacking : ∀ {key page}, m.view.page key = some page → m.view.Lacks page →
    m'.view.page key = some page

namespace Passed

variable {s : Key AddressSpace} {effects rest : List Effect} {m m₁ m' : Machine}

theorem silent (htidy : m'.Tidy) (hview : m'.view = m.view) : Passed s [] m m' where
  course := .silent htidy hview
  pagesOnly := by constructor <;> simp only [hview, implies_true]
  passing e he := by cases he
  lacking hpage _ := by rwa [hview]

theorem refl (h : Sound none m) : Passed s [] m m := silent h.tidy rfl

theorem trans (h : Passed s effects m m₁) (h' : Passed s rest m₁ m') :
    Passed s (effects ++ rest) m m' where
  course := h.course.trans h'.course
  pagesOnly := h.pagesOnly.trans h'.pagesOnly
  passing e he := by
    rcases List.mem_append.1 he with he | he
    · exact h.passing e he
    · exact (h'.passing e he).mono h.course.steps.created_le
  lacking hpage hlacks :=
    h'.lacking (h.lacking hpage hlacks) (hlacks.of_since h.course.steps.filesSince)

theorem quiet (h : Sound none m) (hcourse : Course [] none m none m') (hspaces : m'.spaces = m.spaces) :
    Passed s [] m m' where
  course := hcourse
  pagesOnly := .of_spaces hspaces
  passing e he := by cases he
  lacking hpage hlacks := hcourse.steps.page_absent h.coherent hpage hlacks.1
    (fun he => by cases he) (fun he => by cases he)

theorem sound (hpassed : Passed s effects m m') (h : Sound none m) : Sound none m' :=
  hpassed.course.sound h

/-- A page that was there is still there, at its address and in its place. -/
theorem page_kept (hpassed : Passed s effects m m') (h : Sound none m) {key : Key Page} {page : Page}
    (hpage : m.view.page key = some page) :
    (∃ page', m'.view.page key = some page' ∧ page'.va = page.va ∧
        page'.writable = page.writable) ∧
      ∀ s' n, m.view.pageOf s' n = some key → m'.view.pageOf s' n = some key := by
  refine hpassed.course.steps.page_kept h.coherent hpage fun hremoved => ?_
  cases hpassed.passing _ hremoved with
  | removed hnew => exact Nat.not_lt.2 hnew (h.coherent.placement.created hpage)

end Passed

theorem Space.passed_pageOut {m m' : Machine} {s : Key AddressSpace} (h : Sound none m)
    {va : VirtualAddress} {out : Bool} (hrun : Returns (Space.pageOut s va) m out m') :
    Passed s [] m m' := by
  simp only [Space.pageOut, returns_bind, returns_getSpace, and_assoc, exists_and_left,
    exists_eq_left] at hrun
  obtain ⟨space, -, hrun⟩ := hrun
  split at hrun
  · obtain ⟨hspaces, hcourse⟩ := course_pageOut h hrun
    exact .quiet h hcourse hspaces
  · obtain ⟨-, rfl⟩ := returns_pure.1 hrun
    exact .refl h

end DemandPaging
