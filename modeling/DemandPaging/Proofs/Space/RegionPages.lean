import DemandPaging.Proofs.Fork

/-!
The pages of a region.

Regions and pages are kept in two maps, and nothing compares the one with the other. What keeps them
in step is what a page keeps: as long as it is there it has the same rights and shows the same part
of the same file, wherever its bytes are, and so does a copy of it. A page that shows a part of a file
is only ever added along with a region that has its place, and a region takes its pages with it.
-/

namespace DemandPaging

open Machine Space

/-! ### What a page keeps -/

/-- The same rights over the same part of the same file, if it shows one. -/
structure Page.Matches (page page' : Page) : Prop where
  writable : page'.writable = page.writable
  part : page'.contents.part? = page.contents.part?

theorem Page.Matches.trans {page₁ page₂ page₃ : Page} (h : page₁.Matches page₂)
    (h' : page₂.Matches page₃) : page₁.Matches page₃ :=
  ⟨h'.writable.trans h.writable, h'.part.trans h.part⟩

section

variable {effects : List Effect} {x x' : Option FrameNumber} {v v' : View} {key : Key Page}
  {page page' : Page}

theorem Step.matches (h : Step effects x v x' v') (hcoherent : Coherent x v)
    (hpage : v.page key = some page) (hpage' : v'.page key = some page') :
    page.Matches page' := by
  cases h.fate hcoherent key with
  | absent hnone => cases hpage.symm.trans hnone
  | kept hold hnew =>
      cases hpage.symm.trans hold
      cases hpage'.symm.trans hnew
      exact ⟨rfl, rfl⟩
  | stored hold hnew =>
      cases hpage.symm.trans hold
      cases hpage'.symm.trans hnew
      exact ⟨rfl, rfl⟩
  | evicted hold _ _ _ hstowed hnew =>
      cases hpage.symm.trans hold
      cases hpage'.symm.trans hnew
      exact ⟨rfl, hstowed.part?_eq⟩
  | broughtIn hold _ hnew =>
      cases hpage.symm.trans hold
      cases hpage'.symm.trans hnew
      exact ⟨rfl, page.contents.part?_settled⟩
  | added _ hnone => cases hpage.symm.trans hnone
  | copied _ hnone => cases hpage.symm.trans hnone
  | removedAbsent _ _ hgone => cases hpage'.symm.trans hgone
  | removedPresent _ _ _ _ _ hgone => cases hpage'.symm.trans hgone

/-- A page that was there before and is there afterwards was there all the time. -/
theorem Steps.matches (h : Steps effects x v x' v') (hcoherent : Coherent x v)
    (hpage : v.page key = some page) (hpage' : v'.page key = some page') :
    page.Matches page' := by
  induction h generalizing page with
  | nil =>
      cases hpage.symm.trans hpage'
      exact ⟨rfl, rfl⟩
  | cons head tail ih =>
      have hold := Nat.lt_of_lt_of_le (hcoherent.placement.created hpage) head.created_le
      obtain ⟨page₁, hpage₁⟩ := Option.ne_none_iff_exists'.1 ((tail.page_old hold).1 (by
        rw [hpage']
        exact Option.some_ne_none _))
      exact (head.matches hcoherent hpage hpage₁).trans
        (ih (head.coherent hcoherent) hpage₁ hpage')

theorem Step.page_old_or (h : Step effects x v x' v') (hcoherent : Coherent x v)
    (hpage' : v'.page key = some page') : v.page key ≠ none ∨
      (∃ source bytes, .added key source bytes ∈ effects ∧
        page'.contents.part? = (Contents.pending source).part?) ∨
        ∃ source, .copied source key ∈ effects := by
  by_cases hnone : v.page key = none
  swap
  · exact .inl hnone
  cases h.fate hcoherent key with
  | added _ _ hnew hcontents =>
      cases hpage'.symm.trans hnew
      exact .inr (.inl ⟨_, _, List.mem_singleton_self _, by rw [hcontents]⟩)
  | copied => exact .inr (.inr ⟨_, List.mem_singleton_self _⟩)
  | absent _ hnone' => cases hpage'.symm.trans hnone'
  | kept hold => cases hnone.symm.trans hold
  | stored hold => cases hnone.symm.trans hold
  | evicted hold => cases hnone.symm.trans hold
  | broughtIn hold => cases hnone.symm.trans hold
  | removedAbsent hold => cases hnone.symm.trans hold
  | removedPresent hold => cases hnone.symm.trans hold

theorem Steps.page_old_or (h : Steps effects x v x' v') (hcoherent : Coherent x v)
    (hpage' : v'.page key = some page') : v.page key ≠ none ∨
      (∃ source bytes, .added key source bytes ∈ effects ∧
        page'.contents.part? = (Contents.pending source).part?) ∨
        ∃ source, .copied source key ∈ effects := by
  induction h with
  | nil =>
      rw [hpage']
      exact .inl (Option.some_ne_none _)
  | @cons effects rest x x₁ x' v v₁ v' head tail ih =>
      have hcoherent₁ := head.coherent hcoherent
      rcases ih hcoherent₁ hpage' with hold | ⟨source, bytes, he, hpart⟩ | ⟨source, he⟩
      · obtain ⟨page₁, hpage₁⟩ := Option.ne_none_iff_exists'.1 hold
        have hkept := tail.matches hcoherent₁ hpage₁ hpage'
        rcases head.page_old_or hcoherent hpage₁ with hold | ⟨source, bytes, he, hpart⟩ | ⟨source, he⟩
        · exact .inl hold
        · exact .inr (.inl ⟨source, bytes, List.mem_append_left _ he, hkept.part.trans hpart⟩)
        · exact .inr (.inr ⟨source, List.mem_append_left _ he⟩)
      · exact .inr (.inl ⟨source, bytes, List.mem_append_right _ he, hpart⟩)
      · exact .inr (.inr ⟨source, List.mem_append_right _ he⟩)

end

/-! ### Regions and their pages -/

structure Region.Shows (region : Region) (n : PageNumber) (page : Page) : Prop where
  writable : page.writable = region.writable
  part : page.contents.part? = some (region.handle.file,
    region.offset + (n.toNat - region.start.number.toNat) * pageSize)

theorem Region.Shows.of_matches {region : Region} {n : PageNumber} {page page' : Page}
    (h : region.Shows n page) (hmatches : page.Matches page') : region.Shows n page' :=
  ⟨hmatches.writable.trans h.writable, hmatches.part.trans h.part⟩

theorem Region.Shows.reopened {region copy : Region} {n : PageNumber} {page : Page}
    (h : region.Shows n page) (hreopened : region.Reopened copy) : copy.Shows n page := by
  refine ⟨h.writable.trans hreopened.writable.symm, ?_⟩
  rw [h.part, hreopened.file, hreopened.offset, hreopened.start]

/-- Regions are ranges of user memory, their pages show the parts of the file that belong there, and
no other page shows a part of a file. -/
structure RegionsPaged (v : View) : Prop where
  range : ∀ {s start region}, v.regionOf s start = some region →
    0 < region.pages ∧ UserRange region.start region.pages
  shown : ∀ {s start region n key page}, v.regionOf s start = some region → region.Has n →
    v.pageOf s n = some key → v.page key = some page → region.Shows n page
  covered : ∀ {s n key page}, v.pageOf s n = some key → v.page key = some page →
    page.contents.part? ≠ none → ∃ start region, v.regionOf s start = some region ∧ region.Has n

section

variable {α : Type} {m m' : Machine} {s s' : Key AddressSpace} {request : Request α} {answer : α}
  {effects : List Effect} {start : VirtualAddress} {region : Region} {n : PageNumber}
  {key : Key Page}

/-- A region was there before, or the file was just mapped, or it was copied. -/
theorem Outcome.regionOf_old_or (h : Outcome s m m' request answer effects)
    (hregion : m'.view.regionOf s' start = some region) :
    m.view.regionOf s' start = some region ∨
      (s' = s ∧ ∃ f offset length writable handle,
        FileMapped s f offset start length writable effects m m' ∧ handle.file = f ∧
          region = ⟨start, (length + (pageSize - 1)) / pageSize, handle, offset, writable⟩) ∨
      Forked s s' effects m m' := by
  have hsame : m'.view.regionOf = m.view.regionOf → m.view.regionOf s' start = some region :=
    fun he => by rw [← he, hregion]
  have hclosed : Closed s effects m m' → m.view.regionOf s' start = some region := fun hclosed => by
    by_cases hs : s' = s
    · subst hs
      rw [hclosed.regionOf] at hregion
      cases hregion
    · rwa [(hclosed.elsewhere s' hs).2.1] at hregion
  cases h with
  | passed _ h => exact .inl (hsame h.pagesOnly.regionOf)
  | stored _ _ _ h => exact .inl (hsame h.pagesOnly.regionOf)
  | loaded h =>
      obtain ⟨_, _, _, _, _, _, _, hinserted⟩ := h.made
      exact .inl (hsame hinserted.pagesOnly.regionOf)
  | mapped h =>
      exact (h.regionOf_old_or hregion).imp_right fun ⟨hs, he, handle, hfile, hregion⟩ =>
        .inl ⟨hs, _, _, _, _, handle, he ▸ h, hfile, he ▸ hregion⟩
  | descriptorMapped _ h =>
      exact (h.regionOf_old_or hregion).imp_right fun ⟨hs, he, handle, hfile, hregion⟩ =>
        .inl ⟨hs, _, _, _, _, handle, he ▸ h, hfile, he ▸ hregion⟩
  | unmapped _ h =>
      refine .inl ?_
      rw [h.regionOf, Function.update_apply] at hregion
      split at hregion
      · next hs =>
        subst hs
        rw [Function.update_apply] at hregion
        split at hregion
        · cases hregion
        · exact hregion
      · exact hregion
  | nothingUnmapped _ h => exact .inl (hsame h.pagesOnly.regionOf)
  | exited h => exact .inl (hclosed h)
  | dropped h => exact .inl (hclosed h)
  | @forked _ child _ h =>
      by_cases hs : s' = child
      · subst hs
        exact .inr (.inr h)
      · exact .inl (by rwa [(h.elsewhere s' hs).2.1] at hregion)
  | forkFailed h => exact .inl (hsame h.regionOf)

/-- A place that has a page before and after a request has the same page. -/
theorem Outcome.pageOf_eq (h : Outcome s m m' request answer effects) (hsound : Sound none m)
    (hplace : m.view.pageOf s' n = some key) (hplace' : m'.view.pageOf s' n ≠ none) :
    m'.view.pageOf s' n = some key := by
  rcases h.pageOf_kept hsound hplace with hkept | ⟨rfl, start, hends, -⟩
  · exact hkept
  cases h with
  | passed hquiet =>
      cases request with
      | unmapFile | exit | drop => cases hquiet
      | _ => cases hends
  | unmapped _ h =>
      rw [h.place] at hplace' ⊢
      split at hplace'
      · exact absurd rfl hplace'
      · rwa [if_neg ‹_›]
  | nothingUnmapped _ h =>
      obtain ⟨page, hpage, -⟩ := hsound.coherent.placement.placed hplace
      exact (h.page_kept hsound hpage).2 _ _ hplace
  | exited h => exact absurd (h.pageOf n) hplace'
  | dropped h => exact absurd (h.pageOf n) hplace'
  | _ => cases hends

theorem Outcome.regionOf_kept_of_page (h : Outcome s m m' request answer effects)
    (hregions : RegionsPlaced m.view) (hregion : m.view.regionOf s' start = some region)
    (hn : region.Has n) (hplace' : m'.view.pageOf s' n ≠ none) :
    m'.view.regionOf s' start = some region := by
  have hpages : 0 < region.pages := by
    have := hn.1
    have := hn.2
    omega
  rcases h.regionOf_kept hregions hregion hpages with hkept | ⟨rfl, hends⟩
  · exact hkept
  cases h with
  | passed hquiet =>
      cases request with
      | unmapFile | exit | drop => cases hquiet
      | _ => cases hends
  | unmapped hregion' h =>
      cases hends
      cases hregion.symm.trans hregion'
      exact absurd ((h.place n).trans (if_pos hn)) hplace'
  | nothingUnmapped hnone h =>
      cases hends
      cases hregion.symm.trans hnone
  | exited h => exact absurd (h.pageOf n) hplace'
  | dropped h => exact absurd (h.pageOf n) hplace'
  | _ => cases hends

namespace RegionsPaged

theorem range_after (hpaged : RegionsPaged m.view) (h : Outcome s m m' request answer effects)
    (hregions : RegionsPlaced m.view) (hregion : m'.view.regionOf s' start = some region) :
    0 < region.pages ∧ UserRange region.start region.pages := by
  rcases h.regionOf_old_or hregion with hold |
    ⟨-, f, offset, length, writable, handle, hmapped, -, rfl⟩ | hforked
  · exact hpaged.range hold
  · refine ⟨Nat.div_pos ?_ (by decide), hmapped.range⟩
    have := hmapped.positive
    simp only [pageSize]
    omega
  · obtain ⟨original, horiginal, hreopened⟩ := hforked.exists_original hregions hregion
    rw [hreopened.pages, hreopened.start]
    exact hpaged.range horiginal

theorem shown_after (hpaged : RegionsPaged m.view) (h : Outcome s m m' request answer effects)
    (hsound : Sound none m) (hregions : RegionsPlaced m.view) {page' : Page}
    (hregion : m'.view.regionOf s' start = some region) (hn : region.Has n)
    (hplace : m'.view.pageOf s' n = some key) (hpage' : m'.view.page key = some page') :
    region.Shows n page' := by
  have hcoherent := hsound.coherent
  rcases h.regionOf_old_or hregion with hold |
    ⟨rfl, f, offset, length, writable, handle, hmapped, rfl, rfl⟩ | hforked
  · obtain ⟨old, hplaced⟩ := Option.ne_none_iff_exists'.1 (hregions.placed hold hn)
    rw [h.pageOf_eq hsound hplaced (by rw [hplace]; exact Option.some_ne_none _)] at hplace
    cases hplace
    obtain ⟨page, hpage, -⟩ := hcoherent.placement.placed hplaced
    exact (hpaged.shown hold hn hplaced hpage).of_matches
      (h.course.steps.matches hcoherent hpage hpage')
  · obtain ⟨-, _, _, slice, hplaced, hpage, -, hwritable, hat, -⟩ := hmapped.exists_page hn.1 hn.2
    cases hplaced.symm.trans hplace
    cases hpage.symm.trans hpage'
    exact ⟨hwritable, Contents.part?_eq_some.2 ⟨slice, .inl hat.contents, hat.file, hat.offset⟩⟩
  · obtain ⟨original, horiginal, hreopened⟩ := hforked.exists_original hregions hregion
    rw [hreopened.has_iff] at hn
    obtain ⟨source, hsource⟩ := Option.ne_none_iff_exists'.1 (hregions.placed horiginal hn)
    obtain ⟨page, hpage, -⟩ := hcoherent.placement.placed hsource
    obtain ⟨copy, _, -, hcopy, hcopied, htwin⟩ := hforked.exists_page hsound hsource hpage
    cases hcopy.symm.trans hplace
    cases hcopied.symm.trans hpage'
    exact ((hpaged.shown horiginal hn hsource hpage).of_matches
      ⟨htwin.writable, htwin.part⟩).reopened hreopened

/-- A page that was there before was in its place, and in a region that stays with it. -/
theorem covered_of_old (hpaged : RegionsPaged m.view) (h : Outcome s m m' request answer effects)
    (hsound : Sound none m) (hregions : RegionsPlaced m.view) {page' : Page}
    (hplace : m'.view.pageOf s' n = some key) (hpage' : m'.view.page key = some page')
    (hpart : page'.contents.part? ≠ none) (hthere : m.view.page key ≠ none) :
    ∃ start region, m'.view.regionOf s' start = some region ∧ region.Has n := by
  have hcoherent := hsound.coherent
  obtain ⟨page, hpage⟩ := Option.ne_none_iff_exists'.1 hthere
  rw [(h.course.steps.matches hcoherent hpage hpage').part] at hpart
  obtain ⟨start, region, hregion, hn⟩ := hpaged.covered
    ((h.course.steps.page_old (hcoherent.placement.created hpage)).2 s' n hplace) hpage hpart
  refine ⟨start, region, h.regionOf_kept_of_page hregions hregion hn ?_, hn⟩
  rw [hplace]
  exact Option.some_ne_none _

theorem covered_of_added (hpaged : RegionsPaged m.view) (h : Outcome s m m' request answer effects)
    (hsound : Sound none m) (hregions : RegionsPlaced m.view) {page' : Page}
    (hplace : m'.view.pageOf s' n = some key) (hpage' : m'.view.page key = some page')
    (hpart : page'.contents.part? ≠ none) {source : Pending} {bytes : PageBytes}
    (hadded : .added key source bytes ∈ effects)
    (hshown : page'.contents.part? = (Contents.pending source).part?) :
    ∃ start region, m'.view.regionOf s' start = some region ∧ region.Has n := by
  have hcoherent' := (h.course.sound hsound).coherent
  obtain ⟨slice, rfl⟩ : ∃ slice, source = .file slice := by
    rw [hshown] at hpart
    obtain ⟨part, hsome⟩ := Option.ne_none_iff_exists'.1 hpart
    obtain ⟨slice, he | he, -⟩ := Contents.part?_eq_some.1 hsome
    · cases he
      exact ⟨slice, rfl⟩
    · cases he
  cases h.labels hadded with
  | added _ _ hmaps =>
      obtain ⟨start, _, _, hmaps⟩ := hmaps slice rfl
      obtain ⟨_, hmapped⟩ := h.fileMapped hmaps
      rcases hmapped.page_old_or hsound hpage' with hpage | ⟨hplace', hle, hlt⟩
      · exact hpaged.covered_of_old h hsound hregions hplace hpage' hpart
          (by rw [hpage]; exact Option.some_ne_none _)
      · obtain rfl := hcoherent'.placement.alone hplace hplace'
        rw [hcoherent'.placement.number_eq hplace hpage'] at hle hlt
        obtain ⟨handle, -, hregion⟩ := hmapped.exists_region
        exact ⟨start, _, hregion, hle, hlt⟩

theorem covered_of_copied (hpaged : RegionsPaged m.view)
    (h : Outcome s m m' request answer effects) (hsound : Sound none m)
    (hregions : RegionsPlaced m.view) {page' : Page} (hplace : m'.view.pageOf s' n = some key)
    (hpage' : m'.view.page key = some page') (hpart : page'.contents.part? ≠ none)
    {source : Key Page} (hcopied : .copied source key ∈ effects) :
    ∃ start region, m'.view.regionOf s' start = some region ∧ region.Has n := by
  have hcoherent := hsound.coherent
  cases h.labels hcopied with
  | copied hforks _ hnew =>
      -- whatever is there already in another address space is old
      have hfresh : m.view.pageOf s' n ≠ some key := fun hplaced => by
        obtain ⟨page, hpage, -⟩ := hcoherent.placement.placed hplaced
        exact Nat.not_lt.2 hnew (hcoherent.placement.created hpage)
      obtain ⟨child, hforked | hfailed⟩ := h.forked_or_forkFailed hforks
      · obtain rfl : s' = child := by
          by_contra hs
          rw [(hforked.elsewhere s' hs).1] at hplace
          exact hfresh hplace
        obtain ⟨original, horiginal⟩ := Option.ne_none_iff_exists'.1 fun hfree =>
          absurd (hplace.symm.trans (hforked.copied.free n hfree)) (Option.some_ne_none _)
        obtain ⟨page, hpage, -⟩ := hcoherent.placement.placed horiginal
        obtain ⟨copy, _, -, hcopy, hpage₁, htwin⟩ := hforked.exists_page hsound horiginal hpage
        cases hcopy.symm.trans hplace
        cases hpage₁.symm.trans hpage'
        rw [htwin.part] at hpart
        obtain ⟨start, region, hregion, hn⟩ := hpaged.covered horiginal hpage hpart
        obtain ⟨copied, hcopied, hreopened⟩ := hforked.exists_region hregions hregion
        exact ⟨start, copied, hcopied, (hreopened.has_iff n).2 hn⟩
      · rw [hfailed.pageOf] at hplace
        exact absurd hplace hfresh

end RegionsPaged

/-- Every request keeps regions and pages in step. -/
theorem Outcome.regionsPaged (h : Outcome s m m' request answer effects) (hsound : Sound none m)
    (hregions : RegionsPlaced m.view) (hpaged : RegionsPaged m.view) : RegionsPaged m'.view where
  range := hpaged.range_after h hregions
  shown := hpaged.shown_after h hsound hregions
  covered := fun hplace hpage' hpart => by
    rcases h.course.steps.page_old_or hsound.coherent hpage' with
      hthere | ⟨source, bytes, hadded, hshown⟩ | ⟨source, hcopied⟩
    · exact hpaged.covered_of_old h hsound hregions hplace hpage' hpart hthere
    · exact hpaged.covered_of_added h hsound hregions hplace hpage' hpart hadded hshown
    · exact hpaged.covered_of_copied h hsound hregions hplace hpage' hpart hcopied

theorem Space.Created.regionsPaged (h : Created s m m') (hsound : Sound none m)
    (hpaged : RegionsPaged m.view) : RegionsPaged m'.view := by
  have hold : ∀ {s n key page'}, m.view.pageOf s n = some key → m'.view.page key = some page' →
      ∃ page, m.view.page key = some page ∧ page.Matches page' := fun hplace hpage' => by
    obtain ⟨page, hpage, -⟩ := hsound.coherent.placement.placed hplace
    exact ⟨page, hpage, h.course.steps.matches hsound.coherent hpage hpage'⟩
  refine ⟨fun hregion => hpaged.range (h.regionOf ▸ hregion), fun hregion hn hplace hpage' => ?_,
    fun hplace hpage' hpart => ?_⟩
  · rw [h.regionOf] at hregion
    rw [h.pageOf] at hplace
    obtain ⟨page, hpage, hmatches⟩ := hold hplace hpage'
    exact (hpaged.shown hregion hn hplace hpage).of_matches hmatches
  · rw [h.pageOf] at hplace
    obtain ⟨page, hpage, hmatches⟩ := hold hplace hpage'
    rw [h.regionOf]
    exact hpaged.covered hplace hpage (hmatches.part ▸ hpart)

end

theorem Run.regionsPaged {start m : Machine} {history : List Done} (h : Run start history m) :
    RegionsPaged m.view := by
  obtain ⟨hfresh, hreaches⟩ := h
  induction hreaches with
  | refl => constructor <;> simp [view, hfresh.spaces]
  | create hreaches hrun ih =>
      have hsound := hreaches.sound hfresh.sound
      exact (returns_create hsound hrun).regionsPaged hsound ih
  | clients _ _ ih => exact ih
  | request hreaches hrun ih =>
      have hsound := hreaches.sound hfresh.sound
      obtain ⟨effects, houtcome⟩ := Request.exists_outcome hsound (Request.returns_perform?.1 hrun).2
      exact houtcome.regionsPaged hsound (Run.regionsPlaced ⟨hfresh, hreaches⟩) ih

end DemandPaging
