import DemandPaging.Proofs.Handles
import DemandPaging.Proofs.Run
import DemandPaging.Proofs.Space.Regions

/-!
Who holds a handle.

The pages of a segment share a handle, and so do a mapped region and its pages. But no handle is held
in two address spaces: a handle that is opened is a new one, and what was opened for one address
space never gets to another. Two things are carried along a run for that: every handle that is held
was issued, so none is issued a second time, and no handle is held in two places that are apart.
-/

namespace DemandPaging

open Machine Space

/-! ### Counting handles -/

theorem nodup_eraseDups {α : Type} [BEq α] [LawfulBEq α] (l : List α) : l.eraseDups.Nodup := by
  induction hn : l.length using Nat.strongRecOn generalizing l with
  | _ n ih =>
    cases l with
    | nil => exact List.nodup_nil
    | cons a l =>
        rw [List.eraseDups_cons, List.nodup_cons]
        refine ⟨by simp, ih _ ?_ _ rfl⟩
        rw [← hn]
        exact Nat.lt_succ_of_le (List.length_filter_le _ _)

theorem length_eraseDups_congr {α : Type} [BEq α] [LawfulBEq α] {l l' : List α}
    (h : ∀ a, a ∈ l ↔ a ∈ l') : l.eraseDups.length = l'.eraseDups.length :=
  ((List.perm_ext_iff_of_nodup (nodup_eraseDups l) (nodup_eraseDups l')).2
    (by simpa using h)).length_eq

theorem length_eraseDups_of_nodup {α : Type} [BEq α] [LawfulBEq α] {l : List α} (h : l.Nodup) :
    l.eraseDups.length = l.length :=
  ((List.perm_ext_iff_of_nodup (nodup_eraseDups l) h).2 (by simp)).length_eq

theorem length_eraseDups_add {α : Type} [BEq α] [LawfulBEq α] {l l₁ l₂ : List α}
    (h : ∀ a, a ∈ l ↔ a ∈ l₁ ∨ a ∈ l₂) (hapart : ∀ a, a ∈ l₁ → a ∉ l₂) :
    l.eraseDups.length = l₁.eraseDups.length + l₂.eraseDups.length := by
  have hnodup : (l₁.eraseDups ++ l₂.eraseDups).Nodup :=
    (nodup_eraseDups l₁).append (nodup_eraseDups l₂) fun a ha ha' =>
      hapart a (List.mem_eraseDups.1 ha) (List.mem_eraseDups.1 ha')
  rw [← List.length_append]
  exact ((List.perm_ext_iff_of_nodup (nodup_eraseDups l) hnodup).2 (by simpa using h)).length_eq

/-- The handles that an address space holds, by its regions and by its pages. -/
def Machine.handlesOf (m : Machine) (space : AddressSpace) : List Handle :=
  space.regions.toList.map (·.2.handle) ++
    space.pages.values.filterMap fun key => (m.pages.get? key).bind Page.handle?

namespace Machine

variable {m m' : Machine}

theorem mem_heldHandles {handle : Handle} : handle ∈ m.heldHandles ↔ handle ∈ m.clients ∨
    (∃ key page, m.pages.get? key = some page ∧ page.handle? = some handle) ∨
      ∃ s space, m.spaces.get? s = some space ∧
        handle ∈ space.regions.toList.map (·.2.handle) := by
  simp only [heldHandles, List.mem_append, List.mem_filterMap, List.mem_flatMap,
    Arena.mem_values_iff, ← exists_and_right, or_assoc]
  exact or_congr Iff.rfl (or_congr exists_comm exists_comm)

theorem openHandles_congr (h : ∀ handle, handle ∈ m'.heldHandles ↔ handle ∈ m.heldHandles)
    (f : Key File) : m'.openHandles f = m.openHandles f :=
  length_eraseDups_congr fun handle => by simp only [List.mem_filter, h]

theorem mem_handlesOf {s : Key AddressSpace} {space : AddressSpace} {handle : Handle}
    (hspace : m.spaces.get? s = some space) :
    handle ∈ m.handlesOf space ↔ ∃ x, m.view.held s x = some handle := by
  simp only [handlesOf, List.mem_append, List.mem_map, List.mem_filterMap, Prod.exists,
    Std.ExtTreeMap.mem_toList_iff_getElem?_eq_some, mem_values_iff]
  constructor
  · rintro (⟨start, region, hregion, rfl⟩ | ⟨key, ⟨n, hplace⟩, hhandle⟩)
    · exact ⟨.region start, by rw [View.held, view_regionOf_eq hspace, hregion, Option.map_some]⟩
    · exact ⟨.page n, by rw [View.held, view_pageOf_eq hspace, hplace]; exact hhandle⟩
  · rintro ⟨start | n, hheld⟩
    · rw [View.held, view_regionOf_eq hspace] at hheld
      obtain ⟨region, hregion, rfl⟩ := Option.map_eq_some_iff.1 hheld
      exact .inl ⟨start, region, hregion, rfl⟩
    · rw [View.held, view_pageOf_eq hspace, Option.bind_assoc] at hheld
      obtain ⟨key, hplace, hhandle⟩ := Option.bind_eq_some_iff.1 hheld
      exact .inr ⟨key, ⟨n, hplace⟩, hhandle⟩

/-- A handle is open because a client or an address space holds it. -/
theorem Sound.mem_heldHandles (h : Sound none m) {handle : Handle} :
    handle ∈ m.heldHandles ↔ handle ∈ m.clients ∨ ∃ s x, m.view.held s x = some handle := by
  rw [Machine.mem_heldHandles]
  refine or_congr Iff.rfl ⟨?_, ?_⟩
  · rintro (⟨key, page, hpage, hhandle⟩ | ⟨s, space, hspace, hhandle⟩)
    · obtain ⟨s, hplace⟩ := h.coherent.placement.held hpage
      refine ⟨s, .page page.va.number, ?_⟩
      rw [View.held, hplace, Option.bind_some, show m.view.page key = some page from hpage]
      exact hhandle
    · obtain ⟨x, hheld⟩ := (mem_handlesOf hspace).1 (List.mem_append_left _ hhandle)
      exact ⟨s, x, hheld⟩
  · rintro ⟨s, start | n, hheld⟩
    · obtain ⟨region, hregion, rfl⟩ := Option.map_eq_some_iff.1 hheld
      obtain ⟨space, hspace, hregion⟩ := Option.bind_eq_some_iff.1 hregion
      exact .inr ⟨s, space, hspace, List.mem_map.2
        ⟨_, Std.ExtTreeMap.mem_toList_iff_getElem?_eq_some.2 hregion, rfl⟩⟩
    · obtain ⟨page, hpage, hhandle⟩ := Option.bind_eq_some_iff.1 hheld
      obtain ⟨key, -, hpage⟩ := Option.bind_eq_some_iff.1 hpage
      exact .inl ⟨key, page, hpage, hhandle⟩

end Machine

/-! ### The books on handles -/

/-- Every handle in use was issued, and for one address space only. -/
structure HandleBooks (m : Machine) : Prop where
  issued : ∀ {s x handle}, m.view.held s x = some handle → handle.serial < m.issued handle.file
  apart : ∀ {s s' x x' handle}, m.view.held s x = some handle → m.view.held s' x' = some handle →
    s = s'

/-- What a request may do with handles: it opens some for one address space. -/
structure HandleFlow (t : Key AddressSpace) (m m' : Machine) : Prop where
  issued : ∀ f, m.issued f ≤ m'.issued f
  held : ∀ {s x handle}, m'.view.held s x = some handle →
    m.view.held s x = some handle ∨ s = t ∧ Opened m m' handle

variable {m m' : Machine} {s t : Key AddressSpace} {effects : List Effect}

theorem HandleBooks.flow (h : HandleBooks m) (hflow : HandleFlow t m m') : HandleBooks m' where
  issued hheld := by
    rcases hflow.held hheld with hold | ⟨-, hopened⟩
    · exact (h.issued hold).trans_le (hflow.issued _)
    · exact hopened.issued
  apart hheld hheld' := by
    rcases hflow.held hheld with hold | ⟨rfl, hopened⟩ <;>
      rcases hflow.held hheld' with hold' | ⟨rfl, hopened'⟩
    · exact h.apart hold hold'
    -- what was held before was issued before
    · exact absurd (h.issued hold) (Nat.not_lt.2 hopened'.new)
    · exact absurd (h.issued hold') (Nat.not_lt.2 hopened.new)
    · rfl

/-! ### Requests -/

theorem Step.created_le_of_brings {x x' : Option FrameNumber} {v v' : View} {e : Effect}
    {key : Key Page} {handle : Handle} (h : Step effects x v x' v') (he : e ∈ effects)
    (hbrings : e.Brings key handle) : v.created ≤ key.index := by
  cases h with
  | add =>
      rw [List.mem_singleton.1 he] at hbrings
      rw [← hbrings.1]
  | copyAside | copyIn =>
      rw [List.mem_singleton.1 he] at hbrings
      rw [← show (⟨v.created⟩ : Key Page) = key from hbrings]
  | scribble | take | giveBack | evict => cases he
  | _ =>
      rw [List.mem_singleton.1 he] at hbrings
      cases hbrings

theorem Steps.created_le_of_brings {x x' : Option FrameNumber} {v v' : View} {e : Effect}
    {key : Key Page} {handle : Handle} (h : Steps effects x v x' v') (he : e ∈ effects)
    (hbrings : e.Brings key handle) : v.created ≤ key.index := by
  induction h with
  | nil => cases he
  | cons head tail ih =>
      rcases List.mem_append.1 he with he | he
      · exact head.created_le_of_brings he hbrings
      · exact head.created_le.trans (ih he)

namespace HandleFlow

theorem of_elsewhere (h : Sound none m) (hcourse : Course effects none m none m')
    (hissued : ∀ f, m.issued f ≤ m'.issued f)
    (helsewhere : ∀ s, s ≠ t → m'.view.pageOf s = m.view.pageOf s ∧
      m'.view.regionOf s = m.view.regionOf s)
    (hown : ∀ {x handle}, m'.view.held t x = some handle →
      m.view.held t x = some handle ∨ Opened m m' handle) : HandleFlow t m m' where
  issued := hissued
  held {s x handle} hheld := by
    by_cases hs : s = t
    · subst hs
      exact (hown hheld).imp_right fun hopened => ⟨rfl, hopened⟩
    obtain ⟨hpageOf, hregionOf⟩ := helsewhere s hs
    cases x with
    | region start =>
        rw [View.held, hregionOf] at hheld
        exact .inl hheld
    | page n =>
        rcases hcourse.steps.held_page_old h.coherent hheld with
          hold | ⟨key, hplace, e, he, hbrings⟩
        · exact .inl hold
        · rw [hpageOf] at hplace
          obtain ⟨page, hpage, -⟩ := h.coherent.placement.placed hplace
          exact absurd (h.coherent.placement.created hpage)
            (Nat.not_lt.2 (hcourse.steps.created_le_of_brings he hbrings))

/-- The pages that were made brought handles that were opened for them. -/
theorem of_made (h : Sound none m) (hcourse : Course effects none m none m')
    (hissued : ∀ f, m.issued f ≤ m'.issued f)
    (helsewhere : ∀ s, s ≠ t → m'.view.pageOf s = m.view.pageOf s ∧
      m'.view.regionOf s = m.view.regionOf s) (hmade : MadeAfresh effects m m')
    (hregion : ∀ {start region}, m'.view.regionOf t start = some region →
      m.view.regionOf t start = some region ∨ Opened m m' region.handle) : HandleFlow t m m' :=
  of_elsewhere h hcourse hissued helsewhere fun {x handle} hheld => by
    cases x with
    | region start =>
        obtain ⟨region, hfound, rfl⟩ := Option.map_eq_some_iff.1 hheld
        refine (hregion hfound).imp_left fun hold => ?_
        rw [View.held, hold, Option.map_some]
    | page n =>
        rcases hcourse.steps.held_page_old h.coherent hheld with hold | ⟨key, -, e, he, hbrings⟩
        · exact .inl hold
        · exact .inr (hmade e he hbrings)

theorem of_gone (h : Sound none m) (hcourse : Course effects none m none m')
    (hissued : ∀ f, m.issued f ≤ m'.issued f)
    (helsewhere : ∀ s, s ≠ t → m'.view.pageOf s = m.view.pageOf s ∧
      m'.view.regionOf s = m.view.regionOf s) (hgone : m'.view.directoryOf t = none) :
    HandleFlow t m m' :=
  of_elsewhere h hcourse hissued helsewhere fun {x handle} hheld => by
    cases x with
    | region start => simp [View.held, regionOf_of_closed hgone] at hheld
    | page n => simp [View.held, pageOf_of_closed hgone] at hheld

end HandleFlow

theorem Effect.Passing.not_brings {created : Nat} {e : Effect} (h : Effect.Passing created e)
    {key : Key Page} {handle : Handle} : ¬e.Brings key handle := by
  rintro hbrings
  cases h with
  | added => cases hbrings.2
  | _ => cases hbrings

section

variable {α : Type} {request : Request α} {answer : α}

theorem Outcome.handleFlow (h : Outcome s m m' request answer effects) (hsound : Sound none m)
    (hissued : ∀ f, m.issued f ≤ m'.issued f) : ∃ t, HandleFlow t m m' := by
  have hpages : PagesOnly s m m' → ∀ s', s' ≠ s → m'.view.pageOf s' = m.view.pageOf s' ∧
      m'.view.regionOf s' = m.view.regionOf s' := fun honly s' hs' =>
    ⟨honly.elsewhere s' hs', by rw [honly.regionOf]⟩
  have hsame : PagesOnly s m m' → ∀ {start region}, m'.view.regionOf s start = some region →
      m.view.regionOf s start = some region ∨ Opened m m' region.handle := by
    intro honly start region hregion
    rw [honly.regionOf] at hregion
    exact .inl hregion
  have hmapped : ∀ {f offset start length writable},
      FileMapped s f offset start length writable effects m m' → HandleFlow s m m' := by
    intro f offset start length writable h
    obtain ⟨_, handle, _, inserted, m₁, -, -, -, hinserted, -, -, hview⟩ := h.made
    refine .of_made hsound h.course hissued (fun s' hs' => ?_) h.opened.1
      fun {start'} region hregion => ?_
    · rw [hview, ← hinserted.pagesOnly.elsewhere s' hs', ← hinserted.pagesOnly.regionOf]
      exact ⟨rfl, Function.update_of_ne hs' _ _⟩
    · by_cases hstart : start' = start
      · exact .inr (h.opened.2 region (hstart ▸ hregion))
      · rw [hview] at hregion
        simp only [View.setRegion, Function.update_self, Function.update_of_ne hstart,
          hinserted.pagesOnly.regionOf] at hregion
        exact .inl hregion
  have hclosed : Closed s effects m m' → HandleFlow s m m' := fun h =>
    .of_gone hsound h.course hissued (fun s' hs' => ⟨(h.elsewhere s' hs').1,
      (h.elsewhere s' hs').2.1⟩) h.directoryOf
  cases h with
  | passed _ h =>
      exact ⟨s, .of_made hsound h.course hissued (hpages h.pagesOnly)
        (fun e he _ _ hbrings => absurd hbrings (h.passing e he).not_brings) (hsame h.pagesOnly)⟩
  | stored _ _ _ h =>
      refine ⟨s, .of_made hsound h.course hissued (hpages h.pagesOnly)
        (fun e he _ _ hbrings => ?_) (hsame h.pagesOnly)⟩
      rcases h.labels e he with hpassing | ⟨_, _, _, rfl⟩
      · exact absurd hbrings hpassing.not_brings
      · cases hbrings
  | loaded h =>
      obtain ⟨-, hopened, _, -, -, _, _, -, -, hinserted⟩ := h
      exact ⟨s, .of_made hsound hinserted.course hissued (hpages hinserted.pagesOnly) hopened
        (hsame hinserted.pagesOnly)⟩
  | mapped h => exact ⟨s, hmapped h⟩
  | descriptorMapped _ h => exact ⟨s, hmapped h⟩
  | @unmapped start region _ hregion h =>
      refine ⟨s, .of_made hsound h.course hissued (fun s' hs' => ⟨h.elsewhere s' hs', ?_⟩)
        (fun e he _ _ hbrings => ?_) fun {start'} found hfound => .inl ?_⟩
      · rw [h.regionOf, Function.update_of_ne hs']
      · rcases h.labels e he with rfl | ⟨_, _, _, rfl, -⟩ <;> cases hbrings
      · rw [h.regionOf, Function.update_self, Function.update_apply] at hfound
        split at hfound
        · cases hfound
        · exact hfound
  | nothingUnmapped _ h =>
      exact ⟨s, .of_made hsound h.course hissued (hpages h.pagesOnly) (fun e he => by cases he)
        (hsame h.pagesOnly)⟩
  | exited h => exact ⟨s, hclosed h⟩
  | dropped h => exact ⟨s, hclosed h⟩
  | forked h =>
      exact ⟨_, .of_elsewhere hsound h.course hissued (fun s' hs' => ⟨(h.elsewhere s' hs').1,
        (h.elsewhere s' hs').2.1⟩) fun hheld => .inr (h.afresh.opened hheld)⟩
  | forkFailed h =>
      exact ⟨_, .of_gone hsound h.course hissued (fun s' _ => by
        rw [h.pageOf, h.regionOf]
        exact ⟨rfl, rfl⟩) (by rw [h.directoryOf, h.fresh])⟩

end

/-! ### Runs -/

variable {start : Machine} {history : List Done}

/-- Whatever the run, no handle is held in two address spaces. -/
theorem Run.handleBooks (h : Run start history m) : HandleBooks m := by
  obtain ⟨hfresh, hreaches⟩ := h
  induction hreaches with
  | refl =>
      have hnone : ∀ s x handle, start.view.held s x ≠ some handle := by
        intro s x handle hheld
        cases x <;> simp [View.held, view, hfresh.spaces] at hheld
      exact ⟨fun hheld => absurd hheld (hnone _ _ _), fun hheld => absurd hheld (hnone _ _ _)⟩
  | @create _ m₁ m₂ name s hreaches hrun ih =>
      have hsound := hreaches.sound hfresh.sound
      have hcreated := returns_create hsound hrun
      refine ih.flow (.of_made (t := s) hsound hcreated.course (fun f => ?_) (fun s' _ => ?_)
        (fun e he _ _ hbrings => ?_) fun hregion => .inl (by rwa [hcreated.regionOf] at hregion))
      · rw [Machine.issued, Machine.issued, hcreated.files]
      · rw [hcreated.pageOf, hcreated.regionOf]
        exact ⟨rfl, rfl⟩
      · rw [List.mem_singleton.1 he] at hbrings
        cases hbrings
  | clients _ handles ih => exact ⟨ih.issued, ih.apart⟩
  | request hreaches hrun ih =>
      have hrun := (Request.returns_perform?.1 hrun).2
      have hsound := hreaches.sound hfresh.sound
      obtain ⟨effects, houtcome⟩ := Request.exists_outcome hsound hrun
      obtain ⟨t, hflow⟩ := houtcome.handleFlow hsound (Request.issued_le hrun)
      exact ih.flow hflow

end DemandPaging
