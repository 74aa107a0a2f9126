import DemandPaging.Proofs.FlatMemory
import DemandPaging.Proofs.Space.Labels

/-!
Regions.

A region names a range of pages that were put into free places when the file was mapped. The pages
stay as long as the region does, and no other region of the address space has any of them. So what a
request takes away from one region it does not take from another.
-/

namespace DemandPaging

open Machine Space

/-- Every page of a region is in its place, and no page is in two regions. -/
structure RegionsPlaced (v : View) : Prop where
  start : ∀ {s start region}, v.regionOf s start = some region → region.start = start
  placed : ∀ {s start region n}, v.regionOf s start = some region → region.Has n →
    v.pageOf s n ≠ none
  apart : ∀ {s start start' region region' n}, v.regionOf s start = some region →
    v.regionOf s start' = some region' → region.Has n → region'.Has n → start = start'

section

variable {m m' : Machine} {s : Key AddressSpace} {effects : List Effect} {v v' : View}

/-- Regions may go, as long as no page of the others does. -/
theorem RegionsPlaced.mono (h : RegionsPlaced v)
    (hregion : ∀ {s start region}, v'.regionOf s start = some region →
      v.regionOf s start = some region)
    (hplace : ∀ {s start region n}, v'.regionOf s start = some region → region.Has n →
      v.pageOf s n ≠ none → v'.pageOf s n ≠ none) : RegionsPlaced v' where
  start hstart := h.start (hregion hstart)
  placed hstart hn := hplace hstart hn (h.placed (hregion hstart) hn)
  apart hstart hstart' := h.apart (hregion hstart) (hregion hstart')

/-! ### Mapping -/

structure FilePageAt (f : Key File) (start : VirtualAddress) (offset mapped : Nat)
    (n : PageNumber) (page : Page) (slice : FileSlice) : Prop where
  contents : page.contents = .pending (.file slice)
  absent : page.frame = none
  file : slice.handle.file = f
  offset : slice.offset = offset + (n.toNat - start.number.toNat) * pageSize
  readBytes : slice.readBytes = bytesInPage mapped (n.toNat - start.number.toNat)

namespace Space.FileMapped

variable {f : Key File} {start : VirtualAddress} {length offset : Nat} {writable : Bool}
  {n : PageNumber}

theorem exists_page (h : FileMapped s f offset start length writable effects m m')
    (hn : start.number.toNat ≤ n.toNat)
    (hn' : n.toNat < start.number.toNat + (length + (pageSize - 1)) / pageSize) :
    m.view.pageOf s n = none ∧ ∃ key page slice, m'.view.pageOf s n = some key ∧
      m'.view.page key = some page ∧ m.view.created ≤ key.index ∧ page.writable = writable ∧
      FilePageAt f start offset (min (m.fileLength f - offset) length) n page slice ∧
      ∀ memory : Memory, memory.after effects key = m.view.shown slice := by
  obtain ⟨-, -, -, current, handle, pages, inserted, m₁, hcurrent, rfl, hpages, hinserted, rfl, -,
    hview⟩ := h
  have hlength : m.fileLength handle.file = current.length :=
    (fileLength_of_file (view_file_eq hcurrent)).trans rfl
  obtain ⟨page, hpage, hmake⟩ := exists_of_mapM_eq_ok hpages
    (List.mem_range.2 (show n.toNat - start.number.toNat < _ by omega))
  obtain ⟨hmade, hwritable, slice, hcontents, rfl, hoffset, hbytes⟩ := filePage_eq_ok hmake
  obtain rfl : page.va.number = n := Number.ext (by
    rw [hmade.number]
    omega)
  obtain ⟨hfree, key, source, hplace, hnew, hfound, hsource, hmemory⟩ := hinserted.placed page hpage
  cases hcontents.symm.trans hsource
  refine ⟨hfree, key, page, slice, by rw [hview]; exact hplace, by rw [hview]; exact hfound, hnew,
    hwritable, ⟨hcontents, hmade.absent, rfl, hoffset, by rw [hlength, hbytes]⟩, fun memory => ?_⟩
  rw [Memory.after_append, ← show m.view.pendingBytes (.file slice) = m.view.shown slice from rfl,
    ← hmemory memory]
  rfl

theorem page_old_or (h : FileMapped s f offset start length writable effects m m')
    (hsound : Sound none m) {key : Key Page} {page : Page} (hpage : m'.view.page key = some page) :
    m.view.page key = some page ∨ m'.view.pageOf s page.va.number = some key ∧
      start.number.toNat ≤ page.va.number.toNat ∧
      page.va.number.toNat < start.number.toNat + (length + (pageSize - 1)) / pageSize := by
  have hcoherent := h.course.sound hsound |>.coherent
  obtain ⟨-, -, -, current, handle, pages, inserted, m₁, hcurrent, rfl, hpages, hinserted, rfl, -,
    hview⟩ := h
  by_cases hold : key.index < m.view.created
  · rw [hview] at hpage
    exact .inl ((hinserted.old key hold).symm.trans hpage)
  have hnew : ∀ s' n, m.view.pageOf s' n ≠ some key := fun s' n hplace => by
    obtain ⟨p, hp, -⟩ := hsound.coherent.placement.placed hplace
    exact hold (hsound.coherent.placement.created hp)
  obtain ⟨s', hplace⟩ := hcoherent.placement.held hpage
  have hplace₁ := hplace
  rw [hview] at hplace₁
  obtain rfl : s' = s := by
    by_contra hne
    exact hnew s' _ ((congrFun (hinserted.pagesOnly.elsewhere s' hne) _).symm.trans hplace₁)
  by_cases hrange : ∃ made ∈ pages, made.va.number = page.va.number
  · obtain ⟨made, hmem, hnumber⟩ := hrange
    obtain ⟨index, hindex, hmake⟩ := (mem_of_mapM_eq_ok hpages).1 hmem
    have hat := (filePage_eq_ok hmake).1.number
    have hlt := List.mem_range.1 hindex
    rw [hnumber] at hat
    exact .inr ⟨hplace, by omega, by omega⟩
  · exact absurd ((hinserted.kept _ fun made hmem hnumber => hrange ⟨made, hmem, hnumber⟩).symm.trans
      hplace₁) (hnew _ _)

theorem file_eq (h : FileMapped s f offset start length writable effects m m') :
    m'.view.file = m.view.file := by
  obtain ⟨-, -, -, current, handle, pages, inserted, m₁, -, rfl, -, hinserted, -, -, hview⟩ := h
  obtain ⟨page, created, pageOf, hsame⟩ := hinserted.same
  rw [hview, hsame]
  rfl

theorem regionOf_eq (h : FileMapped s f offset start length writable effects m m') :
    ∃ handle, handle.file = f ∧ m'.view.regionOf = Function.update m.view.regionOf s
      (Function.update (m.view.regionOf s) start
        (some ⟨start, (length + (pageSize - 1)) / pageSize, handle, offset, writable⟩)) := by
  obtain ⟨-, -, -, current, handle, pages, inserted, m₁, -, rfl, -, hinserted, -, -, hview⟩ := h
  refine ⟨handle, rfl, ?_⟩
  rw [hview, ← hinserted.pagesOnly.regionOf]
  rfl

theorem exists_region (h : FileMapped s f offset start length writable effects m m') :
    ∃ handle, handle.file = f ∧ m'.view.regionOf s start =
      some ⟨start, (length + (pageSize - 1)) / pageSize, handle, offset, writable⟩ := by
  obtain ⟨handle, hfile, hregionOf⟩ := h.regionOf_eq
  exact ⟨handle, hfile, by rw [hregionOf, Function.update_self, Function.update_self]⟩

theorem regionOf_old_or (h : FileMapped s f offset start length writable effects m m')
    {s' : Key AddressSpace} {start' : VirtualAddress} {region : Region}
    (hregion : m'.view.regionOf s' start' = some region) :
    m.view.regionOf s' start' = some region ∨ s' = s ∧ start' = start ∧
      ∃ handle, handle.file = f ∧
        region = ⟨start, (length + (pageSize - 1)) / pageSize, handle, offset, writable⟩ := by
  obtain ⟨handle, hfile, hregionOf⟩ := h.regionOf_eq
  rw [hregionOf, Function.update_apply] at hregion
  split at hregion
  · next hs =>
    subst hs
    rw [Function.update_apply] at hregion
    split at hregion
    · next he =>
      cases hregion
      exact .inr ⟨rfl, he, handle, hfile, rfl⟩
    · exact .inl hregion
  · exact .inl hregion

end Space.FileMapped

/-- What is mapped is put where no page was, so it is apart from every other region. -/
theorem RegionsPlaced.mapped {f : Key File} {start : VirtualAddress} {length offset : Nat}
    {writable : Bool} (h : RegionsPlaced m.view)
    (hmapped : FileMapped s f offset start length writable effects m m')
    (hkept : ∀ {s' n key}, m.view.pageOf s' n = some key → m'.view.pageOf s' n = some key) :
    RegionsPlaced m'.view := by
  have hplaced : ∀ {s' n}, m.view.pageOf s' n ≠ none → m'.view.pageOf s' n ≠ none := by
    intro s' n hsome
    obtain ⟨key, hplace⟩ := Option.ne_none_iff_exists'.1 hsome
    rw [hkept hplace]
    exact Option.some_ne_none _
  have hnew : ∀ {handle n},
      Region.Has ⟨start, (length + (pageSize - 1)) / pageSize, handle, offset, writable⟩ n →
        m.view.pageOf s n = none ∧ m'.view.pageOf s n ≠ none := by
    rintro handle n ⟨hle, hlt⟩
    obtain ⟨hfree, key, _, _, hplace, -⟩ := hmapped.exists_page hle hlt
    rw [hplace]
    exact ⟨hfree, Option.some_ne_none _⟩
  refine ⟨fun hregion => ?_, fun hregion hn => ?_, fun hregion hregion' hn hn' => ?_⟩
  · rcases hmapped.regionOf_old_or hregion with hregion | ⟨-, rfl, _, -, rfl⟩
    · exact h.start hregion
    · rfl
  · rcases hmapped.regionOf_old_or hregion with hregion | ⟨rfl, rfl, _, -, rfl⟩
    · exact hplaced (h.placed hregion hn)
    · exact (hnew hn).2
  · rcases hmapped.regionOf_old_or hregion with hregion | ⟨rfl, rfl, _, -, rfl⟩
    · rcases hmapped.regionOf_old_or hregion' with hregion' | ⟨rfl, rfl, _, -, rfl⟩
      · exact h.apart hregion hregion' hn hn'
      · exact absurd (hnew hn').1 (h.placed hregion hn)
    · rcases hmapped.regionOf_old_or hregion' with hregion' | ⟨-, rfl, -⟩
      · exact absurd (hnew hn).1 (h.placed hregion' hn')
      · rfl

/-- A region of a copy was copied from the one that starts where it does. -/
theorem Space.Forked.exists_original {child : Key AddressSpace}
    (h : Forked s child effects m m') (hregions : RegionsPlaced m.view) {start : VirtualAddress}
    {region : Region} (hregion : m'.view.regionOf child start = some region) :
    ∃ original, m.view.regionOf s start = some original ∧ original.Reopened region := by
  obtain ⟨start', original, horiginal, hstart, hreopened⟩ := h.copied.regionOf start region hregion
  cases (hregions.start horiginal).symm.trans hstart
  exact ⟨original, horiginal, hreopened⟩

theorem Region.Reopened.has_iff {region copy : Region} (h : region.Reopened copy)
    (n : PageNumber) : copy.Has n ↔ region.Has n := by
  rw [Has, Has, h.start, h.pages]

/-- The regions of a copy have the ranges of the regions they were copied from. -/
theorem RegionsPlaced.forked {child : Key AddressSpace} (h : RegionsPlaced m.view)
    (hforked : Forked s child effects m m') : RegionsPlaced m'.view := by
  have hplaced : ∀ {n}, m.view.pageOf s n ≠ none → m'.view.pageOf child n ≠ none := by
    intro n hsome
    obtain ⟨key, hplace⟩ := Option.ne_none_iff_exists'.1 hsome
    obtain ⟨copy, hcopy, -⟩ := hforked.copied.place n key hplace
    rw [hcopy]
    exact Option.some_ne_none _
  have helsewhere : ∀ {s'}, s' ≠ child → m'.view.pageOf s' = m.view.pageOf s' ∧
      m'.view.regionOf s' = m.view.regionOf s' := fun hs =>
    ⟨(hforked.elsewhere _ hs).1, (hforked.elsewhere _ hs).2.1⟩
  refine ⟨fun {s' start region} hregion => ?_, fun {s' start region n} hregion hn => ?_,
    fun {s' start start' region region' n} hregion hregion' hn hn' => ?_⟩ <;>
    by_cases hs : s' = child
  · subst hs
    obtain ⟨original, horiginal, hreopened⟩ := hforked.exists_original h hregion
    exact hreopened.start.trans (h.start horiginal)
  · rw [(helsewhere hs).2] at hregion
    exact h.start hregion
  · subst hs
    obtain ⟨original, horiginal, hreopened⟩ := hforked.exists_original h hregion
    exact hplaced (h.placed horiginal ((hreopened.has_iff n).1 hn))
  · rw [(helsewhere hs).2] at hregion
    rw [(helsewhere hs).1]
    exact h.placed hregion hn
  · subst hs
    obtain ⟨original, horiginal, hreopened⟩ := hforked.exists_original h hregion
    obtain ⟨original', horiginal', hreopened'⟩ := hforked.exists_original h hregion'
    exact h.apart horiginal horiginal' ((hreopened.has_iff n).1 hn) ((hreopened'.has_iff n).1 hn')
  · rw [(helsewhere hs).2] at hregion hregion'
    exact h.apart hregion hregion' hn hn'

/-! ### Requests -/

section

variable {α : Type} {request : Request α} {answer : α} {s' : Key AddressSpace}
  {start : VirtualAddress} {region : Region}

theorem Outcome.regionOf_kept (h : Outcome s m m' request answer effects)
    (hregions : RegionsPlaced m.view) (hregion : m.view.regionOf s' start = some region)
    (hpages : 0 < region.pages) :
    m'.view.regionOf s' start = some region ∨ s' = s ∧ request.Ends start := by
  have hsame : m'.view.regionOf = m.view.regionOf → m'.view.regionOf s' start = some region :=
    fun he => by rw [he, hregion]
  have hmapped : ∀ {file length offset start₁ writable},
      FileMapped s file offset start₁ length writable effects m m' →
      m'.view.regionOf s' start = some region := by
    intro file length offset start₁ writable hmapped
    obtain ⟨handle, -, hregionOf⟩ := hmapped.regionOf_eq
    rw [hregionOf, Function.update_apply]
    split
    · next hs =>
      subst hs
      rw [Function.update_apply]
      split
      · next he =>
        -- the page at the start of the region is there, so nothing can be mapped there
        subst he
        have hstart := hregions.start hregion
        have hplaced := hregions.placed hregion (n := start.number) ⟨by rw [hstart], by
          rw [hstart]
          omega⟩
        have hcount : 0 < (length + (pageSize - 1)) / pageSize := Nat.div_pos (by
          have hpositive := hmapped.positive
          simp only [pageSize]
          omega) (by decide)
        exact absurd (hmapped.exists_page (Nat.le_refl _) (by omega)).1 hplaced
      · exact hregion
    · exact hregion
  cases h with
  | passed _ h => exact .inl (hsame h.pagesOnly.regionOf)
  | stored _ _ _ h => exact .inl (hsame h.pagesOnly.regionOf)
  | loaded h =>
      obtain ⟨-, -, _, -, -, _, _, -, -, hinserted⟩ := h
      exact .inl (hsame hinserted.pagesOnly.regionOf)
  | mapped h => exact .inl (hmapped h)
  | descriptorMapped _ h => exact .inl (hmapped h)
  | @unmapped start₁ _ _ _ h =>
      by_cases hhere : s' = s ∧ start₁ = start
      · exact .inr ⟨hhere.1, hhere.2⟩
      · refine .inl ?_
        rw [h.regionOf, Function.update_apply]
        split
        · next hs =>
          subst hs
          rw [Function.update_of_ne fun he => hhere ⟨rfl, he.symm⟩, hregion]
        · exact hregion
  | nothingUnmapped _ h => exact .inl (hsame h.pagesOnly.regionOf)
  | exited h =>
      by_cases hs : s' = s
      · exact .inr ⟨hs, trivial⟩
      · exact .inl (by rw [(h.elsewhere s' hs).2.1, hregion])
  | dropped h =>
      by_cases hs : s' = s
      · exact .inr ⟨hs, trivial⟩
      · exact .inl (by rw [(h.elsewhere s' hs).2.1, hregion])
  | @forked _ child _ h =>
      have hs : s' ≠ child := by
        rintro rfl
        rw [regionOf_of_closed h.fresh] at hregion
        cases hregion
      exact .inl (by rw [(h.elsewhere s' hs).2.1, hregion])
  | forkFailed h => exact .inl (hsame h.regionOf)

/-- Regions that are closed or forgotten take only their own pages along. -/
theorem Space.Closed.regionsPlaced (h : Closed s effects m m') (hregions : RegionsPlaced m.view) :
    RegionsPlaced m'.view := by
  have hne : ∀ {s' start region}, m'.view.regionOf s' start = some region → s' ≠ s := by
    rintro s' start region hregion rfl
    rw [h.regionOf] at hregion
    cases hregion
  refine hregions.mono (fun hregion => ?_) fun hregion _ hsome => ?_
  · rwa [(h.elsewhere _ (hne hregion)).2.1] at hregion
  · rwa [(h.elsewhere _ (hne hregion)).1]

theorem Space.FileUnmapped.regionsPlaced (h : FileUnmapped s start region effects m m')
    (hregion : m.view.regionOf s start = some region) (hregions : RegionsPlaced m.view) :
    RegionsPlaced m'.view := by
  have hold : ∀ {s' start' region'}, m'.view.regionOf s' start' = some region' →
      m.view.regionOf s' start' = some region' ∧ ¬(s' = s ∧ start' = start) := by
    intro s' start' region' hregion'
    rw [h.regionOf, Function.update_apply] at hregion'
    split at hregion'
    · next hs =>
      subst hs
      rw [Function.update_apply] at hregion'
      split at hregion'
      · cases hregion'
      · next hne => exact ⟨hregion', fun hand => hne hand.2⟩
    · next hne => exact ⟨hregion', fun hand => hne hand.1⟩
  refine hregions.mono (fun hregion' => (hold hregion').1)
    fun {s' start' region' n} hregion' hn hsome => ?_
  obtain ⟨hbefore, hne⟩ := hold hregion'
  by_cases hs : s' = s
  · subst hs
    rw [h.place]
    split
    · next hhas => exact absurd ⟨rfl, hregions.apart hbefore hregion hn hhas⟩ hne
    · exact hsome
  · rwa [h.elsewhere s' hs]

theorem Outcome.regionsPlaced (h : Outcome s m m' request answer effects) (hsound : Sound none m)
    (hregions : RegionsPlaced m.view) : RegionsPlaced m'.view := by
  have hkept : (∀ start, ¬request.Ends start) → ∀ {s' n key}, m.view.pageOf s' n = some key →
      m'.view.pageOf s' n = some key := fun hends _ _ _ hplace =>
    (h.pageOf_kept hsound hplace).resolve_right fun ⟨_, start, hand, _⟩ => hends start hand
  have hsame : m'.view.regionOf = m.view.regionOf → (∀ start, ¬request.Ends start) →
      RegionsPlaced m'.view := by
    intro hsame hends
    refine hregions.mono (fun {_ _ _} => by rw [hsame]; exact id) fun _ _ hsome => ?_
    obtain ⟨key, hplace⟩ := Option.ne_none_iff_exists'.1 hsome
    rw [hkept hends hplace]
    exact Option.some_ne_none _
  cases h with
  | passed hquiet h =>
      refine hsame h.pagesOnly.regionOf fun start hends => ?_
      cases request with
      | unmapFile | exit | drop => exact hquiet
      | _ => exact hends
  | stored _ _ _ h => exact hsame h.pagesOnly.regionOf fun _ => id
  | loaded h =>
      obtain ⟨-, -, _, -, -, _, _, -, -, hinserted⟩ := h
      exact hsame hinserted.pagesOnly.regionOf fun _ => id
  | mapped h => exact hregions.mapped h (hkept fun _ => id)
  | descriptorMapped _ h => exact hregions.mapped h (hkept fun _ => id)
  | unmapped hregion h => exact h.regionsPlaced hregion hregions
  | nothingUnmapped _ h =>
      refine hregions.mono (fun {_ _ _} => by rw [h.pagesOnly.regionOf]; exact id) fun _ _ hsome => ?_
      obtain ⟨key, hplace⟩ := Option.ne_none_iff_exists'.1 hsome
      obtain ⟨page, hpage, -⟩ := hsound.coherent.placement.placed hplace
      rw [(h.page_kept hsound hpage).2 _ _ hplace]
      exact Option.some_ne_none _
  | exited h => exact h.regionsPlaced hregions
  | dropped h => exact h.regionsPlaced hregions
  | forked h => exact hregions.forked h
  | forkFailed h => exact hsame h.regionOf fun _ => id

end

end

theorem Run.regionsPlaced {start m : Machine} {history : List Done} (h : Run start history m) :
    RegionsPlaced m.view := by
  obtain ⟨hfresh, hreaches⟩ := h
  have hnone : RegionsPlaced start.view := by
    constructor <;> simp [view, hfresh.spaces]
  induction hreaches with
  | refl => exact hnone
  | create hreaches hrun ih =>
      have hcreated := returns_create (hreaches.sound hfresh.sound) hrun
      refine ih.mono (fun {_ _ _} => by rw [hcreated.regionOf]; exact id) fun _ _ => ?_
      rw [hcreated.pageOf]
      exact id
  | clients _ _ ih => exact ih
  | request hreaches hrun ih =>
      have hsound := hreaches.sound hfresh.sound
      obtain ⟨effects, houtcome⟩ := Request.exists_outcome hsound (Request.returns_perform?.1 hrun).2
      exact houtcome.regionsPlaced hsound ih

end DemandPaging
