import DemandPaging.Proofs.Panics.Mapping
import DemandPaging.Proofs.Space.Places
import Mathlib.Algebra.Order.Floor.Div

/-!
Which ranges of pages are admitted.

A segment and a mapped file each fill a range of pages of their own. What may be asked for is plain
arithmetic: the range lies in user memory, does not start at address zero, meets no page that is
there, and shows a part of the file that ends within the words. The checks do this arithmetic on
words, where every sum and product may have none. Here they are shown to decide the plain conditions
for any numbers whatever, and the pages that are added are shown to be those of the range and no
others.
-/

namespace DemandPaging

open Machine Space

/-- A range of `count` pages that an address space may be given, showing a file from an offset on. -/
structure Admissible (space : AddressSpace) (va : VirtualAddress) (count offset : Nat) : Prop where
  notNull : va.toNat ≠ 0
  aligned : va.toNat % pageSize = 0
  offsetAligned : offset % pageSize = 0
  below : va.toNat + pageSize * count ≤ kernelBase
  free : ∀ n, Within va count n → space.pages[n]? = none
  words : offset + pageSize * count < 2 ^ 64

structure PagesAdded (s : Key AddressSpace) (va : VirtualAddress) (count : Nat) (writable : Bool)
    (m m' : Machine) : Prop where
  added : ∀ n, Within va count n → m.view.pageOf s n = none ∧ ∃ key page,
    m.view.page key = none ∧ m'.view.pageOf s n = some key ∧ m'.view.page key = some page ∧
      page.va.toNat = pageSize * n.toNat ∧ page.writable = writable ∧ page.isResident = false
  kept : ∀ s' n, (s' = s → ¬Within va count n) → m'.view.pageOf s' n = m.view.pageOf s' n
  old : ∀ {key page}, m.view.page key = some page → m'.view.page key = some page

section

variable {start m m' : Machine} {history : List Done} {s : Key AddressSpace} {space : AddressSpace}
  {f : Key File} {current : File} {va : VirtualAddress} {count offset length : Nat}
  {readBytes zeroBytes : Nat} {writable : Bool}

/-! ### Conditions -/

/-- The conditions that are checked on words are the plain ones. -/
theorem admissible_iff (hspace : m.spaces.get? s = some space) (hcount : 0 < count) :
    Admissible space va count offset ↔ va.isPageAligned = true ∧ offset % pageSize = 0 ∧
      OpenRange m s va count ∧ offset + count * pageSize < Word.limit := by
  have hnull : va.isNull = false ↔ va.toNat ≠ 0 := by simp [Address.isNull]
  have hkernel : va.isKernel = false ↔ va.toNat < kernelBase := by simp [Address.isKernel]
  have haligned : va.isPageAligned = true ↔ va.toNat % pageSize = 0 := by
    simp [Address.isPageAligned]
  constructor
  · rintro ⟨hne, halign, hoffset, hbelow, hfree, hwords⟩
    refine ⟨haligned.2 halign, hoffset, ⟨hnull.2 hne, hkernel.2 ?_, by rwa [Nat.mul_comm],
      fun n hle hlt => ?_⟩, by rwa [Nat.mul_comm]⟩
    · simp only [pageSize] at hbelow
      omega
    · rw [view_pageOf_eq hspace]
      exact hfree n ⟨hle, hlt⟩
  · rintro ⟨halign, hoffset, ⟨hne, -, hbelow, hfree⟩, hwords⟩
    refine ⟨hnull.1 hne, haligned.1 halign, hoffset, by rwa [Nat.mul_comm],
      fun n hn => ?_, by rwa [Nat.mul_comm]⟩
    rw [← view_pageOf_eq hspace]
    exact hfree n hn.1 hn.2

theorem mappable_iff (hspace : m.spaces.get? s = some space)
    (hfile : m.files.get? f = some current) : Mappable m s f offset va length ↔
      0 < length ∧ Admissible space va (length ⌈/⌉ pageSize) offset ∧ current.length ≠ 0 ∧
        m.canReopen f current = true := by
  have hceil : (length + (pageSize - 1)) / pageSize = length ⌈/⌉ pageSize := rfl
  have hcount : 0 < length → 0 < length ⌈/⌉ pageSize := fun hlength => by
    rw [← hceil]
    simp only [pageSize]
    omega
  constructor
  · rintro ⟨hoffset, hpositive, haligned, hrange, hwithin, _, hfound, hfull, hcan⟩
    cases hfile.symm.trans hfound
    have hpositive := Nat.pos_of_ne_zero hpositive
    exact ⟨hpositive, (admissible_iff hspace (hcount hpositive)).2
      ⟨haligned, hoffset, hrange, hwithin⟩, hfull, hcan⟩
  · rintro ⟨hpositive, hadmissible, hfull, hcan⟩
    obtain ⟨haligned, hoffset, hrange, hwithin⟩ :=
      (admissible_iff hspace (hcount hpositive)).1 hadmissible
    exact ⟨hoffset, hpositive.ne', haligned, hrange, hwithin, current, hfile, hfull, hcan⟩

theorem loadable_iff (hspace : m.spaces.get? s = some space)
    (hfile : m.files.get? f = some current) : Loadable m s f offset va readBytes zeroBytes ↔
      readBytes + zeroBytes < 2 ^ 64 ∧ 0 < readBytes + zeroBytes ∧
        (readBytes + zeroBytes) % pageSize = 0 ∧
        Admissible space va ((readBytes + zeroBytes) / pageSize) offset ∧
        (0 < readBytes → m.canReopen f current = true) := by
  have hcount : 0 < readBytes + zeroBytes → (readBytes + zeroBytes) % pageSize = 0 →
      0 < (readBytes + zeroBytes) / pageSize := fun hpositive hwhole => by
    simp only [pageSize] at hwhole ⊢
    omega
  have hback : (readBytes + zeroBytes) % pageSize = 0 →
      (readBytes + zeroBytes) / pageSize * pageSize = readBytes + zeroBytes := fun hwhole =>
    Nat.div_mul_cancel (Nat.dvd_of_mod_eq_zero hwhole)
  constructor
  · rintro ⟨haligned, hoffset, htotal, hpositive, hwhole, hrange, hwithin, hhandle⟩
    have hpositive := Nat.pos_of_ne_zero hpositive
    refine ⟨htotal, hpositive, hwhole, (admissible_iff hspace (hcount hpositive hwhole)).2
      ⟨haligned, hoffset, hrange, by rwa [hback hwhole]⟩, fun hreads => ?_⟩
    obtain ⟨_, hfound, hcan⟩ := hhandle hreads
    cases hfile.symm.trans hfound
    exact hcan
  · rintro ⟨htotal, hpositive, hwhole, hadmissible, hcan⟩
    obtain ⟨haligned, hoffset, hrange, hwithin⟩ :=
      (admissible_iff hspace (hcount hpositive hwhole)).1 hadmissible
    rw [hback hwhole] at hwithin
    exact ⟨haligned, hoffset, htotal, hpositive.ne', hwhole, hrange, hwithin,
      fun hreads => ⟨current, hfile, hcan hreads⟩⟩

/-! ### Pages -/

/-- A run of pages that are made for a range fills it and nothing else. -/
theorem Space.Inserted.pagesAdded {make : Nat → Except Panic Page} {pages : List Page}
    {effects : List Effect} (h : Inserted s pages effects m m')
    (hpages : (List.range count).mapM make = .ok pages)
    (hmake : ∀ {index page}, make index = .ok page →
      MadeFor va index page ∧ page.writable = writable) : PagesAdded s va count writable m m' where
  added n hn := by
    obtain ⟨page, hmem, hpage⟩ := exists_of_mapM_eq_ok hpages
      (List.mem_range.2 (show n.toNat - va.number.toNat < count by have := hn.1; have := hn.2; omega))
    obtain ⟨hmade, hwritable⟩ := hmake hpage
    obtain rfl : page.va.number = n := Number.ext (by rw [hmade.number]; have := hn.1; omega)
    obtain ⟨hfree, key, source, hplace, hcreated, hfound, -, -⟩ := h.placed page hmem
    refine ⟨hfree, key, page, ?_, hplace, hfound, ?_, hwritable, by
      rw [Page.isResident, hmade.absent]; rfl⟩
    · by_contra hthere
      exact absurd (Arena.index_lt_of_get? hthere) (Nat.not_lt.2 hcreated)
    · rw [Nat.mul_comm, Address.number_mul_pageSize page.aligned]
  kept s' n hn := by
    by_cases hs : s' = s
    · subst hs
      refine h.kept n fun page hmem he => hn rfl ?_
      obtain ⟨index, hindex, hpage⟩ := (mem_of_mapM_eq_ok hpages).1 hmem
      have hnumber := (hmake hpage).1.number
      have hlt := List.mem_range.1 hindex
      rw [he] at hnumber
      exact ⟨by omega, by omega⟩
    · rw [h.pagesOnly.elsewhere s' hs]
  old {key page} hpage := by
    have hthere : m.view.page key ≠ none := by
      rw [hpage]
      exact Option.some_ne_none _
    exact (h.old key (Arena.index_lt_of_get? hthere)).trans hpage

theorem Space.SegmentLoaded.pagesAdded {effects : List Effect}
    (h : SegmentLoaded s f offset va readBytes zeroBytes writable effects m m') :
    PagesAdded s va ((readBytes + zeroBytes) / pageSize) writable m m' := by
  obtain ⟨handle, -, -, count, pages, hcount, hpages, hinserted⟩ := h.made
  rw [← hcount, Nat.mul_div_cancel _ (by decide)]
  refine hinserted.pagesAdded hpages fun hpage => ?_
  obtain ⟨hmade, hwritable, -⟩ := segmentPage_eq_ok hpage
  exact ⟨hmade, hwritable⟩

/-- Registering the region after its pages are added changes no page. -/
theorem Space.FileMapped.pagesAdded {effects : List Effect}
    (h : FileMapped s f offset va length writable effects m m') :
    PagesAdded s va (length ⌈/⌉ pageSize) writable m m' := by
  obtain ⟨current, handle, pages, inserted, m₁, -, -, hpages, hinserted, -, -, hview⟩ := h.made
  obtain ⟨hadded, hkept, hold⟩ : PagesAdded s va (length ⌈/⌉ pageSize) writable m m₁ :=
    hinserted.pagesAdded hpages fun hpage => by
      obtain ⟨hmade, hwritable, -⟩ := filePage_eq_ok hpage
      exact ⟨hmade, hwritable⟩
  have hpage : m'.view.page = m₁.view.page := by rw [hview]; rfl
  have hpageOf : m'.view.pageOf = m₁.view.pageOf := by rw [hview]; rfl
  simp only [← hpage, ← hpageOf] at hadded hkept hold
  exact ⟨hadded, hkept, hold⟩

end

/-! ### Requests -/

variable {start m : Machine} {history : List Done} {s : Key AddressSpace} {space : AddressSpace}
  {file : Handle} {current : File}

/-- A file is mapped, or a segment registered, exactly if the plain conditions hold, and then just
the pages of the range are added. -/
theorem Run.admitted (h : Run start history m) (hspace : m.spaces.get? s = some space)
    (hfile : m.files.get? file.file = some current) (va : VirtualAddress)
    (offset length readBytes zeroBytes : Nat) (writable : Bool) :
    Completes ((Request.mapFile va length writable file offset).perform? s) m (fun answer m' =>
      (answer = some (.ok va) ↔ 0 < length ∧ Admissible space va (length ⌈/⌉ pageSize) offset ∧
        current.length ≠ 0 ∧ m.canReopen file.file current = true) ∧
      ∀ va', answer = some (.ok va') →
        va' = va ∧ PagesAdded s va (length ⌈/⌉ pageSize) writable m m') ∧
    Completes ((Request.loadSegment file offset va readBytes zeroBytes writable).perform? s) m
      (fun answer m' =>
        (answer = some (.ok ()) ↔ readBytes + zeroBytes < 2 ^ 64 ∧ 0 < readBytes + zeroBytes ∧
          (readBytes + zeroBytes) % pageSize = 0 ∧
          Admissible space va ((readBytes + zeroBytes) / pageSize) offset ∧
          (0 < readBytes → m.canReopen file.file current = true)) ∧
        (answer = some (.ok ()) →
          PagesAdded s va ((readBytes + zeroBytes) / pageSize) writable m m')) := by
  have hthere : m.view.file file.file ≠ none := by
    simp only [view, hfile, Option.map_some]
    exact Option.some_ne_none _
  constructor
  · rw [← mappable_iff hspace hfile]
    refine Request.ends_perform? hspace ((panicsOnly_mapFile ⟨space, hspace⟩ hthere).completes
      fun answer m' hrun => ?_)
    rcases answers_mapFile_iff hrun with ⟨cause, rfl, -, hnot⟩ |
      ⟨hmappable, _, handle, m₁, hcurrent, hreopen, hmade⟩
    · exact ⟨⟨fun he => (by cases he), fun h => absurd h hnot⟩, fun _ he => by cases he⟩
    · obtain ⟨rfl, effects, hmapped⟩ := hmappable.fileMapped h.sound hcurrent hreopen (fun _ => rfl) hmade
      exact ⟨⟨fun _ => hmappable, fun _ => rfl⟩, fun _ he => by cases he; exact ⟨rfl, hmapped.pagesAdded⟩⟩
  · rw [← loadable_iff hspace hfile]
    refine Request.ends_perform? hspace ((panicsOnly_loadSegment ⟨space, hspace⟩ hthere).completes
      fun answer m' hrun => ?_)
    rcases answers_loadSegment_iff hrun with ⟨cause, rfl, -, hnot⟩ |
      ⟨hloadable, handle, m₁, hopen, hmade⟩
    · exact ⟨⟨fun he => (by cases he), fun h => absurd h hnot⟩, fun he => by cases he⟩
    · obtain ⟨rfl, effects, hloaded⟩ := hloadable.segmentLoaded h.sound hopen (fun _ => rfl) hmade
      exact ⟨⟨fun _ => hloadable, fun _ => rfl⟩, fun _ => hloaded.pagesAdded⟩

/-- The last two pages of user memory are given to a file of two bytes. -/
theorem admitted_of_lastPages : ∃ s space history m current,
    Run (bare 1 0 (Arena.empty.add (.ofData #[1, 2] none))) history m ∧
      m.spaces.get? s = some space ∧ m.files.get? ⟨0⟩ = some current ∧
        Completes ((Request.mapFile ⟨kernelBase - 2 * pageSize, by decide⟩ (pageSize + 1) true
          ⟨⟨0⟩, 0⟩ 0).perform? s) m fun answer m' =>
            answer = some (.ok ⟨kernelBase - 2 * pageSize, by decide⟩) ∧
              PagesAdded s ⟨kernelBase - 2 * pageSize, by decide⟩ 2 true m m' := by
  have htest : returnsWith (Space.create "init") (bare 1 0 (Arena.empty.add (.ofData #[1, 2] none)))
      (fun s m => (m.spaces.get? s).any (·.pages.isEmpty) &&
        (m.files.get? ⟨0⟩).any (fun file => file.length != 0 && m.canReopen ⟨0⟩ file)) = true := by
    decide +kernel
  obtain ⟨s, m, hcreate, htest⟩ := exists_returns htest
  rw [Bool.and_eq_true, Option.any_eq_true, Option.any_eq_true] at htest
  obtain ⟨⟨space, hspace, hempty⟩, current, hfile, htest⟩ := htest
  rw [Bool.and_eq_true, bne_iff_ne] at htest
  have hrun : Run (bare 1 0 (Arena.empty.add (.ofData #[1, 2] none))) [] m :=
    ⟨fresh_bare _ _ _, .create .refl hcreate⟩
  have hadmissible : Admissible space ⟨kernelBase - 2 * pageSize, by decide⟩ 2 0 :=
    ⟨by decide, by decide, by decide, by decide,
      fun _ _ => by rw [Std.ExtTreeMap.isEmpty_iff.1 hempty, Std.ExtTreeMap.getElem?_empty],
      by decide⟩
  refine ⟨s, space, [], m, current, hrun, hspace, hfile,
    (hrun.admitted hspace hfile ⟨kernelBase - 2 * pageSize, by decide⟩ 0 (pageSize + 1) 0 0 true).1.mono
      (fun answer m' _ hpost => ?_) fun _ _ => id⟩
  have hok := hpost.1.2 ⟨by decide, hadmissible, htest.1, htest.2⟩
  exact ⟨hok, (hpost.2 _ hok).2⟩

end DemandPaging
