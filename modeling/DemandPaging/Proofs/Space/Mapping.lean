import DemandPaging.Proofs.Handles
import DemandPaging.Proofs.Machine.Copies
import DemandPaging.Proofs.Space.Faults
import DemandPaging.Proofs.Space.Others

/-!
Segments, the first stack page, and mapped files.

A request to map something is checked in full first, and among the checks is one for the range of
pages. So once pages are made and inserted nothing can go wrong any more: a request that is refused
leaves everything as it was, and one that is granted puts a page into every place of the range.
-/

namespace DemandPaging.Space

open Machine

variable {m m' : Machine} {s : Key AddressSpace}

/-! ### Runs of pages -/

/-- A page that is made for the place `index` of a run from an address on. -/
structure MadeFor (start : VirtualAddress) (index : Nat) (page : Page) : Prop where
  va : page.va.toNat = start.toNat + index * pageSize
  pending : ∃ source, page.contents = .pending source
  absent : page.frame = none
  holders : page.holders = 1

theorem MadeFor.number {start : VirtualAddress} {index : Nat} {page : Page}
    (h : MadeFor start index page) : page.va.number.toNat = start.number.toNat + index := by
  rw [Address.toNat_number, h.va, Address.toNat_number, Nat.add_mul_div_right _ _ (by decide)]

/-- The pages of a run that is made for a free range have places of their own, and all are free. -/
theorem MadeFor.places {make : Nat → Except Panic Page} {start : VirtualAddress} {count : Nat}
    {pages : List Page} (hpages : (List.range count).mapM make = .ok pages)
    (hmake : ∀ {index page}, make index = .ok page → MadeFor start index page)
    (hfree : ∀ n : PageNumber, start.number.toNat ≤ n.toNat →
      n.toNat < start.number.toNat + count → m.view.pageOf s n = none) :
    (∀ page ∈ pages, m.view.pageOf s page.va.number = none) ∧
      (pages.map (·.va.number)).Nodup := by
  have hnumbers : pages.map (·.va.number) =
      (List.range count).map fun index => (⟨start.number.toNat + index⟩ : PageNumber) :=
    map_of_mapM_eq_ok hpages fun index _ page hpage => Number.ext (hmake hpage).number
  constructor
  · intro page hpage
    obtain ⟨index, hmem, hindex⟩ := (mem_of_mapM_eq_ok hpages).1 hpage
    have hlt := List.mem_range.1 hmem
    have hnumber := (hmake hindex).number
    exact hfree _ (by omega) (by omega)
  · rw [hnumbers]
    refine List.Nodup.map (fun i j he => ?_) List.nodup_range
    have hsame := congrArg Number.toNat he
    simp only at hsame
    omega

/-- A run of pages that are made for a free range is inserted in full. -/
theorem answers_insertRun_of_free (h : Sound none m) {make : Nat → Except Panic Page}
    {start : VirtualAddress} {count : Nat} {pages : List Page}
    (hpages : (List.range count).mapM make = .ok pages)
    (hmake : ∀ {index page}, make index = .ok page → MadeFor start index page)
    (hfree : ∀ n : PageNumber, start.number.toNat ≤ n.toNat →
      n.toNat < start.number.toNat + count → m.view.pageOf s n = none)
    {answer : Except VmError Unit} (hrun : Answers (insertRun s [] pages) m answer m') :
    answer = .ok () ∧ ∃ effects, Inserted s pages effects m m' := by
  obtain ⟨hplaces, hnodup⟩ := MadeFor.places hpages hmake hfree
  refine answers_insertRun h (fun page hpage => ?_) hplaces hnodup hrun
  obtain ⟨index, -, hindex⟩ := (mem_of_mapM_eq_ok hpages).1 hpage
  exact ⟨(hmake hindex).pending, (hmake hindex).absent, (hmake hindex).holders⟩

/-- What does not show before or after a run of insertions does not matter. -/
theorem Inserted.of_view {m₀ m₁ : Machine} {pages : List Page} {effects : List Effect}
    (h : Inserted s pages effects m₀ m₁) (hbefore : m₀.view = m.view) (hafter : m'.view = m₁.view)
    (htidy : m'.Tidy) : Inserted s pages effects m m' where
  course := (h.course.of_view hbefore).to_view hafter htidy
  pagesOnly := by
    obtain ⟨helsewhere, hdirectoryOf, hregionOf⟩ := h.pagesOnly
    rw [hbefore, ← hafter] at hdirectoryOf hregionOf
    refine ⟨fun s' hs' => ?_, hdirectoryOf, hregionOf⟩
    rw [hafter, helsewhere s' hs', hbefore]
  labels := by
    rw [← hbefore]
    exact h.labels
  placed := by
    rw [← hbefore, hafter]
    exact h.placed
  kept := by
    rw [← hbefore, hafter]
    exact h.kept
  same := by
    rw [← hbefore, hafter]
    exact h.same
  old := by
    rw [← hbefore, hafter]
    exact h.old

/-! ### Segments -/

theorem slice_create_eq_ok {handle : Handle} {offset readBytes : Nat} {slice : FileSlice}
    (h : FileSlice.create handle offset readBytes = .ok slice) :
    slice.handle = handle ∧ slice.offset = offset ∧ slice.readBytes = readBytes := by
  unfold FileSlice.create at h
  split at h
  · cases h
    exact ⟨rfl, rfl, rfl⟩
  · cases h

theorem toNat_add_eq_ok {kind : AddressKind} {a b : Address kind} {bytes : Nat}
    (h : a.add bytes = .ok b) : b.toNat = a.toNat + bytes := by
  simp only [Address.add, bind_eq_ok, Word.add_eq_ok, Address.ofNat] at h
  obtain ⟨total, ⟨-, rfl⟩, h⟩ := h
  split at h
  · cases h
    rfl
  · cases h

theorem segmentPage_eq_ok {handle : Option Handle} {offset readBytes index : Nat}
    {start : VirtualAddress} {writable : Bool} {page : Page}
    (h : segmentPage handle offset readBytes start writable index = .ok page) :
    MadeFor start index page ∧ page.writable = writable ∧
      ((page.contents = .pending .zeros ∧ (handle = none ∨ bytesInPage readBytes index = 0)) ∨
        ∃ slice, page.contents = .pending (.loader (.segment slice)) ∧
          handle = some slice.handle ∧ slice.offset = offset + index * pageSize ∧
          slice.readBytes = bytesInPage readBytes index) := by
  simp only [segmentPage, bind_eq_ok, Word.mul_eq_ok] at h
  obtain ⟨distance, ⟨-, rfl⟩, va, hva, h⟩ := h
  have hva := toNat_add_eq_ok hva
  have hzeros : Page.create va writable (.pending .zeros) = .ok page →
      MadeFor start index page ∧ page.writable = writable ∧ page.contents = .pending .zeros := by
    intro hcreate
    obtain ⟨aligned, rfl⟩ := Page.create_eq_ok hcreate
    exact ⟨⟨hva, ⟨_, rfl⟩, rfl, rfl⟩, rfl, rfl⟩
  split at h
  · next handle =>
    split at h
    · simp only [bind_eq_ok, Word.add_eq_ok] at h
      obtain ⟨position, ⟨-, rfl⟩, slice, hslice, h⟩ := h
      obtain ⟨aligned, rfl⟩ := Page.create_eq_ok h
      obtain ⟨rfl, hoffset, hbytes⟩ := slice_create_eq_ok hslice
      exact ⟨⟨hva, ⟨_, rfl⟩, rfl, rfl⟩, rfl, .inr ⟨slice, rfl, rfl, hoffset, hbytes⟩⟩
    · next hnone =>
      obtain ⟨hmade, hwritable, hcontents⟩ := hzeros h
      exact ⟨hmade, hwritable, .inl ⟨hcontents, .inr (Nat.eq_zero_of_not_pos hnone)⟩⟩
  · obtain ⟨hmade, hwritable, hcontents⟩ := hzeros h
    exact ⟨hmade, hwritable, .inl ⟨hcontents, .inl rfl⟩⟩

structure SegmentLoaded (s : Key AddressSpace) (file : Key File) (offset : Nat)
    (start : VirtualAddress) (readBytes zeroBytes : Nat) (writable : Bool) (effects : List Effect)
    (m m' : Machine) : Prop where
  range : UserRange start ((readBytes + zeroBytes) / pageSize)
  opened : MadeAfresh effects m m'
  made : ∃ handle : Option Handle, (handle = none → readBytes = 0) ∧
    (∀ opened, handle = some opened → opened.file = file ∧ m.view.file file ≠ none) ∧
    ∃ count pages, count * pageSize = readBytes + zeroBytes ∧
      segmentPages handle offset readBytes start writable count = .ok pages ∧
      Inserted s pages effects m m'

theorem SegmentLoaded.course {file : Key File} {offset readBytes zeroBytes : Nat}
    {start : VirtualAddress} {writable : Bool} {effects : List Effect}
    (h : SegmentLoaded s file offset start readBytes zeroBytes writable effects m m') :
    Course effects none m none m' := by
  obtain ⟨_, _, _, _, _, _, _, hinserted⟩ := h.made
  exact hinserted.course

theorem Inserted.madeAfresh_segment {handle : Option Handle} {offset readBytes count : Nat}
    {start : VirtualAddress} {writable : Bool} {pages : List Page} {effects : List Effect}
    (h : Inserted s pages effects m m')
    (hpages : segmentPages handle offset readBytes start writable count = .ok pages)
    (hopened : ∀ opened, handle = some opened → Opened m m' opened) : MadeAfresh effects m m' := by
  intro e he key found hbrings
  obtain ⟨new, source, bytes, rfl, -, page, hpage, hcontents⟩ := h.labels e he
  obtain ⟨index, -, hmake⟩ := (mem_of_mapM_eq_ok hpages).1 hpage
  obtain ⟨-, -, ⟨hzeros, -⟩ | ⟨slice, hcontents', hhandle, -⟩⟩ := segmentPage_eq_ok hmake
  · cases hcontents.symm.trans hzeros
    cases hbrings.2
  · cases hcontents.symm.trans hcontents'
    cases hbrings.2
    exact hopened _ hhandle

/-- The pages of a segment are made and inserted, and nothing can go wrong with that. -/
theorem answers_insertSegment (h : Sound none m) {handle : Option Handle}
    {offset readBytes count : Nat} {start : VirtualAddress} {writable : Bool}
    {event : AddressSpace → Event}
    (hfree : ∀ n : PageNumber, start.number.toNat ≤ n.toNat →
      n.toNat < start.number.toNat + count → m.view.pageOf s n = none)
    {answer : Except VmError Unit}
    (hrun : Answers (ε := VmError) (do
      insertRun s [] (← segmentPages handle offset readBytes start writable count)
      record (event (← getSpace s))) m answer m') :
    answer = .ok () ∧ ∃ pages effects,
      segmentPages handle offset readBytes start writable count = .ok pages ∧
        Inserted s pages effects m m' := by
  rw [answers_liftM_computed_bind] at hrun
  obtain ⟨pages, hpages, hrun⟩ := hrun
  have hinsert : ∀ {answer m₁}, Answers (insertRun s [] pages) m answer m₁ →
      answer = .ok () ∧ ∃ effects, Inserted s pages effects m m₁ :=
    answers_insertRun_of_free h hpages (fun hpage => (segmentPage_eq_ok hpage).1) hfree
  rw [answers_bind] at hrun
  rcases hrun with ⟨cause, rfl, hinserted⟩ | ⟨_, m₁, hinserted, hrun⟩
  · cases (hinsert hinserted).1
  obtain ⟨-, effects, hdone⟩ := hinsert hinserted
  simp only [answers_liftM_bind, returns_getSpace, and_assoc, exists_and_left,
    exists_eq_left] at hrun
  obtain ⟨space, -, hrun⟩ := hrun
  rw [answers_liftM] at hrun
  obtain ⟨_, rfl, hrecord⟩ := hrun
  rw [returns_record] at hrecord
  subst hrecord
  exact ⟨rfl, pages, effects, hpages, hdone.of_view rfl rfl (hdone.course.tidy.of_eq rfl rfl)⟩

/-- A request that is declined did not do anything yet, or opened a handle at most. -/
def Declined (f : Key File) (m m' : Machine) : Prop :=
  m' = m ∨ ∃ handle?, Returns (reopen f) m handle? m'

theorem Declined.passed {f : Key File} (h : Declined f m m') (hsound : Sound none m) :
    Passed s [] m m' := by
  rcases h with rfl | ⟨handle?, hreopen⟩
  · exact .refl hsound
  · obtain ⟨hview, ⟨files, hm'⟩, -⟩ := returns_reopen hreopen
    exact .silent (hsound.tidy.of_eq (by rw [hm']) (by rw [hm'])) hview

structure Loadable (m : Machine) (s : Key AddressSpace) (f : Key File) (offset : Nat)
    (start : VirtualAddress) (readBytes zeroBytes : Nat) : Prop where
  aligned : start.isPageAligned = true
  offsetAligned : offset % pageSize = 0
  total : readBytes + zeroBytes < Word.limit
  positive : readBytes + zeroBytes ≠ 0
  whole : (readBytes + zeroBytes) % pageSize = 0
  range : OpenRange m s start ((readBytes + zeroBytes) / pageSize)
  within : offset + (readBytes + zeroBytes) < Word.limit
  handle : 0 < readBytes → ∃ current, m.files.get? f = some current ∧ m.canReopen f current = true

/-- A segment is declined, or can be registered and then has a handle if it reads from the file. -/
theorem answers_loadSegment_iff {file : Handle} {offset : Nat}
    {start : VirtualAddress} {readBytes zeroBytes : Nat} {writable : Bool}
    {answer : Except VmError Unit}
    (hrun : Answers (loadSegment s file offset start readBytes zeroBytes writable) m answer m') :
    (∃ cause, answer = .error cause ∧ Declined file.file m m' ∧
        ¬Loadable m s file.file offset start readBytes zeroBytes) ∨
      Loadable m s file.file offset start readBytes zeroBytes ∧ ∃ handle m₁,
        (handle = none ∧ readBytes = 0 ∧ m₁ = m ∨
          ∃ opened, handle = some opened ∧ Returns (reopen file.file) m (some opened) m₁) ∧
        Answers (ε := VmError) (do
          insertRun s [] (← segmentPages handle offset readBytes start writable
            ((readBytes + zeroBytes) / pageSize))
          record (.segmentMapped (← getSpace s).name start ((readBytes + zeroBytes) / pageSize)
            readBytes offset)) m₁ answer m' := by
  unfold loadSegment at hrun
  simp only [answers_require, Bool.and_eq_true, beq_iff_eq] at hrun
  rcases hrun with ⟨hmisaligned, rfl, rfl⟩ | ⟨⟨haligned, hoffset⟩, hrun⟩
  · exact .inl ⟨_, rfl, .inl rfl, fun h => hmisaligned ⟨h.aligned, h.offsetAligned⟩⟩
  unfold Word.add? at hrun
  by_cases htotal : readBytes + zeroBytes < Word.limit
  swap
  · rw [if_neg htotal] at hrun
    obtain ⟨rfl, rfl⟩ := answers_throw.1 hrun
    exact .inl ⟨_, rfl, .inl rfl, fun h => htotal h.total⟩
  simp only [if_pos htotal, answers_refuse] at hrun
  rcases hrun with ⟨hpart, rfl, rfl⟩ | ⟨hwhole, hrun⟩
  · exact .inl ⟨_, rfl, .inl rfl, fun h => hpart.elim h.positive fun hne => hne h.whole⟩
  rw [not_or, not_not] at hwhole
  rw [answers_bind] at hrun
  rcases hrun with ⟨cause, rfl, hrequire⟩ | ⟨_, m₁, hrequire, hrun⟩
  · obtain ⟨rfl, hrange⟩ := answers_requireFreeRange hrequire
    exact .inl ⟨_, rfl, .inl rfl, fun h => by cases hrange.2 h.range⟩
  obtain ⟨rfl, hrange⟩ := answers_requireFreeRange hrequire
  rcases answers_refuse.1 hrun with ⟨hbeyond, rfl, rfl⟩ | ⟨hwithin, hrun⟩
  · refine .inl ⟨_, rfl, .inl rfl, fun h => ?_⟩
    rw [if_pos h.within] at hbeyond
    cases hbeyond
  have hwithin : offset + (readBytes + zeroBytes) < Word.limit := by
    by_contra hbeyond
    rw [if_neg hbeyond] at hwithin
    exact hwithin rfl
  have hloadable := Loadable.mk (f := file.file) haligned hoffset htotal hwhole.1 hwhole.2
    (hrange.1 rfl) hwithin
  split at hrun
  · next hreads =>
    simp only [answers_liftM_bind] at hrun
    obtain ⟨handle?, m₂, hreopen, hrun⟩ := hrun
    obtain ⟨current, hcurrent⟩ := file_of_reopen hreopen
    have hcan := isSome_of_reopen hcurrent hreopen
    cases handle? with
    | none =>
        obtain ⟨rfl, rfl⟩ := answers_throw_bind.1 hrun
        refine .inl ⟨_, rfl, .inr ⟨_, hreopen⟩, fun h => ?_⟩
        obtain ⟨_, hcurrent', hcan'⟩ := h.handle hreads
        cases hcurrent.symm.trans hcurrent'
        rw [hcan'] at hcan
        cases hcan
    | some opened =>
        exact .inr ⟨hloadable fun _ => ⟨current, hcurrent, hcan.symm⟩, some opened, m₂,
          .inr ⟨opened, rfl, hreopen⟩, hrun⟩
  · next hnone =>
    exact .inr ⟨hloadable fun hreads => absurd hreads hnone, none, m₁,
      .inl ⟨rfl, Nat.eq_zero_of_not_pos hnone, rfl⟩, hrun⟩

theorem Loadable.segmentLoaded (h : Sound none m) {file : Handle} {offset : Nat}
    {start : VirtualAddress} {readBytes zeroBytes : Nat} {writable : Bool} {m₁ : Machine}
    (hloadable : Loadable m s file.file offset start readBytes zeroBytes) {handle : Option Handle}
    (hopen : handle = none ∧ readBytes = 0 ∧ m₁ = m ∨
      ∃ opened, handle = some opened ∧ Returns (reopen file.file) m (some opened) m₁)
    {event : AddressSpace → Event} (hevent : ∀ space, (event space).isOfPool = false)
    {answer : Except VmError Unit}
    (hrun : Answers (ε := VmError) (do
      insertRun s [] (← segmentPages handle offset readBytes start writable
        ((readBytes + zeroBytes) / pageSize))
      record (event (← getSpace s))) m₁ answer m') :
    answer = .ok () ∧ ∃ effects,
      SegmentLoaded s file.file offset start readBytes zeroBytes writable effects m m' := by
  have hcount : (readBytes + zeroBytes) / pageSize * pageSize = readBytes + zeroBytes :=
    Nat.div_mul_cancel (Nat.dvd_of_mod_eq_zero hloadable.whole)
  have hrange : UserRange start ((readBytes + zeroBytes) / pageSize) :=
    ⟨hloadable.aligned, hloadable.range.notNull, hloadable.range.below⟩
  rcases hopen with ⟨rfl, hzero, rfl⟩ | ⟨opened, rfl, hreopen⟩
  · obtain ⟨rfl, pages, effects, hpages, hinserted⟩ :=
      answers_insertSegment h hloadable.range.free hrun
    exact ⟨rfl, effects, hrange,
      hinserted.madeAfresh_segment hpages fun _ he => (by cases he), none, fun _ => hzero,
      fun _ he => (by cases he), _, pages, hcount, hpages, hinserted⟩
  · obtain ⟨hview, ⟨files, hm₁⟩, hfile⟩ := returns_reopen hreopen
    have htidy : m₁.Tidy := h.tidy.of_eq (by rw [hm₁]) (by rw [hm₁])
    have hissued := (Keeps.returns (r := Others s) (by grind) hrun).issued
    obtain ⟨rfl, pages, effects, hpages, hinserted⟩ := answers_insertSegment
      (h.of_view hview htidy) (by rw [hview]; exact hloadable.range.free) hrun
    have hinserted := hinserted.of_view hview rfl hinserted.course.tidy
    refine ⟨rfl, effects, hrange, hinserted.madeAfresh_segment hpages fun _ he => ?_, some opened,
      fun he => (by cases he), fun _ he => ?_, _, pages, hcount, hpages, hinserted⟩
    · cases he
      exact (opened_of_reopen hreopen).mono (fun _ => Nat.le_refl _) hissued
    · cases he
      exact ⟨hfile _ rfl, file_ne_none_of_reopen hreopen⟩

/-- Registering a segment is refused and changes nothing, or puts a page into every place of it. -/
theorem answers_loadSegment (h : Sound none m) {file : Handle} {offset : Nat}
    {start : VirtualAddress} {readBytes zeroBytes : Nat} {writable : Bool}
    {answer : Except VmError Unit}
    (hrun : Answers (loadSegment s file offset start readBytes zeroBytes writable) m answer m') :
    (∃ cause, answer = .error cause ∧ Passed s [] m m') ∨
      answer = .ok () ∧ ∃ effects,
        SegmentLoaded s file.file offset start readBytes zeroBytes writable effects m m' := by
  rcases answers_loadSegment_iff hrun with ⟨cause, rfl, hdeclined, -⟩ |
    ⟨hloadable, handle, m₁, hopen, hmade⟩
  · exact .inl ⟨cause, rfl, hdeclined.passed h⟩
  · exact .inr (hloadable.segmentLoaded h hopen (fun _ => rfl) hmade)

/-! ### Mapped files -/

theorem filePage_eq_ok {handle : Handle} {offset mapped index : Nat} {start : VirtualAddress}
    {writable : Bool} {page : Page}
    (h : filePage handle offset mapped start writable index = .ok page) :
    MadeFor start index page ∧ page.writable = writable ∧
      ∃ slice, page.contents = .pending (.file slice) ∧ slice.handle = handle ∧
        slice.offset = offset + index * pageSize ∧ slice.readBytes = bytesInPage mapped index := by
  simp only [filePage, bind_eq_ok, Word.mul_eq_ok, Word.add_eq_ok] at h
  obtain ⟨distance, ⟨-, rfl⟩, position, ⟨-, rfl⟩, slice, hslice, va, hva, h⟩ := h
  obtain ⟨aligned, rfl⟩ := Page.create_eq_ok h
  exact ⟨⟨toNat_add_eq_ok hva, ⟨_, rfl⟩, rfl, rfl⟩, rfl, slice, rfl, slice_create_eq_ok hslice⟩

structure FileMapped (s : Key AddressSpace) (file : Key File) (offset : Nat)
    (start : VirtualAddress) (length : Nat) (writable : Bool) (effects : List Effect)
    (m m' : Machine) : Prop where
  positive : 0 < length
  range : UserRange start ((length + (pageSize - 1)) / pageSize)
  opened : MadeAfresh effects m m' ∧
    ∀ region, m'.view.regionOf s start = some region → Opened m m' region.handle
  made : ∃ current handle pages inserted m₁, m.files.get? file = some current ∧
    handle.file = file ∧
    filePages handle offset (min (current.length - offset) length) start writable
      ((length + (pageSize - 1)) / pageSize) = .ok pages ∧
    Inserted s pages inserted m m₁ ∧ effects = inserted ++ [.registered s start] ∧
    Course [.registered s start] none m₁ none m' ∧
    m'.view = m₁.view.setRegion s start
      (some ⟨start, (length + (pageSize - 1)) / pageSize, handle, offset, writable⟩)

theorem FileMapped.course {file : Key File} {offset length : Nat} {start : VirtualAddress}
    {writable : Bool} {effects : List Effect}
    (h : FileMapped s file offset start length writable effects m m') :
    Course effects none m none m' := by
  obtain ⟨_, _, _, _, _, _, _, _, hinserted, rfl, hregistered, -⟩ := h.made
  exact hinserted.course.trans hregistered

structure Mappable (m : Machine) (s : Key AddressSpace) (f : Key File) (offset : Nat)
    (start : VirtualAddress) (length : Nat) : Prop where
  offsetAligned : offset % pageSize = 0
  positive : length ≠ 0
  aligned : start.isPageAligned = true
  range : OpenRange m s start ((length + (pageSize - 1)) / pageSize)
  within : offset + (length + (pageSize - 1)) / pageSize * pageSize < Word.limit
  handle : ∃ current, m.files.get? f = some current ∧ current.length ≠ 0 ∧
    m.canReopen f current = true

theorem isNone_offsetEnd_iff {offset count : Nat} :
    ((Word.mul? count pageSize).bind (Word.add? offset)).isNone = true ↔
      ¬offset + count * pageSize < Word.limit := by
  unfold Word.mul?
  split
  · rw [Option.bind_some, Word.add?]
    split <;> simp_all
  · next hwide =>
    rw [Option.bind_none]
    exact ⟨fun _ => by omega, fun _ => rfl⟩

/-- A mapping is declined, or can be made and then has a handle. -/
theorem answers_mapFile_iff {file : Handle} {offset length : Nat}
    {start : VirtualAddress} {writable : Bool} {answer : Except VmError VirtualAddress}
    (hrun : Answers (mapFile s start length writable file offset) m answer m') :
    (∃ cause, answer = .error cause ∧ Declined file.file m m' ∧
        ¬Mappable m s file.file offset start length) ∨
      Mappable m s file.file offset start length ∧ ∃ current handle m₁,
        m.files.get? file.file = some current ∧ Returns (reopen file.file) m (some handle) m₁ ∧
        Answers (ε := VmError) (do
          insertRun s [] (← filePages handle offset (min (current.length - offset) length) start
            writable ((length + (pageSize - 1)) / pageSize))
          updateSpace s fun space => { space with
            regions := space.regions.insert start
              ⟨start, (length + (pageSize - 1)) / pageSize, handle, offset, writable⟩ }
          record (.fileMapped (← getSpace s).name ((length + (pageSize - 1)) / pageSize) start offset
            writable)
          return start) m₁ answer m' := by
  unfold mapFile at hrun
  simp only [answers_require, answers_refuse] at hrun
  rcases hrun with ⟨hmisaligned, rfl, rfl⟩ | ⟨hoffset, ⟨hzero, rfl, rfl⟩ | ⟨hpositive,
    ⟨hnull, rfl, rfl⟩ | ⟨-, ⟨hmisaligned, rfl, rfl⟩ | ⟨haligned, hrun⟩⟩⟩⟩
  · exact .inl ⟨_, rfl, .inl rfl, fun h => hmisaligned h.offsetAligned⟩
  · exact .inl ⟨_, rfl, .inl rfl, fun h => h.positive hzero⟩
  · refine .inl ⟨_, rfl, .inl rfl, fun h => ?_⟩
    rw [h.range.notNull] at hnull
    cases hnull
  · exact .inl ⟨_, rfl, .inl rfl, fun h => hmisaligned h.aligned⟩
  rw [answers_bind] at hrun
  rcases hrun with ⟨cause, rfl, hrequire⟩ | ⟨_, m₁, hrequire, hrun⟩
  · obtain ⟨rfl, hrange⟩ := answers_requireFreeRange hrequire
    exact .inl ⟨_, rfl, .inl rfl, fun h => by cases hrange.2 h.range⟩
  obtain ⟨rfl, hrange⟩ := answers_requireFreeRange hrequire
  rcases answers_refuse.1 hrun with ⟨hbeyond, rfl, rfl⟩ | ⟨hwithin, hrun⟩
  · exact .inl ⟨_, rfl, .inl rfl, fun h => isNone_offsetEnd_iff.1 hbeyond h.within⟩
  rw [isNone_offsetEnd_iff, not_not] at hwithin
  simp only [answers_liftM_bind, returns_getFile, and_assoc, exists_and_left,
    exists_eq_left] at hrun
  obtain ⟨current, hcurrent, handle?, m₂, hreopen, hrun⟩ := hrun
  have hcan := isSome_of_reopen hcurrent hreopen
  have hsame : ∀ {found}, m₁.files.get? file.file = some found → found = current := fun hfound =>
    Option.some.inj (hfound.symm.trans hcurrent)
  rcases answers_refuse.1 hrun with ⟨hempty, rfl, rfl⟩ | ⟨hfull, hrun⟩
  · refine .inl ⟨_, rfl, .inr ⟨_, hreopen⟩, fun h => ?_⟩
    obtain ⟨_, hfound, hfull, -⟩ := h.handle
    exact hfull (hsame hfound ▸ hempty)
  cases handle? with
  | none =>
      obtain ⟨rfl, rfl⟩ := answers_throw.1 hrun
      refine .inl ⟨_, rfl, .inr ⟨_, hreopen⟩, fun h => ?_⟩
      obtain ⟨_, hfound, -, hcan'⟩ := h.handle
      rw [hsame hfound] at hcan'
      rw [hcan'] at hcan
      cases hcan
  | some handle =>
      exact .inr ⟨⟨hoffset, hpositive, haligned, hrange.1 rfl, hwithin, current, hcurrent, hfull,
        hcan.symm⟩, current, handle, m₂, hcurrent, hreopen, hrun⟩

theorem Mappable.fileMapped (h : Sound none m) {file : Handle} {offset length : Nat}
    {start : VirtualAddress} {writable : Bool} {m₁ : Machine}
    (hmappable : Mappable m s file.file offset start length) {current : File} {handle : Handle}
    (hcurrent : m.files.get? file.file = some current)
    (hreopen : Returns (reopen file.file) m (some handle) m₁) {event : AddressSpace → Event}
    (hevent : ∀ space, (event space).isOfPool = false) {answer : Except VmError VirtualAddress}
    (hrun : Answers (ε := VmError) (do
      insertRun s [] (← filePages handle offset (min (current.length - offset) length) start
        writable ((length + (pageSize - 1)) / pageSize))
      updateSpace s fun space => { space with
        regions := space.regions.insert start
          ⟨start, (length + (pageSize - 1)) / pageSize, handle, offset, writable⟩ }
      record (event (← getSpace s))
      return start) m₁ answer m') :
    answer = .ok start ∧ ∃ effects,
      FileMapped s file.file offset start length writable effects m m' := by
  obtain ⟨hview, ⟨files, hm₁⟩, hfile⟩ := returns_reopen hreopen
  have htidy : m₁.Tidy := h.tidy.of_eq (by rw [hm₁]) (by rw [hm₁])
  have hissued : ∀ f, m₁.issued f ≤ m'.issued f := by
    refine (Keeps.returns (r := Others s) (.run_bind (.run_computed _) fun pages =>
      .run_bind (keeps_insertRun s [] pages) fun _ => ?_) hrun).issued
    grind
  rw [answers_liftM_computed_bind] at hrun
  obtain ⟨pages, hpages, hrun⟩ := hrun
  have hinsert : ∀ {answer m₂}, Answers (insertRun s [] pages) m₁ answer m₂ →
      answer = .ok () ∧ ∃ effects, Inserted s pages effects m₁ m₂ :=
    answers_insertRun_of_free (h.of_view hview htidy) hpages
      (fun hpage => (filePage_eq_ok hpage).1) (by rw [hview]; exact hmappable.range.free)
  rw [answers_bind] at hrun
  rcases hrun with ⟨cause, rfl, hinserted⟩ | ⟨_, m₃, hinserted, hrun⟩
  · cases (hinsert hinserted).1
  obtain ⟨-, effects, hdone⟩ := hinsert hinserted
  have hdone := hdone.of_view hview rfl hdone.course.tidy
  simp only [answers_liftM_bind, returns_updateSpace, returns_getSpace, and_assoc,
    exists_and_left, exists_eq_left, exists_const, returns_record, answers_pure] at hrun
  obtain ⟨space, hspace, rfl, hm'⟩ := hrun
  have hfound : ∃ before, m₃.spaces.get? s = some before := by
    rw [Arena.get?_modify, if_pos rfl] at hspace
    obtain ⟨before, hbefore, -⟩ := Option.map_eq_some_iff.1 hspace
    exact ⟨before, hbefore⟩
  obtain ⟨before, hbefore⟩ := hfound
  have hafter : m'.view = m₃.view.setRegion s start
      (some ⟨start, (length + (pageSize - 1)) / pageSize, handle, offset, writable⟩) := by
    rw [hm']
    exact view_setRegion hbefore start _ rfl rfl fun va => getElem?_insert_eq_ite _ _ _ _
  have hopened : Opened m m' handle :=
    (opened_of_reopen hreopen).mono (fun _ => Nat.le_refl _) hissued
  refine ⟨rfl, _, Nat.pos_of_ne_zero hmappable.positive,
    ⟨hmappable.aligned, hmappable.range.notNull, hmappable.range.below⟩,
    ⟨fun e he key found hbrings => ?_, fun region hregion => ?_⟩, current, handle, pages, effects,
    m₃, hcurrent, hfile _ rfl, hpages, hdone, rfl,
    .single .register hafter (hdone.course.tidy.of_eq (by rw [hm']) (by rw [hm'])), hafter⟩
  · rcases List.mem_append.1 he with he | he
    · obtain ⟨new, source, bytes, rfl, -, page, hpage, hcontents⟩ := hdone.labels e he
      obtain ⟨index, -, hmake⟩ := (mem_of_mapM_eq_ok hpages).1 hpage
      obtain ⟨-, -, slice, hcontents', rfl, -⟩ := filePage_eq_ok hmake
      cases hcontents.symm.trans hcontents'
      cases hbrings.2
      exact hopened
    · cases List.mem_singleton.1 he
      cases hbrings
  · rw [hafter] at hregion
    simp only [View.setRegion, Function.update_self, Option.some.injEq] at hregion
    rw [← hregion]
    exact hopened

/-- Mapping a file is refused and changes nothing, or puts a page into every place of the range and
registers it. -/
theorem answers_mapFile (h : Sound none m) {file : Handle} {offset length : Nat}
    {start : VirtualAddress} {writable : Bool} {answer : Except VmError VirtualAddress}
    (hrun : Answers (mapFile s start length writable file offset) m answer m') :
    (∃ cause, answer = .error cause ∧ Passed s [] m m') ∨
      answer = .ok start ∧ ∃ effects,
        FileMapped s file.file offset start length writable effects m m' := by
  rcases answers_mapFile_iff hrun with ⟨cause, rfl, hdeclined, -⟩ |
    ⟨hmappable, current, handle, m₁, hcurrent, hreopen, hmade⟩
  · exact .inl ⟨cause, rfl, hdeclined.passed h⟩
  · exact .inr (hmappable.fileMapped h hcurrent hreopen (fun _ => rfl) hmade)

/-- Mapping a descriptor is refused, or maps the file that is open as it. -/
theorem answers_mapDescriptor {descriptor : Int} {offset length : Nat} {start : VirtualAddress}
    {writable : Bool} {lookup : Int → Option Handle} {answer : Except VmError VirtualAddress}
    (hrun : Answers (mapDescriptor s start length writable descriptor offset lookup) m answer m') :
    ((mappableDescriptor? descriptor).bind lookup = none ∧ answer = .error .badDescriptor ∧ m' = m) ∨
      ∃ file, (mappableDescriptor? descriptor).bind lookup = some file ∧
        Answers (mapFile s start length writable file offset) m answer m' := by
  unfold mapDescriptor at hrun
  split at hrun
  · next file hfile => exact .inr ⟨file, hfile, hrun⟩
  · next hnone =>
    obtain ⟨rfl, rfl⟩ := answers_throw.1 hrun
    exact .inl ⟨by simpa [Option.eq_none_iff_forall_ne_some] using hnone, rfl, rfl⟩

theorem mem_of_regionPages_eq_ok {region : Region} {numbers : List PageNumber}
    (h : regionPages region = .ok numbers) {n : PageNumber} :
    n ∈ numbers ↔ region.start.number.toNat ≤ n.toNat ∧
      n.toNat < region.start.number.toNat + region.pages := by
  have hnumbers : numbers.map Number.toNat =
      (List.range region.pages).map fun index => region.start.number.toNat + index := by
    refine map_of_mapM_eq_ok h fun index _ number hnumber => ?_
    simp only [regionPage, bind_eq_ok, Word.mul_eq_ok, pure_eq_ok] at hnumber
    obtain ⟨distance, ⟨-, rfl⟩, va, hva, rfl⟩ := hnumber
    rw [Address.toNat_number, toNat_add_eq_ok hva, Nat.add_mul_div_right _ _ (by decide),
      Address.toNat_number]
  have hmem : n ∈ numbers ↔ n.toNat ∈ numbers.map Number.toNat := by
    rw [List.mem_map]
    exact ⟨fun hn => ⟨n, hn, rfl⟩, fun ⟨n', hn', he⟩ => Number.ext he ▸ hn'⟩
  rw [hmem, hnumbers, List.mem_map]
  constructor
  · rintro ⟨index, hindex, he⟩
    have hlt := List.mem_range.1 hindex
    omega
  · rintro ⟨hle, hlt⟩
    exact ⟨n.toNat - region.start.number.toNat, List.mem_range.2 (by omega), by omega⟩

structure FileUnmapped (s : Key AddressSpace) (start : VirtualAddress) (region : Region)
    (effects : List Effect) (m m' : Machine) : Prop where
  course : Course effects none m none m'
  elsewhere : ∀ s', s' ≠ s → m'.view.pageOf s' = m.view.pageOf s'
  untouched : Untouched s m m'
  spared : ∀ {key}, (∀ n : PageNumber, region.start.number.toNat ≤ n.toNat →
    n.toNat < region.start.number.toNat + region.pages → m.view.pageOf s n ≠ some key) →
    m'.view.page key = m.view.page key
  directoryOf : m'.view.directoryOf = m.view.directoryOf
  regionOf : m'.view.regionOf =
    Function.update m.view.regionOf s (Function.update (m.view.regionOf s) start none)
  place : ∀ n : PageNumber, m'.view.pageOf s n =
    if region.start.number.toNat ≤ n.toNat ∧ n.toNat < region.start.number.toNat + region.pages
    then none else m.view.pageOf s n
  labels : ∀ e ∈ effects, e = .registered s start ∨ ∃ n key, m.view.pageOf s n = some key ∧
    e = .removed key ∧ region.start.number.toNat ≤ n.toNat ∧
      n.toNat < region.start.number.toNat + region.pages

/-- Unmapping removes the pages of the region that starts there, if there is one. -/
theorem returns_unmapFile (h : Sound none m) {start : VirtualAddress} {u : Unit}
    (hrun : Returns (unmapFile s start) m u m') :
    (m.view.regionOf s start = none ∧ m'.Tidy ∧ m'.view = m.view ∧
        m'.directories = m.directories) ∨
      ∃ region effects, m.view.regionOf s start = some region ∧
        FileUnmapped s start region effects m m' := by
  simp only [unmapFile, returns_bind, returns_getSpace, and_assoc, exists_and_left,
    exists_eq_left] at hrun
  obtain ⟨space, hspace, _, hspace', hrun⟩ := hrun
  rw [hspace] at hspace'
  cases hspace'
  cases hregion : space.regions[start]? with
  | none =>
      rw [hregion] at hrun
      obtain rfl := returns_record.1 hrun
      exact .inl ⟨by rw [view_regionOf_eq hspace, hregion], h.tidy.of_eq rfl rfl, rfl, rfl⟩
  | some region =>
      simp only [hregion, returns_bind, returns_liftM, returns_updateSpace, returns_record,
        and_assoc, exists_and_left, exists_eq_left, exists_const] at hrun
      obtain ⟨numbers, hnumbers, _, m₁, hremove, hm'⟩ := hrun
      obtain ⟨honly, huntouched, hspared, hplace, effects, hcourse, hremoved⟩ :=
        returns_removePages h hremove
      obtain ⟨left, hleft⟩ : ∃ left, m₁.spaces.get? s = some left := by
        have hdirectory := view_directoryOf_eq hspace
        rw [← honly.directoryOf] at hdirectory
        exact (Option.map_eq_some_iff.1 hdirectory).imp fun _ hand => hand.1
      have hview : m'.view = m₁.view.setRegion s start none := by
        rw [hm']
        exact view_setRegion hleft start none rfl rfl fun va => getElem?_erase_eq_ite _ _ _
      have hstep : Course [.registered s start] none m₁ none m' :=
        .single .register hview (hcourse.tidy.of_eq (by rw [hm']) (by rw [hm']))
      refine .inr ⟨region, _, by rw [view_regionOf_eq hspace, hregion], hcourse.trans hstep,
        fun s' hs' => ?_, ⟨fun hnot => ?_, ?_, ?_, fun hd => ?_⟩, fun hnot => ?_, ?_, ?_,
        fun n => ?_, fun e he => ?_⟩
      · rw [hview, ← honly.elsewhere s' hs']
        rfl
      · rw [hview]
        exact huntouched.page hnot
      · rw [hview]
        exact huntouched.bytes
      · rw [hview]
        exact huntouched.pageIn
      · rw [hm']
        exact huntouched.directory hd
      · rw [hview]
        refine hspared _ fun n hn => ?_
        have hin := (mem_of_regionPages_eq_ok hnumbers).1 hn
        exact hnot n hin.1 hin.2
      · rw [hview, ← honly.directoryOf]
        rfl
      · rw [hview, ← honly.regionOf]
        rfl
      · rw [hview]
        refine (hplace n).trans ?_
        simp only [mem_of_regionPages_eq_ok hnumbers]
      · rcases List.mem_append.1 he with he | he
        · obtain ⟨n, hn, key, hkey, rfl⟩ := hremoved e he
          exact .inr ⟨n, key, hkey, rfl, (mem_of_regionPages_eq_ok hnumbers).1 hn⟩
        · exact .inl (List.mem_singleton.1 he)

/-! ### The first stack page -/

theorem passed_setUpStack (h : Sound none m) {answer : Except VmError Unit}
    (hrun : Answers (setUpStack s) m answer m') : ∃ effects, Passed s effects m m' := by
  simp only [setUpStack, answers_liftM_computed_bind] at hrun
  obtain ⟨va, -, page, hcreate, hrun⟩ := hrun
  obtain ⟨aligned, rfl⟩ := Page.create_eq_ok hcreate
  rw [answers_bind] at hrun
  rcases hrun with ⟨cause, rfl, hinsert⟩ | ⟨key, m₁, hinsert, hrun⟩
  · rcases answers_insertPage h rfl rfl rfl hinsert with ⟨_, -, rfl, -⟩ | ⟨he, -⟩
    · exact ⟨[], .refl h⟩
    · cases he
  rcases answers_insertPage h rfl rfl rfl hinsert with ⟨_, he, -⟩ | ⟨he, hone⟩
  · cases he
  cases he
  have hadded := passed_insertPage h hone
  have hsound₁ := hadded.sound h
  have hplace := hone.pageOf_eq va.number
  rw [if_pos rfl] at hplace
  -- whether claiming the page succeeds or not, it passes
  have hclaims : ∀ {answer m₂}, Answers (do claim ⟨m.view.created⟩ (← getSpace s).directory) m₁
      answer m₂ → m₂.spaces = m₁.spaces ∧ ∃ effects, Passed s effects m₁ m₂ := by
    intro answer m₂ hclaim
    simp only [answers_liftM_bind, returns_getSpace, and_assoc, exists_and_left,
      exists_eq_left] at hclaim
    obtain ⟨space, hspace, hclaim⟩ := hclaim
    exact passed_claim hsound₁ (view_directoryOf_eq hspace) hplace hclaim
  rw [answers_bind] at hrun
  rcases hrun with ⟨cause, rfl, hfailed⟩ | ⟨_, m₂, hdone, hrun⟩
  · rw [answers_tryCatch] at hfailed
    rcases hfailed with ⟨_, he, -⟩ | ⟨_, m₂, hclaim, hundo⟩
    · cases he
    obtain ⟨hspaces, effects, hclaimed⟩ := hclaims hclaim
    rw [answers_liftM_bind] at hundo
    obtain ⟨_, m₃, hremove, hthrow⟩ := hundo
    obtain ⟨-, rfl⟩ := answers_throw.1 hthrow
    refine passed_removePage h (hadded.trans hclaimed) (fun key hkey => ?_) hremove
    have hsame : m₂.view.pageOf s va.number = some ⟨m.view.created⟩ :=
      (congrFun (congrFun (view_pageOf_congr hspaces) s) _).trans hplace
    rw [hsame] at hkey
    cases hkey
    exact Nat.le_refl _
  · rw [answers_tryCatch] at hdone
    rcases hdone with ⟨_, -, hclaim⟩ | ⟨_, _, -, hundo⟩
    swap
    · rw [answers_liftM_bind] at hundo
      obtain ⟨_, _, -, hthrow⟩ := hundo
      cases (answers_throw.1 hthrow).1
    obtain ⟨-, effects, hclaimed⟩ := hclaims hclaim
    rw [answers_liftM] at hrun
    obtain ⟨_, -, hupdate⟩ := hrun
    rw [returns_updateSpace] at hupdate
    subst hupdate
    exact ⟨_, (hadded.trans hclaimed).trans (.silent (hclaimed.course.tidy.of_eq rfl rfl)
      (view_modifySpace_of_same _ s _ (fun _ => rfl) (fun _ => rfl) fun _ => rfl))⟩

end DemandPaging.Space
