import DemandPaging.Proofs.Panics.Faults
import DemandPaging.Proofs.Space.Mapping

/-!
Mapping does not panic.

A request is checked before it is carried out, for any numbers that it may give. A range that was
found free ends where user memory does, and the part of the file that it shows ends within the words,
so no address of a page and no offset into the file is computed that is not one.
-/

namespace DemandPaging

open Machine Space

variable {m m₁ m' : Machine} {asked : Key Page → Prop} {stop : Panic → Machine → Prop}
  {s : Key AddressSpace}

/-! ### Ranges -/

theorem exists_add {start : VirtualAddress} {bytes : Nat}
    (h : start.toNat + bytes ≤ kernelBase) : ∃ va, start.add bytes = .ok va ∧
      va.toNat = start.toNat + bytes := by
  have hvalid : AddressKind.virtual.Valid (start.toNat + bytes) :=
    AddressKind.valid_virtual_iff.2 (.inl (Nat.lt_of_le_of_lt h (by decide)))
  refine ⟨⟨_, hvalid⟩, ?_, rfl⟩
  simp only [Address.add, Word.add_ok hvalid.lt_limit, Address.ofNat]
  exact dif_pos hvalid

/-- The distance to a page of a range is a word, and the page is within the range. -/
theorem exists_mul {index count : Nat} (hlt : index < count) (h : count * pageSize < Word.limit) :
    Word.mul index pageSize = .ok (index * pageSize) ∧
      index * pageSize + pageSize ≤ count * pageSize := by
  have hle : index * pageSize + pageSize ≤ count * pageSize := by
    simp only [pageSize]
    omega
  exact ⟨Word.mul_ok (Nat.lt_of_le_of_lt (Nat.le_trans (Nat.le_add_right _ _) hle) h), hle⟩

/-- The pages of a range that starts at the start of a page start there, too. -/
theorem exists_pageAddress {start : VirtualAddress} {index count : Nat}
    (haligned : start.isPageAligned = true) (hrange : start.toNat + count * pageSize ≤ kernelBase)
    (hle : index * pageSize + pageSize ≤ count * pageSize) :
    ∃ va, start.add (index * pageSize) = .ok va ∧ va.isPageAligned = true := by
  have hwithin : start.toNat + index * pageSize ≤ kernelBase :=
    Nat.le_trans (Nat.add_le_add_left (Nat.le_trans (Nat.le_add_right _ _) hle) _) hrange
  obtain ⟨va, hva, hnat⟩ := exists_add hwithin
  refine ⟨va, hva, ?_⟩
  simp only [Address.isPageAligned, beq_iff_eq] at haligned ⊢
  simp only [hnat, pageSize] at haligned ⊢
  omega

theorem panicsOnly_requireFreeRange {start : VirtualAddress} {count : Nat}
    (hspace : ∃ space, m.spaces.get? s = some space) :
    PanicsOnly stop (requireFreeRange s start count).run m := by
  obtain ⟨space, hspace⟩ := hspace
  unfold requireFreeRange
  refine .run_refuse fun _ => ?_
  split
  swap
  · exact .run_throw _
  next top htop =>
  have htop' : start.toNat + count * pageSize = top.toNat := by
    simp only [Word.mul?] at htop
    split at htop
    · exact (Address.toNat_add? htop).symm
    · cases htop
  refine .run_refuse fun hbelow => .run_step (returns_getSpace.2 ⟨hspace, rfl⟩) ?_
  have hword : start.number.toNat + count < Word.limit := by
    have hlt := top.valid.lt_limit
    simp only [Address.toNat_number, pageSize] at htop' ⊢
    omega
  obtain ⟨free, hfree⟩ : ∃ free, space.pages.isRangeFree start.number count = .ok free := by
    simp only [PageMap.isRangeFree, Number.add, bind_eq_ok, pure_eq_ok, Word.add_eq_ok]
    cases space.pages.getKeyGE? start.number with
    | none => exact ⟨_, _, ⟨_, ⟨hword, rfl⟩, rfl⟩, rfl⟩
    | some first => exact ⟨_, _, ⟨_, ⟨hword, rfl⟩, rfl⟩, rfl⟩
  refine .run_computed hfree ?_
  split
  · exact .run_pure _
  · exact .run_throw _

/-! ### Runs of pages -/

structure Insertable (m : Machine) (page : Page) : Prop where
  pending : ∃ source, page.contents = .pending source
  absent : page.frame = none
  holders : page.holders = 1
  supplied : page.contents.Supplied m.view

/-- Pages that have places of their own, all of them free, are inserted. -/
theorem exists_insertRun {space : AddressSpace} {pages : List Page}
    (hspace : m.spaces.get? s = some space)
    (hfree : ∀ page ∈ pages, space.pages[page.va.number]? = none)
    (hnodup : (pages.map (·.va.number)).Nodup) {inserted : List PageNumber} :
    ∃ m' left, Answers (insertRun s inserted pages) m (.ok ()) m' ∧ m'.spaces.get? s = some left := by
  induction pages generalizing m space inserted with
  | nil => exact ⟨m, space, answers_pure.2 ⟨rfl, rfl⟩, hspace⟩
  | cons page rest ih =>
      rw [List.map_cons, List.nodup_cons] at hnodup
      have hinsert := (answers_insertPage_iff hspace).2
        (.inr ⟨rfl, hfree page List.mem_cons_self, rfl⟩)
      have hrest : ∀ other ∈ rest,
          (space.pages.insert page.va.number m.pages.nextKey)[other.va.number]? = none := by
        intro other hmem
        rw [getElem?_insert_eq_ite, if_neg]
        · exact hfree other (List.mem_cons_of_mem _ hmem)
        · exact fun he => hnodup.1 (he ▸ List.mem_map.2 ⟨other, hmem, rfl⟩)
      obtain ⟨m', left, hrun, hleft⟩ := ih (space_withPage hspace) hrest hnodup.2
      have htried : Answers (do let _ ← insertPage s page : ExceptT _ _ _) m (.ok ⟨⟩)
          (m.withPage s page) :=
        answers_bind.2 (.inr ⟨_, _, hinsert, answers_pure.2 ⟨rfl, rfl⟩⟩)
      exact ⟨m', left, answers_bind.2 (.inr ⟨⟨⟩, _, answers_tryCatch.2 (.inl ⟨⟨⟩, rfl, htried⟩),
        hrun⟩), hleft⟩

/-- A run that was found free is inserted, and what follows finds the address space. -/
theorem panicsOnly_insertRun_bind (hspace : ∃ space, m.spaces.get? s = some space)
    {make : Nat → Except Panic Page} {start : VirtualAddress} {count : Nat} {pages : List Page}
    (hpages : (List.range count).mapM make = .ok pages)
    (hmake : ∀ {index page}, make index = .ok page → MadeFor start index page)
    (hfree : ∀ n : PageNumber, start.number.toNat ≤ n.toNat →
      n.toNat < start.number.toNat + count → m.view.pageOf s n = none)
    {α : Type} {next : ExceptT VmError Action α}
    (hnext : ∀ m₁, (∃ space, m₁.spaces.get? s = some space) → PanicsOnly stop next.run m₁) :
    PanicsOnly stop (insertRun s [] pages >>= fun _ => next).run m := by
  obtain ⟨space, hspace⟩ := hspace
  obtain ⟨hplaces, hnodup⟩ := MadeFor.places hpages hmake hfree
  obtain ⟨m₁, left, hrun, hleft⟩ : ∃ m₁ left, Answers (insertRun s [] pages) m (.ok ()) m₁ ∧
      m₁.spaces.get? s = some left := exists_insertRun hspace
    (fun page hpage => by rw [← view_pageOf_eq hspace, hplaces page hpage]) hnodup
  exact .step hrun (hnext m₁ ⟨left, hleft⟩)

/-! ### Segments -/

section

variable {start : VirtualAddress} {offset count index : Nat} {writable : Bool}

theorem exists_segmentPage {handle : Option Handle} {readBytes : Nat}
    (haligned : start.isPageAligned = true) (hrange : start.toNat + count * pageSize ≤ kernelBase)
    (hoffset : offset + count * pageSize < Word.limit) (hlt : index < count) :
    ∃ page, segmentPage handle offset readBytes start writable index = .ok page := by
  obtain ⟨hmul, hle⟩ := exists_mul hlt (Nat.lt_of_le_of_lt (Nat.le_add_left _ _) hoffset)
  obtain ⟨va, hva, hpage⟩ := exists_pageAddress haligned hrange hle
  have hcreate : ∀ contents, ∃ page, Page.create va writable contents = .ok page := fun _ =>
    ⟨_, dif_pos hpage⟩
  have hword : offset + index * pageSize < Word.limit :=
    Nat.lt_of_le_of_lt (Nat.add_le_add_left (Nat.le_trans (Nat.le_add_right _ _) hle) _) hoffset
  have hslice : ∀ handle, ∃ slice, FileSlice.create handle (offset + index * pageSize)
      (bytesInPage readBytes index) = .ok slice := fun handle =>
    ⟨_, dif_pos (Nat.min_le_right _ _)⟩
  simp only [segmentPage, bind_eq_ok]
  cases handle with
  | none =>
      obtain ⟨page, hpage⟩ := hcreate (.pending .zeros)
      exact ⟨page, _, hmul, va, hva, hpage⟩
  | some handle =>
      by_cases hfile : 0 < bytesInPage readBytes index
      · obtain ⟨slice, hslice⟩ := hslice handle
        obtain ⟨page, hpage⟩ := hcreate (.pending (.loader (.segment slice)))
        refine ⟨page, _, hmul, va, hva, ?_⟩
        simp only [if_pos hfile, bind_eq_ok]
        exact ⟨_, Word.add_ok hword, slice, hslice, hpage⟩
      · obtain ⟨page, hpage⟩ := hcreate (.pending .zeros)
        exact ⟨page, _, hmul, va, hva, by simp only [if_neg hfile, hpage]⟩

/-- A page of a segment can be inserted if the file that it shows is there. -/
theorem insertable_of_segmentPage {handle : Option Handle} {readBytes : Nat} {page : Page}
    (hfile : ∀ opened, handle = some opened → m.view.file opened.file ≠ none)
    (h : segmentPage handle offset readBytes start writable index = .ok page) :
    Insertable m page := by
  obtain ⟨hmade, -, ⟨hcontents, -⟩ | ⟨slice, hcontents, rfl, -⟩⟩ := segmentPage_eq_ok h
  · refine ⟨hmade.pending, hmade.absent, hmade.holders, ?_⟩
    rw [hcontents]
    exact .zeros
  · refine ⟨hmade.pending, hmade.absent, hmade.holders, ?_⟩
    rw [hcontents]
    refine .of_pending (fun he => ?_) (by simp)
    cases he
    exact hfile _ rfl

theorem panicsOnly_loadSegment (hspace : ∃ space, m.spaces.get? s = some space) {file : Handle}
    {readBytes zeroBytes : Nat} (hfile : m.view.file file.file ≠ none) :
    PanicsOnly stop (loadSegment s file offset start readBytes zeroBytes writable).run m := by
  unfold loadSegment
  dsimp only
  refine .run_require fun haligned => ?_
  rw [Bool.and_eq_true] at haligned
  split
  swap
  · exact .run_throw _
  next total htotal =>
  refine .run_refuse fun hwhole => .run_bind (panicsOnly_requireFreeRange hspace)
    fun _ m₁ hrequire => ?_
  obtain ⟨rfl, hrange⟩ := answers_requireFreeRange hrequire
  obtain ⟨-, -, htop, hfree⟩ := hrange.1 rfl
  have hcount : total / pageSize * pageSize = total :=
    Nat.div_mul_cancel (Nat.dvd_of_mod_eq_zero (by omega))
  refine .run_refuse fun hword => ?_
  have hoffset : offset + total / pageSize * pageSize < Word.limit := by
    rw [hcount]
    simp only [Word.add?] at hword
    split at hword
    · next hlt => exact hlt
    · exact absurd rfl hword
  -- whether a file is behind the segment or not, its pages are made and inserted
  have hinsert : ∀ {m₂ handle}, m₂.spaces = m₁.spaces → m₂.view = m₁.view →
      PanicsOnly stop (ExceptT.run (ε := VmError) (do
        insertRun s [] (← segmentPages handle offset readBytes start writable (total / pageSize))
        record (.segmentMapped (← getSpace s).name start (total / pageSize) readBytes offset))) m₂ := by
    intro m₂ handle hspaces hview
    obtain ⟨pages, hpages⟩ : ∃ pages,
        segmentPages handle offset readBytes start writable (total / pageSize) = .ok pages :=
      exists_mapM_eq_ok fun index hindex =>
        exists_segmentPage haligned.1 htop hoffset (List.mem_range.1 hindex)
    refine .run_computed hpages (panicsOnly_insertRun_bind (by rw [hspaces]; exact hspace) hpages
      (fun hpage => (segmentPage_eq_ok hpage).1) (by rw [hview]; exact hfree) fun m₃ hspace₃ => ?_)
    obtain ⟨space, hspace₃⟩ := hspace₃
    exact .run_step (returns_getSpace.2 ⟨hspace₃, rfl⟩) (.run_liftM (.modify _))
  split
  · refine .run_liftM_bind (panicsOnly_reopen hfile) fun handle? m₂ hreopen => ?_
    obtain ⟨hview, ⟨files, hm₂⟩, -⟩ := returns_reopen hreopen
    cases handle? with
    | none => exact .run_throw _
    | some handle => exact hinsert (by rw [hm₂]) hview
  · exact hinsert rfl rfl

/-! ### Mapped files -/

theorem exists_filePage {handle : Handle} {mapped : Nat}
    (haligned : start.isPageAligned = true) (hrange : start.toNat + count * pageSize ≤ kernelBase)
    (hoffset : offset + count * pageSize < Word.limit) (hlt : index < count) :
    ∃ page, filePage handle offset mapped start writable index = .ok page := by
  obtain ⟨hmul, hle⟩ := exists_mul hlt (Nat.lt_of_le_of_lt (Nat.le_add_left _ _) hoffset)
  obtain ⟨va, hva, hpage⟩ := exists_pageAddress haligned hrange hle
  have hword : offset + index * pageSize < Word.limit :=
    Nat.lt_of_le_of_lt (Nat.add_le_add_left (Nat.le_trans (Nat.le_add_right _ _) hle) _) hoffset
  simp only [filePage, bind_eq_ok]
  exact ⟨_, _, hmul, _, Word.add_ok hword, _, dif_pos (Nat.min_le_right _ _), _, hva, dif_pos hpage⟩

theorem insertable_of_filePage {handle : Handle} {mapped : Nat} {page : Page}
    (hfile : m.view.file handle.file ≠ none)
    (h : filePage handle offset mapped start writable index = .ok page) : Insertable m page := by
  obtain ⟨hmade, -, slice, hcontents, rfl, -⟩ := filePage_eq_ok h
  refine ⟨hmade.pending, hmade.absent, hmade.holders, ?_⟩
  rw [hcontents]
  refine .of_pending (fun he => ?_) (by simp)
  cases he
  exact hfile

theorem panicsOnly_mapFile (hspace : ∃ space, m.spaces.get? s = some space) {file : Handle}
    {length : Nat}
    (hfile : m.view.file file.file ≠ none) :
    PanicsOnly stop (mapFile s start length writable file offset).run m := by
  unfold mapFile
  dsimp only
  refine .run_require fun _ => .run_refuse fun _ => .run_refuse fun _ => .run_require fun haligned =>
    .run_bind (panicsOnly_requireFreeRange hspace) fun _ m₁ hrequire => ?_
  obtain ⟨rfl, hrange⟩ := answers_requireFreeRange hrequire
  obtain ⟨-, -, htop, hfree⟩ := hrange.1 rfl
  generalize (length + (pageSize - 1)) / pageSize = count at htop hfree ⊢
  refine .run_refuse fun hword => ?_
  rw [isNone_offsetEnd_iff, not_not] at hword
  obtain ⟨current, hcurrent⟩ := exists_file hfile
  refine .run_step (returns_getFile.2 ⟨hcurrent, rfl⟩) (.run_liftM_bind (panicsOnly_reopen hfile)
    fun handle? m₂ hreopen => .run_refuse fun _ => ?_)
  obtain ⟨hview, ⟨files, hm₂⟩, -⟩ := returns_reopen hreopen
  cases handle? with
  | none => exact .run_throw _
  | some handle =>
  obtain ⟨pages, hpages⟩ : ∃ pages, filePages handle offset (min (current.length - offset) length)
      start writable count = .ok pages :=
    exists_mapM_eq_ok fun index hindex =>
      exists_filePage haligned htop hword (List.mem_range.1 hindex)
  refine .run_computed hpages (panicsOnly_insertRun_bind (by rw [hm₂]; exact hspace) hpages
    (fun hpage => (filePage_eq_ok hpage).1) (by rw [hview]; exact hfree) fun m₃ hleft => ?_)
  obtain ⟨left, hleft⟩ := hleft
  obtain ⟨space₃, hspace₃⟩ := exists_space_modify hleft fun space =>
    { space with regions := space.regions.insert start ⟨start, count, handle, offset, writable⟩ }
  exact .run_liftM_bind (.modify _) fun _ m₄ hupdate => by
    rw [returns_updateSpace] at hupdate
    subst hupdate
    exact .run_step (returns_getSpace.2 ⟨hspace₃, rfl⟩) (.run_liftM_bind (.modify _) fun _ _ _ =>
      .run_pure _)

/-- Mapping a descriptor does not panic if whatever is open as one is there. -/
theorem panicsOnly_mapDescriptor (hspace : ∃ space, m.spaces.get? s = some space) {length : Nat}
    {descriptor : Int} {lookup : Int → Option Handle}
    (hfile : ∀ file, lookup descriptor = some file → m.view.file file.file ≠ none) :
    PanicsOnly stop (mapDescriptor s start length writable descriptor offset lookup).run m := by
  unfold mapDescriptor
  split
  · next file hlookup =>
    obtain ⟨_, hdescriptor, hlookup⟩ := Option.bind_eq_some_iff.1 hlookup
    unfold mappableDescriptor? at hdescriptor
    split at hdescriptor
    · cases hdescriptor
    · cases hdescriptor
      exact panicsOnly_mapFile hspace (hfile file hlookup)
  · exact .run_throw _

theorem inRange_of_filePages {handle region : Handle} {mapped : Nat} {pages : List Page}
    (h : filePages handle offset mapped start writable count = .ok pages) :
    Region.InRange ⟨start, count, region, offset, writable⟩ := by
  intro index hlt
  obtain ⟨page, -, hpage⟩ := exists_of_mapM_eq_ok h (List.mem_range.2 hlt)
  simp only [filePage, bind_eq_ok] at hpage
  obtain ⟨distance, hdistance, _, -, _, -, va, hva, -⟩ := hpage
  refine ⟨va.number, ?_⟩
  simp only [regionPage, bind_eq_ok, pure_eq_ok]
  exact ⟨distance, hdistance, va, hva, rfl⟩

end

/-! ### The first stack page -/

theorem panicsOnly_setUpStack (h : m.Serves s) :
    PanicsOnly (Stopped asked m) (setUpStack s).run m := by
  have hvalid : AddressKind.virtual.Valid (userStack - pageSize) := by decide
  have haligned : (⟨_, hvalid⟩ : VirtualAddress).isPageAligned = true := by
    simp only [Address.isPageAligned]
    decide
  unfold setUpStack
  refine .run_computed (dif_pos hvalid) (.run_computed (dif_pos haligned)
    (.run_bind (panicsOnly_insertPage h.exists_space) fun key m₁ hinsert => ?_))
  rcases answers_insertPage h.ready.sound rfl rfl rfl hinsert with ⟨_, he, -⟩ | ⟨he, hone⟩
  · cases he
  cases he
  have hadded := passed_insertPage h.ready.sound hone
  have h₁ := h.passed hadded
  obtain ⟨space₁, hspace₁⟩ := h₁.exists_space
  have hplace := hone.pageOf_eq (⟨userStack - pageSize, hvalid⟩ : VirtualAddress).number
  rw [if_pos rfl] at hplace
  obtain ⟨page, hpage, -⟩ := h₁.ready.sound.coherent.placement.placed hplace
  have hdirectory := view_directoryOf_eq hspace₁
  refine .run_bind (.run_tryCatch (.run_step (returns_getSpace.2 ⟨hspace₁, rfl⟩)
    ((panicsOnly_claim h₁.ready hdirectory hpage).after hadded.course)) fun cause m₂ hfailed => ?_)
    fun _ _ _ => .run_liftM (.modify _)
  simp only [answers_liftM_bind, returns_getSpace, and_assoc, exists_and_left,
    exists_eq_left] at hfailed
  obtain ⟨_, hspace, hclaim⟩ := hfailed
  cases hspace₁.symm.trans hspace
  obtain ⟨-, effects, hclaimed⟩ := passed_claim h₁.ready.sound hdirectory hplace hclaim
  exact .run_liftM_bind ((h₁.passed hclaimed).removePage _).panicsOnly fun _ _ _ => .run_throw _

end DemandPaging
