import DemandPaging.Proofs.Panics.Residency
import DemandPaging.Proofs.Space.Faults

/-!
Faults and accesses do not panic by themselves.

Whatever a process does, the address space that it does it in is there and stays there, and nothing
goes missing on the way. A fault may bring in a page and an access may fault in between, so each may
stop for want of a frame, and for nothing else: a piece of a buffer lies within one page, and a new
stack page starts at the start of a page.
-/

namespace DemandPaging

open Machine Space

/-- A state in which an address space can be asked for something. -/
structure Machine.Serves (m : Machine) (s : Key AddressSpace) : Prop where
  ready : Ready none m
  opened : m.view.directoryOf s ≠ none

variable {m m₁ m' : Machine} {asked : Key Page → Prop} {stop : Panic → Machine → Prop}
  {s : Key AddressSpace} {effects : List Effect}

namespace Machine.Serves

theorem exists_space (h : m.Serves s) : ∃ space, m.spaces.get? s = some space := by
  obtain ⟨d, hd⟩ := Option.ne_none_iff_exists'.1 h.opened
  obtain ⟨space, hspace, -⟩ := Option.map_eq_some_iff.1 hd
  exact ⟨space, hspace⟩

theorem passed {s' : Key AddressSpace} (h : m.Serves s) (hpassed : Passed s' effects m m₁) :
    m₁.Serves s where
  ready := h.ready.passed hpassed
  opened := by
    rw [hpassed.pagesOnly.directoryOf]
    exact h.opened

theorem silent (h : m.Serves s) (hview : m₁.view = m.view) (htidy : m₁.Tidy) : m₁.Serves s :=
  h.passed (Passed.silent (s := s) htidy hview)

theorem removePage (h : m.Serves s) (n : PageNumber) :
    Completes (removePage s n) m fun _ m' =>
      m'.Solid ∧ ∃ space, m'.spaces.get? s = some space :=
  completes_removePage h.ready.solid h.exists_space

end Machine.Serves

/-! ### Pages -/

theorem panicsOnly_insertPage {page : Page} (hspace : ∃ space, m.spaces.get? s = some space) :
    PanicsOnly stop (insertPage s page).run m := by
  obtain ⟨space, hspace⟩ := hspace
  unfold insertPage
  refine .run_step (returns_getSpace.2 ⟨hspace, rfl⟩) (.run_get_bind ?_)
  dsimp only
  split
  · exact .run_throw _
  · exact .run_step (returns_addPage.2 ⟨rfl, rfl⟩) (.run_liftM_bind (.modify _) fun _ _ _ =>
      .run_pure _)

/-! ### Faults -/

theorem panicsOnly_growStack (h : m.Serves s) (address : VirtualAddress) :
    PanicsOnly (Stopped asked m) (growStack s address).run m := by
  obtain ⟨space, hspace⟩ := h.exists_space
  have haligned : address.roundDown.isPageAligned = true := by
    simp only [Address.isPageAligned, Address.toNat_roundDown, pageSize, beq_iff_eq]
    omega
  unfold growStack
  refine .run_step (returns_getSpace.2 ⟨hspace, rfl⟩) (.run_computed (dif_pos haligned)
    (.run_liftM_bind (panicsOnly_insertPage ⟨space, hspace⟩) fun inserted m₁ hinsert => ?_))
  rw [returns_run] at hinsert
  rcases answers_insertPage h.ready.sound rfl rfl rfl hinsert with ⟨_, rfl, rfl, -⟩ | ⟨rfl, hone⟩
  · exact .run_throw _
  have hadded := passed_insertPage h.ready.sound hone
  have h₁ := h.passed hadded
  obtain ⟨space₁, hspace₁⟩ := h₁.exists_space
  have hplace := hone.pageOf_eq address.roundDown.number
  rw [if_pos rfl] at hplace
  obtain ⟨page, hpage, -⟩ := h₁.ready.sound.coherent.placement.placed hplace
  have hdirectory := view_directoryOf_eq hspace₁
  refine .run_step (returns_getSpace.2 ⟨hspace₁, rfl⟩) (.run_liftM_bind
    ((panicsOnly_claim h₁.ready hdirectory hpage).after hadded.course) fun claimed m₂ hclaim => ?_)
  obtain ⟨-, effects, hclaimed⟩ := passed_claim h₁.ready.sound hdirectory hplace hclaim
  have h₂ := h₁.passed hclaimed
  cases claimed with
  | ok u => exact .run_liftM (.modify _)
  | error cause =>
      refine .run_liftM_bind (.modify _) fun _ m₃ hrecord => ?_
      have h₃ := h₂.passed (passed_record (s := s) h₂.ready.sound hrecord)
      exact .run_liftM_bind (h₃.removePage _).panicsOnly fun _ _ _ => .run_throw _

theorem panicsOnly_resolveFault (h : m.Serves s) (fault : PageFault) :
    PanicsOnly (Stopped asked m) (resolveFault s fault).run m := by
  obtain ⟨space, hspace⟩ := h.exists_space
  unfold resolveFault
  dsimp only
  refine .run_refuse fun _ => .run_refuse fun _ => .run_require fun _ =>
    .run_step (returns_getSpace.2 ⟨hspace, rfl⟩) ?_
  split
  · exact .run_require fun _ => .run_bind (panicsOnly_growStack h _) fun _ _ _ => .run_pure _
  · next key hkey =>
    have hplace : m.view.pageOf s fault.address.number = some key := by
      rw [view_pageOf_eq hspace]
      exact hkey
    obtain ⟨page, hpage, -⟩ := h.ready.sound.coherent.placement.placed hplace
    refine .run_step (returns_getPage.2 ⟨hpage, rfl⟩) (.run_refuse fun _ => .run_liftM_bind
      (panicsOnly_claim h.ready (view_directoryOf_eq hspace) hpage) fun claimed _ _ => ?_)
    cases claimed with
    | ok u => exact .run_pure _
    | error cause => exact .run_liftM_bind (.modify _) fun _ _ _ => .run_throw _

theorem panicsOnly_handleFault (h : m.Serves s) (fault : PageFault) :
    PanicsOnly (Stopped asked m) (handleFault s fault).run m := by
  obtain ⟨space, hspace⟩ := h.exists_space
  unfold handleFault
  refine .run_step (returns_getSpace.2 ⟨hspace, rfl⟩) (.run_liftM_bind (.modify _)
    fun _ m₁ hrecord => ?_)
  have hrecorded := passed_record (s := s) h.ready.sound hrecord
  exact .run_tryCatch ((panicsOnly_resolveFault (h.passed hrecorded) fault).after hrecorded.course)
    fun _ _ _ => .run_liftM_bind (.modify _) fun _ _ _ => .run_throw _

/-! ### Accesses -/

/-- Trying an access again and again stops only where handling a fault does. -/
theorem panicsOnly_retry {α : Type} {va : VirtualAddress} {write : Bool} {d : Key Directory}
    {access : ExceptT AccessViolation Action α}
    (haccess : ∀ {m}, m.Serves s → m.view.directoryOf s = some d →
      PanicsOnly (fun _ _ => False) access.run m ∧
        ∀ violation m', Answers access m (.error violation) m' → Passed s [] m m')
    {attempts : Nat} (h : m.Serves s) (hdirectory : m.view.directoryOf s = some d) :
    PanicsOnly (Stopped asked m) (retry s va write access attempts).run m := by
  induction attempts generalizing m with
  | zero => exact .run_throw _
  | succ attempts ih =>
      obtain ⟨htried, hrefused⟩ := haccess h hdirectory
      refine .run_liftM_bind (htried.mono fun _ _ => False.elim) fun answer m₁ hrun => ?_
      cases answer with
      | ok value => exact .run_pure _
      | error violation =>
          have hpassed₁ := hrefused violation m₁ hrun
          have h₁ := h.passed hpassed₁
          obtain ⟨space₁, hspace₁⟩ := h₁.exists_space
          refine .run_step (returns_getSpace.2 ⟨hspace₁, rfl⟩) (.run_bind
            ((panicsOnly_handleFault h₁ _).after hpassed₁.course) fun _ m₂ hhandle => ?_)
          obtain ⟨effects, hpassed₂⟩ := passed_handleFault h₁.ready.sound hhandle
          have hpassed := hpassed₁.trans hpassed₂
          refine (ih (h.passed hpassed) ?_).after hpassed.course
          rw [hpassed.pagesOnly.directoryOf, hdirectory]

structure Space.Piece.Within (va : VirtualAddress) (piece : Piece) : Prop where
  fits : (va.toNat + piece.offset) % pageSize + piece.length ≤ pageSize

theorem Space.Piece.Within.pageOffset {va at_ : VirtualAddress} {piece : Piece} (h : piece.Within va)
    (hat : va.add? piece.offset = some at_) : at_.pageOffset + piece.length ≤ pageSize := by
  rw [Address.pageOffset, Address.toNat_add? hat]
  exact h.fits

theorem within_of_mem_pieces {va : VirtualAddress} {position offset length : Nat}
    (hposition : position = va.toNat + offset) {piece : Piece}
    (hmem : piece ∈ pieces position offset length) :
    piece.Within va ∧ piece.offset + piece.length ≤ offset + length := by
  fun_induction pieces position offset length with
  | case1 => cases hmem
  | case2 position offset length hlength size ih =>
      rcases List.mem_cons.1 hmem with rfl | hmem
      · have hlt : position % pageSize < pageSize := Nat.mod_lt _ (by decide)
        refine ⟨⟨?_⟩, ?_⟩
        · rw [← hposition]
          change position % pageSize + min (pageSize - position % pageSize) length ≤ pageSize
          omega
        · change offset + min (pageSize - position % pageSize) length ≤ offset + length
          omega
      · obtain ⟨hwithin, hle⟩ := ih (by omega) hmem
        have hsize : size ≤ length := Nat.min_le_right _ _
        exact ⟨hwithin, by omega⟩

theorem panicsOnly_readPiece (h : m.Serves s) {va : VirtualAddress} {piece : Piece}
    (hpiece : piece.Within va) :
    PanicsOnly (Stopped asked m) (readPiece s va piece).run m := by
  obtain ⟨space, hspace⟩ := h.exists_space
  unfold readPiece
  split
  swap
  · exact .run_throw _
  next at_ hat =>
  refine .run_step (returns_getSpace.2 ⟨hspace, rfl⟩) (panicsOnly_retry (fun h₁ hdirectory =>
    ⟨panicsOnly_loadBytes h₁.ready hdirectory (hpiece.pageOffset hat), fun violation m' hrun => ?_⟩) h
      (view_directoryOf_eq hspace))
  obtain ⟨hspaces, hcourse, -⟩ := answers_loadBytes h₁.ready.sound hdirectory hrun
  exact .quiet h₁.ready.sound hcourse hspaces

theorem panicsOnly_readPieces {va : VirtualAddress} {got : Array UInt8} {list : List Piece}
    (h : m.Serves s) (hpieces : ∀ piece ∈ list, piece.Within va) :
    PanicsOnly (Stopped asked m) (readPieces s va got list) m := by
  induction list generalizing m got with
  | nil => exact .pure _
  | cons piece rest ih =>
      refine .bind (panicsOnly_readPiece h (hpieces piece List.mem_cons_self))
        fun answer m₁ hrun => ?_
      obtain ⟨effects, hpassed, -⟩ := answers_readPiece h.ready.sound (returns_run.1 hrun)
      cases answer with
      | error cause => exact .pure _
      | ok bytes =>
          exact (ih (h.passed hpassed) fun other hmem =>
            hpieces other (List.mem_cons_of_mem _ hmem)).after hpassed.course

theorem panicsOnly_readUser (h : m.Serves s) (va : VirtualAddress) (length : Nat) :
    PanicsOnly (Stopped asked m) (readUser s va length) m :=
  panicsOnly_readPieces h fun _ hmem => (within_of_mem_pieces (Nat.add_zero _).symm hmem).1

theorem panicsOnly_writePiece (h : m.Serves s) {va : VirtualAddress} {data : Array UInt8}
    {piece : Piece} (hpiece : piece.Within va) (hlength : piece.offset + piece.length ≤ data.size) :
    PanicsOnly (Stopped asked m) (writePiece s va data piece).run m := by
  obtain ⟨space, hspace⟩ := h.exists_space
  have hsize : (data.extract piece.offset (piece.offset + piece.length)).size = piece.length := by
    rw [Array.size_extract]
    omega
  unfold writePiece
  split
  swap
  · exact .run_throw _
  next at_ hat =>
  refine .run_step (returns_getSpace.2 ⟨hspace, rfl⟩) (panicsOnly_retry (fun h₁ hdirectory =>
    ⟨panicsOnly_storeBytes h₁.ready hdirectory (by rw [hsize]; exact hpiece.pageOffset hat),
      fun violation m' hrun => ?_⟩) h (view_directoryOf_eq hspace))
  obtain ⟨hspaces, hcourse, -⟩ := answers_storeBytes h₁.ready.sound hdirectory hrun
  exact .quiet h₁.ready.sound (hcourse violation rfl) hspaces

theorem panicsOnly_writePieces {va : VirtualAddress} {data : Array UInt8} {list : List Piece}
    (h : m.Serves s)
    (hpieces : ∀ piece ∈ list, piece.Within va ∧ piece.offset + piece.length ≤ data.size) :
    PanicsOnly (Stopped asked m) (writePieces s va data list).run m := by
  induction list generalizing m with
  | nil => exact .run_pure _
  | cons piece rest ih =>
      obtain ⟨hwithin, hlength⟩ := hpieces piece List.mem_cons_self
      refine .run_bind (panicsOnly_writePiece h hwithin hlength) fun _ m₂ hrun => ?_
      obtain ⟨effects, m₁, hpassed, ⟨_, he, -⟩ | ⟨-, hspaces, n, offset, key, -, -, -, hstored⟩⟩ :=
        answers_writePiece h.ready.sound hlength hrun
      · cases he
      have h₁ := h.passed hpassed
      have h₂ : m₂.Serves s := by
        refine ⟨h₁.ready.quiet hstored (by simp) (by simp only [view, hspaces]), ?_⟩
        rw [view_directoryOf_congr hspaces]
        exact h₁.opened
      exact (ih h₂ fun other hmem => hpieces other (List.mem_cons_of_mem _ hmem)).after
        (hpassed.course.trans hstored)

theorem panicsOnly_writeUser (h : m.Serves s) (va : VirtualAddress) (data : Array UInt8) :
    PanicsOnly (Stopped asked m) (writeUser s va data).run m :=
  panicsOnly_writePieces h fun _ hmem => by
    obtain ⟨hwithin, hle⟩ := within_of_mem_pieces (Nat.add_zero _).symm hmem
    exact ⟨hwithin, by omega⟩

theorem panicsOnly_pageOutAt (h : m.Serves s) (va : VirtualAddress) :
    PanicsOnly (Stopped (fun key => m.view.pageOf s va.number = some key) m) (Space.pageOut s va)
      m := by
  obtain ⟨space, hspace⟩ := h.exists_space
  unfold Space.pageOut
  refine .step (returns_getSpace.2 ⟨hspace, rfl⟩) ?_
  split
  · next key hkey =>
    have hplace : m.view.pageOf s va.number = some key := by
      rw [view_pageOf_eq hspace]
      exact hkey
    obtain ⟨page, hpage, -⟩ := h.ready.sound.coherent.placement.placed hplace
    refine (panicsOnly_pageOut h.ready hpage).mono fun _ _ hstop => ⟨?_, hstop.solid⟩
    obtain ⟨effects, m₁, stuck, cause, hcourse, hforced, hstuck⟩ := hstop.cause
    refine ⟨effects, m₁, stuck, cause, hcourse, hforced.imp_right fun he => ?_, hstuck⟩
    rw [he, hplace]
  · exact .pure _

end DemandPaging
