import DemandPaging.Proofs.FaultOutcome

/-!
Accesses to user memory fault once at most.

An access that the processor refuses is tried again once the fault was handled, and up to four times. The
second attempt is the last one that is ever needed: a fault that was resolved leaves the page in a frame,
mapped for the process and with the right that the access needs, even if the frame was taken from another
page for it. So whatever stops an access is what its only fault was rejected for.

A buffer is cut into pieces, one for each page it touches. They are transferred from the first to the
last, and where one is rejected all before it are transferred.
-/

namespace DemandPaging

open Machine Space

/-! ### Access through a directory -/

/-- The processor permits an access of a process where the page is mapped for the user with the right that
is needed. -/
theorem Directory.exists_access {directory : Directory} {va a : VirtualAddress}
    {pa : PhysicalAddress} {flags : PageFlags} {write : Bool}
    (hlocate : directory.locate a = some (pa, flags)) (hnumber : a.number = va.number)
    (huser : flags.test .user = true) (hwritable : write = true → flags.test .writable = true) :
    ∃ reached, directory.access va write = .ok reached := by
  rw [locate, Option.map_eq_some_iff] at hlocate
  obtain ⟨entry, hfound, he⟩ := hlocate
  cases he
  rw [find?_eq_of_number_eq hnumber] at hfound
  have hrights : ¬(!entry.flags.test .user || (write && !entry.flags.test .writable)) = true := by
    rw [huser, Bool.not_true, Bool.false_or, Bool.and_eq_true, Bool.not_eq_true']
    rintro ⟨hwrite, hreadOnly⟩
    rw [hwritable hwrite] at hreadOnly
    cases hreadOnly
  exact ⟨_, by rw [access, hfound]; exact if_neg hrights⟩

namespace Machine

variable {m m' : Machine} {s : Key AddressSpace} {d : Key Directory} {va : VirtualAddress}
  {write : Bool} {violation : AccessViolation}

/-- An access is refused by the directory alone, and nothing changes. -/
theorem answers_accessPage_error :
    Answers (accessPage d va write) m (.error violation) m' ↔
      (∃ directory, m.directories.get? d = some directory ∧
        directory.access va write = .error violation) ∧ m' = m := by
  simp only [accessPage, answers_liftM_bind, returns_getDirectory, and_assoc, exists_and_left,
    exists_eq_left]
  constructor
  · rintro ⟨directory, hfound, hrun⟩
    split at hrun
    · next haccess =>
      obtain ⟨he, rfl⟩ := answers_throw.1 hrun
      cases he
      exact ⟨⟨directory, hfound, haccess⟩, rfl⟩
    · simp only [answers_liftM_bind, answers_pure] at hrun
      obtain ⟨_, _, -, he, -⟩ := hrun
      cases he
  · rintro ⟨⟨directory, hfound, haccess⟩, rfl⟩
    refine ⟨directory, hfound, ?_⟩
    rw [haccess]
    exact answers_throw.2 ⟨rfl, rfl⟩

/-- No access is refused to a page that is there and gives the right to it. -/
theorem Maps.not_refused {n : PageNumber} {page : Page} {f : FrameNumber} (h : m.Maps s n page f)
    (hdirectory : m.view.directoryOf s = some d) (hnumber : page.va.number = va.number)
    (hwritable : write = true → page.writable = true) :
    ¬Answers (accessPage d va write) m (.error violation) m' := by
  intro hrun
  obtain ⟨space, directory, pa, flags, hspace, hfound, -, hlocate, -, huser, hrights⟩ := h.mapped
  obtain ⟨⟨directory', hfound', hrefused⟩, -⟩ := answers_accessPage_error.1 hrun
  have hd : space.directory = d := by
    rw [view_directoryOf_eq hspace] at hdirectory
    exact Option.some.inj hdirectory
  rw [← hd, hfound] at hfound'
  cases hfound'
  obtain ⟨reached, haccess⟩ := Directory.exists_access hlocate hnumber huser fun hwrite =>
    hrights.trans (hwritable hwrite)
  cases hrefused.symm.trans haccess

/-- What goes through a page is refused where the access to the page is. -/
theorem refused_of_through {α : Type} {use : PhysicalAddress → Action α}
    (hrun : Answers (accessPage d va write >>= fun pa => liftM (use pa)) m (.error violation) m') :
    Answers (accessPage d va write) m (.error violation) m' := by
  rw [answers_bind] at hrun
  rcases hrun with ⟨_, he, haccess⟩ | ⟨pa, m₁, -, huse⟩
  · cases he
    exact haccess
  · obtain ⟨_, he, -⟩ := answers_liftM.1 huse
    cases he

end Machine

/-! ### One access -/

namespace Space

variable {α : Type} {m m' : Machine} {s : Key AddressSpace} {space : AddressSpace}
  {va : VirtualAddress} {write : Bool} {access : ExceptT AccessViolation Action α}

/-- The processor refuses an access of a process, which changes nothing, and raises a fault for it. -/
inductive Faults (s : Key AddressSpace) (va : VirtualAddress) (write : Bool)
    (access : ExceptT AccessViolation Action α) (m : Machine) : PageFault → Prop where
  | refused {violation : AccessViolation} {space : AddressSpace}
      (hrefused : Answers access m (.error violation) m) (hspace : m.spaces.get? s = some space) :
      Faults s va write access m ⟨va, true, write, violation == .notPresent, space.stackPointer⟩

/-- How an access is answered: it is made at once, or after one fault, or its one fault is rejected. -/
inductive OneFault (s : Key AddressSpace) (va : VirtualAddress) (write : Bool)
    (access : ExceptT AccessViolation Action α) (m : Machine) :
    Except Rejection α → Machine → Prop where
  | atOnce {value : α} {m' : Machine} (hmade : Answers access m (.ok value) m') :
      OneFault s va write access m (.ok value) m'
  | resolved {fault : PageFault} {resolution : Resolution} {value : α} {m₁ m' : Machine}
      (hfaults : Faults s va write access m fault)
      (hresolved : Answers (handleFault s fault) m (.ok resolution) m₁)
      (hmade : Answers access m₁ (.ok value) m') : OneFault s va write access m (.ok value) m'
  | rejected {fault : PageFault} {cause : Rejection} {m' : Machine}
      (hfaults : Faults s va write access m fault)
      (hrejected : Answers (handleFault s fault) m (.error cause) m') :
      OneFault s va write access m (.error cause) m'

def StopsInFault (s : Key AddressSpace) (va : VirtualAddress) (write : Bool)
    (access : ExceptT AccessViolation Action α) (m : Machine) (panic : Panic) (m' : Machine) : Prop :=
  ∃ fault, Faults s va write access m fault ∧ Panics (handleFault s fault).run m panic m'

/-- An access of a process to what is at an address. It does not panic, and where it is refused the
processor refuses the access to the page. -/
structure GoesThrough (s : Key AddressSpace) (d : Key Directory) (va : VirtualAddress) (write : Bool)
    (access : ExceptT AccessViolation Action α) : Prop where
  completes : ∀ {m : Machine}, m.Serves s → m.view.directoryOf s = some d →
    PanicsOnly (fun _ _ => False) access.run m
  refused : ∀ {m m' : Machine} {violation}, Answers access m (.error violation) m' →
    Answers (accessPage d va write) m (.error violation) m'

theorem goesThrough_loadBytes {d : Key Directory} {length : Nat}
    (hfits : va.pageOffset + length ≤ pageSize) :
    GoesThrough s d va false (loadBytes d va length) where
  completes h hdirectory := panicsOnly_loadBytes h.ready hdirectory hfits
  refused := refused_of_through

theorem goesThrough_storeBytes {d : Key Directory} {data : Array UInt8}
    (hfits : va.pageOffset + data.size ≤ pageSize) :
    GoesThrough s d va true (storeBytes d va data) where
  completes h hdirectory := panicsOnly_storeBytes h.ready hdirectory hfits
  refused := refused_of_through

theorem verdict_eq_ok {fault : PageFault} {resolution : Resolution}
    (h : m.verdict space fault = .ok resolution) :
    resolution = .stackGrown ∨ resolution = .resolved ∧
      ∃ page, m.pageAt? space fault.address = some page ∧
        (fault.write = true → page.writable = true) := by
  unfold verdict at h
  cases hpage : m.pageAt? space fault.address with
  | none =>
      simp only [hpage] at h
      split_ifs at h
      cases h
      exact .inl rfl
  | some page =>
      simp only [hpage] at h
      split_ifs at h with _ _ _ hrights
      cases h
      rw [not_and, Bool.not_eq_false] at hrights
      exact .inr ⟨rfl, page, rfl, hrights⟩

/-- A fault that was resolved leaves its page mapped, with the right that was asked for. -/
theorem exists_maps_of_resolved (h : Ready none m) (hhand : m.HandInList)
    (hspace : m.spaces.get? s = some space) {fault : PageFault} {resolution : Resolution}
    (hrun : Answers (handleFault s fault) m (.ok resolution) m') :
    ∃ page f, m'.Maps s fault.address.number page f ∧ page.va.number = fault.address.number ∧
      (fault.write = true → page.writable = true) := by
  have hsettled := (ends_handleFault h hhand hspace fault).returned hrun
  obtain ⟨effects, hpassed⟩ := passed_handleFault h.sound hrun
  obtain ⟨page, f, hmaps⟩ := hsettled.present resolution rfl
  obtain ⟨key, hplace, hpage, -⟩ := hmaps.resident
  obtain ⟨_, hpage', hnumber⟩ := (hpassed.sound h.sound).coherent.placement.placed hplace
  cases hpage.symm.trans hpage'
  refine ⟨page, f, hmaps, hnumber, fun hwrite => ?_⟩
  rcases verdict_eq_ok hsettled.answered.symm with rfl | ⟨rfl, page₀, hfound, hwritable⟩
  · -- The page is the one that was added.
    have hgrown := hsettled.grown rfl
    obtain ⟨page₁, _, hpage₁, -, hwritable, -⟩ := hgrown.page
    have hspace' := (congrFun hgrown.spaces s).trans (Function.update_self ..)
    rw [view_pageOf_eq hspace', Number.number_roundDown, Std.ExtTreeMap.getElem?_insert_self,
      Option.some.injEq] at hplace
    rw [← hplace, hpage₁, Option.some.injEq] at hpage
    rw [← hpage, hwritable]
  · -- The page was there before, and its rights are what they were.
    obtain ⟨key₀, hkey₀, hpage₀⟩ := Option.bind_eq_some_iff.1 hfound
    have hspace' := (congrFun (hsettled.kept nofun) s).trans hspace
    rw [view_pageOf_eq hspace'] at hplace
    cases hkey₀.symm.trans hplace
    obtain ⟨⟨page₁, hpage₁, -, hsame⟩, -⟩ := hpassed.page_kept h.sound hpage₀
    cases hpage.symm.trans hpage₁
    rw [hsame, hwritable hwrite]

end Space

/-- An address space can be asked for something, and the hand of the clock is in its list. -/
structure Machine.Attends (m : Machine) (s : Key AddressSpace) : Prop extends m.Serves s where
  hand : m.HandInList

namespace Space

variable {α : Type} {m m₁ m' : Machine} {s : Key AddressSpace} {space : AddressSpace}
  {va : VirtualAddress} {write : Bool} {access : ExceptT AccessViolation Action α}
  {d : Key Directory}

/-- Two attempts are all that an access ever needs. -/
theorem ends_retry (h : m.Attends s) (hdirectory : m.view.directoryOf s = some d)
    (haccess : GoesThrough s d va write access) (attempts : Nat) :
    Ends (retry s va write access (attempts + 2)).run m (OneFault s va write access m)
      (StopsInFault s va write access m) := by
  obtain ⟨space, hspace⟩ := h.exists_space
  rw [retry]
  refine .run_liftM_bind ((haccess.completes h.toServes hdirectory).mono fun _ _ => False.elim)
    fun answer m₁ hrun _ => ?_
  cases answer with
  | ok value => exact .run_pure (.atOnce hrun)
  | error violation =>
      obtain ⟨-, rfl⟩ := answers_accessPage_error.1 (haccess.refused hrun)
      have hfaults : Faults s va write access m₁ _ := .refused hrun hspace
      have hhandling : PanicsOnly (StopsInFault s va write access m₁) (handleFault s _).run m₁ :=
        .intro (fun _ _ _ => trivial) fun panic m' hpanic => ⟨_, hfaults, hpanic⟩
      refine .run_step (returns_getSpace.2 ⟨hspace, rfl⟩) (.run_bind hhandling
        (fun cause m₂ hrejected _ => .rejected hfaults hrejected) fun resolution m₂ hresolved _ => ?_)
      -- Now the page is there, so the second attempt succeeds.
      obtain ⟨effects, hpassed⟩ := passed_handleFault h.ready.sound hresolved
      obtain ⟨page, f, hmaps, hnumber, hwritable⟩ :=
        exists_maps_of_resolved h.ready h.hand hspace hresolved
      have hdirectory₂ : m₂.view.directoryOf s = some d := by
        rw [hpassed.pagesOnly.directoryOf, hdirectory]
      rw [retry]
      refine .run_liftM_bind ((haccess.completes (h.passed hpassed) hdirectory₂).mono
        fun _ _ => False.elim) fun answer m₃ hrun₂ _ => ?_
      cases answer with
      | ok value => exact .run_pure (.resolved hfaults hresolved hrun₂)
      | error violation₂ =>
          exact absurd (haccess.refused hrun₂) (hmaps.not_refused hdirectory₂ hnumber hwritable)

/-! ### Buffers -/

abbrev PieceAccess (α : Type) := Piece → VirtualAddress → Key Directory → ExceptT AccessViolation Action α

def loadPiece : PieceAccess (Array UInt8) := fun piece va d => loadBytes d va piece.length

def storePiece (data : Array UInt8) : PieceAccess Unit := fun piece va d =>
  storeBytes d va (data.extract piece.offset (piece.offset + piece.length))

/-- How the access to a piece is answered: there is no such address, or it faults once at most. -/
inductive PieceAnswered (s : Key AddressSpace) (va : VirtualAddress) (write : Bool)
    (access : PieceAccess α) (piece : Piece) (m : Machine) :
    Except Rejection α → Machine → Prop where
  | outside (hnone : va.add? piece.offset = none) :
      PieceAnswered s va write access piece m (.error .kernelAddress) m
  | tried {a : VirtualAddress} {space : AddressSpace} {answer : Except Rejection α} {m' : Machine}
      (ha : va.add? piece.offset = some a) (hspace : m.spaces.get? s = some space)
      (honce : OneFault s a write (access piece a space.directory) m answer m') :
      PieceAnswered s va write access piece m answer m'

def PieceStops (s : Key AddressSpace) (va : VirtualAddress) (write : Bool) (access : PieceAccess α)
    (piece : Piece) (m : Machine) (panic : Panic) (m' : Machine) : Prop :=
  ∃ a space, va.add? piece.offset = some a ∧ m.spaces.get? s = some space ∧
    StopsInFault s a write (access piece a space.directory) m panic m'

/-- Pieces are transferred one after the other, up to the first that is rejected. -/
inductive InTurn (s : Key AddressSpace) (va : VirtualAddress) (write : Bool)
    (access : PieceAccess α) :
    List Piece → Machine → List α → Except Rejection Unit → Machine → Prop where
  | complete {m : Machine} : InTurn s va write access [] m [] (.ok ()) m
  | transferred {piece : Piece} {rest : List Piece} {value : α} {values : List α}
      {result : Except Rejection Unit} {m m₁ m' : Machine}
      (hpiece : PieceAnswered s va write access piece m (.ok value) m₁)
      (hrest : InTurn s va write access rest m₁ values result m') :
      InTurn s va write access (piece :: rest) m (value :: values) result m'
  | rejected {piece : Piece} {rest : List Piece} {cause : Rejection} {m m' : Machine}
      (hpiece : PieceAnswered s va write access piece m (.error cause) m') :
      InTurn s va write access (piece :: rest) m [] (.error cause) m'

inductive StopsInTurn (s : Key AddressSpace) (va : VirtualAddress) (write : Bool)
    (access : PieceAccess α) : List Piece → Machine → Panic → Machine → Prop where
  | here {piece : Piece} {rest : List Piece} {panic : Panic} {m m' : Machine}
      (hpiece : PieceStops s va write access piece m panic m') :
      StopsInTurn s va write access (piece :: rest) m panic m'
  | later {piece : Piece} {rest : List Piece} {value : α} {panic : Panic} {m m₁ m' : Machine}
      (hpiece : PieceAnswered s va write access piece m (.ok value) m₁)
      (hrest : StopsInTurn s va write access rest m₁ panic m') :
      StopsInTurn s va write access (piece :: rest) m panic m'

/-- Pieces that follow each other from one offset to another. None of them is empty or crosses the
boundary of a page, and all but the last reach it, so no two lie in one page. -/
inductive Tiles (start : Nat) : (first : Nat) → List Piece → (stop : Nat) → Prop where
  | nil {offset : Nat} : Tiles start offset [] offset
  | cons {offset length : Nat} {rest : List Piece} {stop : Nat} (hsome : 0 < length)
      (hwithin : (start + offset) % pageSize + length ≤ pageSize)
      (hfull : rest = [] ∨ (start + offset) % pageSize + length = pageSize)
      (hrest : Tiles start (offset + length) rest stop) :
      Tiles start offset (⟨offset, length⟩ :: rest) stop

/-- A buffer is cut at the boundaries of pages and nowhere else. -/
theorem tiles_pieces {start position offset length : Nat} (hposition : position = start + offset) :
    Tiles start offset (pieces position offset length) (offset + length) := by
  fun_induction pieces position offset length with
  | case1 position offset => exact .nil
  | case2 position offset length hlength size ih =>
      subst hposition
      have hlt : (start + offset) % pageSize < pageSize := Nat.mod_lt _ (by decide)
      have hsize : size = min (pageSize - (start + offset) % pageSize) length := rfl
      have hrest := ih (by omega)
      rw [show offset + size + (length - size) = offset + length by omega] at hrest
      refine .cons (by omega) (by omega) ?_ hrest
      by_cases hlast : length - size = 0
      · left
        rw [hlast, pieces, dif_pos rfl]
      · right
        omega

theorem ends_readPiece (h : m.Attends s) {piece : Piece} (hpiece : piece.Within va) :
    Ends (readPiece s va piece).run m (PieceAnswered s va false loadPiece piece m)
      (PieceStops s va false loadPiece piece m) := by
  obtain ⟨space, hspace⟩ := h.exists_space
  unfold readPiece
  split
  swap
  · next hnone => exact .run_throw (.outside (Option.eq_none_iff_forall_ne_some.2 hnone))
  next a ha =>
  have hfits := hpiece.pageOffset ha
  exact .run_step (returns_getSpace.2 ⟨hspace, rfl⟩) ((ends_retry h (view_directoryOf_eq hspace)
    (goesThrough_loadBytes hfits) 2).mono (fun _ _ _ honce => .tried ha hspace honce)
      fun _ _ hstops => ⟨a, space, ha, hspace, hstops⟩)

theorem ends_writePiece (h : m.Attends s) {data : Array UInt8} {piece : Piece}
    (hpiece : piece.Within va) (hlength : piece.offset + piece.length ≤ data.size) :
    Ends (writePiece s va data piece).run m (PieceAnswered s va true (storePiece data) piece m)
      (PieceStops s va true (storePiece data) piece m) := by
  obtain ⟨space, hspace⟩ := h.exists_space
  unfold writePiece
  split
  swap
  · next hnone => exact .run_throw (.outside (Option.eq_none_iff_forall_ne_some.2 hnone))
  next a ha =>
  have hfits : a.pageOffset + (data.extract piece.offset (piece.offset + piece.length)).size ≤
      pageSize := by
    rw [Array.size_extract, Nat.min_eq_left hlength, Nat.add_sub_cancel_left]
    exact hpiece.pageOffset ha
  exact .run_step (returns_getSpace.2 ⟨hspace, rfl⟩) ((ends_retry h (view_directoryOf_eq hspace)
    (goesThrough_storeBytes hfits) 2).mono (fun _ _ _ honce => .tried ha hspace honce)
      fun _ _ hstops => ⟨a, space, ha, hspace, hstops⟩)

theorem attends_of_readPiece (h : m.Attends s) {piece : Piece}
    {answer : Except Rejection (Array UInt8)} (hrun : Answers (readPiece s va piece) m answer m') :
    m'.Attends s where
  toServes := by
    obtain ⟨effects, hpassed, -⟩ := answers_readPiece h.ready.sound hrun
    exact h.toServes.passed hpassed
  hand := by
    have hkeeps : Keeps (Others s) (readPiece s va piece).run := by
      unfold readPiece
      grind
    exact (hkeeps.returns hrun).steady.hand h.hand

theorem attends_of_writePiece (h : m.Attends s) {data : Array UInt8} {piece : Piece}
    (hlength : piece.offset + piece.length ≤ data.size) {answer : Except Rejection Unit}
    (hrun : Answers (writePiece s va data piece) m answer m') : m'.Attends s where
  toServes := by
    obtain ⟨effects, m₁, hpassed, ⟨cause, -, rfl⟩ | ⟨-, hspaces, n, offset, key, -, -, -, hstored⟩⟩ :=
      answers_writePiece h.ready.sound hlength hrun
    · exact h.toServes.passed hpassed
    have h₁ := h.toServes.passed hpassed
    refine ⟨h₁.ready.quiet hstored (by simp) (by simp only [view, hspaces]), ?_⟩
    rw [view_directoryOf_congr hspaces]
    exact h₁.opened
  hand := by
    have hkeeps : Keeps (Others s) (writePiece s va data piece).run := by
      unfold writePiece
      grind
    exact (hkeeps.returns hrun).steady.hand h.hand

theorem ends_readPieces {list : List Piece} {got : Array UInt8} (h : m.Attends s)
    (hpieces : ∀ piece ∈ list, piece.Within va) :
    Ends (readPieces s va got list) m
      (fun answer m' => ∃ values, answer.1 = values.foldl (· ++ ·) got ∧
        InTurn s va false loadPiece list m values answer.2 m')
      (StopsInTurn s va false loadPiece list m) := by
  induction list generalizing m got with
  | nil => exact .pure ⟨[], rfl, .complete⟩
  | cons piece rest ih =>
      have hpiece := ends_readPiece h (hpieces piece List.mem_cons_self)
      refine (hpiece.mono (fun _ _ _ => id) fun _ _ => .here).bind fun answer m₁ hrun hanswered => ?_
      cases answer with
      | error cause => exact .pure ⟨[], rfl, .rejected hanswered⟩
      | ok bytes =>
          have hwithin : ∀ other ∈ rest, other.Within va := fun other hmem =>
            hpieces other (List.mem_cons_of_mem _ hmem)
          exact (ih (attends_of_readPiece h hrun) hwithin).mono (fun _ _ _ ⟨values, hbytes, hturn⟩ =>
            ⟨bytes :: values, hbytes, .transferred hanswered hturn⟩) fun _ _ => .later hanswered

theorem ends_writePieces {list : List Piece} {data : Array UInt8} (h : m.Attends s)
    (hpieces : ∀ piece ∈ list, piece.Within va ∧ piece.offset + piece.length ≤ data.size) :
    Ends (writePieces s va data list).run m
      (fun result m' => ∃ stored, InTurn s va true (storePiece data) list m stored result m')
      (StopsInTurn s va true (storePiece data) list m) := by
  induction list generalizing m with
  | nil => exact .run_pure ⟨[], .complete⟩
  | cons piece rest ih =>
      obtain ⟨hwithin, hlength⟩ := hpieces piece List.mem_cons_self
      have hpiece := ends_writePiece h hwithin hlength
      refine (hpiece.mono (fun _ _ _ => id) fun _ _ => .here).run_bind
        (fun cause m₁ _ hanswered => ⟨[], .rejected hanswered⟩) fun u m₁ hrun hanswered => ?_
      exact (ih (attends_of_writePiece h hlength hrun) fun other hmem =>
        hpieces other (List.mem_cons_of_mem _ hmem)).mono
          (fun _ _ _ ⟨stored, hturn⟩ => ⟨u :: stored, .transferred hanswered hturn⟩)
            fun _ _ => .later hanswered

end Space

variable {start m : Machine} {history : List Done} {s : Key AddressSpace} {space : AddressSpace}

/-- Whatever a process reads or writes, each page is asked for once at most: an access that is refused is
made once its fault was resolved, and an access that is rejected is rejected for what its one fault was
rejected for, or because there is no such address. All that comes before it in the buffer has been
transferred by then. -/
theorem Run.faultsOnce (h : Run start history m) (hcapacity : start.pool.capacity ≤ maxFrames)
    (hhand : start.hand = 0) (hspace : m.spaces.get? s = some space) (va : VirtualAddress) :
    (∀ length, Tiles va.toNat 0 (pieces va.toNat 0 length) length) ∧
    (∀ length, Ends ((Request.readUser va length).perform? s) m
      (fun answer? m' => ∃ values result, answer? = some (values.foldl (· ++ ·) #[], result) ∧
        InTurn s va false loadPiece (pieces va.toNat 0 length) m values result m')
      (StopsInTurn s va false loadPiece (pieces va.toNat 0 length) m)) ∧
    ∀ data, Ends ((Request.writeUser va data).perform? s) m
      (fun answer? m' => ∃ stored result, answer? = some result ∧
        InTurn s va true (storePiece data) (pieces va.toNat 0 data.size) m stored result m')
      (StopsInTurn s va true (storePiece data) (pieces va.toNat 0 data.size) m) := by
  have hattends : m.Attends s := ⟨h.serves hcapacity hspace, h.handInList hhand⟩
  have hva : va.toNat = va.toNat + 0 := (Nat.add_zero _).symm
  refine ⟨fun length => ?_, fun length => ?_, fun data => ?_⟩
  · have htiles : Tiles va.toNat 0 (pieces va.toNat 0 length) (0 + length) := tiles_pieces hva
    rwa [Nat.zero_add] at htiles
  · have hwithin : ∀ piece ∈ pieces va.toNat 0 length, piece.Within va := fun _ hmem =>
      (within_of_mem_pieces hva hmem).1
    exact Request.ends_perform? hspace ((ends_readPieces hattends hwithin).mono
      (fun ⟨bytes, result⟩ _ _ ⟨values, hbytes, hturn⟩ => ⟨values, result, by rw [← hbytes], hturn⟩)
        fun _ _ => id)
  · have hwithin : ∀ piece ∈ pieces va.toNat 0 data.size,
        piece.Within va ∧ piece.offset + piece.length ≤ data.size := fun _ hmem => by
      obtain ⟨hwithin, hle⟩ := within_of_mem_pieces hva hmem
      exact ⟨hwithin, by omega⟩
    exact Request.ends_perform? hspace ((ends_writePieces hattends hwithin).mono
      (fun result _ _ ⟨stored, hturn⟩ => ⟨stored, result, rfl, hturn⟩) fun _ _ => id)

/-- One frame for two pages of the stack: a write across their boundary faults in both, and each time the
other page goes to its slot. -/
theorem faultsOnce_across_pages : ∃ history s space m stored m',
    Run (bare 1 2 .empty) history m ∧ m.spaces.get? s = some space ∧
      (pieces (userStack - pageSize - 1) 0 2).length = 2 ∧
        InTurn s ⟨userStack - pageSize - 1, by decide⟩ true (storePiece #[1, 2])
          (pieces (userStack - pageSize - 1) 0 2) m stored (.ok ()) m' := by
  let va : VirtualAddress := ⟨userStack - pageSize - 1, by decide⟩
  have htest : returnsWith (do
        let s ← Space.create "init"
        let stack ← Request.setUpStack.perform? s
        let set ← (Request.setStackPointer va.toNat).perform? s
        let before ← get
        return (s, stack, set, before, ← (Request.writeUser va #[1, 2]).perform? s)) (bare 1 2 .empty)
      (fun (s, stack, set, m, answer) _ => stack.isSome && (set.isSome &&
        ((m.spaces.get? s).isSome && answer == some (.ok ())))) = true := by
    decide +kernel
  obtain ⟨⟨s, stack, set, m, answer⟩, m', hrun, htest⟩ := exists_returns htest
  simp only [returns_bind, returns_pure] at hrun
  obtain ⟨_, _, hcreate, _, _, hstack, _, _, hset, _, _, hget, _, _, hwrite, he, rfl⟩ := hrun
  obtain ⟨rfl, rfl⟩ := returns_get.1 hget
  cases he
  simp only [Bool.and_eq_true, Option.isSome_iff_exists, beq_iff_eq] at htest
  obtain ⟨⟨_, rfl⟩, ⟨_, rfl⟩, ⟨space, hspace⟩, rfl⟩ := htest
  have hrun : Run (bare 1 2 .empty) _ m :=
    ⟨fresh_bare 1 2 .empty, ((Reaches.refl.create hcreate).request hstack).request hset⟩
  obtain ⟨-, -, hwritten⟩ := hrun.faultsOnce (by decide) rfl hspace va
  obtain ⟨stored, result, he, hturn⟩ := (hwritten #[1, 2]).returned hwrite
  cases he
  exact ⟨_, s, space, m, stored, m', hrun, hspace, by decide +kernel, hturn⟩

end DemandPaging
