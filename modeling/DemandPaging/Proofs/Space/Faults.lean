import DemandPaging.Proofs.Space.Pages

/-!
Page faults and user accesses.

A fault, resolved or rejected, passes: at most a page is brought in or a stack page added, and where
that fails the new page is gone again. An access is a sequence of faults and then the access itself,
piece by piece. So what an access finds, or leaves behind, is what the processor finds once the page
is there, and everything before that passed.
-/

namespace DemandPaging.Space

open Machine

variable {m m' : Machine} {s : Key AddressSpace}

/-! ### Faults -/

theorem passed_claim (h : Sound none m) {key : Key Page} {d : Key Directory} {n : PageNumber}
    (hdirectory : m.view.directoryOf s = some d) (hplace : m.view.pageOf s n = some key)
    {answer : Except VmError Unit} (hrun : Answers (claim key d) m answer m') :
    m'.spaces = m.spaces ∧ ∃ effects, Passed s effects m m' := by
  obtain ⟨hspaces, effects, hcourse, hok, herror⟩ := course_claim h hdirectory hplace hrun
  have hlabels : ∀ e ∈ effects, e = .broughtIn key ∧ answer = .ok () := by
    intro e he
    cases answer with
    | error cause =>
        rw [herror cause rfl] at he
        cases he
    | ok u =>
        rcases hok rfl with ⟨rfl, -⟩ | rfl
        · cases he
        · exact ⟨List.mem_singleton.1 he, rfl⟩
  refine ⟨hspaces, effects, hcourse, .of_spaces hspaces, fun e he => ?_, fun hpage hlacks => ?_⟩
  · rw [(hlabels e he).1]
    exact .broughtIn
  · refine hcourse.steps.page_absent h.coherent hpage hlacks.1 (fun he => ?_) fun he => ?_
    · obtain ⟨hframe, slice, hslice, hlacks⟩ := hlacks
      obtain ⟨hkey, rfl⟩ := hlabels _ he
      cases hkey
      exact hlacks (hasAll_of_claim h hpage hframe hrun hslice)
    · cases (hlabels _ he).1

theorem passed_removePage {m₁ : Machine} {effects : List Effect} {n : PageNumber} {removed : Bool}
    (h : Sound none m) (hpassed : Passed s effects m m₁)
    (hnew : ∀ key, m₁.view.pageOf s n = some key → m.view.created ≤ key.index)
    (hrun : Returns (removePage s n) m₁ removed m') : ∃ effects', Passed s effects' m m' := by
  obtain ⟨honly, -, -, -, effects', hcourse, hremoved⟩ := returns_removePage (hpassed.sound h) hrun
  refine ⟨_, hpassed.course.trans hcourse, hpassed.pagesOnly.trans honly, fun e he => ?_,
    fun hpage hlacks => ?_⟩
  · rcases List.mem_append.1 he with he | he
    · exact hpassed.passing e he
    · obtain ⟨key, hplace, rfl⟩ := hremoved e he
      exact .removed (hnew key hplace)
  · refine hcourse.steps.page_absent (hpassed.sound h).coherent (hpassed.lacking hpage hlacks) hlacks.1
      (fun he => ?_) fun he => ?_
    · obtain ⟨_, -, he⟩ := hremoved _ he
      cases he
    · obtain ⟨key, hplace, he⟩ := hremoved _ he
      cases he
      exact Nat.not_lt.2 (hnew _ hplace) (h.coherent.placement.created hpage)

theorem passed_insertPage {page : Page} (h : Sound none m) (hone : InsertedOne s page .zeros m m') :
    Passed s [.added ⟨m.view.created⟩ .zeros (.zeros pageSize)] m m' where
  course := hone.course
  pagesOnly := hone.pagesOnly
  passing e he := by
    rw [List.mem_singleton.1 he]
    exact .added (Nat.le_refl _)
  lacking hpage hlacks := hone.course.steps.page_absent h.coherent hpage hlacks.1
    (fun he => by cases List.mem_singleton.1 he) (fun he => by cases List.mem_singleton.1 he)

theorem passed_record {event : Event} {u : Unit} (h : Sound none m)
    (hrun : Returns (record event) m u m') : Passed s [] m m' := by
  rw [returns_record.1 hrun]
  exact .silent (h.tidy.of_eq rfl rfl) rfl

theorem passed_growStack (h : Sound none m) {address : VirtualAddress}
    {answer : Except Rejection Unit} (hrun : Answers (growStack s address) m answer m') :
    ∃ effects, Passed s effects m m' := by
  simp only [growStack, answers_liftM_bind, answers_liftM_computed_bind, returns_getSpace,
    and_assoc, exists_and_left, exists_eq_left] at hrun
  obtain ⟨space, hspace, page, hcreate, inserted, m₁, hinsert, hrun⟩ := hrun
  obtain ⟨aligned, rfl⟩ := Page.create_eq_ok hcreate
  rw [returns_run] at hinsert
  rcases answers_insertPage h rfl rfl rfl hinsert with ⟨cause, rfl, rfl, -⟩ | ⟨rfl, hone⟩
  · obtain ⟨-, rfl⟩ := answers_throw.1 hrun
    exact ⟨[], .refl h⟩
  have hadded := passed_insertPage h hone
  have hsound₁ := hadded.sound h
  have hplace := hone.pageOf_eq address.roundDown.number
  rw [if_pos rfl] at hplace
  simp only [answers_liftM_bind, returns_getSpace, and_assoc, exists_and_left, exists_eq_left]
    at hrun
  obtain ⟨space₁, hspace₁, claimed, m₂, hclaim, hrun⟩ := hrun
  rw [returns_run] at hclaim
  obtain ⟨hspaces, effects, hclaimed⟩ :=
    passed_claim hsound₁ (view_directoryOf_eq hspace₁) hplace hclaim
  have hsound₂ := hclaimed.sound hsound₁
  cases claimed with
  | ok u =>
      rw [answers_liftM] at hrun
      obtain ⟨_, -, hrecord⟩ := hrun
      exact ⟨_, (hadded.trans hclaimed).trans (passed_record hsound₂ hrecord)⟩
  | error cause =>
      simp only [answers_liftM_bind] at hrun
      obtain ⟨_, m₃, hrecord, _, m₄, hremove, hthrow⟩ := hrun
      obtain ⟨-, rfl⟩ := answers_throw.1 hthrow
      have hrecorded := passed_record (s := s) hsound₂ hrecord
      refine passed_removePage h ((hadded.trans hclaimed).trans hrecorded) (fun key hkey => ?_)
        hremove
      have hsame : m₃.view.pageOf s address.roundDown.number = some ⟨m.view.created⟩ := by
        rw [returns_record.1 hrecord]
        exact (congrFun (congrFun (view_pageOf_congr hspaces) s) _).trans hplace
      rw [hsame] at hkey
      cases hkey
      exact Nat.le_refl _

theorem passed_resolveFault (h : Sound none m) {fault : PageFault}
    {answer : Except Rejection Resolution} (hrun : Answers (resolveFault s fault) m answer m') :
    ∃ effects, Passed s effects m m' := by
  unfold resolveFault at hrun
  simp only [answers_refuse, answers_require, answers_liftM_bind, returns_getSpace, and_assoc,
    exists_and_left, exists_eq_left] at hrun
  rcases hrun with ⟨-, -, rfl⟩ | ⟨-, ⟨-, -, rfl⟩ | ⟨-, ⟨-, -, rfl⟩ | ⟨-, space, hspace, hrun⟩⟩⟩
  · exact ⟨[], .refl h⟩
  · exact ⟨[], .refl h⟩
  · exact ⟨[], .refl h⟩
  split at hrun
  · next hfree =>
    rcases answers_require.1 hrun with ⟨-, -, rfl⟩ | ⟨-, hrun⟩
    · exact ⟨[], .refl h⟩
    rw [answers_bind] at hrun
    rcases hrun with ⟨_, -, hgrow⟩ | ⟨_, m₁, hgrow, hpure⟩
    · exact passed_growStack h hgrow
    · obtain ⟨-, rfl⟩ := answers_pure.1 hpure
      exact passed_growStack h hgrow
  · next key hkey =>
    have hplace : m.view.pageOf s fault.address.number = some key := by
      rw [view_pageOf_eq hspace]
      exact hkey
    simp only [answers_liftM_bind, returns_getPage, answers_refuse, and_assoc, exists_and_left,
      exists_eq_left] at hrun
    obtain ⟨page, -, ⟨-, -, rfl⟩ | ⟨-, claimed, m₁, hclaim, hrun⟩⟩ := hrun
    · exact ⟨[], .refl h⟩
    rw [returns_run] at hclaim
    obtain ⟨-, effects, hclaimed⟩ := passed_claim h (view_directoryOf_eq hspace) hplace hclaim
    cases claimed with
    | ok u =>
        obtain ⟨-, rfl⟩ := answers_pure.1 hrun
        exact ⟨effects, hclaimed⟩
    | error cause =>
        simp only [answers_liftM_bind] at hrun
        obtain ⟨_, m₂, hrecord, hthrow⟩ := hrun
        obtain ⟨-, rfl⟩ := answers_throw.1 hthrow
        exact ⟨_, hclaimed.trans (passed_record (hclaimed.sound h) hrecord)⟩

theorem passed_handleFault (h : Sound none m) {fault : PageFault}
    {answer : Except Rejection Resolution} (hrun : Answers (handleFault s fault) m answer m') :
    ∃ effects, Passed s effects m m' := by
  simp only [handleFault, answers_liftM_bind, returns_getSpace, and_assoc, exists_and_left,
    exists_eq_left] at hrun
  obtain ⟨space, -, _, m₁, hrecord, hrun⟩ := hrun
  have hrecorded := passed_record (s := s) h hrecord
  have hsound₁ := hrecorded.sound h
  rw [answers_tryCatch] at hrun
  rcases hrun with ⟨_, -, hresolve⟩ | ⟨cause, m₂, hresolve, hrun⟩
  · obtain ⟨effects, hresolved⟩ := passed_resolveFault hsound₁ hresolve
    exact ⟨_, hrecorded.trans hresolved⟩
  · obtain ⟨effects, hresolved⟩ := passed_resolveFault hsound₁ hresolve
    rw [answers_liftM_bind] at hrun
    obtain ⟨_, m₃, hrecord', hthrow⟩ := hrun
    obtain ⟨-, rfl⟩ := answers_throw.1 hthrow
    exact ⟨_, (hrecorded.trans hresolved).trans
      (passed_record (hresolved.sound hsound₁) hrecord')⟩

/-! ### Accesses -/

/-- An access that is tried until it is permitted: faults pass, and then it is made, or it is given
up. -/
theorem answers_retry {α : Type} {va : VirtualAddress} {write : Bool}
    {access : ExceptT AccessViolation Action α}
    (hrefused : ∀ {m₁ m₂ : Machine} {violation}, Sound none m₁ →
      m₁.view.directoryOf = m.view.directoryOf → Answers access m₁ (.error violation) m₂ →
        Passed s [] m₁ m₂)
    {attempts : Nat} (h : Sound none m) {answer : Except Rejection α}
    (hrun : Answers (retry s va write access attempts) m answer m') :
    ∃ effects m₁, Passed s effects m m₁ ∧
      ((∃ value, answer = .ok value ∧ Answers access m₁ (.ok value) m') ∨
        ∃ cause, answer = .error cause ∧ m' = m₁) := by
  induction attempts generalizing m with
  | zero =>
      obtain ⟨rfl, rfl⟩ := answers_throw.1 hrun
      exact ⟨[], _, .refl h, .inr ⟨_, rfl, rfl⟩⟩
  | succ attempts ih =>
      simp only [retry, answers_liftM_bind] at hrun
      obtain ⟨tried, m₁, haccess, hrun⟩ := hrun
      rw [returns_run] at haccess
      cases tried with
      | ok value =>
          obtain ⟨rfl, rfl⟩ := answers_pure.1 hrun
          exact ⟨[], m, .refl h, .inl ⟨value, rfl, haccess⟩⟩
      | error violation =>
          have hpassed := hrefused h rfl haccess
          simp only [answers_liftM_bind, returns_getSpace, and_assoc, exists_and_left,
            exists_eq_left] at hrun
          obtain ⟨space, -, hrun⟩ := hrun
          rw [answers_bind] at hrun
          rcases hrun with ⟨cause, rfl, hfault⟩ | ⟨_, m₂, hfault, hrun⟩
          · obtain ⟨effects, hhandled⟩ := passed_handleFault (hpassed.sound h) hfault
            exact ⟨_, _, hpassed.trans hhandled, .inr ⟨cause, rfl, rfl⟩⟩
          · obtain ⟨effects, hhandled⟩ := passed_handleFault (hpassed.sound h) hfault
            have hpassed₂ := hpassed.trans hhandled
            obtain ⟨effects', m₃, hpassed', hmade⟩ :=
              ih (fun hsound hdirectory hviolation => hrefused hsound
                (hdirectory.trans hpassed₂.pagesOnly.directoryOf) hviolation)
                (hpassed₂.sound h) hrun
            exact ⟨_, m₃, hpassed₂.trans hpassed', hmade⟩

/-- At some moment on the way the page that lived at an address had a byte there. -/
def Seen (s : Key AddressSpace) (a : Nat) (byte : UInt8) (m m' : Machine) : Prop :=
  ∃ m₁ effects rest, Passed s effects m m₁ ∧ Passed s rest m₁ m' ∧
    ∃ (n : PageNumber) (offset : Nat) (key : Key Page) (page : Page),
      a = n.toNat * pageSize + offset ∧ m₁.view.pageOf s n = some key ∧
        m₁.view.page key = some page ∧ page.isResident = true ∧
        (m₁.view.bytesOf page)[offset]? = some byte

theorem Seen.within {m₀ m₁ : Machine} {effects rest : List Effect} {a : Nat} {byte : UInt8}
    (hbefore : Passed s effects m₀ m) (hseen : Seen s a byte m m₁) (hafter : Passed s rest m₁ m') :
    Seen s a byte m₀ m' := by
  obtain ⟨m₂, effects', rest', hpassed, hpassed', hbyte⟩ := hseen
  exact ⟨m₂, _, _, hbefore.trans hpassed, hpassed'.trans hafter, hbyte⟩

theorem answers_readPiece (h : Sound none m) {va : VirtualAddress} {piece : Piece}
    {answer : Except Rejection (Array UInt8)}
    (hrun : Answers (readPiece s va piece) m answer m') :
    ∃ effects, Passed s effects m m' ∧ ∀ data, answer = .ok data →
      data.size = piece.length ∧ ∀ i byte, data[i]? = some byte →
        Seen s (va.toNat + piece.offset + i) byte m m' := by
  unfold readPiece at hrun
  split at hrun
  swap
  · obtain ⟨rfl, rfl⟩ := answers_throw.1 hrun
    exact ⟨[], .refl h, fun _ he => by cases he⟩
  next at_ hat =>
  simp only [answers_liftM_bind, returns_getSpace, and_assoc, exists_and_left,
    exists_eq_left] at hrun
  obtain ⟨space, hspace, hrun⟩ := hrun
  have hdirectory := view_directoryOf_eq hspace
  obtain ⟨effects, m₁, hpassed, ⟨data, rfl, hload⟩ | ⟨cause, rfl, rfl⟩⟩ := answers_retry
    (fun hsound hsame haccess => by
      obtain ⟨hspaces, hcourse, -⟩ := answers_loadBytes hsound (hsame ▸ hdirectory) haccess
      exact .quiet hsound hcourse hspaces) h hrun
  · have hsound₁ := hpassed.sound h
    have hdirectory₁ : m₁.view.directoryOf s = some space.directory := by
      rw [hpassed.pagesOnly.directoryOf, hdirectory]
    obtain ⟨hspaces, hcourse, hloaded⟩ := answers_loadBytes hsound₁ hdirectory₁ hload
    have hloading : Passed s [] m₁ m' := .quiet hsound₁ hcourse hspaces
    obtain ⟨key, page, hplace, hpage, hresident, hfits, rfl⟩ := hloaded data rfl
    refine ⟨_, hpassed.trans hloading, fun _ he => ?_⟩
    cases he
    have hsize : ((m₁.view.bytesOf page).slice at_.pageOffset piece.length).size =
        piece.length := by
      simp only [Bytes.slice, Array.size_extract, Vector.size_toArray]
      omega
    refine ⟨hsize, fun i byte hbyte => ?_⟩
    have hi : i < piece.length := by
      rw [← hsize]
      exact (Array.getElem?_eq_some_iff.1 hbyte).1
    rw [Bytes.getElem?_slice _ hi (by omega)] at hbyte
    refine ⟨m₁, _, _, hpassed, hloading, at_.number, at_.pageOffset + i, key, page, ?_, hplace,
      hpage, hresident, by rw [Vector.getElem?_eq_getElem (by omega), hbyte]⟩
    have hsplit := Nat.div_add_mod' at_.toNat pageSize
    rw [Address.toNat_number, Address.pageOffset, ← Address.toNat_add? hat, ← Nat.add_assoc, hsplit]
  · exact ⟨effects, hpassed, fun _ he => by cases he⟩

/-- Every byte of the pieces that were read was seen, and a reading that is not rejected goes to
the end. -/
theorem returns_readPieces {position offset length : Nat} (h : Sound none m) {va : VirtualAddress}
    (hposition : position = va.toNat + offset) {got bytes : Array UInt8}
    {result : Except Rejection Unit}
    (hrun : Returns (readPieces s va got (pieces position offset length)) m (bytes, result) m') :
    ∃ effects, Passed s effects m m' ∧ ∃ more, bytes = got ++ more ∧
      (result = .ok () → more.size = length) ∧
      ∀ i byte, more[i]? = some byte → Seen s (position + i) byte m m' := by
  fun_induction pieces position offset length generalizing m got with
  | case1 position offset =>
      obtain ⟨he, rfl⟩ := returns_pure.1 hrun
      cases he
      exact ⟨[], .refl h, #[], by simp, fun _ => rfl, fun i byte hbyte => by simp at hbyte⟩
  | case2 position offset length hlength =>
      rename_i size ih
      have hle : size ≤ length := Nat.min_le_right _ _
      simp only [readPieces, returns_bind, returns_run] at hrun
      obtain ⟨answer, m₁, hpiece, hrun⟩ := hrun
      obtain ⟨effects, hpassed, hread⟩ := answers_readPiece h hpiece
      cases answer with
      | error cause =>
          obtain ⟨he, rfl⟩ := returns_pure.1 hrun
          cases he
          exact ⟨effects, hpassed, #[], by simp, fun he => (by cases he),
            fun i byte hbyte => by simp at hbyte⟩
      | ok data =>
          obtain ⟨hsize, hseen⟩ := hread data rfl
          have hsize : data.size = size := hsize
          obtain ⟨effects', hpassed', more, hbytes, hmore, hseen'⟩ :=
            ih (hpassed.sound h) (by omega) hrun
          refine ⟨_, hpassed.trans hpassed', data ++ more, by rw [hbytes, Array.append_assoc],
            fun he => ?_, fun i byte hbyte => ?_⟩
          · rw [Array.size_append, hsize, hmore he]
            omega
          · rw [Array.getElem?_append] at hbyte
            split at hbyte
            · rw [hposition]
              exact (hseen i byte hbyte).within (.refl h) hpassed'
            · next hge =>
              have hlater := (hseen' _ byte hbyte).within hpassed (.refl (hpassed'.sound
                (hpassed.sound h)))
              rwa [show position + i = position + size + (i - data.size) by omega]

/-- Every byte that a process reads was seen, and a reading that is not rejected is complete. -/
theorem returns_readUser (h : Sound none m) {va : VirtualAddress} {length : Nat}
    {bytes : Array UInt8} {result : Except Rejection Unit}
    (hrun : Returns (readUser s va length) m (bytes, result) m') :
    ∃ effects, Passed s effects m m' ∧ (result = .ok () → bytes.size = length) ∧
      ∀ i byte, bytes[i]? = some byte → Seen s (va.toNat + i) byte m m' := by
  have hrun : Returns (readPieces s va #[] (pieces va.toNat 0 length)) m (bytes, result) m' := hrun
  obtain ⟨effects, hpassed, more, rfl, hsize, hseen⟩ :=
    returns_readPieces h (Nat.add_zero _).symm hrun
  simp only [Array.empty_append]
  exact ⟨effects, hpassed, hsize, hseen⟩

theorem pieces_of_le {position offset length : Nat} (hpos : 0 < length)
    (hfits : position % pageSize + length ≤ pageSize) :
    pieces position offset length = [⟨offset, length⟩] := by
  have hsize : min (pageSize - position % pageSize) length = length := by omega
  rw [pieces, dif_neg (by omega)]
  simp only [hsize, Nat.sub_self]
  rw [pieces, dif_pos rfl]

/-! ### Writing -/

/-- Bytes stored from an address on, in one page after the other, with what passes before each. -/
inductive Stored (s : Key AddressSpace) :
    (a : Nat) → (data : Array UInt8) → List Effect → Machine → Machine → Prop where
  | passed {a : Nat} {effects : List Effect} {m m' : Machine} (h : Passed s effects m m') :
      Stored s a #[] effects m m'
  | store {n : PageNumber} {offset : Nat} {key : Key Page} {data more : Array UInt8}
      {effects rest : List Effect} {m m₁ m₂ m' : Machine} (hpassed : Passed s effects m m₁)
      (hplace : m₁.view.pageOf s n = some key) (hfits : offset + data.size ≤ pageSize)
      (hsome : 0 < data.size) (hspaces : m₂.spaces = m₁.spaces)
      (hcourse : Course [.stored key offset data] none m₁ none m₂)
      (hrest : Stored s (n.toNat * pageSize + offset + data.size) more rest m₂ m') :
      Stored s (n.toNat * pageSize + offset) (data ++ more)
        (effects ++ (.stored key offset data :: rest)) m m'

theorem Stored.course {a : Nat} {data : Array UInt8} {effects : List Effect}
    (h : Stored s a data effects m m') : Course effects none m none m' := by
  induction h with
  | passed h => exact h.course
  | store hpassed _ _ _ _ hcourse _ ih => exact hpassed.course.trans (hcourse.trans ih)

/-- How many bytes a write stores: those of the pieces before the one that is rejected. -/
def storedLength (s : Key AddressSpace) (va : VirtualAddress) (data : Array UInt8) :
    List Piece → Machine → Nat
  | [], _ => 0
  | piece :: rest, m =>
      match (writePiece s va data piece).run m with
      | .ok (.ok ()) m₁ => piece.length + storedLength s va data rest m₁
      | _ => 0

theorem answers_writePiece (h : Sound none m) {va : VirtualAddress} {data : Array UInt8}
    {piece : Piece} (hpiece : piece.offset + piece.length ≤ data.size)
    {answer : Except Rejection Unit} (hrun : Answers (writePiece s va data piece) m answer m') :
    ∃ effects m₁, Passed s effects m m₁ ∧
      ((∃ cause, answer = .error cause ∧ m' = m₁) ∨
        answer = .ok () ∧ m'.spaces = m₁.spaces ∧ ∃ (n : PageNumber) (offset : Nat) (key : Key Page),
          n.toNat * pageSize + offset = va.toNat + piece.offset ∧
          m₁.view.pageOf s n = some key ∧ offset + piece.length ≤ pageSize ∧
          Course [.stored key offset (data.extract piece.offset (piece.offset + piece.length))]
            none m₁ none m') := by
  unfold writePiece at hrun
  split at hrun
  swap
  · obtain ⟨rfl, rfl⟩ := answers_throw.1 hrun
    exact ⟨[], _, .refl h, .inl ⟨_, rfl, rfl⟩⟩
  next at_ hat =>
  simp only [answers_liftM_bind, returns_getSpace, and_assoc, exists_and_left,
    exists_eq_left] at hrun
  obtain ⟨space, hspace, hrun⟩ := hrun
  have hdirectory := view_directoryOf_eq hspace
  obtain ⟨effects, m₁, hpassed, hmade⟩ := answers_retry
    (fun hsound hsame haccess => by
      obtain ⟨hspaces, hrefused, -⟩ := answers_storeBytes hsound (hsame ▸ hdirectory) haccess
      exact .quiet hsound (hrefused _ rfl) hspaces) h hrun
  refine ⟨effects, m₁, hpassed, hmade.symm.imp_right fun ⟨u, hok, hstore⟩ => ?_⟩
  obtain ⟨hspaces, -, hstored⟩ := answers_storeBytes (hpassed.sound h)
    (by rw [hpassed.pagesOnly.directoryOf, hdirectory]) hstore
  obtain ⟨key, hplace, hfits, hcourse⟩ := hstored rfl
  have hsize : (data.extract piece.offset (piece.offset + piece.length)).size = piece.length := by
    rw [Array.size_extract]
    omega
  rw [hsize] at hfits
  refine ⟨hok, hspaces, at_.number, at_.pageOffset, key, ?_, hplace, hfits, hcourse⟩
  rw [Address.toNat_number, Address.pageOffset, ← Address.toNat_add? hat, Nat.div_add_mod']

theorem answers_writePieces {position offset length : Nat} (h : Sound none m) {va : VirtualAddress}
    {data : Array UInt8} (hposition : position = va.toNat + offset)
    (hlength : offset + length ≤ data.size) {answer : Except Rejection Unit}
    (hrun : Answers (writePieces s va data (pieces position offset length)) m answer m') :
    ∃ effects, ∃ stored ≤ length,
      storedLength s va data (pieces position offset length) m = stored ∧
        (answer = .ok () → stored = length) ∧
        Stored s position (data.extract offset (offset + stored)) effects m m' := by
  fun_induction pieces position offset length generalizing m with
  | case1 position offset =>
      obtain ⟨rfl, rfl⟩ := answers_pure.1 hrun
      refine ⟨[], 0, Nat.le_refl _, rfl, fun _ => rfl, ?_⟩
      rw [Nat.add_zero, Array.extract_empty_of_stop_le_start (Nat.le_refl _)]
      exact .passed (.refl h)
  | case2 position offset length hpositive =>
      rename_i size ih
      have hle : size ≤ length := Nat.min_le_right _ _
      have hsome : 0 < size :=
        Nat.lt_min.2 ⟨Nat.sub_pos_of_lt (Nat.mod_lt _ (by decide)), Nat.pos_of_ne_zero hpositive⟩
      rw [writePieces, answers_bind] at hrun
      rcases hrun with ⟨cause, rfl, hpiece⟩ | ⟨_, m₂, hpiece, hrun⟩
      · obtain ⟨effects, m₁, hpassed, ⟨-, -, rfl⟩ | ⟨he, -⟩⟩ := answers_writePiece h
          (by simp only; omega) hpiece
        · refine ⟨effects, 0, Nat.zero_le _, ?_, fun he => (by cases he), ?_⟩
          · rw [storedLength, show (writePiece s va data ⟨offset, size⟩).run m = _ from hpiece]
          · rw [Nat.add_zero, Array.extract_empty_of_stop_le_start (Nat.le_refl _)]
            exact .passed hpassed
        · cases he
      · obtain ⟨effects, m₁, hpassed, ⟨_, he, -⟩ | ⟨-, hspaces, n, start, key, hstart, hplace, hfits,
          hcourse⟩⟩ := answers_writePiece h (by simp only; omega) hpiece
        · cases he
        obtain ⟨rest, stored, hstored, hsame, hok, hrest⟩ := ih
          (hcourse.sound (hpassed.sound h)) (by omega) (by omega) hrun
        have hsize : (data.extract offset (offset + size)).size = size := by
          rw [Array.size_extract]
          omega
        have hsplit : data.extract offset (offset + (size + stored)) =
            data.extract offset (offset + size) ++
              data.extract (offset + size) (offset + size + stored) := by
          rw [Array.extract_append_extract, Nat.min_eq_left (by omega), Nat.max_eq_right (by omega),
            Nat.add_assoc]
        refine ⟨effects ++ (.stored key start (data.extract offset (offset + size)) :: rest),
          size + stored, by omega, ?_, fun he => ?_, ?_⟩
        · rw [storedLength, show (writePiece s va data ⟨offset, size⟩).run m = _ from hpiece, ← hsame]
        · rw [hok he]
          omega
        · have hposition' : position = n.toNat * pageSize + start := by
            rw [hposition, hstart]
          rw [hsplit, hposition']
          refine .store hpassed hplace (by rw [hsize]; exact hfits) (by rw [hsize]; exact hsome)
            hspaces hcourse ?_
          rwa [hsize, ← hposition']

/-- A write stores a part of its bytes from the front, all of them unless it is rejected. -/
theorem answers_writeUser (h : Sound none m) {va : VirtualAddress} {data : Array UInt8}
    {answer : Except Rejection Unit} (hrun : Answers (writeUser s va data) m answer m') :
    ∃ effects, ∃ stored ≤ data.size,
      storedLength s va data (pieces va.toNat 0 data.size) m = stored ∧
        (answer = .ok () → stored = data.size) ∧
        Stored s va.toNat (data.extract 0 stored) effects m m' := by
  have hrun : Answers (writePieces s va data (pieces va.toNat 0 data.size)) m answer m' := hrun
  have hstored := answers_writePieces h (Nat.add_zero _).symm (by omega) hrun
  simpa only [Nat.zero_add] using hstored

end DemandPaging.Space
