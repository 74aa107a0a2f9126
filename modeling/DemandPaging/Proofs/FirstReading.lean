import DemandPaging.Proofs.FailedLoads
import DemandPaging.Proofs.HeldBytes
import DemandPaging.Proofs.UserAccess

/-!
What a process reads from what it never wrote.

The pages of a mapping and of a segment are made when the request is granted, each with the part of the
file it will show, and nothing is read by then. A page is brought in when it is touched, it may leave
its frame at any time, and an anonymous one goes to swap then. So the bytes that a process finds at last
have come a long way, and still they are given by the position alone: the file has them, or they are
zero.

There are two kinds of pages. One holds its bytes, since the file has all of its part, and then a
reading shows them wherever the page is. The other waits for bytes the file does not have. Only a page of
a segment can be of that kind, because a mapping is cut at the end of the file, and nothing gets it
into a frame.
-/

namespace DemandPaging

open Machine Space

/-! ### Reading one byte -/

section

variable {m m' : Machine} {s : Key AddressSpace} {space : AddressSpace} {va : VirtualAddress}
  {page : Page} {fault : PageFault} {resolution : Resolution} {violation : AccessViolation}
  {key : Key Page}

/-- A fault at a page is resolved only if the page can be brought in. -/
theorem canLoad_of_verdict (hpage : m.pageAt? space fault.address = some page)
    (h : m.verdict space fault = .ok resolution) : m.CanLoad page := by
  unfold verdict at h
  simp only [hpage] at h
  split_ifs at h with _ _ _ _ hcan
  exact hcan

theorem pageAt?_eq_some (hspace : m.spaces.get? s = some space)
    (hplace : m.view.pageOf s va.number = some key) (hpage : m.pages.get? key = some page) :
    m.pageAt? space va = some page := by
  rw [view_pageOf_eq hspace] at hplace
  rw [pageAt?, PageMap.find?, hplace, Option.bind_some, hpage]

/-- Reading is refused to a process for want of the page alone. -/
theorem notPresent_of_refused (h : Sound none m) (hspace : m.spaces.get? s = some space)
    (hplace : m.view.pageOf s va.number = some key) (hpage : m.pages.get? key = some page)
    (hrefused : Answers (accessPage space.directory va false) m (.error violation) m') :
    violation = .notPresent := by
  obtain ⟨found, hfound, hnumber⟩ := h.coherent.placement.placed hplace
  cases hpage.symm.trans hfound
  rw [← hnumber] at hplace
  cases hframe : page.frame with
  | some f =>
      have hmaps := h.maps hplace hpage hframe
      exact absurd hrefused (hmaps.not_refused (view_directoryOf_eq hspace) hnumber nofun)
  | none =>
      have hgrant := h.coherent.grant_of_absent hpage hframe hplace (view_directoryOf_eq hspace)
        hnumber.symm
      obtain ⟨⟨directory, hdirectory, haccess⟩, -⟩ := answers_accessPage_error.1 hrefused
      rw [view_grant_eq m hdirectory, Directory.grant?, Option.map_eq_none_iff] at hgrant
      rw [Directory.access, hgrant] at haccess
      cases haccess
      rfl

/-- A byte in a page is read if the page is in a frame or can be brought into one, and that its bytes
cannot be had is what it is rejected for otherwise. -/
theorem Space.ends_readByte (h : m.Attends s) (hspace : m.spaces.get? s = some space)
    (hnull : va.toNat ≠ 0) (huser : va.toNat < kernelBase)
    (hplace : m.view.pageOf s va.number = some key) (hpage : m.pages.get? key = some page)
    (hspare : m.FrameToSpare) :
    Completes (readUser s va 1) m fun answer _ =>
      (m.CanLoad page → ∃ bytes, answer = (bytes, .ok ())) ∧
        (¬m.CanLoad page → answer = (#[], .error .loadFailed)) := by
  have hfound := pageAt?_eq_some hspace hplace hpage
  have hat : ∀ {a}, va.add? 0 = some a → a = va := fun ha =>
    Address.ext (Address.toNat_add? ha)
  have hlt : va.toNat % pageSize + 1 ≤ pageSize := Nat.mod_lt _ (by decide)
  rw [readUser, pieces_of_le Nat.one_pos hlt]
  refine (ends_readPieces h fun piece hpiece => ?_).mono (fun answer m' _ hread => ?_)
    fun panic m' hstops => ?_
  · rw [List.mem_singleton.1 hpiece]
    exact ⟨hlt⟩
  · obtain ⟨bytes, result⟩ := answer
    obtain ⟨values, hbytes, hturn⟩ := hread
    cases hturn with
    | transferred hpiece hrest =>
        cases hrest
        refine ⟨fun _ => ⟨_, rfl⟩, fun hcannot => absurd ?_ hcannot⟩
        cases hpiece with
        | tried ha hspace' honce =>
            cases hspace.symm.trans hspace'
            cases hat ha
            cases honce with
            | atOnce hmade =>
                -- what the processor lets through is in a frame
                obtain ⟨-, -, hloaded⟩ :=
                  answers_loadBytes h.ready.sound (view_directoryOf_eq hspace) hmade
                obtain ⟨key', page', hplace', hpage', hresident, -⟩ := hloaded _ rfl
                cases hplace.symm.trans hplace'
                cases hpage.symm.trans hpage'
                exact .inl hresident
            | resolved hfaults hresolved hmade =>
                cases hfaults with
                | refused hrefused hspace' =>
                    cases hspace.symm.trans hspace'
                    exact canLoad_of_verdict hfound
                      ((ends_handleFault h.ready h.hand hspace _).returned hresolved).answered.symm
    | rejected hpiece =>
        cases hpiece with
        | outside hnone =>
            cases hnone.symm.trans (Address.add?_eq_some_iff.2 (Nat.add_zero va.toNat).symm)
        | tried ha hspace' honce =>
            cases hspace.symm.trans hspace'
            cases hat ha
            cases honce with
            | rejected hfaults hrejected =>
                cases hfaults with
                | refused hrefused hspace' =>
                    cases hspace.symm.trans hspace'
                    have hviolation := notPresent_of_refused h.ready.sound hspace hplace hpage
                      (refused_of_through hrefused)
                    have hanswered :=
                      ((ends_handleFault h.ready h.hand hspace _).returned hrejected).answered
                    rw [verdict_of_some ⟨hnull, huser, by rw [hviolation]; rfl⟩ hfound,
                      if_neg fun hand => Bool.false_ne_true hand.1] at hanswered
                    split at hanswered
                    · cases hanswered
                    · next hcannot =>
                      cases hanswered
                      exact ⟨fun hcan => absurd hcan hcannot, fun _ => congrArg (·, _) hbytes⟩
  · cases hstops with
    | later _ hrest => cases hrest
    | here hpiece =>
        obtain ⟨a, space', ha, hspace', fault, hfaults, hpanics⟩ := hpiece
        obtain ⟨-, hblocked, -⟩ :=
          (ends_handleFault h.ready h.hand hspace fault).panicked hpanics
        exact hblocked.not_frameToSpare hspare

end

/-! ### Bytes that are there -/

/-- A frame can be had, and the swap device grants that any page is read back. -/
structure Machine.Supplies (m : Machine) : Prop where
  frame : m.FrameToSpare
  slots : ∀ slot, m.view.isOccupied slot = true → m.swap.Grants m.requestsAhead .read slot

/-- The byte that a process reads at an address while a file keeps its contents. Where a frame can be
had, it is read. -/
structure Machine.Shows (m : Machine) (s : Key AddressSpace) (a : VirtualAddress) (f : Key File)
    (byte : UInt8) : Prop where
  reads : ∀ {va length data result m' j}, Returns ((Request.readUser va length).perform? s) m
    (some (data, result)) m' → (Request.readUser va length).LeavesFile (data, result) f s m m' →
      va.toNat + j = a.toNat → ∀ b, data[j]? = some b → b = byte
  answers : m.Supplies → Completes ((Request.readUser a 1).perform? s) m fun answer m' =>
    ∃ read, answer = some read ∧
      ((Request.readUser a 1).LeavesFile read f s m m' → read = (#[byte], .ok ()))

/-- No reading gets to the byte at an address, and one that begins there is rejected as one that could
not be loaded. -/
structure Machine.FailsAt (m : Machine) (s : Key AddressSpace) (a : VirtualAddress) : Prop where
  reads : ∀ {va length data result m' j}, Returns ((Request.readUser va length).perform? s) m
    (some (data, result)) m' → va.toNat + j = a.toNat → data[j]? = none
  answers : m.Supplies → Completes ((Request.readUser a 1).perform? s) m fun answer _ =>
    answer = some (#[], .error .loadFailed)

/-- The byte at an address is held by its page, whose file has all that is behind the page. -/
structure Machine.HoldsByte (m : Machine) (s : Key AddressSpace) (a : VirtualAddress) (f : Key File)
    (byte : UInt8) : Prop where
  held : ∃ key own memory, m.view.pageOf s a.number = some key ∧ own.handle.file = f ∧
    m.view.HasAll own ∧ Held own memory key a.pageOffset m.view ∧
      (memory key)[a.pageOffset]? = some byte

structure Machine.LacksByte (m : Machine) (s : Key AddressSpace) (a : VirtualAddress) : Prop where
  lacks : ∃ key page, m.view.pageOf s a.number = some key ∧ m.view.page key = some page ∧
    m.view.Lacks page

section

variable {start m m₁ m' : Machine} {history : List Done} {s : Key AddressSpace} {a : VirtualAddress}
  {n : PageNumber} {key : Key Page} {page : Page} {own : FileSlice} {memory : Memory} {byte : UInt8}
  {kept : SwapSlot → Bool} {i : Nat} {f : Key File}

theorem Machine.HoldsByte.reaches (h : m₁.HoldsByte s a f byte) (hsound : Sound none m₁)
    (hbooks : SlotBooks kept m₁.view.isOccupied m₁.view.slotOf) (hhistory : Reaches m₁ history m)
    (hleaves : LeavesFile f history) (hunstored : Unstored history s a) :
    m.HoldsByte s a f byte := by
  obtain ⟨key, own, memory, hplace, rfl, hall, hheld, hbyte⟩ := h.held
  obtain ⟨effects, hcourse⟩ := hhistory.course hsound
  obtain ⟨hplace', memory', hheld', hsame⟩ :=
    hhistory.held hsound hbooks hplace hleaves hunstored hheld
  exact ⟨key, own, memory', hplace', rfl, hcourse.steps.filesSince.hasAll_iff.2 hall, hheld',
    hsame.trans hbyte⟩

theorem Machine.LacksByte.reaches (h : m₁.LacksByte s a) (hsound : Sound none m₁)
    (hhistory : Reaches m₁ history m) (hunstored : Unstored history s a) : m.LacksByte s a := by
  obtain ⟨key, page, hplace, hpage, hlacks⟩ := h.lacks
  exact ⟨key, page, hhistory.page_lacking hsound hplace hpage hlacks hunstored⟩

theorem Held.canLoad (h : Held own memory key i m.view) (hall : m.view.HasAll own)
    (hbooks : SlotBooks kept m.view.isOccupied m.view.slotOf) (hsupplies : m.Supplies) :
    ∃ page, m.pages.get? key = some page ∧ m.CanLoad page := by
  obtain ⟨page, hpage, hloads, -, hslice⟩ := h.page
  refine ⟨page, hpage, .inr ⟨hsupplies.frame, fun slice hs => ?_, fun slot hs => ?_, hloads⟩⟩
  · rwa [(hslice slice hs).1]
  · exact hsupplies.slots slot (hbooks.occupied_of_page hpage hs)

theorem View.Lacks.not_canLoad (h : m.view.Lacks page) : ¬m.CanLoad page := by
  obtain ⟨hframe, slice, hslice, hlacks⟩ := h
  rintro (hresident | ⟨-, hobtainable⟩)
  · rw [Page.isResident, hframe] at hresident
    cases hresident
  · exact hlacks (hobtainable.slice slice hslice)

theorem Address.eq_of_position {offset : Nat} (ha : a.toNat = n.toNat * pageSize + offset)
    (hoffset : offset < pageSize) : n = a.number ∧ offset = a.pageOffset := by
  have haddress := Address.number_mul_add_pageOffset a
  have hlt := a.pageOffset_lt
  obtain rfl : n = a.number := Number.ext (by
    simp only [pageSize] at hoffset ha haddress hlt ⊢
    omega)
  exact ⟨rfl, by omega⟩

/-- When a byte is seen, its page is in a frame and in its place, and what came before passed. -/
theorem Space.Seen.exists_page {b : UInt8} (h : Seen s a.toNat b m m') (hsound : Sound none m)
    (hplace : m.view.pageOf s a.number = some key) : ∃ m₁ effects rest page,
      Passed s effects m m₁ ∧ Passed s rest m₁ m' ∧ m₁.view.page key = some page ∧
        page.isResident = true ∧ (m₁.view.bytesOf page)[a.pageOffset]? = some b := by
  obtain ⟨m₁, effects, rest, hpassed, hlater, n, offset, key', page, ha, hplace', hpage, hresident,
    hb⟩ := h
  obtain ⟨hoffset, -⟩ := Vector.getElem?_eq_some_iff.1 hb
  obtain ⟨rfl, rfl⟩ := Address.eq_of_position ha hoffset
  -- what comes before the byte is seen is itself like a reading
  have houtcome : Outcome s m m₁ (.readUser a 0) (#[], .ok ()) effects := .passed trivial hpassed
  have hkept := (houtcome.pageOf_kept hsound hplace).resolve_right
    fun ⟨_, _, hends, _⟩ => hends
  cases hkept.symm.trans hplace'
  exact ⟨m₁, effects, rest, page, hpassed, hlater, hpage, hresident, hb⟩

theorem Held.seen (h : Held own memory key a.pageOffset m.view) (hsound : Sound none m)
    (hbooks : SlotBooks kept m.view.isOccupied m.view.slotOf)
    (hplace : m.view.pageOf s a.number = some key)
    (hbyte : (memory key)[a.pageOffset]? = some byte) {va : VirtualAddress} {length : Nat}
    {read : Array UInt8 × Except Rejection Unit}
    (hleaves : (Request.readUser va length).LeavesFile read own.handle.file s m m') {b : UInt8}
    (hseen : Seen s a.toNat b m m') : b = byte := by
  obtain ⟨m₁, effects, rest, page, hpassed, hlater, hpage, -, hb⟩ := hseen.exists_page hsound hplace
  have houtcome : Outcome s m m₁ (.readUser a 0) (#[], .ok ()) effects := .passed trivial hpassed
  -- the steps up to the byte are among those of the whole reading
  have hbetween : (Request.readUser a 0).LeavesFile (#[], .ok ()) own.handle.file s m m₁ := by
    intro front back x v hsplit hfront hback
    refine hleaves (.passed trivial ?_) hfront (hback.trans hlater.course.steps)
    rw [← List.append_assoc]
    exact (hsplit.passed_of_quiet trivial).trans hlater
  obtain ⟨page', hpage', -, hheld, -⟩ := (houtcome.held hsound hbooks hplace
    (fun _ ⟨_, hends, _⟩ => hends) hbetween (.inl fun _ => rfl) h).page
  cases hpage.symm.trans hpage'
  rw [houtcome.getElem?_after_of_unstored hsound hplace (fun _ => rfl), hbyte, hb] at hheld
  exact Option.some.inj hheld

theorem Space.exists_of_pageOf (hplace : m.view.pageOf s n = some key) :
    ∃ space, m.spaces.get? s = some space := by
  obtain ⟨space, hspace, -⟩ := Option.bind_eq_some_iff.1 hplace
  exact ⟨space, hspace⟩

theorem Run.shows (h : Run start history m) (hcapacity : start.pool.capacity ≤ maxFrames)
    (hhand : start.hand = 0) (hnull : a.toNat ≠ 0) (huser : a.toNat < kernelBase)
    (hholds : m.HoldsByte s a f byte) : m.Shows s a f byte := by
  obtain ⟨key, own, memory, hplace, rfl, hall, hheld, hbyte⟩ := hholds.held
  have hreads : ∀ {va length data result m' j}, Returns ((Request.readUser va length).perform? s) m
      (some (data, result)) m' →
        (Request.readUser va length).LeavesFile (data, result) own.handle.file s m m' →
          va.toNat + j = a.toNat → ∀ b, data[j]? = some b → b = byte := by
    intro va length data result m' j hread hleaves ha b hb
    obtain ⟨-, -, -, hseen⟩ := returns_readUser h.sound (Request.returns_perform?.1 hread).2
    refine hheld.seen h.sound h.slotBooks hplace hbyte hleaves ?_
    rw [← ha]
    exact hseen j b hb
  refine ⟨hreads, fun hsupplies => ?_⟩
  obtain ⟨space, hspace⟩ := exists_of_pageOf hplace
  obtain ⟨page, hpage, hcan⟩ := hheld.canLoad hall h.slotBooks hsupplies
  refine Request.ends_perform? hspace ?_
  refine (ends_readByte ⟨h.serves hcapacity hspace, h.handInList hhand⟩ hspace hnull huser hplace hpage
    hsupplies.frame).mono (fun answer m' hread hanswer =>
      ⟨answer, rfl, fun hleaves => ?_⟩) fun _ _ => id
  obtain ⟨bytes, rfl⟩ := hanswer.1 hcan
  obtain ⟨-, -, hsize, -⟩ := returns_readUser h.sound hread
  have hone := hsize rfl
  have hrun : Returns ((Request.readUser a 1).perform? s) m (some (bytes, .ok ())) m' :=
    Request.returns_perform?.2 ⟨⟨space, hspace⟩, hread⟩
  have hfirst := hreads hrun hleaves rfl _ (Array.getElem?_eq_getElem (by omega : 0 < bytes.size))
  congr 2
  refine Array.ext hone fun j hj _ => ?_
  obtain rfl : j = 0 := by omega
  exact hfirst

theorem Run.failsAt (h : Run start history m) (hcapacity : start.pool.capacity ≤ maxFrames)
    (hhand : start.hand = 0) (hnull : a.toNat ≠ 0) (huser : a.toNat < kernelBase)
    (hlacksByte : m.LacksByte s a) : m.FailsAt s a := by
  obtain ⟨key, page, hplace, hpage, hlacks⟩ := hlacksByte.lacks
  refine ⟨fun {va length data result m' j} hread ha => ?_, fun hsupplies => ?_⟩
  · obtain ⟨_, -, -, hseen⟩ := returns_readUser h.sound (Request.returns_perform?.1 hread).2
    refine Option.eq_none_iff_forall_ne_some.2 fun b hb => ?_
    have hseen := hseen j b hb
    rw [ha] at hseen
    obtain ⟨m₁, _, _, page', hpassed, -, hpage', hresident, -⟩ := hseen.exists_page h.sound hplace
    -- a page that lacks bytes is still in no frame by then
    cases hpage'.symm.trans (hpassed.lacking hpage hlacks)
    rw [Page.isResident, hlacks.1] at hresident
    cases hresident
  · obtain ⟨space, hspace⟩ := exists_of_pageOf hplace
    refine Request.ends_perform? hspace ?_
    refine (ends_readByte ⟨h.serves hcapacity hspace, h.handInList hhand⟩ hspace hnull huser hplace
      hpage hsupplies.frame).mono (fun answer m' _ hanswer => ?_) fun _ _ => id
    rw [hanswer.2 hlacks.not_canLoad]

end

/-! ### Pages that were made just now -/

section

variable {m m' : Machine} {s : Key AddressSpace} {effects : List Effect} {v : View} {f : Key File}
  {file : File} {va a : VirtualAddress} {offset length i : Nat} {writable : Bool} {slice own : FileSlice}
  {memory : Memory} {key : Key Page} {page : Page} {source : Pending}

/-- A file whose reading is not cut short has a slice if it is long enough. -/
theorem View.hasAll_iff (hfile : v.file slice.handle.file = some file) (hreach : file.reachLimit = none) :
    v.HasAll slice ↔
      slice.readBytes = 0 ∨ slice.offset + slice.readBytes ≤ file.data.size := by
  rw [HasAll, hfile]
  simp only [Option.some.injEq, exists_eq_left', File.read_eq_extract hreach, Array.size_extract]
  omega

theorem Address.position_of_aligned (haligned : va.isPageAligned = true) (ha : a.toNat = va.toNat + i) :
    a.number.toNat = va.number.toNat + i / pageSize ∧ a.pageOffset = i % pageSize := by
  have hstart := Address.number_mul_pageSize haligned
  rw [Address.toNat_number, Address.pageOffset, ha]
  simp only [pageSize] at hstart ⊢
  omega

theorem Held.of_made (hpage : v.page key = some page) (habsent : page.frame = none)
    (hcontents : page.contents = .pending source) (hloads : page.contents.loads = true)
    (hown : ∀ slice, page.contents.slice? = some slice → slice = own)
    (hmemory : memory key = v.pendingBytes source) (i : Nat) : Held own memory key i v := by
  refine ⟨page, hpage, hloads, ?_, fun slice hslice => ?_⟩
  · rw [View.bytesOf_of_absent habsent, hcontents, hmemory]
    rfl
  · obtain rfl := hown slice hslice
    rw [hcontents] at hslice
    refine ⟨rfl, ?_⟩
    rw [hmemory]
    cases source with
    | zeros => cases hslice
    | file slice =>
        cases hslice
        rfl
    | loader loader =>
        cases loader with
        | segment slice =>
            cases hslice
            rfl
        | fill => cases hslice

/-- A mapping holds the bytes of the file up to its length, and zeros from there. -/
theorem Space.FileMapped.holdsByte (h : FileMapped s f offset va length writable effects m m')
    (hfile : m.view.file f = some file) (hreach : file.reachLimit = none)
    (hlength : file.reportedLength = none)
    (hi : i < (length + (pageSize - 1)) / pageSize * pageSize) (ha : a.toNat = va.toNat + i) :
    m'.HoldsByte s a f (if i < length then file.data[offset + i]?.getD 0 else 0) := by
  obtain ⟨hnumber, hoffset⟩ := Address.position_of_aligned h.range.aligned ha
  have hindex : i / pageSize < (length + (pageSize - 1)) / pageSize :=
    Nat.div_lt_of_lt_mul (by rwa [Nat.mul_comm])
  obtain ⟨-, key, page, slice, hplace, hpage, -, -, hat, hmemory⟩ :=
    h.exists_page (n := a.number) (hnumber ▸ Nat.le_add_right _ _)
      (hnumber ▸ Nat.add_lt_add_left hindex _)
  have hsize : m.fileLength f = file.data.size := by
    rw [fileLength_of_file hfile, File.length_eq_size hlength]
  have hstart := hat.offset
  have hbytes := hat.readBytes
  rw [hnumber, Nat.add_sub_cancel_left, hsize] at hbytes
  rw [hnumber, Nat.add_sub_cancel_left] at hstart
  have hlt : i % pageSize < pageSize := Nat.mod_lt _ (by decide)
  refine ⟨key, slice, Memory.after (fun _ => .zeros pageSize) effects, hplace, hat.file, ?_, ?_, ?_⟩
  · rw [View.hasAll_iff (by rw [h.file_eq, hat.file, hfile]) hreach, hstart, hbytes, bytesInPage]
    omega
  · refine .of_made hpage hat.absent hat.contents (by rw [hat.contents]; rfl) (fun other hs => ?_) ?_ _
    · rw [hat.contents] at hs
      exact (Option.some.inj hs).symm
    · rw [hmemory, View.pendingBytes]
      exact View.shown_congr rfl rfl (by rw [h.file_eq])
  · rw [hmemory, hoffset, Vector.getElem?_eq_getElem hlt, getElem_shown m slice hlt, hbytes, hat.file,
      hstart, Nat.add_assoc, fileByte, hfile, Option.bind_some, Option.some.injEq]
    simp only [lt_bytesInPage hlt, Nat.div_add_mod']
    by_cases hin : offset + i < file.data.size
    · exact if_congr (by omega) rfl rfl
    · rw [Array.getElem?_eq_none (Nat.not_lt.1 hin), Option.getD_none, ite_self, ite_self]

/-- The file has all the bytes that the page of a segment reads at a position. -/
def File.HasPart (file : File) (offset readBytes i : Nat) : Prop :=
  bytesInPage readBytes (i / pageSize) = 0 ∨
    offset + i / pageSize * pageSize + bytesInPage readBytes (i / pageSize) ≤ file.data.size

instance (file : File) (offset readBytes i : Nat) : Decidable (file.HasPart offset readBytes i) :=
  inferInstanceAs (Decidable (_ ∨ _))

namespace Space.SegmentLoaded

variable {readBytes zeroBytes : Nat}

theorem file_eq (h : SegmentLoaded s f offset va readBytes zeroBytes writable effects m m') :
    m'.view.file = m.view.file := by
  obtain ⟨-, -, _, -, -, _, _, -, -, hinserted⟩ := h
  obtain ⟨page, created, pageOf, hsame⟩ := hinserted.same
  rw [hsame]

/-- A page of a segment is zero, or waits for a slice of its file. -/
theorem exists_page (h : SegmentLoaded s f offset va readBytes zeroBytes writable effects m m')
    (hi : i < readBytes + zeroBytes) (ha : a.toNat = va.toNat + i) :
    ∃ key page source, m'.view.pageOf s a.number = some key ∧ m'.view.page key = some page ∧
      page.frame = none ∧ page.contents = .pending source ∧
      (∀ memory : Memory, memory.after effects key = m.view.pendingBytes source) ∧
      (source = .zeros ∧ bytesInPage readBytes (i / pageSize) = 0 ∨
        ∃ slice, source = .loader (.segment slice) ∧ slice.handle.file = f ∧
          slice.offset = offset + i / pageSize * pageSize ∧
          slice.readBytes = bytesInPage readBytes (i / pageSize)) := by
  obtain ⟨hnumber, -⟩ := Address.position_of_aligned h.range.aligned ha
  obtain ⟨-, -, handle, hnone, hhandle, count, pages, hcount, hpages, hinserted⟩ := h
  rw [← hcount] at hi
  obtain ⟨page, hpage, hmake⟩ := exists_of_mapM_eq_ok hpages
    (List.mem_range.2 (Nat.div_lt_of_lt_mul (by rwa [Nat.mul_comm]) : i / pageSize < count))
  obtain ⟨hmade, -, hcontents⟩ := segmentPage_eq_ok hmake
  obtain ⟨-, key, source, hplace, -, hfound, hsource, hmemory⟩ := hinserted.placed page hpage
  obtain hat : page.va.number = a.number := Number.ext (hmade.number.trans hnumber.symm)
  rw [hat] at hplace
  refine ⟨key, page, source, hplace, hfound, hmade.absent, hsource, hmemory, ?_⟩
  rcases hcontents with ⟨hcontents, hzero⟩ | ⟨slice, hcontents, rfl, hoffset, hbytes⟩
  · cases hsource.symm.trans hcontents
    refine .inl ⟨rfl, hzero.elim (fun he => ?_) id⟩
    rw [hnone he, bytesInPage, Nat.zero_sub, Nat.zero_min]
  · cases hsource.symm.trans hcontents
    exact .inr ⟨slice, rfl, (hhandle _ rfl).1, hoffset, hbytes⟩

/-- A segment holds the bytes of the file that it reads, and zeros from there. -/
theorem holdsByte (h : SegmentLoaded s f offset va readBytes zeroBytes writable effects m m')
    (hfile : m.view.file f = some file) (hreach : file.reachLimit = none)
    (hi : i < readBytes + zeroBytes) (ha : a.toNat = va.toNat + i)
    (hpart : file.HasPart offset readBytes i) :
    m'.HoldsByte s a f (if i < readBytes then file.data[offset + i]?.getD 0 else 0) := by
  obtain ⟨-, hoffset⟩ := Address.position_of_aligned h.range.aligned ha
  obtain ⟨key, page, source, hplace, hpage, habsent, hcontents, hmemory, hsource⟩ :=
    h.exists_page hi ha
  have hlt : i % pageSize < pageSize := Nat.mod_lt _ (by decide)
  have hin : i % pageSize < bytesInPage readBytes (i / pageSize) ↔ i < readBytes := by
    rw [lt_bytesInPage hlt, Nat.div_add_mod']
  have hpending : m'.view.pendingBytes source = m.view.pendingBytes source := by
    rcases hsource with ⟨rfl, -⟩ | ⟨slice, rfl, -⟩
    · rfl
    · exact View.shown_congr rfl rfl (by rw [h.file_eq])
  obtain ⟨memory, hmade⟩ : ∃ memory : Memory, memory key = m'.view.pendingBytes source :=
    ⟨_, (hmemory fun _ => .zeros pageSize).trans hpending.symm⟩
  rcases hsource with ⟨rfl, hzero⟩ | ⟨slice, rfl, hslice, hstart, hbytes⟩
  · -- a page of zeros is backed by no slice at all
    refine ⟨key, ⟨⟨f, 0⟩, 0, 0, Nat.zero_le _⟩, memory, hplace, rfl, ?_, ?_, ?_⟩
    · exact (View.hasAll_iff (by rw [h.file_eq, hfile]) hreach).2 (.inl rfl)
    · refine .of_made hpage habsent hcontents (by rw [hcontents]; rfl) (fun other hs => ?_) hmade _
      rw [hcontents] at hs
      cases hs
    · rw [hmade, hoffset, Vector.getElem?_eq_getElem hlt,
        if_neg fun hread => Nat.not_lt_zero _ (hzero ▸ hin.2 hread), Option.some.injEq]
      exact Bytes.getElem_zeros hlt
  · refine ⟨key, slice, memory, hplace, hslice, ?_, ?_, ?_⟩
    · rw [View.hasAll_iff (by rw [h.file_eq, hslice, hfile]) hreach, hstart, hbytes]
      exact hpart
    · refine .of_made hpage habsent hcontents (by rw [hcontents]; rfl) (fun other hs => ?_) hmade _
      rw [hcontents] at hs
      exact (Option.some.inj hs).symm
    · rw [hmade, hpending, hoffset, Vector.getElem?_eq_getElem hlt, View.pendingBytes,
        getElem_shown m slice hlt, hbytes, hslice, hstart, Nat.add_assoc, Nat.div_add_mod', fileByte,
        hfile, Option.bind_some, Option.some.injEq]
      exact if_congr hin rfl rfl

/-- Where the file does not have all that a page of a segment reads, the page waits for good. -/
theorem lacksByte (h : SegmentLoaded s f offset va readBytes zeroBytes writable effects m m')
    (hfile : m.view.file f = some file) (hreach : file.reachLimit = none)
    (hi : i < readBytes + zeroBytes) (ha : a.toNat = va.toNat + i)
    (hpart : ¬file.HasPart offset readBytes i) : m'.LacksByte s a := by
  obtain ⟨key, page, source, hplace, hpage, habsent, hcontents, -, ⟨-, hzero⟩ |
    ⟨slice, rfl, hslice, hstart, hbytes⟩⟩ := h.exists_page hi ha
  · exact absurd (.inl hzero) hpart
  · refine ⟨key, page, hplace, hpage, habsent, slice, by rw [hcontents]; rfl, fun hall => hpart ?_⟩
    rw [View.hasAll_iff (by rw [h.file_eq, hslice, hfile]) hreach, hstart, hbytes] at hall
    exact hall

end Space.SegmentLoaded

end

/-! ### The first reading -/

/-- A later state of a machine: at every step a file had the contents that it has now, and nothing was
stored at an address. -/
structure Intact (f : Key File) (s : Key AddressSpace) (a : VirtualAddress) (m : Machine)
    (history : List Done) (m' : Machine) : Prop where
  reaches : Reaches m history m'
  unchanged : LeavesFile f history
  unstored : Unstored history s a

section

variable {start m₀ m₁ m : Machine} {earlier history : List Done} {s : Key AddressSpace}
  {a va : VirtualAddress} {f : Key File} {byte : UInt8} {α : Type} {request : Request α} {answer : α}

theorem Reaches.leavesFile_of_writesTo (h : Reaches m₁ history m) (hsound : Sound none m₁)
    (hwrites : m.writesTo f = m₁.writesTo f) : LeavesFile f history := by
  obtain ⟨effects, hcourse⟩ := h.course hsound
  rw [writesTo_eq, writesTo_eq] at hwrites
  exact h.leavesFile_of_file_eq hsound (hcourse.steps.filesSince.file_eq hwrites)

theorem Space.UserRange.position {count i : Nat} (h : UserRange va count)
    (hi : i < count * pageSize) (ha : a.toNat = va.toNat + i) :
    a.toNat ≠ 0 ∧ a.toNat < kernelBase := by
  have hnull := h.notNull
  have hbelow := h.below
  rw [Address.isNull, beq_eq_false_iff_ne] at hnull
  omega

theorem Run.shows_later (h : Run start earlier m₀) (hcapacity : start.pool.capacity ≤ maxFrames)
    (hhand : start.hand = 0) (hmade : Returns (request.perform? s) m₀ (some answer) m₁)
    (hholds : m₁.HoldsByte s a f byte) (hnull : a.toNat ≠ 0) (huser : a.toNat < kernelBase)
    (hintact : Intact f s a m₁ history m) : m.Shows s a f byte := by
  have h₁ : Run start _ m₁ := ⟨h.fresh, h.reaches.request hmade⟩
  have hrun : Run start _ m := ⟨h.fresh, h₁.reaches.trans hintact.reaches⟩
  exact hrun.shows hcapacity hhand hnull huser (hholds.reaches h₁.sound h₁.slotBooks hintact.reaches
    hintact.unchanged hintact.unstored)

/-- A process that never stored into a byte of a mapping or of a segment reads what the file has there,
and zero behind the part that was asked for, whatever was evicted and read again in the meantime. A
mapping shows zeros behind the end of the file as well. Of a segment, a page that would have to read
beyond the end of the file is not loaded. -/
theorem Run.firstReading (h : Run start earlier m₀) (hcapacity : start.pool.capacity ≤ maxFrames)
    (hhand : start.hand = 0) {file : File} (hfile : m₀.files.get? f = some file)
    (hreach : file.reachLimit = none) (hlength : file.reportedLength = none) :
    (∀ {α : Type} {request : Request α} {answer : α} {va : VirtualAddress} {length offset : Nat}
      {m₁ : Machine}, Returns (request.perform? s) m₀ (some answer) m₁ →
        request.Maps f va length offset answer →
          ∀ {i a history m}, i < (length + (pageSize - 1)) / pageSize * pageSize →
            a.toNat = va.toNat + i → Intact f s a m₁ history m →
              m.Shows s a f (if i < length then file.data[offset + i]?.getD 0 else 0)) ∧
    ∀ {handle : Handle} {offset readBytes zeroBytes : Nat} {va : VirtualAddress} {writable : Bool}
      {m₁ : Machine}, handle.file = f →
        Returns ((Request.loadSegment handle offset va readBytes zeroBytes writable).perform? s) m₀
          (some (.ok ())) m₁ →
          ∀ {i a history m}, i < readBytes + zeroBytes → a.toNat = va.toNat + i →
            Intact f s a m₁ history m →
              if file.HasPart offset readBytes i then
                m.Shows s a f (if i < readBytes then file.data[offset + i]?.getD 0 else 0)
              else m.FailsAt s a := by
  have hview : m₀.view.file f = some file.unissued := by
    rw [view]
    simp only [hfile, Option.map_some]
  constructor
  · intro α request answer va length offset m₁ hmap hmaps i a history m hi ha hintact
    obtain ⟨effects, houtcome⟩ := Request.exists_outcome h.sound (Request.returns_perform?.1 hmap).2
    obtain ⟨writable, hmapped⟩ := houtcome.fileMapped hmaps
    obtain ⟨hnull, huser⟩ := hmapped.range.position hi ha
    have hholds := hmapped.holdsByte hview hreach hlength hi ha
    exact h.shows_later hcapacity hhand hmap hholds hnull huser hintact
  · rintro handle offset readBytes zeroBytes va writable m₁ rfl hload i a history m hi ha hintact
    obtain ⟨cause, he, -⟩ | ⟨-, effects, hloaded⟩ :=
      answers_loadSegment h.sound (Request.returns_perform?.1 hload).2
    · cases he
    have hcount : (readBytes + zeroBytes) / pageSize * pageSize = readBytes + zeroBytes := by
      obtain ⟨-, -, _, -, -, count, -, hcount, -⟩ := hloaded
      rw [← hcount, Nat.mul_div_cancel _ (by decide)]
    obtain ⟨hnull, huser⟩ := hloaded.range.position (by rwa [hcount]) ha
    split
    · next hpart =>
      have hholds := hloaded.holdsByte hview hreach hi ha hpart
      exact h.shows_later hcapacity hhand hload hholds hnull huser hintact
    · next hpart =>
      have h₁ : Run start _ m₁ := ⟨h.fresh, h.reaches.request hload⟩
      have hrun : Run start _ m := ⟨h.fresh, h₁.reaches.trans hintact.reaches⟩
      have hlacks := hloaded.lacksByte hview hreach hi ha hpart
      exact hrun.failsAt hcapacity hhand hnull huser
        (hlacks.reaches h₁.sound hintact.reaches hintact.unstored)

end

/-- A file of two bytes is mapped, and a segment of two pages wants three. The page of the mapping is read,
paged out and still shows the file and zeros; the first page of the segment cannot be read, and the second
is zero. -/
theorem firstReading_after_pageOut : ∃ start history s m, Run start history m ∧
    m.Shows s ⟨0x10000001, by decide⟩ ⟨0⟩ 8 ∧ m.Shows s ⟨0x10000005, by decide⟩ ⟨0⟩ 0 ∧
      m.FailsAt s ⟨0x20000000, by decide⟩ ∧ m.Shows s ⟨0x20001000, by decide⟩ ⟨0⟩ 0 := by
  let va : VirtualAddress := ⟨0x10000000, by decide⟩
  have htest : returnsWith (do
        let s ← Space.create "init"
        let m₀ ← get
        let mapped ← (Request.mapFile va 2 true ⟨⟨0⟩, 0⟩ 0).perform? s
        let m₁ ← get
        let loaded ← (Request.loadSegment ⟨⟨0⟩, 0⟩ 0 ⟨0x20000000, by decide⟩ 3 8189 true).perform? s
        let m₂ ← get
        let read ← (Request.readUser va 1).perform? s
        return (s, m₀, mapped, m₁, loaded, m₂, read, ← (Request.pageOut va).perform? s))
      (bare 1 0 (Arena.empty.add (.ofData #[7, 8] none)))
      (fun (_, m₀, mapped, m₁, loaded, m₂, read, out) m =>
        mapped == some (.ok va) && loaded == some (.ok ()) && read.isSome && out.isSome &&
          [m₀, m₁].all (fun m => (m.files.get? ⟨0⟩).any fun file =>
            file.data == #[7, 8] && file.reachLimit == none && file.reportedLength == none) &&
          [m₁, m₂, m].all fun m => m.writesTo ⟨0⟩ == some 0) = true := by
    decide +kernel
  obtain ⟨⟨s, m₀, mapped, m₁, loaded, m₂, read, out⟩, m, hrun, htest⟩ := exists_returns htest
  simp only [returns_bind, returns_pure] at hrun
  obtain ⟨_, _, hcreate, _, _, hget₀, _, _, hmap, _, _, hget₁, _, _, hload, _, _, hget₂, _, m₃, hread,
    _, _, hout, he, rfl⟩ := hrun
  obtain ⟨rfl, rfl⟩ := returns_get.1 hget₀
  obtain ⟨rfl, rfl⟩ := returns_get.1 hget₁
  obtain ⟨rfl, rfl⟩ := returns_get.1 hget₂
  cases he
  simp only [Bool.and_eq_true, beq_iff_eq, Option.isSome_iff_exists, List.all_cons, List.all_nil,
    Option.any_eq_true, and_true] at htest
  obtain ⟨⟨⟨⟨⟨rfl, rfl⟩, _, rfl⟩, _, rfl⟩, ⟨file, hfile, ⟨hdata, hreach⟩, hlength⟩, file', hfile',
    ⟨hdata', hreach'⟩, hlength'⟩, hwrites₁, hwrites₂, hwrites⟩ := htest
  have h₀ : Run _ _ m₀ := ⟨fresh_bare 1 0 _, .create .refl hcreate⟩
  have h₁ : Run _ _ m₁ := ⟨h₀.fresh, h₀.reaches.request hmap⟩
  have hlast : Reaches m₂ _ m := (Reaches.refl.request hread).request hout
  have hlater : Reaches m₁ _ m := (Reaches.refl.request hload).trans hlast
  have h₂ : Run _ _ m₂ := ⟨h₁.fresh, h₁.reaches.request hload⟩
  have hintact₂ : ∀ {a}, Intact ⟨0⟩ s a m₂ _ m := ⟨hlast,
    hlast.leavesFile_of_writesTo h₂.sound (hwrites.trans hwrites₂.symm),
    .of_quiet (by simp [Request.Writes, Request.Ends])⟩
  have hintact₁ : ∀ {a}, Intact ⟨0⟩ s a m₁ _ m := ⟨hlater,
    hlater.leavesFile_of_writesTo h₁.sound (hwrites.trans hwrites₁.symm),
    .of_quiet (by simp [Request.Writes, Request.Ends])⟩
  obtain ⟨hmapping, -⟩ := h₀.firstReading (by decide) rfl hfile hreach hlength
  obtain ⟨-, hsegment⟩ := h₁.firstReading (by decide) rfl hfile' hreach' hlength'
  have hmaps : (Request.mapFile va 2 true ⟨⟨0⟩, 0⟩ 0).Maps ⟨0⟩ va 2 0 (.ok va) := ⟨rfl, rfl, rfl, rfl⟩
  refine ⟨_, _, s, m, ⟨h₁.fresh, h₁.reaches.trans hlater⟩, ?_, ?_, ?_, ?_⟩
  · have hshows := hmapping hmap hmaps (i := 1) (a := ⟨0x10000001, by decide⟩) (by decide) rfl hintact₁
    rwa [hdata] at hshows
  · have hshows := hmapping hmap hmaps (i := 5) (a := ⟨0x10000005, by decide⟩) (by decide) rfl hintact₁
    rwa [hdata] at hshows
  · have hfails := hsegment rfl hload (i := 0) (a := ⟨0x20000000, by decide⟩) (by decide) rfl hintact₂
    rwa [if_neg (by rw [File.HasPart, hdata']; decide)] at hfails
  · have hshows := hsegment rfl hload (i := 4096) (a := ⟨0x20001000, by decide⟩) (by decide) rfl hintact₂
    rwa [if_pos (by rw [File.HasPart, hdata']; decide)] at hshows

end DemandPaging
