import DemandPaging.Proofs.Run

/-!
Memory as a process knows it.

To a process its memory is flat: a byte for every address, which is the byte it stored there last.
What a history leaves in flat memory is read off its requests and answers. It asks the states in
between for three things only: the bytes of a file at the moment it is loaded or mapped, the region
that an unmapping takes away, and how far a write came that was rejected. Where there is no page,
flat memory is zero.

A history also leaves something in the pages, told by the labels of its course. That the two agree
says that pages go where they should. That the pages show these bytes, wherever they are kept, is
another matter.
-/

namespace DemandPaging

open Machine Space

/-- A byte for every address of every address space. -/
abbrev Flat := Key AddressSpace → Nat → UInt8

/-- A byte of a file. There are only zeros past its end. -/
def Machine.fileByte (m : Machine) (f : Key File) (i : Nat) : UInt8 :=
  ((m.view.file f).bind (·.data[i]?)).getD 0

def Machine.fileLength (m : Machine) (f : Key File) : Nat := ((m.view.file f).map (·.length)).getD 0

theorem Machine.fileLength_of_file {m : Machine} {f : Key File} {file : File}
    (h : m.view.file f = some file) : m.fileLength f = file.length := by
  rw [fileLength, h, Option.map_some, Option.getD_some]

namespace Flat

def lay (flat : Flat) (s : Key AddressSpace) (a length : Nat) (bytes : Nat → UInt8) : Flat :=
  Function.update flat s fun b => if a ≤ b ∧ b < a + length then bytes (b - a) else flat s b

/-- What a mapping puts into flat memory: the bytes of the file, and zeros up to the end of the last
page. -/
def layFile (flat : Flat) (s : Key AddressSpace) (start : VirtualAddress) (length : Nat)
    (file : Key File) (offset : Nat) (m : Machine) : Flat :=
  flat.lay s start.toNat ((length + (pageSize - 1)) / pageSize * pageSize) fun i =>
    if i < min (m.fileLength file - offset) length then m.fileByte file (offset + i) else 0

/-- What a request leaves in flat memory, by its answer and the state before it. -/
def after (flat : Flat) (s : Key AddressSpace) (m : Machine) :
    {α : Type} → Request α → α → Flat
  | _, .writeUser va data, .ok () => flat.lay s va.toNat data.size fun i => data[i]?.getD 0
  | _, .writeUser va data, .error _ =>
      flat.lay s va.toNat (storedLength s va data (pieces va.toNat 0 data.size) m) fun i =>
        data[i]?.getD 0
  | _, .loadSegment file offset start readBytes zeroBytes _, .ok () =>
      flat.lay s start.toNat (readBytes + zeroBytes) fun i =>
        if i < readBytes then m.fileByte file.file (offset + i) else 0
  | _, .mapFile start length _ file offset, .ok _ => flat.layFile s start length file.file offset m
  | _, .mapDescriptor start length _ descriptor offset lookup, .ok _ =>
      match (mappableDescriptor? descriptor).bind lookup with
      | some file => flat.layFile s start length file.file offset m
      | none => flat
  | _, .unmapFile start, () =>
      match m.view.regionOf s start with
      | some region =>
          flat.lay s (region.start.number.toNat * pageSize) (region.pages * pageSize) fun _ => 0
      | none => flat
  | _, .fork _, .ok child => Function.update flat child (flat s)
  | _, .exit _, _ => Function.update flat s fun _ => 0
  | _, .drop, _ => Function.update flat s fun _ => 0
  | _, _, _ => flat

def along (flat : Flat) (history : List Done) : Flat :=
  history.foldr (fun d flat => flat.after d.space d.before d.request d.answer) flat

end Flat

/-- Flat memory after a history, from the first address space on. -/
def remembered (history : List Done) : Flat := Flat.along (fun _ _ => 0) history

variable {flat : Flat} {memory : Memory} {m m₁ m' : Machine} {s : Key AddressSpace}

theorem Flat.lay_of_ne {s' : Key AddressSpace} (h : s' ≠ s) (a length : Nat)
    (bytes : Nat → UInt8) : flat.lay s a length bytes s' = flat s' :=
  Function.update_of_ne h _ _

theorem Flat.lay_self (a length : Nat) (bytes : Nat → UInt8) (b : Nat) :
    flat.lay s a length bytes s b =
      if a ≤ b ∧ b < a + length then bytes (b - a) else flat s b := by
  rw [lay, Function.update_self]

theorem Flat.lay_pages (first count : Nat) (bytes : Nat → UInt8) (n : Nat) {i : Nat}
    (hi : i < pageSize) :
    flat.lay s (first * pageSize) (count * pageSize) bytes s (n * pageSize + i) =
      if first ≤ n ∧ n < first + count then bytes ((n - first) * pageSize + i)
      else flat s (n * pageSize + i) := by
  have hiff : first * pageSize ≤ n * pageSize + i ∧
      n * pageSize + i < first * pageSize + count * pageSize ↔ first ≤ n ∧ n < first + count := by
    simp only [pageSize] at hi ⊢
    omega
  rw [lay_self]
  simp only [hiff]
  split
  · rw [Nat.sub_mul]
    congr 1
    simp only [pageSize] at hi ⊢
    omega
  · rfl

theorem Flat.lay_lay (a : Nat) (data more : Array UInt8) :
    (flat.lay s a data.size fun i => data[i]?.getD 0).lay s (a + data.size) more.size
        (fun i => more[i]?.getD 0) =
      flat.lay s a (data ++ more).size fun i => (data ++ more)[i]?.getD 0 := by
  funext s' b
  by_cases hs : s' = s
  · subst hs
    simp only [lay_self, Array.size_append, Array.getElem?_append]
    by_cases hlow : a ≤ b
    · by_cases hfirst : b < a + data.size
      · rw [if_neg (by omega), if_pos ⟨hlow, hfirst⟩, if_pos (by omega), if_pos (by omega)]
      · by_cases hsecond : b < a + data.size + more.size
        · rw [if_pos (by omega), if_pos (by omega), if_neg (by omega)]
          congr 2
          omega
        · rw [if_neg (by omega), if_neg (by omega), if_neg (by omega)]
    · rw [if_neg (by omega), if_neg (by omega), if_neg (by omega)]
  · rw [lay_of_ne hs, lay_of_ne hs, lay_of_ne hs]

theorem Flat.lay_extract (a : Nat) (data : Array UInt8) {length : Nat} (hle : length ≤ data.size) :
    (flat.lay s a (data.extract 0 length).size fun i => (data.extract 0 length)[i]?.getD 0) =
      flat.lay s a length fun i => data[i]?.getD 0 := by
  have hsize : (data.extract 0 length).size = length := by
    rw [Array.size_extract]
    omega
  funext s' b
  by_cases hs : s' = s
  · subst hs
    rw [lay_self, lay_self, hsize]
    split
    · next hin =>
      rw [Array.getElem?_extract, if_pos (by omega), Nat.zero_add]
    · rfl
  · rw [lay_of_ne hs, lay_of_ne hs]

theorem Flat.lay_empty (a : Nat) (bytes : Nat → UInt8) : flat.lay s a 0 bytes = flat := by
  funext s' b
  by_cases hs : s' = s
  · subst hs
    rw [lay_self, if_neg (by omega)]
  · rw [lay_of_ne hs]

/-! ### Pages and flat memory -/

/-- The bytes of the pages are those of flat memory at the addresses of the pages, and flat memory
is zero elsewhere. -/
structure Agrees (flat : Flat) (memory : Memory) (v : View) : Prop where
  placed : ∀ {s n key}, v.pageOf s n = some key → ∀ {i} (hi : i < pageSize),
    (memory key)[i] = flat s (n.toNat * pageSize + i)
  free : ∀ {s n}, v.pageOf s n = none → ∀ {i}, i < pageSize → flat s (n.toNat * pageSize + i) = 0
  blank : memory.BlankFrom v.created

namespace Agrees

variable {effects : List Effect}

/-- Places with their old pages agree as before, as long as the bytes of these are not set. -/
theorem unset (h : Agrees flat memory m.view) {n : PageNumber} {key : Key Page}
    (hplace : m.view.pageOf s n = some key) (hunset : ∀ e ∈ effects, ¬Effect.Sets key e) {i : Nat}
    (hi : i < pageSize) : (memory.after effects key)[i] = flat s (n.toNat * pageSize + i) := by
  rw [Memory.after_of_unset hunset]
  exact h.placed hplace hi

theorem passed (hsound : Sound none m) (h : Agrees flat memory m.view)
    (hpassed : Passed s effects m m') : Agrees flat (memory.after effects) m'.view := by
  have hblank := hpassed.course.steps.blankFrom hsound.coherent h.blank
  have hkept : ∀ {s' n key}, m.view.pageOf s' n = some key → m'.view.pageOf s' n = some key := by
    intro s' n key hplace
    obtain ⟨page, hpage, -⟩ := hsound.coherent.placement.placed hplace
    exact (hpassed.page_kept hsound hpage).2 s' n hplace
  rw [Memory.after_of_passing h.blank hpassed.passing] at hblank ⊢
  refine ⟨fun {s' n key} hplace i hi => ?_, fun {s' n} hfree i hi => ?_, hblank⟩
  · cases hold : m.view.pageOf s' n with
    | some key' =>
        cases (hkept hold).symm.trans hplace
        exact h.placed hold hi
    | none =>
        -- the page is new
        have hnew : m.view.created ≤ key.index := by
          by_contra hlt
          rw [(hpassed.course.steps.page_old (Nat.not_le.1 hlt)).2 s' n hplace] at hold
          cases hold
        simp only [h.blank key hnew, Bytes.getElem_zeros, h.free hold hi]
  · refine h.free ?_ hi
    cases hold : m.view.pageOf s' n with
    | some key => rw [hkept hold] at hfree; cases hfree
    | none => rfl

theorem store (hsound : Sound none m) (h : Agrees flat memory m.view) {n : PageNumber}
    {key : Key Page} {offset : Nat} {data : Array UInt8} (hplace : m.view.pageOf s n = some key)
    (hfits : offset + data.size ≤ pageSize) (hspaces : m'.spaces = m.spaces)
    (hcourse : Course [.stored key offset data] none m none m') :
    Agrees (flat.lay s (n.toNat * pageSize + offset) data.size fun i => data[i]?.getD 0)
      (memory.after [.stored key offset data]) m'.view := by
  have hpageOf : m'.view.pageOf = m.view.pageOf := by
    funext s' n'
    simp only [view, hspaces]
  obtain ⟨page, hpage, hnumber⟩ := hsound.coherent.placement.placed hplace
  refine ⟨fun {s' n' key'} hplace' i hi => ?_, fun {s' n'} hfree i hi => ?_,
    hcourse.steps.blankFrom hsound.coherent h.blank⟩
  · rw [hpageOf] at hplace'
    have hbefore := h.placed hplace' hi
    by_cases hkey : key' = key
    · subst hkey
      obtain rfl := hsound.coherent.placement.alone hplace' hplace
      obtain rfl : n' = n :=
        (hsound.coherent.placement.number_eq hplace' hpage).symm.trans hnumber
      rw [show memory.after [.stored key' offset data] key' = (memory key').overlay offset data from
        Function.update_self _ _ _, Bytes.getElem_overlay, Flat.lay_self, hbefore]
      by_cases hlow : offset ≤ i
      · rw [if_pos hlow]
        by_cases hin : i - offset < data.size
        · rw [if_pos (by omega), Array.getElem?_eq_getElem hin, Option.getD_some]
          simp only [Nat.add_sub_add_left, Array.getElem?_eq_getElem hin, Option.getD_some]
        · rw [if_neg (by omega), Array.getElem?_eq_none (Nat.not_lt.1 hin), Option.getD_none]
      · rw [if_neg hlow, if_neg (by omega)]
    · rw [show memory.after [.stored key offset data] key' = memory key' from
        Function.update_of_ne hkey _ _, hbefore]
      by_cases hs : s' = s
      · subst hs
        have hn : n'.toNat ≠ n.toNat := fun he => hkey (by
          rw [Number.ext he, hplace] at hplace'
          exact (Option.some.inj hplace').symm)
        rw [Flat.lay_self, if_neg]
        simp only [pageSize] at hi hfits ⊢
        omega
      · rw [Flat.lay_of_ne hs]
  · rw [hpageOf] at hfree
    by_cases hs : s' = s
    · subst hs
      have hn : n'.toNat ≠ n.toNat := fun he => by
        rw [Number.ext he, hplace] at hfree
        cases hfree
      rw [Flat.lay_self, if_neg, h.free hfree hi]
      simp only [pageSize] at hi hfits ⊢
      omega
    · rw [Flat.lay_of_ne hs, h.free hfree hi]

theorem stored {a : Nat} {data : Array UInt8} (hstored : Stored s a data effects m m')
    (hsound : Sound none m) (h : Agrees flat memory m.view) :
    Agrees (flat.lay s a data.size fun i => data[i]?.getD 0) (memory.after effects) m'.view := by
  induction hstored generalizing flat memory with
  | passed hpassed =>
      rw [show (#[] : Array UInt8).size = 0 from rfl, Flat.lay_empty]
      exact h.passed hsound hpassed
  | store hpassed hplace hfits _ hspaces hcourse hrest ih =>
      have hsound₁ := hpassed.sound hsound
      have hstore := (h.passed hsound hpassed).store hsound₁ hplace hfits hspaces hcourse
      rw [← Flat.lay_lay, Memory.after_append]
      exact ih (hcourse.sound hsound₁) hstore

theorem inserted (hsound : Sound none m) (h : Agrees flat memory m.view) {pages : List Page}
    (hinserted : Inserted s pages effects m m') {start : VirtualAddress} {count : Nat}
    {bytes : Nat → UInt8} (haligned : start.isPageAligned = true)
    (hall : ∀ index < count, ∃ page ∈ pages, MadeFor start index page)
    (hbytes : ∀ page ∈ pages, ∃ index < count, MadeFor start index page ∧
      ∀ source, page.contents = .pending source → ∀ i (hi : i < pageSize),
        (m.view.pendingBytes source)[i] = bytes (index * pageSize + i)) :
    Agrees (flat.lay s start.toNat (count * pageSize) bytes) (memory.after effects) m'.view := by
  have hstart : start.toNat = start.number.toNat * pageSize :=
    (Address.number_mul_pageSize haligned).symm
  have hunset : ∀ {s' n key}, m.view.pageOf s' n = some key → ∀ e ∈ effects, ¬Effect.Sets key e := by
    intro s' n key hplace e he hsets
    obtain ⟨page, hpage, -⟩ := hsound.coherent.placement.placed hplace
    obtain ⟨key', source, bytes', rfl, hnew, -⟩ := hinserted.labels e he
    cases hsets
    exact Nat.not_lt.2 hnew (hsound.coherent.placement.created hpage)
  have helsewhere : ∀ {s'}, s' ≠ s → m'.view.pageOf s' = m.view.pageOf s' := fun hs =>
    hinserted.pagesOnly.elsewhere _ hs
  have hmiss : ∀ {n : PageNumber}, ¬(start.number.toNat ≤ n.toNat ∧
      n.toNat < start.number.toNat + count) → m'.view.pageOf s n = m.view.pageOf s n := by
    intro n hout
    refine hinserted.kept n fun page hpage hn => hout ?_
    obtain ⟨index, hindex, hmade, -⟩ := hbytes page hpage
    rw [← hn, hmade.number]
    omega
  have hhit : ∀ {n : PageNumber}, start.number.toNat ≤ n.toNat →
      n.toNat < start.number.toNat + count → ∃ page ∈ pages, page.va.number = n := by
    intro n hlow hhigh
    obtain ⟨page, hpage, hmade⟩ := hall (n.toNat - start.number.toNat) (by omega)
    exact ⟨page, hpage, Number.ext (by rw [hmade.number]; omega)⟩
  rw [hstart]
  refine ⟨fun {s' n key} hplace i hi => ?_, fun {s' n} hfree i hi => ?_,
    hinserted.course.steps.blankFrom hsound.coherent h.blank⟩
  · by_cases hs : s' = s
    · subst hs
      rw [Flat.lay_pages _ _ _ _ hi]
      split
      · next hin =>
        obtain ⟨page, hpage, rfl⟩ := hhit hin.1 hin.2
        obtain ⟨index, hindex, hmade, hsource⟩ := hbytes page hpage
        obtain ⟨-, key', source, hplace', -, -, hcontents, hmemory⟩ := hinserted.placed page hpage
        cases hplace.symm.trans hplace'
        rw [hmemory, hsource source hcontents i hi, hmade.number, Nat.add_sub_cancel_left]
      · next hout =>
        rw [hmiss hout] at hplace
        exact h.unset hplace (hunset hplace) hi
    · rw [helsewhere hs] at hplace
      rw [Flat.lay_of_ne hs]
      exact h.unset hplace (hunset hplace) hi
  · by_cases hs : s' = s
    · subst hs
      have hout : ¬(start.number.toNat ≤ n.toNat ∧ n.toNat < start.number.toNat + count) := by
        rintro ⟨hlow, hhigh⟩
        obtain ⟨page, hpage, rfl⟩ := hhit hlow hhigh
        obtain ⟨-, key', source, hplace', -⟩ := hinserted.placed page hpage
        rw [hfree] at hplace'
        cases hplace'
      rw [hmiss hout] at hfree
      rw [Flat.lay_pages _ _ _ _ hi, if_neg hout, h.free hfree hi]
    · rw [helsewhere hs] at hfree
      rw [Flat.lay_of_ne hs, h.free hfree hi]

/-- Where the pages of one address space are gone, flat memory is zero. -/
theorem gone {flat' : Flat} (hsound : Sound none m) (h : Agrees flat memory m.view)
    (hcourse : Course effects none m none m') (hunset : ∀ e ∈ effects, ∀ key, ¬Effect.Sets key e)
    (helsewhere : ∀ s', s' ≠ s → m'.view.pageOf s' = m.view.pageOf s' ∧ flat' s' = flat s')
    (hplace : ∀ n key, m'.view.pageOf s n = some key → m.view.pageOf s n = some key ∧
      ∀ i, i < pageSize → flat' s (n.toNat * pageSize + i) = flat s (n.toNat * pageSize + i))
    (hfree : ∀ n, m'.view.pageOf s n = none → ∀ i, i < pageSize →
      flat' s (n.toNat * pageSize + i) = 0) :
    Agrees flat' (memory.after effects) m'.view := by
  have hsame : ∀ key, memory.after effects key = memory key := fun key =>
    Memory.after_of_unset fun e he => hunset e he key
  refine ⟨fun {s' n key} hplace' i hi => ?_, fun {s' n} hfree' i hi => ?_,
    hcourse.steps.blankFrom hsound.coherent h.blank⟩
  · rw [hsame]
    by_cases hs : s' = s
    · subst hs
      obtain ⟨hbefore, hflat⟩ := hplace n key hplace'
      rw [hflat i hi, h.placed hbefore hi]
    · obtain ⟨hpageOf, hflat⟩ := helsewhere s' hs
      rw [hpageOf] at hplace'
      rw [hflat, h.placed hplace' hi]
  · by_cases hs : s' = s
    · subst hs
      exact hfree n hfree' i hi
    · obtain ⟨hpageOf, hflat⟩ := helsewhere s' hs
      rw [hpageOf] at hfree'
      rw [hflat, h.free hfree' hi]

theorem unmapped (hsound : Sound none m) (h : Agrees flat memory m.view) {start : VirtualAddress}
    {region : Region} (hgone : FileUnmapped s start region effects m m') :
    Agrees (flat.lay s (region.start.number.toNat * pageSize) (region.pages * pageSize) fun _ => 0)
      (memory.after effects) m'.view := by
  refine h.gone (s := s) hsound hgone.course (fun e he key hsets => ?_) (fun s' hs' =>
    ⟨hgone.elsewhere s' hs', Flat.lay_of_ne hs' _ _ _⟩) (fun n key hplace => ?_)
    fun n hfree i hi => ?_
  · rcases hgone.labels e he with rfl | ⟨n, key', hplace, rfl, hin⟩ <;> cases hsets
  · rw [hgone.place] at hplace
    split at hplace
    · cases hplace
    · next hout => exact ⟨hplace, fun i hi => by rw [Flat.lay_pages _ _ _ _ hi, if_neg hout]⟩
  · rw [hgone.place] at hfree
    rw [Flat.lay_pages _ _ _ _ hi]
    split at hfree
    · next hin => rw [if_pos hin]
    · next hout => rw [if_neg hout, h.free hfree hi]

theorem closed (hsound : Sound none m) (h : Agrees flat memory m.view)
    (hclosed : Closed s effects m m') :
    Agrees (Function.update flat s fun _ => 0) (memory.after effects) m'.view := by
  refine h.gone (s := s) hsound hclosed.course (fun e he key hsets => ?_) (fun s' hs' =>
    ⟨(hclosed.elsewhere s' hs').1, Function.update_of_ne hs' _ _⟩) (fun n key hplace => ?_)
    fun n _ i _ => by rw [Function.update_self]
  · rcases hclosed.labels e he with ⟨start, rfl⟩ | ⟨n, key', hplace, rfl⟩ | rfl <;> cases hsets
  · rw [hclosed.pageOf] at hplace
    cases hplace

theorem same (hsound : Sound none m) (h : Agrees flat memory m.view)
    (hcourse : Course effects none m none m') (hpageOf : m'.view.pageOf = m.view.pageOf)
    (hunset : ∀ e ∈ effects, ∀ {key : Key Page}, key.index < m.view.created →
      ¬Effect.Sets key e) : Agrees flat (memory.after effects) m'.view := by
  refine ⟨fun {s' n key} hplace i hi => ?_, fun {s' n} hfree i hi => ?_,
    hcourse.steps.blankFrom hsound.coherent h.blank⟩
  · rw [hpageOf] at hplace
    obtain ⟨page, hpage, -⟩ := hsound.coherent.placement.placed hplace
    exact h.unset hplace (fun e he =>
      hunset e he (hsound.coherent.placement.created hpage)) hi
  · rw [hpageOf] at hfree
    exact h.free hfree hi

theorem forked {child : Key AddressSpace} (hsound : Sound none m) (h : Agrees flat memory m.view)
    (hforked : Forked s child effects m m') :
    Agrees (Function.update flat child (flat s)) (memory.after effects) m'.view := by
  have hunset : ∀ {s' n key}, m.view.pageOf s' n = some key → ∀ e ∈ effects, ¬Effect.Sets key e := by
    intro s' n key hplace e he hsets
    obtain ⟨page, hpage, -⟩ := hsound.coherent.placement.placed hplace
    rcases hforked.labels e he with rfl | ⟨start, rfl⟩ | ⟨n', key', copy, -, rfl, hnew⟩ <;>
      cases hsets
    exact Nat.not_lt.2 hnew (hsound.coherent.placement.created hpage)
  refine ⟨fun {s' n key} hplace i hi => ?_, fun {s' n} hfree i hi => ?_,
    hforked.course.steps.blankFrom hsound.coherent h.blank⟩
  · by_cases hs : s' = child
    · subst hs
      rw [Function.update_self]
      cases hparent : m.view.pageOf s n with
      | some key' =>
          obtain ⟨copy, hcopy, -, hmemory⟩ := hforked.copied.place n key' hparent
          cases hplace.symm.trans hcopy
          rw [hmemory]
          exact h.placed hparent hi
      | none =>
          rw [hforked.copied.free n hparent] at hplace
          cases hplace
    · rw [(hforked.elsewhere s' hs).1] at hplace
      rw [Function.update_of_ne hs]
      exact h.unset hplace (hunset hplace) hi
  · by_cases hs : s' = child
    · subst hs
      rw [Function.update_self]
      refine h.free ?_ hi
      cases hparent : m.view.pageOf s n with
      | some key' =>
          obtain ⟨copy, hcopy, -⟩ := hforked.copied.place n key' hparent
          rw [hfree] at hcopy
          cases hcopy
      | none => rfl
    · rw [(hforked.elsewhere s' hs).1] at hfree
      rw [Function.update_of_ne hs]
      exact h.free hfree hi

theorem created (hsound : Sound none m) (h : Agrees flat memory m.view)
    (hcreated : Created s m m') : Agrees flat memory m'.view :=
  h.same hsound hcreated.course hcreated.pageOf fun e he key _ hsets => by
    rw [List.mem_singleton.1 he] at hsets
    cases hsets

theorem forkFailed {child : Key AddressSpace} (hsound : Sound none m)
    (h : Agrees flat memory m.view) (hfailed : ForkFailed s child effects m m') :
    Agrees flat (memory.after effects) m'.view := by
  refine h.same hsound hfailed.course hfailed.pageOf fun e he key hold hsets => ?_
  rcases hfailed.labels e he with rfl | ⟨start, rfl⟩ | ⟨n, key', copy, -, rfl, hnew⟩ |
    ⟨key', rfl, hnew⟩ | rfl <;> cases hsets
  exact Nat.not_lt.2 hnew hold

end Agrees

/-! ### Files in flat memory -/

theorem getElem_shown (m : Machine) (slice : FileSlice) {i : Nat} (hi : i < pageSize) :
    (m.view.shown slice)[i] =
      if i < slice.readBytes then m.fileByte slice.handle.file (slice.offset + i) else 0 := by
  cases hfile : m.view.file slice.handle.file with
  | some file =>
      simp only [View.shown, fileByte, hfile, Option.elim_some, FileSlice.getElem_bytesIn,
        Option.bind_some]
  | none =>
      simp only [View.shown, fileByte, hfile, Option.elim_none, Bytes.getElem_zeros,
        Option.bind_none, Option.getD_none, ite_self]

theorem lt_bytesInPage {total index i : Nat} (hi : i < pageSize) :
    i < bytesInPage total index ↔ index * pageSize + i < total := by
  simp only [bytesInPage]
  omega

theorem Agrees.loaded {effects : List Effect} {file : Key File} {offset readBytes zeroBytes : Nat}
    {start : VirtualAddress} {writable : Bool} (hsound : Sound none m)
    (h : Agrees flat memory m.view)
    (hloaded : SegmentLoaded s file offset start readBytes zeroBytes writable effects m m') :
    Agrees (flat.lay s start.toNat (readBytes + zeroBytes) fun i =>
      if i < readBytes then m.fileByte file (offset + i) else 0) (memory.after effects) m'.view := by
  obtain ⟨hrange, -, handle, hnone, hfile, count, pages, hcount, hpages, hinserted⟩ := hloaded
  rw [← hcount]
  refine h.inserted hsound hinserted hrange.aligned (fun index hindex => ?_) fun page hpage => ?_
  · obtain ⟨page, hpage, hmake⟩ := exists_of_mapM_eq_ok hpages (List.mem_range.2 hindex)
    exact ⟨page, hpage, (segmentPage_eq_ok hmake).1⟩
  · obtain ⟨index, hindex, hmake⟩ := (mem_of_mapM_eq_ok hpages).1 hpage
    obtain ⟨hmade, -, hcontents⟩ := segmentPage_eq_ok hmake
    refine ⟨index, List.mem_range.1 hindex, hmade, fun source hsource i hi => ?_⟩
    rcases hcontents with ⟨hcontents, hzero⟩ | ⟨slice, hcontents, rfl, hoffset, hbytes⟩
    · cases hsource.symm.trans hcontents
      have hout : ¬index * pageSize + i < readBytes := by
        rcases hzero with hzero | hzero
        · rw [hnone hzero]
          omega
        · rw [← lt_bytesInPage hi, hzero]
          omega
      rw [if_neg hout]
      exact Bytes.getElem_zeros hi
    · cases hsource.symm.trans hcontents
      rw [View.pendingBytes, getElem_shown m slice hi, hbytes, hoffset, (hfile _ rfl).1, Nat.add_assoc]
      simp only [lt_bytesInPage hi]

theorem Agrees.mapped {effects : List Effect} {file : Key File} {offset length : Nat}
    {start : VirtualAddress} {writable : Bool} (hsound : Sound none m)
    (h : Agrees flat memory m.view)
    (hmapped : FileMapped s file offset start length writable effects m m') :
    Agrees (flat.layFile s start length file offset m) (memory.after effects) m'.view := by
  obtain ⟨-, hrange, -, current, handle, pages, inserted, m₁, hcurrent, rfl, hpages, hinserted, rfl, -,
    hview⟩ := hmapped
  have hlength : m.fileLength handle.file = current.length :=
    (fileLength_of_file (view_file_eq hcurrent)).trans rfl
  suffices hagrees : Agrees (flat.layFile s start length handle.file offset m)
      (memory.after inserted) m₁.view by
    rw [Memory.after_append, hview]
    exact ⟨hagrees.placed, hagrees.free, hagrees.blank⟩
  refine h.inserted hsound hinserted hrange.aligned (fun index hindex => ?_) fun page hpage => ?_
  · obtain ⟨page, hpage, hmake⟩ := exists_of_mapM_eq_ok hpages (List.mem_range.2 hindex)
    exact ⟨page, hpage, (filePage_eq_ok hmake).1⟩
  · obtain ⟨index, hindex, hmake⟩ := (mem_of_mapM_eq_ok hpages).1 hpage
    obtain ⟨hmade, -, slice, hcontents, hhandle, hoffset, hbytes⟩ := filePage_eq_ok hmake
    refine ⟨index, List.mem_range.1 hindex, hmade, fun source hsource i hi => ?_⟩
    cases hsource.symm.trans hcontents
    rw [View.pendingBytes, getElem_shown m slice hi, hbytes, hoffset, hhandle, hlength,
      Nat.add_assoc]
    simp only [lt_bytesInPage hi]

/-! ### Requests and histories -/

theorem Flat.after_of_quiet {α : Type} {request : Request α} {answer : α}
    (h : request.IsQuiet answer) : flat.after s m request answer = flat := by
  cases request with
  | loadSegment =>
      cases answer with
      | ok u => exact absurd rfl h
      | error cause => rfl
  | mapFile =>
      cases answer with
      | ok start => exact absurd rfl (h start)
      | error cause => rfl
  | mapDescriptor =>
      cases answer with
      | ok start => exact absurd rfl (h start)
      | error cause => rfl
  | unmapFile | writeUser | fork | exit | drop => cases h
  | _ => rfl

/-- What a request leaves in flat memory is what its course leaves in the pages. -/
theorem Outcome.agrees {α : Type} {request : Request α} {answer : α} {effects : List Effect}
    (houtcome : Outcome s m m' request answer effects) (hsound : Sound none m)
    (h : Agrees flat memory m.view) :
    Agrees (flat.after s m request answer) (memory.after effects) m'.view := by
  cases houtcome with
  | passed hquiet hpassed =>
      rw [Flat.after_of_quiet hquiet]
      exact h.passed hsound hpassed
  | @stored va data answer _ length hlength hle hok hstored =>
      have hagrees := h.stored hstored hsound
      rw [Flat.lay_extract _ _ hle] at hagrees
      cases answer with
      | ok u =>
          rw [hok rfl] at hagrees
          exact hagrees
      | error cause =>
          rw [← hlength] at hagrees
          exact hagrees
  | loaded hloaded => exact h.loaded hsound hloaded
  | mapped hmapped => exact h.mapped hsound hmapped
  | descriptorMapped hfile hmapped =>
      simp only [Flat.after, hfile]
      exact h.mapped hsound hmapped
  | unmapped hregion hgone =>
      simp only [Flat.after, hregion]
      exact h.unmapped hsound hgone
  | nothingUnmapped hregion hpassed =>
      simp only [Flat.after, hregion]
      exact h.passed hsound hpassed
  | exited hclosed => exact h.closed hsound hclosed
  | dropped hclosed => exact h.closed hsound hclosed
  | forked hforked => exact h.forked hsound hforked
  | forkFailed hfailed => exact h.forkFailed hsound hfailed

/-- A history leaves in flat memory what its course leaves in the pages, and what is kept along with
the memory at every request is kept on the way. -/
theorem Reaches.agrees {P : Memory → View → Prop} {history : List Done}
    (hreaches : Reaches m history m') (hsound : Sound none m) (h : Agrees flat memory m.view)
    (hstart : P memory m.view)
    (hcreate : ∀ {memory s m₁ m₂}, Sound none m₁ → Created s m₁ m₂ → P memory m₁.view →
      P memory m₂.view)
    (hrequest : ∀ d ∈ history, ∀ {memory effects}, Sound none d.before →
      Outcome d.space d.before d.after d.request d.answer effects → P memory d.before.view →
        P (memory.after effects) d.after.view) :
    ∃ memory', Agrees (flat.along history) memory' m'.view ∧ P memory' m'.view := by
  induction hreaches with
  | refl => exact ⟨memory, h, hstart⟩
  | create hreaches hrun ih =>
      obtain ⟨memory', hagrees, hp⟩ := ih hrequest
      have hsound₁ := hreaches.sound hsound
      have hcreated := returns_create hsound₁ hrun
      exact ⟨memory', hagrees.created hsound₁ hcreated, hcreate hsound₁ hcreated hp⟩
  | clients hreaches handles ih => exact ih hrequest
  | request hreaches hrun ih =>
      obtain ⟨memory', hagrees, hp⟩ := ih fun d hd => hrequest d (List.mem_cons_of_mem _ hd)
      have hsound₁ := hreaches.sound hsound
      obtain ⟨effects, houtcome⟩ := Request.exists_outcome hsound₁
        (Request.returns_perform?.1 hrun).2
      exact ⟨memory'.after effects, houtcome.agrees hsound₁ hagrees,
        hrequest _ List.mem_cons_self hsound₁ houtcome hp⟩

theorem agrees_fresh (h : Fresh m) : Agrees (fun _ _ => 0) (fun _ => .zeros pageSize) m.view where
  placed {s n key} hplace := by
    simp [view, h.spaces] at hplace
  free _ _ _ := rfl
  blank _ _ := rfl

theorem Run.exists_agrees {start : Machine} {history : List Done} (h : Run start history m) :
    ∃ flat memory, Agrees flat memory m.view := by
  obtain ⟨memory, hagrees, -⟩ := h.reaches.agrees (P := fun _ _ => True) h.fresh.sound
    (agrees_fresh h.fresh) trivial (fun _ _ _ => trivial) fun _ _ _ _ _ _ _ => trivial
  exact ⟨_, memory, hagrees⟩

end DemandPaging
