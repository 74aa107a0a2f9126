import DemandPaging.Proofs.Space.Regions
import DemandPaging.Proofs.WriteBack

/-!
A mapped file is coherent with its mapping.

As long as a file is mapped by one region only, every byte of it that lies in the mapping has one
page that covers it, and the byte is followed through that page: requests store into it, evictions
write it back, and taking the region away leaves it in the file. What has to be excluded is said in
terms of requests, that nobody else maps the file and that the address space is not forked.

For a byte of the mapping this says two things. A process reads what it stored there last, or what
the file had when it was mapped; and when the mapping is gone that is what the file has.
-/

namespace DemandPaging

open Machine Space

/-! ### What was stored last -/

/-- The byte that a write stores at an address. A write that is rejected stores the pieces before
the one that is rejected. -/
def Request.stores? {α : Type} (s : Key AddressSpace) (m : Machine) (a : Nat) :
    Request α → α → Option UInt8
  | .writeUser va data, .ok () =>
      if va.toNat ≤ a ∧ a < va.toNat + data.size then data[a - va.toNat]? else none
  | .writeUser va data, .error _ =>
      if va.toNat ≤ a ∧ a < va.toNat + storedLength s va data (pieces va.toNat 0 data.size) m then
        data[a - va.toNat]?
      else none
  | _, _ => none

def Done.stores? (d : Done) (s : Key AddressSpace) (a : Nat) : Option UInt8 :=
  if d.space = s then d.request.stores? s d.before a d.answer else none

/-- The byte that a history stored last at an address, if it stored one. -/
def lastStored (history : List Done) (s : Key AddressSpace) (a : Nat) : Option UInt8 :=
  history.findSome? (·.stores? s a)

theorem lastStored_cons {history : List Done} {d : Done} {s : Key AddressSpace} {a : Nat} :
    lastStored (d :: history) s a = (d.stores? s a).or (lastStored history s a) := by
  rw [lastStored, List.findSome?_cons]
  cases d.stores? s a <;> rfl

/-! ### Windows -/

structure Window where
  space : Key AddressSpace
  file : Key File
  start : VirtualAddress
  offset : Nat
  length : Nat

namespace Window

def ofMapping (s : Key AddressSpace) (f : Key File) (file : File) (start : VirtualAddress)
    (offset length : Nat) : Window :=
  ⟨s, f, start, offset, min (file.data.size - offset) length⟩

def page (w : Window) (k : Nat) : PageNumber := ⟨(w.start.toNat + k) / pageSize⟩

def inPage (w : Window) (k : Nat) : Nat := (w.start.toNat + k) % pageSize

variable {w : Window} {k k' : Nat}

theorem inPage_lt (w : Window) (k : Nat) : w.inPage k < pageSize := Nat.mod_lt _ (by decide)

theorem toNat_page_mul_add (w : Window) (k : Nat) :
    (w.page k).toNat * pageSize + w.inPage k = w.start.toNat + k := Nat.div_add_mod' _ _

/-- The window is the only one through which the file is mapped. Its bytes are in the pages, and the
rest of the file is as it was. -/
structure Live (w : Window) (bytes : Nat → UInt8) (before : Array UInt8) (memory : Memory) (v : View) :
    Prop where
  file : ∃ file, v.file w.file = some file ∧ file.reachLimit = none ∧
    file.data.size = before.size
  region : ∃ region, v.regionOf w.space w.start = some region ∧ 0 < region.pages ∧
    ∀ k < w.length, region.Has (w.page k)
  covers : ∀ {key p i}, v.Covers key w.file p i → ∃ k < w.length, p = w.offset + k ∧
    v.pageOf w.space (w.page k) = some key
  followed : ∀ k < w.length, ∃ key, v.pageOf w.space (w.page k) = some key ∧
    Followed memory v key w.file (w.offset + k) (w.inPage k) ∧
      (memory key)[w.inPage k]? = some (bytes k)
  outside : ∀ p, ¬(w.offset ≤ p ∧ p < w.offset + w.length) → v.byteAt? w.file p = before[p]?

namespace Live

variable {bytes bytes' : Nat → UInt8} {before : Array UInt8} {memory : Memory} {v v' : View}
  {effects : List Effect} {x x' : Option FrameNumber} {own : Option (Key Page)} {p : Nat}

/-- The labels of a chain in which no other window comes to show the file. -/
def Alone (w : Window) (v : View) (effects : List Effect) : Prop :=
  ∀ e ∈ effects, (∀ key slice bytes, e = .added key (.file slice) bytes →
    slice.handle.file ≠ w.file) ∧
      ∀ source copy n, e = .copied source copy → v.pageOf w.space n ≠ some source

theorem undisturbed (h : Live w bytes before memory v) (halone : Alone w v effects)
    (hown : ∀ {key i}, v.Covers key w.file p i → own = some key) :
    Undisturbed own v w.file p effects ∧ Quiet own v w.file p := by
  refine ⟨⟨fun he => (halone _ he).1 _ _ _ rfl, fun he hcovers => ?_, fun _ => hown⟩,
    fun _ _ hcovers _ => hown hcovers⟩
  obtain ⟨k, -, -, hplace⟩ := h.covers hcovers
  exact (halone _ he).2 _ _ _ rfl hplace

theorem eq_of_covers (h : Live w bytes before memory v) {key : Key Page}
    (hplace : v.pageOf w.space (w.page k) = some key) {key' : Key Page} {i : Nat}
    (hcovers : v.Covers key' w.file (w.offset + k) i) : some key = some key' := by
  obtain ⟨k', -, he, hplace'⟩ := h.covers hcovers
  obtain rfl : k = k' := Nat.add_left_cancel he
  rw [← hplace, hplace']

theorem not_covers_outside (h : Live w bytes before memory v)
    (hp : ¬(w.offset ≤ p ∧ p < w.offset + w.length)) {key : Key Page} {i : Nat} :
    ¬v.Covers key w.file p i := by
  intro hcovers
  obtain ⟨k, hk, rfl, -⟩ := h.covers hcovers
  exact hp ⟨Nat.le_add_right _ _, Nat.add_lt_add_left hk _⟩

theorem file_of_steps (h : Live w bytes before memory v) (hsince : v.FilesSince v') :
    ∃ file, v'.file w.file = some file ∧ file.reachLimit = none ∧
      file.data.size = before.size := by
  obtain ⟨file, hfile, hreach, hsize⟩ := h.file
  obtain ⟨file', hfile', hsince⟩ := hsince.exists_file hfile
  exact ⟨file', hfile', hsince.reachLimit.trans hreach, hsince.size_data.trans hsize⟩

theorem undisturbed_outside (h : Live w bytes before memory v) (halone : Alone w v effects)
    (hp : ¬(w.offset ≤ p ∧ p < w.offset + w.length)) :
    Undisturbed none v w.file p effects ∧ Quiet none v w.file p :=
  h.undisturbed halone fun hcovers => absurd hcovers (h.not_covers_outside hp)

/-- What lies outside the window is left alone, whatever becomes of the window. -/
theorem outside_of_steps (h : Live w bytes before memory v) (halone : Alone w v effects)
    (hsteps : Steps effects x v x' v') (hcoherent : Coherent x v)
    (hp : ¬(w.offset ≤ p ∧ p < w.offset + w.length)) : v'.byteAt? w.file p = before[p]? := by
  obtain ⟨hundisturbed, hquiet⟩ := h.undisturbed_outside halone hp
  by_cases hlt : p < before.size
  · obtain ⟨file, hfile, hreach, hsize⟩ := h.file
    rw [hsteps.byteAt?_eq hcoherent ⟨file, hfile, hreach, by rwa [hsize]⟩ hundisturbed hquiet,
      h.outside p hp]
  · obtain ⟨file, hfile, -, hsize⟩ := h.file_of_steps hsteps.filesSince
    rw [View.byteAt?, hfile, Option.bind_some, Array.getElem?_eq_none (by omega),
      Array.getElem?_eq_none (by omega)]

theorem followed_of_steps (h : Live w bytes before memory v)
    (hfits : ∀ k < w.length, w.offset + k < before.size) (halone : Alone w v effects)
    (hsteps : Steps effects x v x' v') (hcoherent : Coherent x v) (hk : k < w.length)
    {key : Key Page} (hplace : v.pageOf w.space (w.page k) = some key) :
    Followed (memory.after effects) v' key w.file (w.offset + k) (w.inPage k) := by
  obtain ⟨_, hplace', hfollowed, -⟩ := h.followed k hk
  cases hplace.symm.trans hplace'
  obtain ⟨hundisturbed, hquiet⟩ := h.undisturbed halone (h.eq_of_covers hplace)
  obtain ⟨file, hfile, hreach, hsize⟩ := h.file
  exact hsteps.followed hcoherent ⟨file, hfile, hreach, by rw [hsize]; exact hfits k hk⟩ hquiet
    hundisturbed hfollowed

theorem covers_of_steps (h : Live w bytes before memory v) (halone : Alone w v effects)
    (hsteps : Steps effects x v x' v') (hcoherent : Coherent x v) {key : Key Page} {i : Nat}
    (hcovers : v'.Covers key w.file p i) : v.Covers key w.file p i := by
  by_cases hp : w.offset ≤ p ∧ p < w.offset + w.length
  · obtain ⟨k, rfl⟩ := Nat.exists_eq_add_of_le hp.1
    obtain ⟨_, hplace, -⟩ := h.followed k (by omega)
    exact hsteps.covers_of_undisturbed hcoherent
      (h.undisturbed halone (h.eq_of_covers hplace)).1 hcovers
  · exact hsteps.covers_of_undisturbed hcoherent (h.undisturbed_outside halone hp).1 hcovers

/-- A chain that leaves the pages of the window in their places keeps it alive. -/
theorem steps (h : Live w bytes before memory v)
    (hfits : ∀ k < w.length, w.offset + k < before.size) (halone : Alone w v effects)
    (hsteps : Steps effects x v x' v') (hcoherent : Coherent x v)
    (hregion : ∀ {region}, v.regionOf w.space w.start = some region → 0 < region.pages →
      v'.regionOf w.space w.start = some region)
    (hkept : ∀ {k key}, k < w.length → v.pageOf w.space (w.page k) = some key →
      v'.pageOf w.space (w.page k) = some key)
    (hbytes : ∀ {k key}, k < w.length → v.pageOf w.space (w.page k) = some key →
      (memory.after effects key)[w.inPage k]? = some (bytes' k)) :
    Live w bytes' before (memory.after effects) v' where
  file := h.file_of_steps hsteps.filesSince
  region := by
    obtain ⟨region, hfound, hpages, hhas⟩ := h.region
    exact ⟨region, hregion hfound hpages, hpages, hhas⟩
  covers {key p i} hcovers := by
    obtain ⟨k, hk, rfl, hplace⟩ :=
      h.covers (h.covers_of_steps halone hsteps hcoherent hcovers)
    exact ⟨k, hk, rfl, hkept hk hplace⟩
  followed k hk := by
    obtain ⟨key, hplace, -⟩ := h.followed k hk
    exact ⟨key, hkept hk hplace, h.followed_of_steps hfits halone hsteps hcoherent hk hplace,
      hbytes hk hplace⟩
  outside p hp := h.outside_of_steps halone hsteps hcoherent hp

end Live

end Window

/-! ### Requests -/

section

variable {α : Type} {request : Request α} {answer : α} {m m' : Machine} {s : Key AddressSpace}
  {effects : List Effect} {w : Window} {bytes : Nat → UInt8} {before : Array UInt8} {memory : Memory}
  {flat : Flat}

theorem Request.stores?_of_not_writes (h : ¬request.Writes) (s : Key AddressSpace) (m : Machine)
    (a : Nat) : request.stores? s m a answer = none := by
  cases request with
  | writeUser => exact absurd trivial h
  | _ => rfl

/-- A write stores its first bytes, as many as it came to. -/
theorem Request.stores?_writeUser {va : VirtualAddress} {data : Array UInt8}
    {answer : Except Rejection Unit} {length : Nat}
    (hlength : storedLength s va data (pieces va.toNat 0 data.size) m = length)
    (hok : answer = .ok () → length = data.size) (a : Nat) :
    (Request.writeUser va data).stores? s m a answer =
      if va.toNat ≤ a ∧ a < va.toNat + length then data[a - va.toNat]? else none := by
  cases answer with
  | ok u => rw [Request.stores?, hok rfl]
  | error cause => rw [Request.stores?, hlength]

theorem Flat.lay_eq_getD (s : Key AddressSpace) (va a length : Nat) {data : Array UInt8}
    (hle : length ≤ data.size) :
    flat.lay s va length (fun i => data[i]?.getD 0) s a =
      (if va ≤ a ∧ a < va + length then data[a - va]? else none).getD (flat s a) := by
  rw [lay_self]
  split
  · rw [Array.getElem?_eq_getElem (by omega), Option.getD_some, Option.getD_some]
  · rfl

/-- What a request leaves in a page of the address space that was there before. -/
theorem Outcome.getElem?_after (houtcome : Outcome s m m' request answer effects)
    (hsound : Sound none m) (hagrees : Agrees flat memory m.view) {s' : Key AddressSpace}
    {n : PageNumber} {key : Key Page} (hplace : m.view.pageOf s' n = some key)
    (hplace' : m'.view.pageOf s' n = some key) {i : Nat} (hi : i < pageSize) :
    (memory.after effects key)[i]? = some
      ((if s = s' then request.stores? s' m (n.toNat * pageSize + i) answer else none).getD
        (memory key)[i]) := by
  rw [Vector.getElem?_eq_getElem hi, Option.some.injEq]
  obtain ⟨page, hpage, -⟩ := hsound.coherent.placement.placed hplace
  have hunset : ¬request.Writes → (memory.after effects key)[i] =
      ((if s = s' then request.stores? s' m (n.toNat * pageSize + i) answer else none).getD
        (memory key)[i]) := by
    intro hwrites
    have hsame : memory.after effects key = memory key := Memory.after_of_unset fun e he hsets =>
      hwrites (houtcome.writes_of_sets he hsets (hsound.coherent.placement.created hpage))
    rw [hsame, Request.stores?_of_not_writes hwrites, ite_self, Option.getD_none]
  rw [hagrees.placed hplace hi] at hunset ⊢
  by_cases hwrites : request.Writes
  · have hflat := (houtcome.agrees hsound hagrees).placed hplace' hi
    cases houtcome with
    | @stored va data answer _ length hlength hle hok hstored =>
        rw [hflat]
        by_cases hs : s = s'
        · subst hs
          rw [if_pos rfl]
          cases answer with
          | ok u => exact Flat.lay_eq_getD _ _ _ _ (Nat.le_refl _)
          | error cause => exact Flat.lay_eq_getD _ _ _ _ (by rwa [hlength])
        · rw [if_neg hs, Option.getD_none]
          cases answer with
          | ok u =>
              change flat.lay s va.toNat data.size (fun i => data[i]?.getD 0) s' _ = _
              rw [Flat.lay_of_ne (Ne.symm hs)]
          | error cause =>
              change flat.lay s va.toNat _ (fun i => data[i]?.getD 0) s' _ = _
              rw [Flat.lay_of_ne (Ne.symm hs)]
    | passed hquiet =>
        cases request with
        | writeUser => cases hquiet
        | _ => cases hwrites
    | _ => cases hwrites
  · exact hunset hwrites

/-- Nobody else maps the file, and the address space is not forked. -/
theorem Window.alone_of_outcome (houtcome : Outcome s m m' request answer effects)
    (hsound : Sound none m) (hforks : s = w.space → ¬request.Forks)
    (hsole : ∀ start length offset, ¬request.Maps w.file start length offset answer) :
    Window.Live.Alone w m.view effects := by
  refine fun e he => ⟨?_, ?_⟩
  · rintro key slice bytes rfl hfile
    cases houtcome.labels he with
    | added _ _ hmaps =>
        obtain ⟨start, length, offset, hmaps⟩ := hmaps slice rfl
        rw [hfile] at hmaps
        exact hsole start length offset hmaps
  · rintro source copy n rfl hplace
    cases houtcome.labels he with
    | copied hfork hplace' => exact hforks (hsound.coherent.placement.alone hplace' hplace) hfork

theorem Window.Live.of_outcome (h : w.Live bytes before memory m.view)
    (hfits : ∀ k < w.length, w.offset + k < before.size) (hsound : Sound none m)
    (hregions : RegionsPlaced m.view) (hagrees : Agrees flat memory m.view)
    (houtcome : Outcome s m m' request answer effects)
    (hlive : s = w.space → ¬request.Ends w.start ∧ ¬request.Forks)
    (hsole : ∀ start length offset, ¬request.Maps w.file start length offset answer) :
    w.Live (fun k => (if s = w.space then request.stores? w.space m (w.start.toNat + k) answer
      else none).getD (bytes k)) before (memory.after effects) m'.view := by
  have hkept : ∀ {k key}, k < w.length → m.view.pageOf w.space (w.page k) = some key →
      m'.view.pageOf w.space (w.page k) = some key := by
    intro k key hk hplace
    rcases houtcome.pageOf_kept hsound hplace with hplace' | ⟨hs, start, hends, htakes⟩
    · exact hplace'
    -- a request that takes pages of another region takes none of this one
    have hnot := (hlive hs.symm).1
    rcases htakes with hall | ⟨region', hregion', hhas'⟩
    · exact absurd (hall _) hnot
    · obtain ⟨region, hregion, -, hhas⟩ := h.region
      rw [← hs] at hregion'
      rw [hregions.apart hregion hregion' (hhas k hk) hhas'] at hnot
      exact absurd hends hnot
  refine h.steps hfits (alone_of_outcome houtcome hsound (fun hs => (hlive hs).2) hsole)
    houtcome.course.steps hsound.coherent (fun hregion hpages => ?_) hkept fun {k key} hk hplace => ?_
  · exact (houtcome.regionOf_kept hregions hregion hpages).resolve_right
      fun hand => (hlive hand.1.symm).1 hand.2
  · obtain ⟨_, hplace', -, hbyte⟩ := h.followed k hk
    cases hplace.symm.trans hplace'
    rw [Vector.getElem?_eq_getElem (w.inPage_lt k), Option.some.injEq] at hbyte
    rw [houtcome.getElem?_after hsound hagrees hplace (hkept hk hplace) (w.inPage_lt k),
      toNat_page_mul_add, hbyte]

/-- What is left when the window is gone: its bytes are in the file, and the rest is as it was. -/
structure Window.LeftIn (w : Window) (bytes : Nat → UInt8) (before : Array UInt8)
    (file : File) : Prop where
  size : file.data.size = before.size
  inside : ∀ k < w.length, file.data[w.offset + k]? = some (bytes k)
  outside : ∀ p, ¬(w.offset ≤ p ∧ p < w.offset + w.length) → file.data[p]? = before[p]?

/-- A request that ends the mapping leaves the bytes of the window in the file. -/
theorem Window.Live.ended (h : w.Live bytes before memory m.view)
    (hfits : ∀ k < w.length, w.offset + k < before.size) (hsound : Sound none m)
    (houtcome : Outcome w.space m m' request answer effects) (hends : request.Ends w.start) :
    (∃ file, m'.view.file w.file = some file ∧ file.reachLimit = none ∧ w.LeftIn bytes before file) ∧
      ∀ key p i, ¬m'.view.Covers key w.file p i := by
  have hnot : ¬request.Forks ∧ ¬request.Writes ∧
      ∀ start length offset, ¬request.Maps w.file start length offset answer := by
    cases request with
    | unmapFile | exit | drop => exact ⟨id, id, fun _ _ _ => id⟩
    | _ => cases hends
  have halone : Live.Alone w m.view effects :=
    alone_of_outcome houtcome hsound (fun _ => hnot.1) hnot.2.2
  have hsteps := houtcome.course.steps
  have hcoherent := hsound.coherent
  have hcoherent' := hsteps.coherent hcoherent
  have hgone : ∀ k < w.length, m'.view.pageOf w.space (w.page k) = none := by
    intro k hk
    obtain ⟨region, hregion, -, hhas⟩ := h.region
    cases houtcome with
    | passed hquiet =>
        cases request with
        | unmapFile | exit | drop => cases hquiet
        | _ => cases hends
    | unmapped hregion' hunmapped =>
        cases hends
        cases hregion.symm.trans hregion'
        rw [hunmapped.place]
        exact if_pos (hhas k hk)
    | nothingUnmapped hnone =>
        cases hends
        cases hregion.symm.trans hnone
    | exited hclosed => exact hclosed.pageOf _
    | dropped hclosed => exact hclosed.pageOf _
    | _ => cases hends
  have huncovered : ∀ key p i, ¬m'.view.Covers key w.file p i := by
    intro key p i hcovers
    obtain ⟨page', _, hpage', -⟩ := id hcovers
    obtain ⟨k, hk, -, hplace⟩ := h.covers (h.covers_of_steps halone hsteps hcoherent hcovers)
    obtain ⟨page, hpage, hnumber⟩ := hcoherent.placement.placed hplace
    -- the page would still be in its place
    obtain ⟨s', hplace'⟩ := hcoherent'.placement.held hpage'
    have hplaced := (hsteps.page_old (hcoherent.placement.created hpage)).2 _ _ hplace'
    obtain rfl := hcoherent.placement.alone hplace hplaced
    rw [← hcoherent.placement.number_eq hplaced hpage, hnumber, hgone k hk] at hplace'
    cases hplace'
  obtain ⟨file, hfile, hreach, hsize⟩ := h.file_of_steps hsteps.filesSince
  refine ⟨⟨file, hfile, hreach, hsize, fun k hk => ?_, fun p hp => ?_⟩, huncovered⟩
  · obtain ⟨key, hplace, -, hbyte⟩ := h.followed k hk
    obtain ⟨page, hpage, -⟩ := hcoherent.placement.placed hplace
    have hsame : memory.after effects key = memory key := Memory.after_of_unset fun e he hsets =>
      hnot.2.1 (houtcome.writes_of_sets he hsets (hcoherent.placement.created hpage))
    cases h.followed_of_steps hfits halone hsteps hcoherent hk hplace with
    | mapped _ hcovers => exact absurd hcovers (huncovered _ _ _)
    | gone hbyte' _ _ hleft =>
        rw [hsame, hbyte] at hbyte'
        rw [View.byteAt?, hfile, Option.bind_some] at hleft
        rw [hleft, hbyte']
  · rw [← h.outside_of_steps halone hsteps hcoherent hp, View.byteAt?, hfile, Option.bind_some]

theorem Window.Live.read (h : w.Live bytes before memory m.view)
    (hfits : ∀ k < w.length, w.offset + k < before.size) (hsound : Sound none m)
    (hregions : RegionsPlaced m.view) (hagrees : Agrees flat memory m.view) {va : VirtualAddress}
    {length : Nat} {data : Array UInt8} {result : Except Rejection Unit}
    (hread : Returns (readUser w.space va length) m (data, result) m') {k i : Nat} {byte : UInt8}
    (hk : k < w.length) (ha : va.toNat + i = w.start.toNat + k) (hbyte : data[i]? = some byte) :
    byte = bytes k := by
  obtain ⟨_, -, -, hseen⟩ := returns_readUser hsound hread
  obtain ⟨m₁, _, _, hpassed, -, n, offset, key, page, ha', hplace, hpage, -, hshown⟩ :=
    hseen i byte hbyte
  obtain ⟨hoffset, -⟩ := Vector.getElem?_eq_some_iff.1 hshown
  -- what comes before the byte is seen is itself like a reading
  have houtcome : Outcome w.space m m₁ (.readUser va length) (data, result) _ :=
    .passed trivial hpassed
  obtain ⟨key', hplace', hfollowed, hmemory⟩ := (h.of_outcome hfits hsound hregions hagrees houtcome
    (fun _ => ⟨id, id⟩) fun _ _ _ => id).followed k hk
  have hposition := w.toNat_page_mul_add k
  have hlt := w.inPage_lt k
  obtain rfl : w.page k = n := Number.ext (by
    simp only [pageSize] at hposition hlt hoffset ha' ⊢
    omega)
  obtain rfl : w.inPage k = offset := by omega
  cases hplace.symm.trans hplace'
  cases hfollowed with
  | @mapped _ page' hbyte' _ hpage' hshown' =>
      cases hpage.symm.trans hpage'
      rw [hshown] at hshown'
      cases hshown'
      rw [hbyte'] at hmemory
      simpa [Request.stores?] using hmemory
  | gone _ hgone => cases hpage.symm.trans hgone

/-! ### Mapping a file -/

theorem Space.FileMapped.live {f : Key File} {start : VirtualAddress} {length offset : Nat}
    {writable : Bool} (h : FileMapped s f offset start length writable effects m m')
    (hsound : Sound none m) {file : File} (hfile : m.view.file f = some file)
    (hreach : file.reachLimit = none) (hlength : file.reportedLength = none)
    (huncovered : ∀ key p i, ¬m.view.Covers key f p i) (memory : Memory) :
    (Window.ofMapping s f file start offset length).Live
      (fun k => file.data[offset + k]?.getD 0) file.data (memory.after effects) m'.view := by
  have hstart : start.number.toNat * pageSize = start.toNat :=
    Address.number_mul_pageSize h.range.aligned
  have hmapped : min (m.fileLength f - offset) length = min (file.data.size - offset) length := by
    rw [fileLength_of_file hfile, File.length_eq_size hlength]
  have hfile' : m'.view.file f = some file := by rw [h.file_eq, hfile]
  have hbyteAt : ∀ p, m'.view.byteAt? f p = file.data[p]? := fun p => by
    rw [View.byteAt?, hfile', Option.bind_some]
  refine ⟨⟨file, hfile', hreach, rfl⟩, ?_, fun {key p i} hcovers => ?_, fun k hk => ?_,
    fun p _ => hbyteAt p⟩
  · obtain ⟨handle, -, hregion⟩ := h.exists_region
    have hpositive := h.positive
    refine ⟨_, hregion, ?_, fun k hk => ?_⟩
    · exact Nat.div_pos (by simp only [pageSize]; omega) (by decide)
    · simp only [Region.Has, Window.page, Window.ofMapping, pageSize] at hk hstart ⊢
      omega
  · obtain ⟨page, slice, hpage, hslice, hf, hp, hi⟩ := hcovers
    rcases h.page_old_or hsound hpage with hold | ⟨hplace, hle, hlt⟩
    · exact absurd ⟨page, slice, hold, hslice, hf, hp, hi⟩ (huncovered key p i)
    obtain ⟨-, key', page', slice', hplace', hpage', -, -, hat, -⟩ := h.exists_page hle hlt
    cases hplace.symm.trans hplace'
    cases hpage.symm.trans hpage'
    rw [hat.contents] at hslice
    cases hslice
    have hsize := Nat.lt_of_lt_of_le hi slice.readBytes_le
    rw [hat.readBytes, lt_bytesInPage hsize, hmapped] at hi
    rw [hat.offset] at hp
    refine ⟨_, hi, by rw [← hp]; exact Nat.add_assoc _ _ _, ?_⟩
    have hpage : page.va.number = (Window.ofMapping s f file start offset length).page
          ((page.va.number.toNat - start.number.toNat) * pageSize + i) := Number.ext (by
      simp only [Window.page, Window.ofMapping, pageSize] at hstart hsize ⊢
      omega)
    rw [← hpage]
    exact hplace
  · have hk : k < min (file.data.size - offset) length := hk
    have hlt : (start.toNat + k) % pageSize < pageSize := Nat.mod_lt _ (by decide)
    have hpage : (start.toNat + k) / pageSize = start.number.toNat + k / pageSize ∧
        (start.toNat + k) % pageSize = k % pageSize := by
      simp only [pageSize] at hstart ⊢
      omega
    obtain ⟨-, key, page, slice, hplace, hpage', -, -, hat, hmemory⟩ := h.exists_page
      (n := ⟨(start.toNat + k) / pageSize⟩) (by rw [hpage.1]; exact Nat.le_add_right _ _)
      (by simp only [pageSize] at hk hpage ⊢; omega)
    have hoffset := hat.offset
    have hbytes := hat.readBytes
    simp only [hpage.1, Nat.add_sub_cancel_left, hmapped] at hoffset hbytes
    have hi : (start.toNat + k) % pageSize < slice.readBytes := by
      rw [hbytes, hpage.2, lt_bytesInPage (Nat.mod_lt _ (by decide)), Nat.div_add_mod']
      exact hk
    have hp : slice.offset + (start.toNat + k) % pageSize = offset + k := by
      rw [hoffset, hpage.2, Nat.add_assoc, Nat.div_add_mod']
    have hbyte : file.data[offset + k]? = some (file.data[offset + k]?.getD 0) := by
      rw [Array.getElem?_eq_getElem (by omega), Option.getD_some]
    have hshown : ∀ {v : View}, v.file f = some file →
        (v.shown slice)[(start.toNat + k) % pageSize]? = some (file.data[offset + k]?.getD 0) :=
      fun hv => View.getElem?_shown hp hi (by
        rw [hat.file, View.byteAt?, hv, Option.bind_some]
        exact hbyte)
    refine ⟨key, hplace, ?_, by rw [hmemory]; exact hshown hfile⟩
    refine .mapped (by rw [hmemory]; exact hshown hfile)
      ⟨page, slice, hpage', by rw [hat.contents]; rfl, hat.file, hp, hi⟩ hpage' ?_
      fun _ => (hbyteAt _).trans hbyte
    rw [View.bytesOf_of_absent hat.absent, hat.contents]
    exact hshown hfile'

end

/-! ### Histories -/

section

variable {m m₁ m' : Machine} {w : Window} {bytes : Nat → UInt8} {before : Array UInt8}
  {memory : Memory} {flat : Flat} {history : List Done} {f : Key File}

/-- The request leaves the window alone: it does not end the mapping, it is no fork of the address
space, and it does not map the file again. -/
structure Window.Spared (w : Window) (d : Done) : Prop where
  kept : d.space = w.space → ¬d.request.Ends w.start ∧ ¬d.request.Forks
  sole : ∀ start length offset, ¬d.request.Maps w.file start length offset d.answer

/-- A history that leaves the window alone changes its bytes only by what it stores there. -/
theorem Reaches.live (h : Reaches m₁ history m) (hsound : Sound none m₁)
    (hregions : RegionsPlaced m₁.view) (hagrees : Agrees flat memory m₁.view)
    (hlive : w.Live bytes before memory m₁.view)
    (hfits : ∀ k < w.length, w.offset + k < before.size) (hspared : ∀ d ∈ history, w.Spared d) :
    ∃ flat memory, RegionsPlaced m.view ∧ Agrees flat memory m.view ∧
      w.Live (fun k => (lastStored history w.space (w.start.toNat + k)).getD (bytes k)) before
        memory m.view := by
  induction h with
  | refl => exact ⟨flat, memory, hregions, hagrees, hlive⟩
  | @create history m₁ m₂ name s h hrun ih =>
      obtain ⟨flat, memory, hregions, hagrees, hlive⟩ := ih hspared
      have hsound := h.sound hsound
      have hcreated := returns_create hsound hrun
      refine ⟨flat, memory, hregions.mono (fun {_ _ _} => by rw [hcreated.regionOf]; exact id)
        (fun {_ _ _ _} _ _ => by rw [hcreated.pageOf]; exact id), hagrees.created hsound hcreated, ?_⟩
      change w.Live _ before (memory.after [.opened s]) _
      refine hlive.steps hfits (fun e he => ?_) hcreated.course.steps hsound.coherent
        (fun hregion _ => by rwa [hcreated.regionOf]) (fun _ hplace => by rwa [hcreated.pageOf])
        fun {k key} hk hplace => ?_
      · rw [List.mem_singleton.1 he]
        exact ⟨fun _ _ _ => Effect.noConfusion, fun _ _ _ => Effect.noConfusion⟩
      · obtain ⟨_, hplace', -, hbyte⟩ := hlive.followed k hk
        cases hplace.symm.trans hplace'
        exact hbyte
  | clients h handles ih => exact ih hspared
  | @request history m₁ m₂ s α request answer h hrun ih =>
      obtain ⟨flat, memory, hregions, hagrees, hlive⟩ :=
        ih fun d hd => hspared d (List.mem_cons_of_mem _ hd)
      have hsound := h.sound hsound
      obtain ⟨effects, houtcome⟩ := Request.exists_outcome hsound (Request.returns_perform?.1 hrun).2
      have hnow := hspared _ List.mem_cons_self
      refine ⟨_, _, houtcome.regionsPlaced hsound hregions, houtcome.agrees hsound hagrees, ?_⟩
      have hlater := hlive.of_outcome hfits hsound hregions hagrees houtcome hnow.kept hnow.sole
      have hbytes : (fun k => (lastStored (⟨s, request, answer, m₁, m₂⟩ :: history) w.space
          (w.start.toNat + k)).getD (bytes k)) = fun k =>
            (if s = w.space then request.stores? w.space m₁ (w.start.toNat + k) answer
              else none).getD ((lastStored history w.space (w.start.toNat + k)).getD (bytes k)) := by
        funext k
        rw [lastStored_cons, Option.getD_or, Done.stores?]
      rw [hbytes]
      exact hlater

theorem Reaches.file_eq_of_uncovered (h : Reaches m history m') (hsound : Sound none m)
    (huncovered : ∀ key p i, ¬m.view.Covers key f p i)
    (hsole : ∀ d ∈ history, ∀ start length offset, ¬d.request.Maps f start length offset d.answer) :
    m'.view.file f = m.view.file f ∧ ∀ key p i, ¬m'.view.Covers key f p i := by
  induction h with
  | refl => exact ⟨rfl, huncovered⟩
  | create h hrun ih =>
      obtain ⟨hsame, huncovered'⟩ := ih hsole
      have hsound := h.sound hsound
      obtain ⟨hsame', huncovered''⟩ := (returns_create hsound hrun).course.steps.file_eq_of_uncovered
        hsound.coherent huncovered' fun _ _ _ he => by cases List.mem_singleton.1 he
      exact ⟨hsame'.trans hsame, huncovered''⟩
  | clients _ _ ih => exact ih hsole
  | request h hrun ih =>
      obtain ⟨hsame, huncovered'⟩ := ih fun d hd => hsole d (List.mem_cons_of_mem _ hd)
      have hsound := h.sound hsound
      obtain ⟨effects, houtcome⟩ := Request.exists_outcome hsound (Request.returns_perform?.1 hrun).2
      obtain ⟨hsame', huncovered''⟩ := houtcome.course.steps.file_eq_of_uncovered hsound.coherent
        huncovered' fun key slice bytes he hf => by
          cases houtcome.labels he with
          | added _ _ hmaps =>
              obtain ⟨start, length, offset, hmaps⟩ := hmaps slice rfl
              rw [hf] at hmaps
              exact hsole _ List.mem_cons_self start length offset hmaps
      exact ⟨hsame'.trans hsame, huncovered''⟩

end

/-! ### Coherence -/

structure Window.Coherent (w : Window) (bytes : Nat → UInt8) (before : Array UInt8) (m : Machine) :
    Prop where
  /-- A byte that is read is the byte of the window. -/
  reads : ∀ {va length data result m'},
    Returns ((Request.readUser va length).perform? w.space) m (some (data, result)) m' →
      ∀ {k i byte}, k < w.length → va.toNat + i = w.start.toNat + k → data[i]? = some byte →
        byte = bytes k
  /-- When the mapping is ended the bytes are in the file, and stay there until it is mapped
  again. -/
  left : ∀ {α : Type} {request : Request α} {answer : α} {m' later m''},
    request.Ends w.start → Returns (request.perform? w.space) m (some answer) m' →
      Reaches m' later m'' →
        (∀ d ∈ later, ∀ start length offset, ¬d.request.Maps w.file start length offset d.answer) →
          ∃ file, m''.files.get? w.file = some file ∧ w.LeftIn bytes before file

variable {start m₀ m₁ m : Machine} {earlier history : List Done}

theorem not_covers_of_unmapped {f : Key File} (h : ∀ key page slice, m.pages.get? key = some page →
    page.contents.window? = some slice → slice.handle.file ≠ f) (key : Key Page) (p i : Nat) :
    ¬m.view.Covers key f p i := by
  rintro ⟨page, slice, hpage, hslice, hfile, -⟩
  exact h key page slice hpage hslice hfile

theorem Window.fits_ofMapping {s : Key AddressSpace} {f : Key File} {file : File} {va : VirtualAddress}
    {offset length : Nat} : ∀ k < (Window.ofMapping s f file va offset length).length,
      (Window.ofMapping s f file va offset length).offset + k < file.data.size := by
  intro k hk
  simp only [Window.ofMapping] at hk ⊢
  omega

/-- Mapping a file once makes a window that stays alive as long as it is left alone. -/
theorem Run.live (h : Run start earlier m₀) {s : Key AddressSpace} {α : Type} {request : Request α}
    {answer : α} {f : Key File} {va : VirtualAddress} {length offset : Nat}
    (hmap : Returns (request.perform? s) m₀ (some answer) m₁)
    (hmaps : request.Maps f va length offset answer) {file : File}
    (hfile : m₀.files.get? f = some file) (hreach : file.reachLimit = none)
    (hlength : file.reportedLength = none)
    (hunmapped : ∀ key page slice, m₀.pages.get? key = some page →
      page.contents.window? = some slice → slice.handle.file ≠ f)
    (hhistory : Reaches m₁ history m)
    (hspared : ∀ d ∈ history, (Window.ofMapping s f file va offset length).Spared d) :
    Sound none m ∧ ∃ flat memory, RegionsPlaced m.view ∧ Agrees flat memory m.view ∧
      (Window.ofMapping s f file va offset length).Live
        (fun k => (lastStored history s (va.toNat + k)).getD (file.data[offset + k]?.getD 0)) file.data
          memory m.view := by
  have hfound : m₀.view.file f = some file.unissued := by
    rw [view]
    simp only [hfile, Option.map_some]
  obtain ⟨effects, houtcome⟩ := Request.exists_outcome h.sound (Request.returns_perform?.1 hmap).2
  obtain ⟨writable, hmapped⟩ := houtcome.fileMapped hmaps
  obtain ⟨_, memory₀, hagrees₀⟩ := h.exists_agrees
  have hlive₁ : (Window.ofMapping s f file va offset length).Live (fun k => file.data[offset + k]?.getD 0)
      file.data (memory₀.after effects) m₁.view :=
    hmapped.live h.sound hfound hreach hlength (not_covers_of_unmapped hunmapped) memory₀
  have hsound₁ := houtcome.course.sound h.sound
  exact ⟨hhistory.sound hsound₁, hhistory.live hsound₁ (houtcome.regionsPlaced h.sound h.regionsPlaced)
    (houtcome.agrees h.sound hagrees₀) hlive₁ Window.fits_ofMapping hspared⟩

/-- A file that is mapped once shows what was stored through the mapping last, to the process while
it is mapped and in the file afterwards. -/
theorem Run.mappedFile (h : Run start earlier m₀) {s : Key AddressSpace} {α : Type}
    {request : Request α} {answer : α} {f : Key File} {va : VirtualAddress} {length offset : Nat}
    (hmap : Returns (request.perform? s) m₀ (some answer) m₁)
    (hmaps : request.Maps f va length offset answer) {file : File}
    (hfile : m₀.files.get? f = some file) (hreach : file.reachLimit = none)
    (hlength : file.reportedLength = none)
    (hunmapped : ∀ key page slice, m₀.pages.get? key = some page →
      page.contents.window? = some slice → slice.handle.file ≠ f)
    (hhistory : Reaches m₁ history m)
    (hspared : ∀ d ∈ history, (Window.ofMapping s f file va offset length).Spared d) :
    (Window.ofMapping s f file va offset length).Coherent
      (fun k => (lastStored history s (va.toNat + k)).getD (file.data[offset + k]?.getD 0))
      file.data m := by
  obtain ⟨hsound, flat, memory, hregions, hagrees, hlive⟩ :=
    h.live hmap hmaps hfile hreach hlength hunmapped hhistory hspared
  refine ⟨fun hread k i byte hk ha hbyte => ?_, fun hends hend hlater hsole => ?_⟩
  · exact hlive.read Window.fits_ofMapping hsound hregions hagrees (Request.returns_perform?.1 hread).2
      hk ha hbyte
  · obtain ⟨effects, hended⟩ := Request.exists_outcome hsound (Request.returns_perform?.1 hend).2
    obtain ⟨⟨left, hleft, -, hleftIn⟩, huncovered⟩ :=
      hlive.ended Window.fits_ofMapping hsound hended hends
    obtain ⟨hsame, -⟩ := hlater.file_eq_of_uncovered (hended.course.sound hsound) huncovered hsole
    obtain ⟨final, hfinal, rfl⟩ := Option.map_eq_some_iff.1 (hsame.trans hleft)
    have hdata : final.data = final.unissued.data := rfl
    exact ⟨final, hfinal, by rw [hdata, hleftIn.size],
      fun k hk => by rw [hdata, hleftIn.inside k hk],
      fun p hp => by rw [hdata, hleftIn.outside p hp]⟩

theorem bare_of_create {frames slots : Nat} {files : Arena File} {name : String} {s : Key AddressSpace}
    (hrun : Returns (create name) (bare frames slots files) s m) :
    s = ⟨0⟩ ∧ m.files = files ∧ ∀ key, m.pages.get? key = none := by
  simp only [create, returns_bind, returns_record, returns_addDirectory, returns_addSpace,
    and_assoc, exists_and_left, exists_eq_left, exists_const] at hrun
  obtain ⟨rfl, rfl⟩ := hrun
  exact ⟨rfl, rfl, Arena.get?_empty⟩

def unmappedAfterReload : Option (Except VmError VirtualAddress) × Option (Except Rejection Unit) ×
    Option Bool × Option (Array UInt8 × Except Rejection Unit) × Option Unit → Bool
  | (some (.ok _), some (.ok ()), some _, some (_, .ok ()), some ()) => true
  | _ => false

/-- A byte is stored into a mapping of two bytes and written back. Both bytes are read, and both are
in the file when the mapping is gone. -/
theorem mappedFile_of_pageOut : ∃ s m m₁ m₂ data file,
    Returns ((Request.readUser ⟨0x10000000, by decide⟩ 2).perform? s) m (some (data, .ok ())) m₁ ∧
      data = #[65, 2] ∧
        Returns ((Request.unmapFile ⟨0x10000000, by decide⟩).perform? s) m₁ (some ()) m₂ ∧
          m₂.files.get? ⟨0⟩ = some file ∧ file.data = #[65, 2] := by
  have hpieces : pieces 0x10000000 0 1 = [⟨0, 1⟩] := pieces_of_le (by decide) (by decide)
  have hpieces' : pieces 0x10000000 0 2 = [⟨0, 2⟩] := pieces_of_le (by decide) (by decide)
  -- the sizes of what is written back are known without looking at the bytes
  have htest : returnsWith (do
        let s ← Space.create "init"
        let mapped ← (Request.mapFile ⟨0x10000000, by decide⟩ 2 true ⟨⟨0⟩, 0⟩ 0).perform? s
        let wrote ← (Request.writeUser ⟨0x10000000, by decide⟩ #[65]).perform? s
        let out ← (Request.pageOut ⟨0x10000000, by decide⟩).perform? s
        let read ← (Request.readUser ⟨0x10000000, by decide⟩ 2).perform? s
        return (mapped, wrote, out, read, ← (Request.unmapFile ⟨0x10000000, by decide⟩).perform? s))
      (bare 1 0 (Arena.empty.add (.ofData #[1, 2] none))) (fun answers _ =>
        unmappedAfterReload answers) = true := by
    simp only [Request.perform?, Request.perform, writeUser, readUser, List.size_toArray,
      List.length_singleton, hpieces, hpieces', Space.pageOut, Machine.pageOut, evict, moveOut,
      evictToSlice, writeSliceBack, FileSlice.writeBack, File.write, Bytes.slice,
      Array.size_extract, Vector.size_toArray]
    decide +kernel
  obtain ⟨answers, m₅, hrun, htest⟩ := exists_returns htest
  simp only [returns_bind, returns_pure] at hrun
  obtain ⟨s, m₀, hcreate, mapped, m₁, hmap, wrote, m₂, hwrite, out, m₃, hout, read, m₄, hread, gone,
    _, hunmap, rfl, rfl⟩ := hrun
  unfold unmappedAfterReload at htest
  split at htest
  swap
  · cases htest
  next va out data he =>
  simp only [Prod.mk.injEq] at he
  obtain ⟨rfl, rfl, rfl, rfl, rfl⟩ := he
  obtain ⟨-, hfiles, hpages⟩ := bare_of_create hcreate
  have hreached : Run (bare 1 0 (Arena.empty.add (.ofData #[1, 2] none))) [] m₀ :=
    ⟨fresh_bare _ _ _, .create .refl hcreate⟩
  have hfile : m₀.files.get? ⟨0⟩ = some (.ofData #[1, 2] none) := by
    rw [hfiles]
    rfl
  have hunmapped : ∀ key page slice, m₀.pages.get? key = some page →
      page.contents.window? = some slice → slice.handle.file ≠ ⟨0⟩ := fun key page slice hpage => by
    cases (hpages key).symm.trans hpage
  -- the last store is found by going over the history, which the reading only makes longer
  have hcoherent {history m} (hhistory : Reaches m₁ history m) :=
    hreached.mappedFile hmap ⟨rfl, rfl, rfl, rfl⟩ hfile rfl rfl hunmapped hhistory
  have houtReached : Reaches m₁ _ m₃ := .request (.request .refl hwrite) hout
  have hspared : ∀ d ∈ [⟨s, .readUser ⟨0x10000000, by decide⟩ 2, (data, .ok ()), m₃, m₄⟩,
      ⟨s, .pageOut ⟨0x10000000, by decide⟩, out, m₂, m₃⟩,
      ⟨s, .writeUser ⟨0x10000000, by decide⟩ #[65], .ok (), m₁, m₂⟩],
        (Window.ofMapping s ⟨0⟩ (.ofData #[1, 2] none) ⟨0x10000000, by decide⟩ 0 2).Spared d := by
    intro d hd
    simp only [List.mem_cons, List.not_mem_nil, or_false] at hd
    rcases hd with rfl | rfl | rfl <;> exact ⟨fun _ => ⟨id, id⟩, fun _ _ _ => id⟩
  have hstored : ∀ k < 2, (lastStored [⟨s, .pageOut ⟨0x10000000, by decide⟩, out, m₂, m₃⟩,
      ⟨s, .writeUser ⟨0x10000000, by decide⟩ #[65], .ok (), m₁, m₂⟩] s (0x10000000 + k)).getD
        ((#[1, 2] : Array UInt8)[0 + k]?.getD 0) = #[65, 2][k]?.getD 0 := by
    intro k hk
    interval_cases k <;> simp [lastStored, Done.stores?, Request.stores?]
  have hsound : Sound none m₃ := Run.sound ⟨fresh_bare _ _ _,
    .request (.request (.request (.create .refl hcreate) hmap) hwrite) hout⟩
  obtain ⟨_, -, hsize, -⟩ := returns_readUser hsound (Request.returns_perform?.1 hread).2
  have hdata : data = #[65, 2] := by
    refine Array.ext (hsize rfl) fun k hk hk' => ?_
    have hbyte := (hcoherent houtReached fun d hd => hspared d (List.mem_cons_of_mem _ hd)).reads
      hread hk' rfl (Array.getElem?_eq_getElem hk)
    rw [hbyte]
    exact (hstored k hk').trans (by rw [Array.getElem?_eq_getElem, Option.getD_some])
  have hends : (Request.unmapFile ⟨0x10000000, by decide⟩).Ends ⟨0x10000000, by decide⟩ := rfl
  obtain ⟨file, hleft, hleftIn⟩ := (hcoherent (.request houtReached hread) hspared).left hends hunmap
    .refl fun d hd => (List.not_mem_nil hd).elim
  refine ⟨s, m₃, m₄, m₅, data, file, hread, hdata, hunmap, hleft, ?_⟩
  refine Array.ext hleftIn.size fun k hk hk' => ?_
  have hbyte := hleftIn.inside k hk'
  rw [show (Window.ofMapping s ⟨0⟩ (.ofData #[1, 2] none) ⟨0x10000000, by decide⟩ 0 2).offset + k = k
    from Nat.zero_add k, Array.getElem?_eq_getElem hk] at hbyte
  rw [Option.some.inj hbyte, lastStored_cons, Option.getD_or]
  refine Eq.trans ?_ ((hstored k hk').trans (by rw [Array.getElem?_eq_getElem hk', Option.getD_some]))
  simp only [Done.stores?, Request.stores?, ite_self, Option.getD_none]
  rfl

end DemandPaging
