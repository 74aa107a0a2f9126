import DemandPaging.Proofs.Seclusion

/-!
What an address space shows of its files.

A page shows a window of a file as long as it is in its place, whatever else happens. A mapping makes
windows, which the request and the length of the file tell, and a request that ends a mapping takes
its windows away. So the windows and regions of an address space are known from what it asks for.

A position of a file that is in no window is exposed: what the file has there is what the next mapping
of it will show. If the address space has the file to itself, the byte at an exposed position stays,
and a position that comes to be exposed has the byte that flat memory had in the window.
-/

namespace DemandPaging

open Machine Space

/-! ### Windows -/

section

variable {α : Type} {m m' : Machine} {s s' : Key AddressSpace} {request : Request α} {answer : α}
  {effects : List Effect} {n : PageNumber} {key : Key Page} {x x' : Option FrameNumber}
  {v v' : View} {w : FileSlice} {va : VirtualAddress}

theorem View.windowAt_eq_some : v.windowAt s n = some w ↔ ∃ key page slice,
    v.pageOf s n = some key ∧ v.page key = some page ∧ page.contents.window? = some slice ∧
      slice.reopened 0 = w := by
  constructor
  · intro hwindow
    obtain ⟨page, hpage, hwindow⟩ := Option.bind_eq_some_iff.1 hwindow
    obtain ⟨key, hplace, hpage⟩ := Option.bind_eq_some_iff.1 hpage
    obtain ⟨slice, hslice, hsame⟩ := Option.map_eq_some_iff.1 hwindow
    exact ⟨key, page, slice, hplace, hpage, hslice, hsame⟩
  · rintro ⟨key, page, slice, hplace, hpage, hslice, rfl⟩
    rw [View.windowAt_eq hplace hpage, hslice, Option.map_some]

theorem View.windowAt_of_free (h : v.pageOf s n = none) : v.windowAt s n = none := by
  rw [windowAt, h]
  rfl

theorem Steps.windowAt_eq (h : Steps effects x v x' v') (hcoherent : Coherent x v)
    (hplace : v.pageOf s n = some key) (hplace' : v'.pageOf s n = some key) :
    v'.windowAt s n = v.windowAt s n := by
  obtain ⟨page, hpage, -⟩ := hcoherent.placement.placed hplace
  obtain ⟨page', hpage', -⟩ := (h.coherent hcoherent).placement.placed hplace'
  rw [View.windowAt_eq hplace hpage, View.windowAt_eq hplace' hpage', h.window?_eq hcoherent hpage hpage']

def Request.MapsAt (n : PageNumber) (request : Request α) (answer : α) : Prop :=
  ∃ f start length offset, request.Maps f start length offset answer ∧
    start.number.toNat ≤ n.toNat ∧
      n.toNat < start.number.toNat + (length + (pageSize - 1)) / pageSize

/-- A page that is neither taken away nor mapped now shows what it showed. -/
theorem Outcome.windowAt_eq (h : Outcome s' m m' request answer effects) (hsound : Sound none m)
    (hforks : s' = s → ¬request.Forks) (hmakes : ¬request.Makes s answer)
    (hclear : s' = s → ¬request.Takes s m n ∧ ¬request.MapsAt n answer) :
    m'.view.windowAt s n = m.view.windowAt s n := by
  have hsteps := h.course.steps
  cases hplace : m.view.pageOf s n with
  | some key =>
      rcases h.pageOf_kept hsound hplace with hkept | ⟨rfl, htakes⟩
      · exact hsteps.windowAt_eq hsound.coherent hplace hkept
      · exact absurd htakes (hclear rfl).1
  | none =>
      rw [View.windowAt_of_free hplace, Option.eq_none_iff_forall_ne_some]
      intro w hwindow
      obtain ⟨key, page, slice, hplace', hpage', hslice, -⟩ := View.windowAt_eq_some.1 hwindow
      rcases h.window_old_or hsound hforks hmakes hplace' hpage' hslice with ⟨hold, -⟩ | ⟨rfl, hmaps⟩
      · cases hplace.symm.trans hold
      · obtain ⟨start, length, offset, hmaps⟩ := hmaps
        obtain ⟨writable, hmapped⟩ := h.fileMapped hmaps
        rcases hmapped.page_old_or hsound hpage' with hpage | ⟨-, hrange⟩
        · cases hplace.symm.trans
            ((hsteps.page_old (hsound.coherent.placement.created hpage)).2 _ _ hplace')
        · rw [(hsteps.coherent hsound.coherent).placement.number_eq hplace' hpage'] at hrange
          exact (hclear rfl).2 ⟨_, start, length, offset, hmaps, hrange⟩

theorem Request.takes_unmapFile : (Request.unmapFile va).Takes s m n ↔
    ∃ region, m.view.regionOf s va = some region ∧ region.Has n := by
  constructor
  · rintro ⟨_, rfl, hall | htakes⟩
    · -- it does not end the mappings at two addresses
      cases (hall ⟨0, by decide⟩).symm.trans (hall ⟨1, by decide⟩)
    · exact htakes
  · exact fun htakes => ⟨va, rfl, .inr htakes⟩

theorem Outcome.pageOf_of_takes (h : Outcome s m m' request answer effects)
    (htakes : request.Takes s m n) : m'.view.pageOf s n = none := by
  have hends := htakes
  obtain ⟨_, hends, -⟩ := hends
  cases h with
  | passed hquiet =>
      cases request with
      | unmapFile | exit | drop => cases hquiet
      | _ => cases hends
  | unmapped hregion h =>
      obtain ⟨region', hregion', hhas⟩ := Request.takes_unmapFile.1 htakes
      cases hregion.symm.trans hregion'
      exact (h.place n).trans (if_pos hhas)
  | nothingUnmapped hregion =>
      obtain ⟨_, hregion', -⟩ := Request.takes_unmapFile.1 htakes
      cases hregion.symm.trans hregion'
  | exited h => exact h.pageOf n
  | dropped h => exact h.pageOf n
  | _ => cases hends

theorem Space.FileMapped.exists_window {f : Key File} {offset length : Nat} {writable : Bool}
    (h : FileMapped s f offset va length writable effects m m') (hle : va.number.toNat ≤ n.toNat)
    (hlt : n.toNat < va.number.toNat + (length + (pageSize - 1)) / pageSize) :
    ∃ w, m'.view.windowAt s n = some w ∧ w.handle = ⟨f, 0⟩ ∧
      w.offset = offset + (n.toNat - va.number.toNat) * pageSize ∧
        w.readBytes = bytesInPage (min (m.fileLength f - offset) length) (n.toNat - va.number.toNat) := by
  obtain ⟨-, key, page, slice, hplace, hpage, -, -, hat, -⟩ := h.exists_page hle hlt
  refine ⟨slice.reopened 0, ?_, by rw [FileSlice.reopened, hat.file], hat.offset, hat.readBytes⟩
  rw [View.windowAt_eq hplace hpage, hat.contents]
  rfl

/-! ### Regions -/

theorem Outcome.regionOf_eq (h : Outcome s' m m' request answer effects)
    (hforks : s' = s → ¬request.Forks) (hmakes : ¬request.Makes s answer)
    (hclear : s' = s → ¬request.Ends va ∧
      ∀ f length offset, ¬request.Maps f va length offset answer) :
    m'.view.regionOf s va = m.view.regionOf s va := by
  by_cases hs : s' = s
  swap
  · rw [(h.elsewhere (Ne.symm hs) hmakes).2]
  subst hs
  obtain ⟨hends, hmaps⟩ := hclear rfl
  have hmapped : ∀ {f offset start length writable},
      FileMapped s' f offset start length writable effects m m' → va ≠ start →
        m'.view.regionOf s' va = m.view.regionOf s' va := by
    intro f offset start length writable hmapped hva
    obtain ⟨handle, -, hregionOf⟩ := hmapped.regionOf_eq
    rw [hregionOf, Function.update_self, Function.update_of_ne hva]
  cases h with
  | passed _ h => rw [h.pagesOnly.regionOf]
  | stored _ _ _ h => rw [h.pagesOnly.regionOf]
  | loaded h =>
      obtain ⟨_, _, _, _, _, _, _, hinserted⟩ := h.made
      rw [hinserted.pagesOnly.regionOf]
  | mapped h => exact hmapped h fun hva => hmaps _ _ _ ⟨rfl, hva.symm, rfl, rfl⟩
  | descriptorMapped hfile h =>
      exact hmapped h fun hva => hmaps _ _ _ ⟨⟨_, hfile, rfl⟩, hva.symm, rfl, rfl⟩
  | unmapped _ h => rw [h.regionOf, Function.update_self, Function.update_of_ne (Ne.symm hends)]
  | nothingUnmapped _ h => rw [h.pagesOnly.regionOf]
  | exited | dropped => exact absurd trivial hends
  | forked | forkFailed => exact absurd trivial (hforks rfl)

theorem Outcome.regionOf_of_ends (h : Outcome s m m' request answer effects)
    (hends : request.Ends va) : m'.view.regionOf s va = none := by
  cases h with
  | passed hquiet =>
      cases request with
      | unmapFile | exit | drop => cases hquiet
      | _ => cases hends
  | unmapped _ h =>
      cases hends
      rw [h.regionOf, Function.update_self, Function.update_self]
  | nothingUnmapped hregion h =>
      cases hends
      rw [h.pagesOnly.regionOf, hregion]
  | exited h => exact h.regionOf va
  | dropped h => exact h.regionOf va
  | _ => cases hends

end

/-! ### Exposed positions -/

/-- The position of the file is in no window of the address space. -/
def View.Exposed (v : View) (s : Key AddressSpace) (f : Key File) (p : Nat) : Prop :=
  ∀ n w, v.windowAt s n = some w → w.handle.file = f → w.offset ≤ p → w.offset + w.readBytes ≤ p

section

variable {α : Type} {m m' : Machine} {s s' : Key AddressSpace} {request : Request α} {answer : α}
  {effects : List Effect} {n : PageNumber} {key : Key Page} {v v' : View} {w : FileSlice}
  {own still : Key File → Prop} {memory : Memory} {flat : Flat} {kept : SwapSlot → Bool}
  {f : Key File} {p i : Nat}

theorem View.exposed_congr (h : ∀ n, v.windowAt s n = v'.windowAt s n) :
    v.Exposed s f p ↔ v'.Exposed s f p := by
  simp only [Exposed, h]

theorem View.exists_of_not_exposed (h : ¬v.Exposed s f p) : ∃ n w i, v.windowAt s n = some w ∧
    w.handle.file = f ∧ w.offset + i = p ∧ i < w.readBytes := by
  simp only [Exposed, not_forall, exists_prop, Nat.not_le] at h
  obtain ⟨n, w, hwindow, hfile, hle, hlt⟩ := h
  exact ⟨n, w, p - w.offset, hwindow, hfile, by omega, by omega⟩

theorem View.exists_covers (hwindow : v.windowAt s n = some w) (hi : i < w.readBytes) :
    ∃ key, v.pageOf s n = some key ∧ v.Covers key w.handle.file (w.offset + i) i := by
  obtain ⟨key, page, slice, hplace, hpage, hslice, rfl⟩ := View.windowAt_eq_some.1 hwindow
  exact ⟨key, hplace, page, slice, hpage, hslice, rfl, rfl, hi⟩

theorem Mirrors.not_covers (h : Mirrors s own still memory v) (hown : own f)
    (hexposed : v.Exposed s f p) : ¬v.Covers key f p i := by
  intro hcovers
  obtain ⟨-, ⟨n, hplace⟩, -⟩ := h.followed hown hcovers
  obtain ⟨page, slice, hpage, hslice, rfl, rfl, hi⟩ := hcovers
  have hle := hexposed n (slice.reopened 0)
    (View.windowAt_eq_some.2 ⟨key, page, slice, hplace, hpage, hslice, rfl⟩) rfl (Nat.le_add_right _ _)
  exact Nat.not_le.2 (Nat.add_lt_add_left hi _) hle

theorem Outcome.byteAt?_of_exposed (h : Outcome s' m m' request answer effects)
    (hsound : Sound none m) (hrespects : request.Respects s own still m s' answer)
    (hmirrors : Mirrors s own still memory m.view) (hown : own f)
    (hplain : ∀ {file}, m.view.file f = some file → file.reachLimit = none)
    (hexposed : m.view.Exposed s f p) : m'.view.byteAt? f p = m.view.byteAt? f p := by
  by_cases hmaps : request.MapsFile f answer
  · obtain ⟨_, _, _, hmaps⟩ := hmaps
    obtain ⟨_, hmapped⟩ := h.fileMapped hmaps
    rw [View.byteAt?, View.byteAt?, hmapped.file_eq]
  · have hsteps := h.course.steps
    have hsince := hsteps.filesSince f
    cases hfile : m.view.file f with
    | none =>
        rw [hfile] at hsince
        generalize hafter : m'.view.file f = file' at hsince
        cases hsince
        rw [View.byteAt?, View.byteAt?, hfile, hafter]
    | some file =>
        by_cases hlt : p < file.data.size
        · obtain ⟨hundisturbed, hquiet⟩ := hmirrors.undisturbed hown (h.not_added hmaps)
            (hrespects.not_copied h hsound) none
            fun hcovers => absurd hcovers (hmirrors.not_covers hown hexposed)
          exact hsteps.byteAt?_eq hsound.coherent ⟨file, hfile, hplain hfile, hlt⟩ hundisturbed hquiet
        · obtain ⟨file', hfile', hsince⟩ := hsteps.filesSince.exists_file hfile
          rw [View.byteAt?, View.byteAt?, hfile, hfile', Option.bind_some, Option.bind_some,
            Array.getElem?_eq_none (Nat.not_lt.1 hlt),
            Array.getElem?_eq_none (hsince.size_data ▸ Nat.not_lt.1 hlt)]

/-- A position that comes to be exposed has the byte of flat memory in the window that was over it. -/
theorem Outcome.byteAt?_of_window (h : Outcome s' m m' request answer effects)
    (hsound : Sound none m) (hbooks : SlotBooks kept m.view.isOccupied m.view.slotOf)
    (hrespects : request.Respects s own still m s' answer)
    (hmirrors : Mirrors s own still memory m.view) (hagrees : Agrees flat memory m.view)
    (hown : own w.handle.file) (hwindow : m.view.windowAt s n = some w) (hi : i < w.readBytes)
    (hexposed : m'.view.Exposed s w.handle.file (w.offset + i)) :
    m'.view.byteAt? w.handle.file (w.offset + i) = some (flat s (n.toNat * pageSize + i)) := by
  obtain ⟨key, hplace, hcovers⟩ := View.exists_covers hwindow hi
  have hmaps : ¬request.MapsFile w.handle.file answer := fun hmaps =>
    (hrespects.sole hown hmaps).2.1 _ _ _ hcovers
  have hfollowed := hmirrors.followed_of_covers h.course.steps hsound.coherent hown
    (h.not_added hmaps) (hrespects.not_copied h hsound) hcovers
  obtain ⟨page, hpage, -⟩ := hsound.coherent.placement.placed hplace
  cases hfollowed with
  | mapped _ hcovers' =>
      exact absurd hcovers' ((h.mirrors hsound hbooks hrespects hmirrors).not_covers hown hexposed)
  | gone hbyte hgone _ hfile =>
      -- the page was taken away, so nothing was stored into it
      rcases h.pageOf_kept hsound hplace with hkept | ⟨-, _, hends, -⟩
      · obtain ⟨_, hpage', -⟩ := (h.course.sound hsound).coherent.placement.placed hkept
        cases hgone.symm.trans hpage'
      have hwrites : ¬request.Writes := fun hwrites => by
        cases request with
        | writeUser => cases hends
        | _ => cases hwrites
      have hlt := Nat.lt_of_lt_of_le hi w.readBytes_le
      rw [Memory.after_of_unset fun e he hsets => hwrites (h.writes_of_sets he hsets
        (hsound.coherent.placement.created hpage)), Vector.getElem?_eq_getElem hlt] at hbyte
      rw [hfile, ← hbyte, hagrees.placed hplace hlt]

end

end DemandPaging
