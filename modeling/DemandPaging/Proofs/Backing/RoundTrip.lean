import DemandPaging.Proofs.Backing.Slices

/-!
File slices read back what was written through them.

A slice shows some positions of its page a byte of the file: those below its length at which the file
has not ended. Loading a page and writing it back both go by these positions and no others. Loading
takes the bytes there from the file and puts zeros everywhere else; writing back puts the bytes there
into the file, and neither moves its end nor touches another byte. So a page that was loaded goes back
without a change, and what is written back is loaded again, as far as the file has room for it.
-/

namespace DemandPaging

namespace FileSlice

/-- A position of the page at which the slice shows a byte of the file. -/
def Shows (slice : FileSlice) (file : File) (i : Nat) : Prop :=
  i < slice.readBytes ∧ slice.offset + i < file.length

instance (slice : FileSlice) (file : File) (i : Nat) : Decidable (slice.Shows file i) :=
  inferInstanceAs (Decidable (_ ∧ _))

structure Loads (slice : FileSlice) (file : File) (full : Bool) (page : PageBytes) : Prop where
  full_iff : full = true ↔ slice.readBytes = 0 ∨ slice.offset + slice.readBytes ≤ file.length
  shown : ∀ i, slice.Shows file i → page[i]? = file.data[slice.offset + i]?
  zero : ∀ i < pageSize, ¬slice.Shows file i → page[i]? = some 0

structure Saves (slice : FileSlice) (file : File) (page : PageBytes) (written : Nat)
    (file' : File) : Prop where
  written_eq : written = min slice.readBytes (file.length - slice.offset)
  length_eq : file'.length = file.length
  shown : ∀ i, slice.Shows file i → file'.data[slice.offset + i]? = page[i]?
  others : ∀ p, (∀ i, slice.Shows file i → p ≠ slice.offset + i) →
    file'.data[p]? = file.data[p]?
  /-- Apart from its contents, the file counts the write, unless the slice is empty. -/
  rest : file' =
    { file with
      data := file'.data
      writes := file.writes + if slice.readBytes = 0 then 0 else 1 }

def ReadsBack (slice : FileSlice) (file : File) (page : PageBytes) : Prop :=
  ∀ buffer : PageBytes, ∃ again, slice.readInto file buffer = .ok (true, again) ∧
    (∀ i < slice.readBytes, again[i]? = page[i]?) ∧
    ∀ i < pageSize, slice.readBytes ≤ i → again[i]? = some 0

variable {slice : FileSlice} {file file' : File} {full : Bool}
  {page buffer loaded : PageBytes} {written : Nat}

/-! ### Loading -/

theorem shows_iff (hlength : file.reportedLength = none) {i : Nat} :
    slice.Shows file i ↔ i < slice.readBytes ∧ slice.offset + i < file.data.size := by
  rw [Shows, File.length_eq_size hlength]

theorem loads_of_readInto (hreach : file.reachLimit = none) (hlength : file.reportedLength = none)
    (h : slice.readInto file buffer = .ok (full, loaded)) : slice.Loads file full loaded := by
  rw [readInto_eq, File.read_eq_extract hreach] at h
  obtain ⟨rfl, rfl⟩ := Prod.mk.inj (Except.ok.inj h)
  have hbyte : ∀ i < pageSize, (slice.bytesIn file)[i]? =
      some (if i < slice.readBytes then file.data[slice.offset + i]?.getD 0 else 0) := by
    intro i hi
    rw [Vector.getElem?_eq_getElem hi, getElem_bytesIn]
  constructor
  · rw [beq_iff_eq, Array.size_extract, File.length_eq_size hlength]
    omega
  · intro i hshown
    obtain ⟨hin, hend⟩ := (shows_iff hlength).1 hshown
    refine (hbyte i (Nat.lt_of_lt_of_le hin slice.readBytes_le)).trans ?_
    rw [if_pos hin, Array.getElem?_eq_getElem hend, Option.getD_some]
  · intro i hi hhidden
    refine (hbyte i hi).trans ?_
    split
    · next hin =>
      have hend : file.data.size ≤ slice.offset + i :=
        Nat.not_lt.1 fun hlt => hhidden ((shows_iff hlength).2 ⟨hin, hlt⟩)
      rw [Array.getElem?_eq_none hend, Option.getD_none]
    · rfl

/-! ### Writing back -/

theorem rest_of_writeBack (hreach : file.reachLimit = none)
    (h : slice.writeBack file page = .ok (written, file')) :
    written = min slice.readBytes (file.data.size - slice.offset) ∧
      file' =
        { file with
          data := file'.data
          writes := file.writes + if slice.readBytes = 0 then 0 else 1 } := by
  by_cases hempty : slice.readBytes = 0
  · cases (writeBack_of_empty hempty file page).symm.trans h
    rw [hempty, if_pos rfl, Nat.zero_min]
    exact ⟨rfl, rfl⟩
  · rw [writeBack_of_pos hempty] at h
    obtain ⟨rfl, rfl⟩ := Prod.mk.inj (Except.ok.inj h)
    rw [if_neg hempty]
    refine ⟨?_, rfl⟩
    have hle := slice.readBytes_le
    simp only [File.reach, hreach, Bytes.slice, Array.size_extract, Vector.size_toArray]
    omega

theorem saves_of_writeBack (hreach : file.reachLimit = none) (hlength : file.reportedLength = none)
    (h : slice.writeBack file page = .ok (written, file')) :
    slice.Saves file page written file' := by
  obtain ⟨hwritten, hrest⟩ := rest_of_writeBack hreach h
  have hlength' : file'.reportedLength = none := by rw [hrest, hlength]
  have hbyte := getElem?_data_writeBack h hreach
  constructor
  · rw [File.length_eq_size hlength, hwritten]
  · have hsize : file'.data.size = file.data.size := by
      rcases writeBack_eq_ok h with ⟨rfl, -⟩ | rfl
      · rfl
      · exact File.size_data_write _ _ _
    rw [File.length_eq_size hlength, File.length_eq_size hlength', hsize]
  · intro i hshown
    obtain ⟨hin, hend⟩ := (shows_iff hlength).1 hshown
    rw [hbyte, if_pos ⟨Nat.le_add_right _ _, by omega, hend⟩, Nat.add_sub_cancel_left]
  · intro p houtside
    refine (hbyte p).trans (if_neg ?_)
    rintro ⟨hle, hlt, hend⟩
    have hplace : slice.offset + (p - slice.offset) = p := Nat.add_sub_cancel' hle
    exact houtside (p - slice.offset)
      ((shows_iff hlength).2 ⟨by omega, hplace.symm ▸ hend⟩) hplace.symm
  · exact hrest

/-! ### There and back -/

theorem Loads.shows (h : slice.Loads file true loaded) {i : Nat} (hi : i < slice.readBytes) :
    slice.Shows file i := by
  have hfull := h.full_iff.1 rfl
  exact ⟨hi, by omega⟩

namespace Saves

/-- The slice shows the same positions afterwards, since the end of the file does not move. -/
theorem shows (h : slice.Saves file page written file') (i : Nat) :
    slice.Shows file' i ↔ slice.Shows file i := by
  rw [Shows, Shows, h.length_eq]

/-- A page that was loaded and not changed goes back without a change of the contents. -/
theorem data_eq (h : slice.Saves file loaded written file') (hloads : slice.Loads file full loaded) :
    file'.data = file.data := by
  apply Array.ext_getElem?
  intro p
  -- a position that the slice shows has the byte that came from there, and no other was written
  by_cases hshown : ∃ i, slice.Shows file i ∧ p = slice.offset + i
  · obtain ⟨i, hi, rfl⟩ := hshown
    rw [h.shown i hi, hloads.shown i hi]
  · exact h.others p fun i hi hp => hshown ⟨i, hi, hp⟩

theorem readsBack (h : slice.Saves file page written file') (hreach : file.reachLimit = none)
    (hlength : file.reportedLength = none) (hloads : slice.Loads file true loaded) :
    slice.ReadsBack file' page := by
  intro buffer
  have hreach' : file'.reachLimit = none := by rw [h.rest, hreach]
  have hlength' : file'.reportedLength = none := by rw [h.rest, hlength]
  obtain ⟨⟨full, again⟩, hread⟩ : ∃ result, slice.readInto file' buffer = .ok result :=
    ⟨_, slice.readInto_eq file' buffer⟩
  have hagain := loads_of_readInto hreach' hlength' hread
  obtain rfl : full = true := hagain.full_iff.2 (h.length_eq.symm ▸ hloads.full_iff.1 rfl)
  refine ⟨again, hread, fun i hi => ?_, fun i hi hle => ?_⟩
  · have hshown := hloads.shows hi
    rw [hagain.shown i ((h.shows i).2 hshown), h.shown i hshown]
  · exact hagain.zero i hi fun hshown => Nat.not_lt.2 hle hshown.1

end Saves

/-- A slice loads and writes back the same bytes of its file: what is written back is loaded again,
and what is loaded goes back without a change. -/
theorem roundTrip (slice : FileSlice) (file : File) (hreach : file.reachLimit = none)
    (hlength : file.reportedLength = none) (page buffer : PageBytes) :
    ∃ full loaded written file',
      slice.readInto file buffer = .ok (full, loaded) ∧ slice.Loads file full loaded ∧
      slice.writeBack file page = .ok (written, file') ∧ slice.Saves file page written file' ∧
      (full = true → slice.ReadsBack file' page) ∧
      slice.writeBack file loaded = .ok (written, { file with writes := file'.writes }) := by
  obtain ⟨⟨full, loaded⟩, hread⟩ : ∃ result, slice.readInto file buffer = .ok result :=
    ⟨_, slice.readInto_eq file buffer⟩
  obtain ⟨⟨written, file'⟩, hwrite⟩ := slice.exists_writeBack file page
  obtain ⟨⟨written₁, file₁⟩, hwrite₁⟩ := slice.exists_writeBack file loaded
  have hloads := loads_of_readInto hreach hlength hread
  have hsaves := saves_of_writeBack hreach hlength hwrite
  have hsaves₁ := saves_of_writeBack hreach hlength hwrite₁
  have hsame : file₁ = { file with writes := file'.writes } := by
    rw [hsaves₁.rest, hsaves₁.data_eq hloads, hsaves.rest]
  rw [hsaves₁.written_eq, ← hsaves.written_eq, hsame] at hwrite₁
  refine ⟨full, loaded, written, file', hread, hloads, hwrite, hsaves, fun hfull => ?_, hwrite₁⟩
  subst hfull
  exact hsaves.readsBack hreach hlength hloads

/-- A page over the last two bytes of a file is loaded and read back, and the first byte stays. -/
theorem roundTrip_of_lastBytes :
    ∃ (slice : FileSlice) (file : File) (loaded : PageBytes) (file' : File),
      slice.offset = 1 ∧ slice.readBytes = 2 ∧ file.data = #[1, 2, 3] ∧
      file.reachLimit = none ∧ file.reportedLength = none ∧
      slice.readInto file (.fill pageSize 9) = .ok (true, loaded) ∧
      loaded[0]? = some 2 ∧ loaded[1]? = some 3 ∧ loaded[2]? = some 0 ∧
      slice.writeBack file (.fill pageSize 7) = .ok (2, file') ∧ file'.data = #[1, 7, 7] ∧
      slice.ReadsBack file' (.fill pageSize 7) ∧
      slice.writeBack file loaded = .ok (2, { file with writes := file'.writes }) := by
  let slice : FileSlice := ⟨⟨⟨0⟩, 0⟩, 1, 2, by decide⟩
  let file : File := .ofData #[1, 2, 3] none
  obtain ⟨full, loaded, written, file', hread, hloads, hwrite, hsaves, hback, hsame⟩ :=
    roundTrip slice file rfl rfl (.fill pageSize 7) (.fill pageSize 9)
  obtain rfl : full = true := hloads.full_iff.2 (by decide)
  obtain rfl : written = 2 := hsaves.written_eq
  have hdata : file'.data = #[1, 7, 7] := by
    rw [writeBack_of_pos (by decide)] at hwrite
    obtain ⟨-, rfl⟩ := Prod.mk.inj (Except.ok.inj hwrite)
    decide +kernel
  exact ⟨slice, file, loaded, file', rfl, rfl, rfl, rfl, rfl, hread,
    hloads.shown 0 (by decide), hloads.shown 1 (by decide), hloads.zero 2 (by decide) (by decide),
    hwrite, hdata, hback rfl, hsame⟩

end FileSlice

end DemandPaging
