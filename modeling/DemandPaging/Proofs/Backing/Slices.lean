import DemandPaging.Backing.Slice
import DemandPaging.Proofs.Computation
import Mathlib.Tactic

/-!
What a file slice shows of its file, and what writing it back changes.

A page over a slice shows the bytes of the file that the slice covers, followed by zeros. Writing a
page back puts exactly those bytes into the file, never changes its length, and is the only thing
that changes its contents; since a file counts the writes that are asked of it, a file whose count
stood still has kept its contents.
-/

namespace DemandPaging

namespace FileSlice

def bytesIn (slice : FileSlice) (file : File) : PageBytes :=
  Bytes.zeroExtend pageSize (file.data.extract slice.offset (slice.offset + slice.readBytes))

variable {slice : FileSlice} {file file' : File}

theorem getElem_bytesIn (slice : FileSlice) (file : File) {i : Nat} (h : i < pageSize) :
    (slice.bytesIn file)[i] =
      if i < slice.readBytes then file.data[slice.offset + i]?.getD 0 else 0 := by
  rw [bytesIn, Bytes.getElem_zeroExtend, Array.getElem?_extract]
  by_cases hi : i < slice.readBytes
  · rw [if_pos hi]
    by_cases hsize : slice.offset + i < file.data.size
    · rw [if_pos (by omega)]
    · rw [if_neg (by omega), Array.getElem?_eq_none (by omega)]
  · rw [if_neg hi, if_neg (by omega), Option.getD_none]

theorem readInto_eq_readInto {n : Nat} (slice : FileSlice) (file : File) (old buffer : Bytes n) :
    slice.readInto file old = slice.readInto file buffer := by
  simp only [readInto, Bytes.clearFrom_overlay]

/-- A page can always be filled, with the bytes of the file that are there and zeros after them. -/
theorem readInto_eq (slice : FileSlice) (file : File) (buffer : PageBytes) :
    slice.readInto file buffer =
      .ok ((file.read slice.offset slice.readBytes).size == slice.readBytes,
        Bytes.zeroExtend pageSize (file.read slice.offset slice.readBytes)) := by
  simp only [readInto, Bytes.clearFrom_overlay]
  exact if_neg (Nat.not_lt.2 slice.readBytes_le)

theorem readInto_eq_ok {buffer bytes : PageBytes} {full : Bool}
    (h : slice.readInto file buffer = .ok (full, bytes)) (hfull : full = true) :
    bytes = slice.bytesIn file := by
  cases (slice.readInto_eq file buffer).symm.trans h
  have hsize : (file.read slice.offset slice.readBytes).size = slice.readBytes := by
    simpa using hfull
  apply Vector.ext
  intro i hi
  rw [Bytes.getElem_zeroExtend, getElem_bytesIn]
  by_cases hin : i < slice.readBytes
  · rw [if_pos hin]
    simp only [File.read, Array.size_extract] at hsize ⊢
    rw [Array.getElem?_extract, if_pos (by omega)]
  · rw [if_neg hin, Array.getElem?_eq_none (by omega), Option.getD_none]

end FileSlice

namespace File

variable {file : File}

/-- A file that is not asked to report another length reports its own. -/
theorem length_eq_size (hlength : file.reportedLength = none) : file.length = file.data.size := by
  rw [length, hlength, Option.getD_none]

/-- Reading a file whose bytes can all be reached stops at its end only. -/
theorem read_eq_extract (hreach : file.reachLimit = none) (offset length : Nat) :
    file.read offset length = file.data.extract offset (offset + length) := by
  rw [read, reach, hreach]

/-- A write at an offset replaces the bytes that it reaches, within the length of the file. -/
theorem getElem?_data_write (hreach : file.reachLimit = none) (offset : Nat)
    (bytes : Array UInt8) (i : Nat) :
    (file.write offset bytes).2.data[i]? =
      if offset ≤ i ∧ i < file.data.size then some (bytes[i - offset]?.getD (file.data[i]?.getD 0))
      else file.data[i]? := by
  simp only [write, reach, hreach, Array.getElem?_mapIdx]
  by_cases hi : i < file.data.size
  · simp only [Array.getElem?_eq_getElem hi, Option.map_some, Option.getD_some]
    by_cases hle : offset ≤ i
    · rw [if_pos hle, if_pos ⟨hle, hi⟩]
      simp
    · rw [if_neg hle, if_neg fun hand => hle hand.1]
  · rw [Array.getElem?_eq_none (Nat.not_lt.1 hi), if_neg fun hand => hi hand.2]
    rfl

end File

namespace FileSlice

variable {slice : FileSlice} {file file' : File} {buffer : PageBytes} {written : Nat}

theorem writeBack_of_empty {n : Nat} (hempty : slice.readBytes = 0) (file : File)
    (buffer : Bytes n) : slice.writeBack file buffer = .ok (0, file) := if_pos hempty

theorem writeBack_of_pos (hpos : slice.readBytes ≠ 0) (file : File) (page : PageBytes) :
    slice.writeBack file page = .ok (file.write slice.offset (page.slice 0 slice.readBytes)) := by
  rw [writeBack, if_neg hpos]
  exact if_neg (Nat.not_lt.2 slice.readBytes_le)

theorem exists_writeBack (slice : FileSlice) (file : File) (page : PageBytes) :
    ∃ result, slice.writeBack file page = .ok result := by
  by_cases hempty : slice.readBytes = 0
  · exact ⟨_, writeBack_of_empty hempty file page⟩
  · exact ⟨_, writeBack_of_pos hempty file page⟩

/-- Writing back either asks nothing of the file or is counted as a write. -/
theorem writeBack_eq_ok {n : Nat} {buffer : Bytes n}
    (h : slice.writeBack file buffer = .ok (written, file')) :
    file' = file ∧ slice.readBytes = 0 ∨
      file' = (file.write slice.offset (buffer.slice 0 slice.readBytes)).2 := by
  unfold writeBack at h
  split at h
  · next hzero =>
    cases pure_eq_ok.1 h
    exact .inl ⟨rfl, hzero⟩
  · obtain ⟨-, h⟩ := refuse_eq_ok.1 h
    cases pure_eq_ok.1 h
    exact .inr rfl

/-- What writing back leaves in the file: the buffer where the slice lies, the old bytes
elsewhere. -/
theorem getElem?_data_writeBack (h : slice.writeBack file buffer = .ok (written, file'))
    (hreach : file.reachLimit = none) (i : Nat) :
    file'.data[i]? =
      if slice.offset ≤ i ∧ i < slice.offset + slice.readBytes ∧ i < file.data.size then
        buffer[i - slice.offset]?
      else file.data[i]? := by
  have hle := slice.readBytes_le
  rcases writeBack_eq_ok h with ⟨rfl, hzero⟩ | rfl
  · rw [if_neg (by omega)]
  · rw [File.getElem?_data_write hreach]
    by_cases hin : slice.offset ≤ i ∧ i < slice.offset + slice.readBytes ∧ i < file.data.size
    · have hlt : i - slice.offset < pageSize := by omega
      have hslice : (buffer.slice 0 slice.readBytes)[i - slice.offset]? =
          some buffer[0 + (i - slice.offset)] := Bytes.getElem?_slice buffer (by omega) (by omega)
      rw [if_pos hin, if_pos ⟨hin.1, hin.2.2⟩, hslice, Option.getD_some,
        Vector.getElem?_eq_getElem hlt]
      simp
    · rw [if_neg hin]
      split
      · next hand =>
        have hge : slice.readBytes ≤ i - slice.offset := by omega
        rw [Array.getElem?_eq_none (by simp only [Bytes.slice, Array.size_extract]; omega),
          Option.getD_none, Array.getElem?_eq_getElem hand.2, Option.getD_some]
      · rfl

end FileSlice

end DemandPaging
