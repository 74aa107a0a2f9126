import DemandPaging.Arena
import DemandPaging.Bytes

/-!
Files and the handles by which they are reached.

A file has contents of a fixed length; reads and writes stop at its end. A handle is a name for one
opening of a file. Handles are values and hold no state: a handle is open as long as something in
the system still mentions it. So the open handles are counted where the holders are known, and
whether one more may be opened is decided there. Two restrictions can be laid on a file from
outside, a position up to which its bytes can be reached and a length that it reports instead of its
own.
-/

namespace DemandPaging

structure File where
  data : Array UInt8
  /-- The number of writes requested so far. -/
  writes : Nat
  /-- The number of handles issued so far. -/
  issued : Nat
  /-- How many handles may be open at a time. -/
  handleLimit : Option Nat
  /-- The position up to which the contents can be reached. -/
  reachLimit : Option Nat
  /-- The length that the file reports instead of its own. -/
  reportedLength : Option Nat

/-- One opening of a file. -/
structure Handle where
  file : Key File
  serial : Nat
deriving DecidableEq

namespace File

/-- A file with given contents and its first handle issued. -/
def ofData (data : Array UInt8) (handleLimit : Option Nat) : File :=
  { data
    writes := 0
    issued := 1
    handleLimit
    reachLimit := none
    reportedLength := none }

def length (file : File) : Nat := file.reportedLength.getD file.data.size

/-- How many of `length` bytes from `offset` on can be reached. -/
def reach (file : File) (offset length : Nat) : Nat :=
  match file.reachLimit with
  | some limit => min length (limit - offset)
  | none => length

def read (file : File) (offset length : Nat) : Array UInt8 :=
  file.data.extract offset (offset + file.reach offset length)

/-- Writes at `offset` and gives the number of bytes written. The file does not grow. -/
def write (file : File) (offset : Nat) (bytes : Array UInt8) : Nat × File :=
  let reached := bytes.extract 0 (file.reach offset bytes.size)
  (min reached.size (file.data.size - offset),
    { file with
      data := file.data.mapIdx fun i old =>
        if offset ≤ i then reached[i - offset]?.getD old else old
      writes := file.writes + 1 })

def issue (file : File) : Nat × File := (file.issued, { file with issued := file.issued + 1 })

@[simp] theorem size_data_write (file : File) (offset : Nat) (bytes : Array UInt8) :
    (file.write offset bytes).2.data.size = file.data.size := by
  simp [write]

end File

end DemandPaging
