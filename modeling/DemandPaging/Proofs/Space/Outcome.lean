import DemandPaging.Proofs.Space.Lifetime
import DemandPaging.Space.Request

/-!
What becomes of a request.

There are fourteen requests, and with their answers they have a handful of outcomes. Most of them
pass: what a process could notice in its memory is as before. The others store bytes, put pages into
a range, take the pages of a range away, or concern a whole address space. Every property of memory
is proved by cases on the outcomes, so the code of a request is opened once, here.
-/

namespace DemandPaging

open Machine Space

variable {m m' : Machine} {s : Key AddressSpace}

/-- The requests that, with this answer, change no memory. -/
def Request.IsQuiet {α : Type} : Request α → α → Prop
  | .loadSegment .., answer => answer ≠ .ok ()
  | .mapFile .., answer => ∀ start, answer ≠ .ok start
  | .mapDescriptor .., answer => ∀ start, answer ≠ .ok start
  | .unmapFile _, _ => False
  | .writeUser _ _, _ => False
  | .fork _, _ => False
  | .exit _, _ => False
  | .drop, _ => False
  | _, _ => True

/-- What a request with its answer did. -/
inductive Outcome (s : Key AddressSpace) (m m' : Machine) :
    {α : Type} → Request α → α → List Effect → Prop where
  | passed {α : Type} {request : Request α} {answer : α} {effects : List Effect}
      (hquiet : request.IsQuiet answer) (h : Passed s effects m m') :
      Outcome s m m' request answer effects
  | stored {va : VirtualAddress} {data : Array UInt8} {answer : Except Rejection Unit}
      {effects : List Effect} {length : Nat}
      (hlength : storedLength s va data (pieces va.toNat 0 data.size) m = length)
      (hle : length ≤ data.size) (hok : answer = .ok () → length = data.size)
      (h : Stored s va.toNat (data.extract 0 length) effects m m') :
      Outcome s m m' (.writeUser va data) answer effects
  | loaded {file : Handle} {offset : Nat} {start : VirtualAddress} {readBytes zeroBytes : Nat}
      {writable : Bool} {effects : List Effect}
      (h : SegmentLoaded s file.file offset start readBytes zeroBytes writable effects m m') :
      Outcome s m m' (.loadSegment file offset start readBytes zeroBytes writable) (.ok ()) effects
  | mapped {start : VirtualAddress} {length : Nat} {writable : Bool} {file : Handle} {offset : Nat}
      {effects : List Effect}
      (h : FileMapped s file.file offset start length writable effects m m') :
      Outcome s m m' (.mapFile start length writable file offset) (.ok start) effects
  | descriptorMapped {start : VirtualAddress} {length : Nat} {writable : Bool} {descriptor : Int}
      {offset : Nat} {lookup : Int → Option Handle} {file : Handle} {effects : List Effect}
      (hfile : (mappableDescriptor? descriptor).bind lookup = some file)
      (h : FileMapped s file.file offset start length writable effects m m') :
      Outcome s m m' (.mapDescriptor start length writable descriptor offset lookup) (.ok start)
        effects
  | unmapped {start : VirtualAddress} {region : Region} {effects : List Effect}
      (hregion : m.view.regionOf s start = some region)
      (h : FileUnmapped s start region effects m m') :
      Outcome s m m' (.unmapFile start) () effects
  | nothingUnmapped {start : VirtualAddress} (hregion : m.view.regionOf s start = none)
      (h : Passed s [] m m') : Outcome s m m' (.unmapFile start) () []
  | exited {status : Int} {effects : List Effect} (h : Closed s effects m m') :
      Outcome s m m' (.exit status) status effects
  | dropped {effects : List Effect} (h : Closed s effects m m') : Outcome s m m' .drop () effects
  | forked {name : String} {child : Key AddressSpace} {effects : List Effect}
      (h : Forked s child effects m m') : Outcome s m m' (.fork name) (.ok child) effects
  | forkFailed {name : String} {cause : VmError} {child : Key AddressSpace} {effects : List Effect}
      (h : ForkFailed s child effects m m') :
      Outcome s m m' (.fork name) (.error cause) effects

namespace Outcome

variable {α : Type} {request : Request α} {answer : α} {effects : List Effect}

theorem course (h : Outcome s m m' request answer effects) : Course effects none m none m' := by
  cases h with
  | passed _ h => exact h.course
  | stored _ _ _ h => exact h.course
  | loaded h => exact h.course
  | mapped h => exact h.course
  | descriptorMapped _ h => exact h.course
  | unmapped _ h => exact h.course
  | nothingUnmapped _ h => exact h.course
  | exited h => exact h.course
  | dropped h => exact h.course
  | forked h => exact h.course
  | forkFailed h => exact h.course

end Outcome

/-- Every request that returns has an outcome. -/
theorem Request.exists_outcome (h : Sound none m) {α : Type} {request : Request α} {answer : α}
    (hrun : Returns (request.perform s) m answer m') :
    ∃ effects, Outcome s m m' request answer effects := by
  cases request with
  | setStackPointer stackPointer =>
      obtain ⟨hview, htidy, -⟩ := returns_setStackPointer hrun
      exact ⟨[], .passed trivial (.silent (htidy h.tidy) hview)⟩
  | saveStackPointer stackPointer =>
      obtain ⟨hview, htidy, -⟩ := returns_saveStackPointer hrun
      exact ⟨[], .passed trivial (.silent (htidy h.tidy) hview)⟩
  | loadSegment file offset start readBytes zeroBytes writable =>
      rcases answers_loadSegment h hrun with ⟨cause, rfl, hpassed⟩ | ⟨rfl, effects, hloaded⟩
      · exact ⟨[], .passed (fun he => by cases he) hpassed⟩
      · exact ⟨effects, .loaded hloaded⟩
  | setUpStack =>
      obtain ⟨effects, hpassed⟩ := passed_setUpStack h hrun
      exact ⟨effects, .passed trivial hpassed⟩
  | mapFile start length writable file offset =>
      rcases answers_mapFile h hrun with ⟨cause, rfl, hpassed⟩ | ⟨rfl, effects, hmapped⟩
      · exact ⟨[], .passed (fun _ he => by cases he) hpassed⟩
      · exact ⟨effects, .mapped hmapped⟩
  | mapDescriptor start length writable descriptor offset lookup =>
      rcases answers_mapDescriptor hrun with ⟨-, rfl, rfl⟩ | ⟨file, hfile, hmap⟩
      · exact ⟨[], .passed (fun _ he => by cases he) (.refl h)⟩
      · rcases answers_mapFile h hmap with ⟨cause, rfl, hpassed⟩ | ⟨rfl, effects, hmapped⟩
        · exact ⟨[], .passed (fun _ he => by cases he) hpassed⟩
        · exact ⟨effects, .descriptorMapped hfile hmapped⟩
  | unmapFile start =>
      rcases returns_unmapFile h hrun with
        ⟨hnone, htidy, hview, -⟩ | ⟨region, effects, hregion, hgone⟩
      · exact ⟨[], .nothingUnmapped hnone (.silent htidy hview)⟩
      · exact ⟨effects, .unmapped hregion hgone⟩
  | handleFault fault =>
      obtain ⟨effects, hpassed⟩ := passed_handleFault h hrun
      exact ⟨effects, .passed trivial hpassed⟩
  | readUser va length =>
      obtain ⟨effects, hpassed, -⟩ := returns_readUser h hrun
      exact ⟨effects, .passed trivial hpassed⟩
  | writeUser va data =>
      obtain ⟨effects, length, hle, hlength, hok, hstored⟩ := answers_writeUser h hrun
      exact ⟨effects, .stored hlength hle hok hstored⟩
  | pageOut va =>
      exact ⟨[], .passed trivial (passed_pageOut h hrun)⟩
  | fork name =>
      obtain ⟨child, effects, ⟨⟨cause, rfl⟩, hfailed⟩ | ⟨rfl, hforked⟩⟩ := answers_fork h hrun
      · exact ⟨effects, .forkFailed hfailed⟩
      · exact ⟨effects, .forked hforked⟩
  | exit status =>
      obtain ⟨rfl, effects, hclosed⟩ := closed_exit h hrun
      exact ⟨effects, .exited hclosed⟩
  | drop =>
      obtain ⟨effects, hclosed⟩ := closed_drop h hrun
      exact ⟨effects, .dropped hclosed⟩

end DemandPaging
