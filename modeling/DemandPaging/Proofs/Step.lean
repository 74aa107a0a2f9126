import DemandPaging.Proofs.View

/-!
What one step can do to memory.

However long an operation is, what it does to the view of the state is a chain of steps of a few
kinds. A page is taken out of its frame or brought into one; a page is added, copied or removed; a
write of a process reaches a frame. In between a frame may be listed without owner: it was just taken
from the pool or from its page, and will be given to another page or back to the pool. There is at
most one such frame at a time, and a step names it before and after.

This is said once. What holds of a state and is kept by every step holds after every operation, so an
invariant is proved by cases on the steps and never by going through the operations again. Steps that
matter beyond the view carry a label: the labels of a chain are what a process could notice of it,
and the silent steps are the ones it should not.
-/

namespace DemandPaging

/-! ### The bytes of a page -/

namespace View

def shown (v : View) (slice : FileSlice) : PageBytes :=
  (v.file slice.handle.file).elim (.zeros pageSize) slice.bytesIn

def pendingBytes (v : View) : Pending → PageBytes
  | .zeros => .zeros pageSize
  | .loader (.segment slice) => v.shown slice
  | .loader (.fill byte count _) => (Bytes.zeros pageSize).overlay 0 (Array.replicate count byte)
  | .file slice => v.shown slice

def contentsBytes (v : View) : Contents → PageBytes
  | .pending source => v.pendingBytes source
  | .anonymous none => .zeros pageSize
  | .anonymous (some slot) => v.pageIn slot
  | .file slice => v.shown slice

def bytesOf (v : View) (page : Page) : PageBytes :=
  match page.frame with
  | some f => (v.bytes f).getD (.zeros pageSize)
  | none => v.contentsBytes page.contents

theorem bytesOf_of_frame {v : View} {page : Page} {f : FrameNumber} {bytes : PageBytes}
    (hframe : page.frame = some f) (hbytes : v.bytes f = some bytes) : v.bytesOf page = bytes := by
  rw [bytesOf, hframe]
  simp only [hbytes, Option.getD_some]

theorem bytesOf_of_absent {v : View} {page : Page} (hframe : page.frame = none) :
    v.bytesOf page = v.contentsBytes page.contents := by
  rw [bytesOf, hframe]

/-- A slice shows what its file has, whichever handle it is over. -/
theorem shown_congr {v v' : View} {slice slice' : FileSlice}
    (hoffset : slice'.offset = slice.offset) (hbytes : slice'.readBytes = slice.readBytes)
    (hfile : v'.file slice'.handle.file = v.file slice.handle.file) :
    v'.shown slice' = v.shown slice := by
  have hsame : slice'.bytesIn = slice.bytesIn := by
    funext file
    rw [FileSlice.bytesIn, FileSlice.bytesIn, hoffset, hbytes]
  rw [shown, shown, hfile, hsame]

theorem shown_of_data {v v' : View} {slice : FileSlice}
    (hdata : (v'.file slice.handle.file).map (·.data) = (v.file slice.handle.file).map (·.data)) :
    v'.shown slice = v.shown slice := by
  rw [shown, shown]
  cases hfile : v.file slice.handle.file <;> cases hfile' : v'.file slice.handle.file <;>
    simp_all [FileSlice.bytesIn]

/-- The bytes of a page that is not resident depend on what its slice shows and on its slot alone. -/
theorem contentsBytes_eq {v v' : View} {contents : Contents}
    (hshown : ∀ slice, contents.slice? = some slice → v'.shown slice = v.shown slice)
    (hslot : ∀ slot, contents.slot? = some slot → v'.pageIn slot = v.pageIn slot) :
    v'.contentsBytes contents = v.contentsBytes contents := by
  cases contents with
  | pending source =>
      cases source with
      | zeros => rfl
      | loader loader =>
          cases loader with
          | segment slice => exact hshown slice rfl
          | fill byte count succeeds => rfl
      | file slice => exact hshown slice rfl
  | anonymous slot =>
      cases slot with
      | none => rfl
      | some slot => exact hslot slot rfl
  | file slice => exact hshown slice rfl

theorem contentsBytes_congr {v v' : View} {contents : Contents}
    (hfile : ∀ slice, contents.slice? = some slice →
      v'.file slice.handle.file = v.file slice.handle.file)
    (hslot : ∀ slot, contents.slot? = some slot → v'.pageIn slot = v.pageIn slot) :
    v'.contentsBytes contents = v.contentsBytes contents :=
  contentsBytes_eq (fun slice hs => shown_congr rfl rfl (hfile slice hs)) hslot

end View

/-! ### The contents of a page on its way -/

/-- What stands behind a page once it was brought in. -/
def Contents.settled : Contents → Contents
  | .pending source => source.settled
  | .anonymous _ => .anonymous none
  | .file slice => .file slice

def FileSlice.reopened (slice : FileSlice) (serial : Nat) : FileSlice :=
  { slice with handle := ⟨slice.handle.file, serial⟩ }

inductive Pending.Reopened : Pending → Pending → Prop where
  | zeros : Reopened .zeros .zeros
  | fill {byte : UInt8} {count : Nat} {succeeds : Bool} :
      Reopened (.loader (.fill byte count succeeds)) (.loader (.fill byte count succeeds))
  | segment {slice : FileSlice} {serial : Nat} :
      Reopened (.loader (.segment slice)) (.loader (.segment (slice.reopened serial)))
  | file {slice : FileSlice} {serial : Nat} :
      Reopened (.file slice) (.file (slice.reopened serial))

/-- What stands behind a copy. The bytes of an anonymous page are copied into a frame. -/
inductive Contents.Copied : Contents → Contents → Prop where
  | pending {source source' : Pending} (h : Pending.Reopened source source') :
      Copied (.pending source) (.pending source')
  | anonymous {slot : Option SwapSlot} : Copied (.anonymous slot) (.anonymous none)
  | file {slice : FileSlice} {serial : Nat} : Copied (.file slice) (.file (slice.reopened serial))

/-- The bytes of a page over a slice leave their frame: they go to the file if they were changed. -/
inductive WrittenBack (slice : FileSlice) (bytes : PageBytes) : Bool → View → View → Prop where
  | clean {v : View} : WrittenBack slice bytes false v v
  | dirty {v : View} {file file' : File} {written : Nat}
      (hfile : v.file slice.handle.file = some file)
      (hback : slice.writeBack file bytes = .ok (written, file')) :
      WrittenBack slice bytes true v (v.setFile slice.handle.file file')

/-- The bytes of a page leave their frame for where they can be found again. -/
inductive Stowed (bytes : PageBytes) (dirty : Bool) :
    Contents → View → Contents → View → Prop where
  | slot {v : View} {slot : SwapSlot} (hfree : v.isOccupied slot = false) :
      Stowed bytes dirty (.anonymous none) v (.anonymous (some slot)) (v.occupy slot bytes)
  | file {slice : FileSlice} {v v' : View} (hback : WrittenBack slice bytes dirty v v') :
      Stowed bytes dirty (.file slice) v (.file slice) v'

/-- The bytes of a page leave their frame because the page is given up. -/
inductive GivenUp (bytes : PageBytes) (dirty : Bool) : Contents → View → View → Prop where
  | anonymous {v : View} : GivenUp bytes dirty (.anonymous none) v v
  | file {slice : FileSlice} {v v' : View} (hback : WrittenBack slice bytes dirty v v') :
      GivenUp bytes dirty (.file slice) v v'

section

variable {slice : FileSlice} {bytes : PageBytes} {dirty : Bool} {contents contents' : Contents}
  {v v' w : View}

theorem WrittenBack.exists_eq (h : WrittenBack slice bytes dirty v v') :
    ∃ file, v' = { v with file } := by
  cases h with
  | clean => exact ⟨_, rfl⟩
  | dirty hfile hback => exact ⟨_, rfl⟩

theorem Stowed.exists_eq (h : Stowed bytes dirty contents v contents' v') :
    ∃ isOccupied pageIn file, v' = { v with isOccupied, pageIn, file } := by
  cases h with
  | slot hfree => exact ⟨_, _, _, rfl⟩
  | file hback =>
      obtain ⟨file, rfl⟩ := hback.exists_eq
      exact ⟨_, _, _, rfl⟩

theorem Stowed.keeps (h : Stowed bytes dirty contents v contents' v') {slot : SwapSlot}
    (hoccupied : v.isOccupied slot = true) :
    v'.isOccupied slot = true ∧ v'.pageIn slot = v.pageIn slot := by
  cases h with
  | @slot _ taken hfree =>
      have hne : slot ≠ taken := by
        rintro rfl
        rw [hfree] at hoccupied
        cases hoccupied
      exact ⟨(Function.update_of_ne hne ..).trans hoccupied, Function.update_of_ne hne ..⟩
  | file hback =>
      obtain ⟨file, rfl⟩ := hback.exists_eq
      exact ⟨hoccupied, rfl⟩

theorem GivenUp.exists_eq (h : GivenUp bytes dirty contents v v') :
    ∃ file, v' = { v with file } := by
  cases h with
  | anonymous => exact ⟨_, rfl⟩
  | file hback => exact hback.exists_eq

/-! What becomes of bytes depends on the swap area and the files alone. -/

theorem WrittenBack.transport (h : WrittenBack slice bytes dirty v v') (hfile : w.file = v.file) :
    WrittenBack slice bytes dirty w { w with file := v'.file } := by
  cases h with
  | clean =>
      rw [← hfile]
      exact .clean
  | dirty hfound hback =>
      rw [← hfile] at hfound
      rw [View.setFile, ← hfile]
      exact .dirty hfound hback

theorem Stowed.transport (h : Stowed bytes dirty contents v contents' v')
    (hoccupied : w.isOccupied = v.isOccupied) (hpageIn : w.pageIn = v.pageIn)
    (hfile : w.file = v.file) :
    Stowed bytes dirty contents w contents'
      { w with isOccupied := v'.isOccupied, pageIn := v'.pageIn, file := v'.file } := by
  cases h with
  | slot hfree =>
      rw [← hoccupied] at hfree
      rw [View.occupy, ← hoccupied, ← hpageIn, ← hfile]
      exact .slot hfree
  | file hback =>
      have hback' := hback.transport hfile
      obtain ⟨file, rfl⟩ := hback.exists_eq
      rw [← hoccupied, ← hpageIn]
      exact .file hback'

theorem GivenUp.transport (h : GivenUp bytes dirty contents v v') (hfile : w.file = v.file) :
    GivenUp bytes dirty contents w { w with file := v'.file } := by
  cases h with
  | anonymous =>
      rw [← hfile]
      exact .anonymous
  | file hback => exact .file (hback.transport hfile)

end

/-! ### Steps -/

/-- What a step does beyond moving bytes around. -/
inductive Effect where
  /-- A page was brought into a frame. -/
  | broughtIn (key : Key Page)
  /-- A page was added, with the source of its first bytes and the bytes. -/
  | added (key : Key Page) (source : Pending) (bytes : PageBytes)
  /-- A page was added as a copy of another. -/
  | copied (source copy : Key Page)
  | removed (key : Key Page)
  /-- A process wrote into a page. -/
  | stored (key : Key Page) (offset : Nat) (data : Array UInt8)
  | opened (space : Key AddressSpace)
  | closed (space : Key AddressSpace)
  /-- A region was registered or forgotten. -/
  | registered (space : Key AddressSpace) (start : VirtualAddress)

/-- A step, with the frame that is listed without owner before and after it. -/
inductive Step : List Effect → Option FrameNumber → View → Option FrameNumber → View → Prop where
  | scribble {v : View} {f : FrameNumber} {bytes : PageBytes} :
      Step [] (some f) v (some f) (v.setBytes f bytes)
  | take {v : View} {f : FrameNumber} (hfree : v.isAllocated f = some false) :
      Step [] none v (some f) ((v.setOwner f (some none)).setAllocated f true)
  | giveBack {v : View} {f : FrameNumber} :
      Step [] (some f) v none ((v.setOwner f none).setAllocated f false)
  | evict {v v₁ : View} {f : FrameNumber} {o : Owner} {page : Page} {bytes : PageBytes}
      {contents : Contents} (howner : v.owner f = some (some o))
      (hpage : v.page o.page = some page) (hbytes : v.bytes f = some bytes)
      (hstowed : Stowed bytes (v.isDirty o.directory o.va) page.contents v contents v₁) :
      Step [] none v (some f)
        (((v₁.setOwner f (some none)).setGrant o.directory o.va.number none).setPage o.page
          (some { page with contents, frame := none }))
  | bringIn {v : View} {f : FrameNumber} {key : Key Page} {page : Page} {s : Key AddressSpace}
      {d : Key Directory} {pa : PhysicalAddress} (hpage : v.page key = some page)
      (hframe : page.frame = none) (hplace : v.pageOf s page.va.number = some key)
      (hdirectory : v.directoryOf s = some d) (hstart : f.start = .ok pa)
      (hbytes : v.bytes f = some (v.contentsBytes page.contents)) :
      Step [.broughtIn key] (some f) v none
        ((((v.vacate page.contents.slot?).setOwner f (some (some ⟨key, page.va, d⟩))).setGrant d
          page.va.number (some ⟨pa, true, page.writable⟩)).setPage key
          (some { page with contents := page.contents.settled, frame := some f }))
  | store {v : View} {f : FrameNumber} {o : Owner} {page : Page} {bytes : PageBytes} {offset : Nat}
      {data : Array UInt8} (howner : v.owner f = some (some o))
      (hpage : v.page o.page = some page) (hwritable : page.writable = true)
      (hbytes : v.bytes f = some bytes) (hfits : offset + data.size ≤ pageSize) :
      Step [.stored o.page offset data] none v none
        ((v.setBytes f (bytes.overlay offset data)).stain o.directory o.va.number)
  | add {v : View} {s : Key AddressSpace} {d : Key Directory} {page : Page} {source : Pending}
      (hdirectory : v.directoryOf s = some d) (hplace : v.pageOf s page.va.number = none)
      (hcontents : page.contents = .pending source) (hframe : page.frame = none)
      (hholders : page.holders = 1) :
      Step [.added ⟨v.created⟩ source (v.pendingBytes source)] none v none
        ((v.addPage page).setPlace s page.va.number (some ⟨v.created⟩))
  | copyAside {v : View} {s : Key AddressSpace} {d : Key Directory} {key : Key Page} {page : Page}
      {contents : Contents} (hpage : v.page key = some page) (hframe : page.frame = none)
      (hcopied : Contents.Copied page.contents contents) (hkind : contents.kind ≠ .anonymous)
      (hdirectory : v.directoryOf s = some d) (hplace : v.pageOf s page.va.number = none) :
      Step [.copied key ⟨v.created⟩] none v none
        ((v.addPage { page with contents, holders := 1 }).setPlace s page.va.number
          (some ⟨v.created⟩))
  | copyIn {v : View} {f : FrameNumber} {s : Key AddressSpace} {d : Key Directory} {key : Key Page}
      {page : Page} {contents : Contents} {pa : PhysicalAddress} (hpage : v.page key = some page)
      (hcopied : Contents.Copied page.contents contents) (hkind : contents.kind ≠ .uninit)
      (hdirectory : v.directoryOf s = some d) (hplace : v.pageOf s page.va.number = none)
      (hstart : f.start = .ok pa) (hbytes : v.bytes f = some (v.bytesOf page)) :
      Step [.copied key ⟨v.created⟩] (some f) v none
        ((((v.addPage { page with contents, frame := some f, holders := 1 }).setOwner f
          (some (some ⟨⟨v.created⟩, page.va, d⟩))).setGrant d page.va.number
          (some ⟨pa, true, page.writable⟩)).setPlace s page.va.number (some ⟨v.created⟩))
  | removeAbsent {v : View} {s : Key AddressSpace} {key : Key Page} {page : Page}
      (hplace : v.pageOf s page.va.number = some key) (hpage : v.page key = some page)
      (hframe : page.frame = none) :
      Step [.removed key] none v none
        (((v.vacate page.contents.slot?).setPage key none).setPlace s page.va.number none)
  | removePresent {v v₁ : View} {s : Key AddressSpace} {f : FrameNumber} {o : Owner} {page : Page}
      {bytes : PageBytes} (hplace : v.pageOf s page.va.number = some o.page)
      (howner : v.owner f = some (some o)) (hpage : v.page o.page = some page)
      (hbytes : v.bytes f = some bytes)
      (hgiven : GivenUp bytes (v.isDirty o.directory o.va) page.contents v v₁) :
      Step [.removed o.page] none v (some f)
        ((((v₁.setOwner f (some none)).setGrant o.directory o.va.number none).setPage o.page
          none).setPlace s page.va.number none)
  | openSpace {v : View} {s : Key AddressSpace} {d : Key Directory}
      (hspace : v.directoryOf s = none) (hdirectory : v.hasDirectory d = false) :
      Step [.opened s] none v none (v.addSpace s d)
  | closeSpace {v : View} {s : Key AddressSpace} (hempty : ∀ n, v.pageOf s n = none) :
      Step [.closed s] none v none (v.eraseSpace s)
  | register {v : View} {s : Key AddressSpace} {start : VirtualAddress} {region? : Option Region} :
      Step [.registered s start] none v none (v.setRegion s start region?)

inductive Steps : List Effect → Option FrameNumber → View → Option FrameNumber → View → Prop where
  | nil {x : Option FrameNumber} {v : View} : Steps [] x v x v
  | cons {effects rest : List Effect} {x x₁ x' : Option FrameNumber} {v v₁ v' : View}
      (head : Step effects x v x₁ v₁) (tail : Steps rest x₁ v₁ x' v') :
      Steps (effects ++ rest) x v x' v'

namespace Steps

variable {effects rest : List Effect} {x x₁ x' : Option FrameNumber} {v v₁ v' : View}

theorem single (h : Step effects x v x' v') : Steps effects x v x' v' := by
  have hchain := Steps.cons h .nil
  rwa [List.append_nil] at hchain

theorem trans (h : Steps effects x v x₁ v₁) (h' : Steps rest x₁ v₁ x' v') :
    Steps (effects ++ rest) x v x' v' := by
  induction h with
  | nil => exact h'
  | cons head tail ih =>
      rw [List.append_assoc]
      exact .cons head (ih h')

theorem preserves {P : Option FrameNumber → View → Prop}
    (hstep : ∀ {effects x v x' v'}, Step effects x v x' v' → P x v → P x' v')
    (h : Steps effects x v x' v') (hp : P x v) : P x' v' := by
  induction h with
  | nil => exact hp
  | cons head tail ih => exact ih (hstep head hp)

end Steps

end DemandPaging
