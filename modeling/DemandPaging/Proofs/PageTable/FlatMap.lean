import DemandPaging.Proofs.PageTable.Count
import DemandPaging.Proofs.Space.PageMap

/-!
A page directory is a finite map.

The tree of tables and the packing of an address and its flags into one word are invisible from
outside. What a user of a directory sees is a finite map from page numbers to translations: a frame
and a set of flags. The map is written down here with operations of its own, which say in one line
each what becomes of the entry of one page. A directory represents a map if both hold the same
translation for every address; each operation answers on the directory as on the map it represents
and leads to a directory that represents the changed map, and so does every sequence of operations.
-/

namespace DemandPaging

/-! ### Flags without address bits -/

namespace PageFlags

def Proper (flags : PageFlags) : Prop := ofBits flags.bits = flags

theorem proper_ofBits (word : BitVec 64) : (ofBits word).Proper := by
  simp [Proper, ofBits, BitVec.and_assoc]

theorem Proper.set {flags : PageFlags} (h : flags.Proper) (flag : Flag) (on : Bool) :
    (flags.set flag on).Proper := by
  have hbits : flags.bits &&& flagMask = flags.bits := congrArg bits h
  have hflag : BitVec.twoPow 64 flag.bit &&& flagMask = BitVec.twoPow 64 flag.bit := by
    cases flag <;> decide
  apply ext
  cases on with
  | true =>
      change (flags.bits ||| _) &&& flagMask = flags.bits ||| _
      rw [BitVec.and_or_distrib_right, hbits, hflag]
  | false =>
      change (flags.bits &&& _) &&& flagMask = flags.bits &&& _
      rw [BitVec.and_assoc, BitVec.and_comm _ flagMask, ← BitVec.and_assoc, hbits]

end PageFlags

namespace PageEntry

theorem proper_flags (entry : PageEntry) : entry.flags.Proper := PageFlags.proper_ofBits _

theorem flags_encode {pa : PhysicalAddress} {flags : PageFlags} {entry : PageEntry}
    (h : encode pa flags = .ok entry) (hproper : flags.Proper) : entry.flags = flags := by
  unfold encode at h
  split at h
  · cases h
    exact (flags_setFlags ⟨BitVec.ofNat 64 pa.toNat⟩ flags).trans hproper
  · cases h

theorem isPageAligned_locate (entry : PageEntry) :
    (entry.locate 0 pageSize_pos).isPageAligned = true := by
  have hmod : (entry.word &&& addressMask).toNat % 2 ^ 12 = 0 := by
    rw [BitVec.toNat_and, Nat.and_mod_two_pow]
    exact Nat.and_zero _
  rw [Address.isPageAligned, beq_iff_eq]
  exact hmod

end PageEntry

/-! ### The map -/

abbrev PageStart (kind : AddressKind) := {a : Address kind // a.isPageAligned = true}

/-- What a page is mapped to: a frame, and the flags of the page. -/
structure Translation where
  frame : PageStart .physical
  flags : PageFlags

namespace Translation

def locate (translation : Translation) (offset : Nat) (h : offset < pageSize) : PhysicalAddress :=
  ⟨translation.frame.val.toNat + offset, by
    have hvalid : translation.frame.val.toNat < physicalLimit := translation.frame.val.valid
    have haligned := translation.frame.property
    simp only [Address.isPageAligned, beq_iff_eq] at haligned
    simp only [AddressKind.Valid, physicalLimit, pageSize] at *
    omega⟩

def set (translation : Translation) (flag : Flag) (on : Bool) : Translation :=
  { translation with flags := translation.flags.set flag on }

def permits (translation : Translation) (write : Bool) : Bool :=
  translation.flags.test .user && (!write || translation.flags.test .writable)

/-- What an access leaves behind. -/
def touch (translation : Translation) (write : Bool) : Translation :=
  if write then (translation.set .accessed true).set .dirty true
  else translation.set .accessed true

end Translation

abbrev FlatMap := Std.ExtTreeMap PageNumber Translation

/-- A change of a page directory, or an access through it. -/
inductive DirectoryOperation where
  | map (page : PageStart .virtual) (frame : PageStart .physical) (bits : BitVec 64)
  | unmap (va : VirtualAddress)
  | setAccessed (va : VirtualAddress) (on : Bool)
  | setDirty (va : VirtualAddress) (on : Bool)
  | access (va : VirtualAddress) (write : Bool)

inductive DirectoryAnswer where
  | done
  | unmapped (frame : Option PhysicalAddress)
  | reached (pa : PhysicalAddress)
  | refused (violation : AccessViolation)
deriving DecidableEq

namespace FlatMap

def locate (flat : FlatMap) (va : VirtualAddress) : Option (PhysicalAddress × PageFlags) :=
  flat[va.number]?.map fun translation =>
    (translation.locate va.pageOffset va.pageOffset_lt, translation.flags)

def test (flat : FlatMap) (va : VirtualAddress) (flag : Flag) : Bool :=
  flat[va.number]?.any fun translation => translation.flags.test flag

def update (flat : FlatMap) (va : VirtualAddress) (change : Translation → Translation) : FlatMap :=
  match flat[va.number]? with
  | some translation => flat.insert va.number (change translation)
  | none => flat

def perform (flat : FlatMap) : DirectoryOperation → DirectoryAnswer × FlatMap
  | .map page frame bits =>
      let flags := (((PageFlags.ofBits bits).set .present true).set .accessed false).set .dirty false
      (.done, flat.insert page.val.number ⟨frame, flags⟩)
  | .unmap va => (.unmapped (flat[va.number]?.map (·.frame.val)), flat.erase va.number)
  | .setAccessed va on => (.done, flat.update va (·.set .accessed on))
  | .setDirty va on => (.done, flat.update va (·.set .dirty on))
  | .access va write =>
      match flat[va.number]? with
      | none => (.refused .notPresent, flat)
      | some translation =>
          if translation.permits write then
            (.reached (translation.locate va.pageOffset va.pageOffset_lt),
              flat.update va (·.touch write))
          else (.refused .protection, flat)

/-- A sequence of operations on the map: the answers in order, and the map in the end. -/
def run (flat : FlatMap) : List DirectoryOperation → List DirectoryAnswer × FlatMap
  | [] => ([], flat)
  | operation :: rest =>
      let (answer, changed) := flat.perform operation
      let (answers, last) := changed.run rest
      (answer :: answers, last)

theorem getElem?_update (flat : FlatMap) (va : VirtualAddress)
    (change : Translation → Translation) (n : PageNumber) :
    (flat.update va change)[n]? = if n = va.number then flat[n]?.map change else flat[n]? := by
  unfold update
  split
  · next translation hfound =>
    rw [getElem?_insert_eq_ite]
    split
    · next h => rw [h, hfound, Option.map_some]
    · rfl
  · next hfound =>
    split
    · next h => rw [h, hfound, Option.map_none]
    · rfl

end FlatMap

/-! ### The directory -/

namespace PageEntry

def translation (entry : PageEntry) : Translation :=
  ⟨⟨entry.locate 0 pageSize_pos, entry.isPageAligned_locate⟩, entry.flags⟩

theorem translation_encode {frame : PageStart .physical} {flags : PageFlags} {entry : PageEntry}
    (h : encode frame.val flags = .ok entry) (hproper : flags.Proper) :
    entry.translation = ⟨frame, flags⟩ := by
  have hframe : entry.locate 0 pageSize_pos = frame.val :=
    Address.ext (toNat_locate_encode h pageSize_pos)
  simp only [translation, hframe, flags_encode h hproper]

theorem translation_setFlags {entry : PageEntry} {flags : PageFlags} (h : flags.Proper) :
    (entry.setFlags flags).translation = { entry.translation with flags := flags } := by
  have hflags : (entry.setFlags flags).flags = flags := (flags_setFlags entry flags).trans h
  simp only [translation, locate_setFlags, hflags]

theorem translation_updateFlags_set (entry : PageEntry) (flag : Flag) (on : Bool) :
    (entry.updateFlags fun flags => flags.set flag on).translation =
      entry.translation.set flag on :=
  translation_setFlags (entry.proper_flags.set flag on)

theorem translation_touch (entry : PageEntry) (write : Bool) :
    (Directory.touch write entry).translation = entry.translation.touch write := by
  cases write with
  | true =>
      exact translation_setFlags ((entry.proper_flags.set .accessed true).set .dirty true)
  | false => exact translation_setFlags (entry.proper_flags.set .accessed true)

end PageEntry

namespace Directory

def perform (directory : Directory) : DirectoryOperation → Except Panic (DirectoryAnswer × Directory)
  | .map page frame bits => do
      let changed ← directory.map page.val frame.val (.ofBits bits)
      return (.done, changed)
  | .unmap va =>
      let (frame, changed) := directory.unmap va
      return (.unmapped frame, changed)
  | .setAccessed va on => return (.done, directory.setFlag va .accessed on)
  | .setDirty va on => return (.done, directory.setFlag va .dirty on)
  | .access va write =>
      match directory.access va write with
      | .ok (pa, changed) => return (.reached pa, changed)
      | .error violation => return (.refused violation, directory)

def run (directory : Directory) :
    List DirectoryOperation → Except Panic (List DirectoryAnswer × Directory)
  | [] => return ([], directory)
  | operation :: rest => do
      let (answer, changed) ← directory.perform operation
      let (answers, last) ← changed.run rest
      return (answer :: answers, last)

/-- An access to a mapped page is refused, or it touches the entry of the page. -/
theorem access_of_find? {directory : Directory} {va : VirtualAddress} {entry : PageEntry}
    (hfind : directory.find? va = some entry) (write : Bool) :
    directory.access va write = if entry.translation.permits write then
      .ok (entry.locate va.pageOffset va.pageOffset_lt, directory.setEntry va (touch write entry))
    else .error .protection := by
  have hrefused : (!entry.flags.test .user || (write && !entry.flags.test .writable)) =
      !entry.translation.permits write := by
    cases write <;> simp [Translation.permits, PageEntry.translation]
  have hlocate : (touch write entry).locate va.pageOffset va.pageOffset_lt =
      entry.locate va.pageOffset va.pageOffset_lt := PageEntry.locate_setFlags _ _ _ _
  rw [← hlocate]
  simp only [access, hfind, hrefused]
  cases entry.translation.permits write <;> rfl

/-- A directory and a map that hold the same translation for every address. -/
structure Represents (directory : Directory) (flat : FlatMap) : Prop where
  translation : ∀ va, (directory.find? va).map PageEntry.translation = flat[va.number]?
  page : ∀ n ∈ flat, ∃ va : VirtualAddress, va.number = n

structure Agrees (directory : Directory) (flat : FlatMap) : Prop where
  locate : ∀ va, directory.locate va = flat.locate va
  isMapped : ∀ va : VirtualAddress, directory.isMapped va = flat.contains va.number
  isAccessed : ∀ va, directory.test va .accessed = flat.test va .accessed
  isDirty : ∀ va, directory.test va .dirty = flat.test va .dirty
  mappedPages : directory.mappedPages = flat.size

theorem represents_empty : Represents empty ∅ where
  translation va := by simp [find?, empty, Table.find?, Table.empty]
  page n hn := absurd hn Std.ExtTreeMap.not_mem_empty

namespace Represents

variable {directory : Directory} {flat : FlatMap}

theorem isMapped (h : directory.Represents flat) (va : VirtualAddress) :
    directory.isMapped va = flat.contains va.number := by
  rw [Directory.isMapped, ← Option.isSome_map (f := PageEntry.translation), h.translation,
    Std.ExtTreeMap.isSome_getElem?_eq_contains]

theorem test (h : directory.Represents flat) (va : VirtualAddress) (flag : Flag) :
    directory.test va flag = flat.test va flag := by
  rw [FlatMap.test, ← h.translation, Option.any_map]
  rfl

theorem unmap (h : directory.Represents flat) (va : VirtualAddress) :
    (directory.unmap va).1 = flat[va.number]?.map (·.frame.val) ∧
      (directory.unmap va).2.Represents (flat.erase va.number) := by
  refine ⟨?_, ⟨fun b => ?_, fun n hn => h.page n (Std.ExtTreeMap.mem_of_mem_erase hn)⟩⟩
  · rw [← h.translation, Option.map_map, Directory.unmap]
    cases hfind : directory.find? va with
    | none => rfl
    | some entry =>
        have hpresent : entry.isPresent = true := (Option.filter_eq_some_iff.1 hfind).2
        simp [PageEntry.address?, hpresent, PageEntry.translation]
  · rw [find?_unmap, getElem?_erase_eq_ite, ← h.translation]
    by_cases hsame : va.number = b.number
    · rw [if_pos hsame, if_pos hsame.symm, Option.map_none]
    · rw [if_neg hsame, if_neg (Ne.symm hsame)]

theorem map (h : directory.Represents flat) (page : PageStart .virtual)
    (frame : PageStart .physical) (bits : BitVec 64) :
    ∃ changed, directory.map page.val frame.val (.ofBits bits) = .ok changed ∧
      changed.Represents (flat.insert page.val.number ⟨frame,
        (((PageFlags.ofBits bits).set .present true).set .accessed false).set .dirty false⟩) := by
  have hproper := (((PageFlags.proper_ofBits bits).set .present true).set .accessed false).set
    .dirty false
  obtain ⟨entry, hentry⟩ : ∃ entry, PageEntry.encode frame.val
      ((((PageFlags.ofBits bits).set .present true).set .accessed false).set .dirty false) =
        .ok entry := by
    rw [PageEntry.encode, if_pos frame.property]
    exact ⟨_, rfl⟩
  refine ⟨directory.setEntry page.val entry, ?_, fun b => ?_, fun n hn => ?_⟩
  · simp only [Directory.map, require_eq_ok, bind_eq_ok, pure_eq_ok]
    exact ⟨page.property, frame.property, entry, hentry, rfl⟩
  · rw [find?_setEntry, Option.filter_some_pos (isPresent_encode hentry), getElem?_insert_eq_ite,
      ← h.translation]
    simp only [samePage_iff, @eq_comm _ b.number]
    split
    · exact congrArg some (PageEntry.translation_encode hentry hproper)
    · rfl
  · rcases Std.ExtTreeMap.mem_insert.1 hn with hcompare | hn
    · exact ⟨page.val, Std.LawfulEqOrd.eq_of_compare hcompare⟩
    · exact h.page n hn

theorem update {changed : Directory} (h : directory.Represents flat) {va : VirtualAddress}
    {change : PageEntry → PageEntry} {change' : Translation → Translation}
    (hfind : ∀ b, changed.find? b =
      if va.number = b.number then (directory.find? b).map change else directory.find? b)
    (hchange : ∀ entry, (change entry).translation = change' entry.translation) :
    changed.Represents (flat.update va change') := by
  refine ⟨fun b => ?_, fun n hn => ?_⟩
  · rw [hfind, FlatMap.getElem?_update, ← h.translation]
    simp only [@eq_comm _ b.number]
    split
    · rw [Option.map_map, Option.map_map]
      exact congrArg (Option.map · _) (funext hchange)
    · rfl
  · refine h.page n ?_
    rw [Std.ExtTreeMap.mem_iff_isSome_getElem?, FlatMap.getElem?_update] at hn
    rw [Std.ExtTreeMap.mem_iff_isSome_getElem?]
    split at hn
    · rwa [Option.isSome_map] at hn
    · exact hn

theorem setFlag (h : directory.Represents flat) (va : VirtualAddress) {flag : Flag} (on : Bool)
    (hflag : flag ≠ .present) :
    (directory.setFlag va flag on).Represents (flat.update va (·.set flag on)) :=
  h.update (fun b => find?_setFlag directory va b hflag) fun entry =>
    entry.translation_updateFlags_set flag on

/-- An access is refused as the map says, or it leads where the map says and touches the page. -/
theorem access (h : directory.Represents flat) (va : VirtualAddress) (write : Bool) :
    ∃ changed, directory.perform (.access va write) =
        .ok ((flat.perform (.access va write)).1, changed) ∧
      changed.Represents (flat.perform (.access va write)).2 := by
  have hva := h.translation va
  cases hfind : directory.find? va with
  | none =>
      rw [hfind, Option.map_none] at hva
      refine ⟨directory, ?_, ?_⟩
      · simp only [Directory.perform, Directory.access, hfind, FlatMap.perform, ← hva]
        rfl
      · simp only [FlatMap.perform, ← hva]
        exact h
  | some entry =>
      rw [hfind, Option.map_some] at hva
      have haccess := access_of_find? hfind write
      by_cases hpermits : entry.translation.permits write = true
      · rw [if_pos hpermits] at haccess
        obtain ⟨_, -, -, -, -, htouched⟩ := access_eq_ok haccess
        refine ⟨directory.setEntry va (touch write entry), ?_, ?_⟩
        · simp only [Directory.perform, haccess, FlatMap.perform, ← hva, if_pos hpermits]
          rfl
        · simp only [FlatMap.perform, ← hva, if_pos hpermits]
          exact h.update htouched fun entry => entry.translation_touch write
      · rw [if_neg hpermits] at haccess
        refine ⟨directory, ?_, ?_⟩
        · simp only [Directory.perform, haccess, FlatMap.perform, ← hva, if_neg hpermits]
          rfl
        · simp only [FlatMap.perform, ← hva, if_neg hpermits]
          exact h

/-- Every operation answers on a directory as on the map that it represents. -/
theorem perform (h : directory.Represents flat) (operation : DirectoryOperation) :
    ∃ changed, directory.perform operation = .ok ((flat.perform operation).1, changed) ∧
      changed.Represents (flat.perform operation).2 := by
  cases operation with
  | map page frame bits =>
      obtain ⟨changed, hmap, hchanged⟩ := h.map page frame bits
      refine ⟨changed, ?_, hchanged⟩
      rw [Directory.perform, hmap]
      rfl
  | unmap va =>
      obtain ⟨hanswer, hchanged⟩ := h.unmap va
      refine ⟨_, ?_, hchanged⟩
      rw [FlatMap.perform, ← hanswer]
      rfl
  | setAccessed va on => exact ⟨_, rfl, h.setFlag va on (by decide)⟩
  | setDirty va on => exact ⟨_, rfl, h.setFlag va on (by decide)⟩
  | access va write => exact h.access va write

theorem run (h : directory.Represents flat) (operations : List DirectoryOperation) :
    ∃ last, directory.run operations = .ok ((flat.run operations).1, last) ∧
      last.Represents (flat.run operations).2 := by
  induction operations generalizing directory flat with
  | nil => exact ⟨directory, rfl, h⟩
  | cons operation rest ih =>
      obtain ⟨changed, hstep, hchanged⟩ := h.perform operation
      obtain ⟨last, hrest, hlast⟩ := ih hchanged
      refine ⟨last, ?_, hlast⟩
      rw [Directory.run, hstep]
      simp only [Except.bind, bind, hrest]
      rfl

/-- The queries to a directory are answered by the map that it represents. -/
theorem agrees (h : directory.Represents flat) : directory.Agrees flat where
  locate va := by
    rw [FlatMap.locate, ← h.translation, Option.map_map]
    rfl
  isMapped := h.isMapped
  isAccessed va := h.test va .accessed
  isDirty va := h.test va .dirty
  mappedPages := by
    obtain ⟨addresses, haddresses⟩ : flat.keys ∈ Set.range (List.map Address.number) := by
      rw [Set.range_list_map]
      exact fun n hn => h.page n (Std.ExtTreeMap.mem_keys.1 hn)
    have hlength := congrArg List.length haddresses
    rw [List.length_map, Std.ExtTreeMap.length_keys] at hlength
    rw [← hlength]
    refine mappedPages_eq_length ?_ fun va => ?_
    · rw [haddresses]
      exact Std.ExtTreeMap.nodup_keys
    · rw [haddresses, Std.ExtTreeMap.mem_keys, h.isMapped, Std.ExtTreeMap.contains_iff_mem]

end Represents

/-- A page directory is a finite map: whatever is done to a new one, every answer on the way and
every query in the end is that of the map on which the same was done. -/
theorem run_agrees (operations : List DirectoryOperation) :
    ∃ directory, empty.run operations = .ok ((FlatMap.run ∅ operations).1, directory) ∧
      directory.Agrees (FlatMap.run ∅ operations).2 := by
  obtain ⟨directory, hrun, hrepresents⟩ := represents_empty.run operations
  exact ⟨directory, hrun, hrepresents.agrees⟩

end Directory

end DemandPaging
