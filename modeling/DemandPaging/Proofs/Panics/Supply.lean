import DemandPaging.Proofs.FrameOwnership
import DemandPaging.Proofs.Panics.Removal

/-!
What is there when it is needed.

A coherent state may still lack things that an operation will look for: the file behind a slice, the
page in a slot, the address of a frame. A state that lacks nothing is supplied. Files are never
closed for good, the pool has the same frames all the time and the books on slots are kept by every
step, so a state stays supplied as long as what is added to it is.
-/

namespace DemandPaging

open Machine Space

structure Contents.Supplied (v : View) (contents : Contents) : Prop where
  file : ∀ {slice}, contents.slice? = some slice → v.file slice.handle.file ≠ none
  fill : ∀ {byte count succeeds}, contents = .pending (.loader (.fill byte count succeeds)) →
    count ≤ pageSize

structure Region.Supplied (v : View) (region : Region) : Prop where
  inRange : region.InRange
  file : v.file region.handle.file ≠ none

structure View.Supplied (v : View) : Prop where
  frames : ∀ {f}, v.isAllocated f ≠ none → f.toNat < maxFrames
  slots : ∃ kept, SlotBooks kept v.isOccupied v.slotOf
  contents : ∀ {key page}, v.page key = some page → page.contents.Supplied v
  regions : ∀ {s start region}, v.regionOf s start = some region → region.Supplied v

/-- A sound state in which nothing is missing. -/
structure Machine.Ready (x : Option FrameNumber) (m : Machine) : Prop where
  sound : Sound x m
  supplied : m.view.Supplied

section

variable {effects : List Effect} {x x' : Option FrameNumber} {v v' : View}
  {contents contents' : Contents} {bytes : PageBytes} {dirty : Bool}

/-! ### Contents -/

namespace Contents.Supplied

theorem mono (h : contents.Supplied v) (hfile : ∀ {f}, v.file f ≠ none → v'.file f ≠ none) :
    contents.Supplied v' where
  file hslice := hfile (h.file hslice)
  fill := h.fill

theorem zeros : (Contents.pending .zeros).Supplied v where
  file he := by cases he
  fill he := by cases he

theorem of_slot {slot : Option SwapSlot} : (Contents.anonymous slot).Supplied v where
  file he := by cases he
  fill he := by cases he

theorem of_file {slice : FileSlice} (h : v.file slice.handle.file ≠ none) :
    (Contents.file slice).Supplied v where
  file he := by
    cases he
    exact h
  fill he := by cases he

theorem of_pending {source : Pending} (h : ∀ {slice}, source.slice? = some slice →
    v.file slice.handle.file ≠ none) (hfill : ∀ byte count succeeds,
      source ≠ .loader (.fill byte count succeeds)) : (Contents.pending source).Supplied v where
  file he := h he
  fill he := by
    cases he
    exact absurd rfl (hfill _ _ _)

theorem settled (h : contents.Supplied v) : contents.settled.Supplied v := by
  cases contents with
  | pending source =>
      cases source with
      | file slice => exact of_file (h.file rfl)
      | _ => exact of_slot
  | anonymous slot => exact of_slot
  | file slice => exact h

theorem stowed (h : contents.Supplied v) {w w' : View}
    (hstowed : Stowed bytes dirty contents w contents' w') : contents'.Supplied v := by
  cases hstowed with
  | slot => exact of_slot
  | file => exact h

theorem copied (h : contents.Supplied v) (hcopied : Contents.Copied contents contents') :
    contents'.Supplied v := by
  -- another handle leads to the same file
  cases hcopied with
  | pending hreopened =>
      cases hreopened with
      | segment | file =>
          have hfile := h.file rfl
          refine of_pending (fun he => ?_) (by simp)
          cases he
          exact hfile
      | zeros | fill => exact h
  | anonymous => exact of_slot
  | file =>
      have hfile := h.file rfl
      exact of_file hfile

end Contents.Supplied

/-! ### Steps -/

theorem Step.file_ne_none (h : Step effects x v x' v') {f : Key File} (hf : v.file f ≠ none) :
    v'.file f ≠ none := by
  cases h with
  | evict _ _ _ hstowed =>
      generalize Page.contents _ = contents at hstowed
      cases hstowed with
      | slot => exact hf
      | file hback => exact hback.file_ne_none hf
  | removePresent _ _ _ _ hgiven =>
      generalize Page.contents _ = contents at hgiven
      cases hgiven with
      | anonymous => exact hf
      | file hback => exact hback.file_ne_none hf
  | _ => exact hf

/-- Every page that is there after a step was supplied before it, if what is added is. -/
theorem Step.contents_supplied (h : Step effects x v x' v')
    (hcontents : ∀ {key page}, v.page key = some page → page.contents.Supplied v)
    (hadded : ∀ {key source bytes}, .added key source bytes ∈ effects →
      (Contents.pending source).Supplied v) {key : Key Page} {page : Page}
    (hpage : v'.page key = some page) : page.contents.Supplied v := by
  -- a step replaces at most one page
  have hreplaced : ∀ {changed : Key Page} {page? : Option Page},
      Function.update v.page changed page? key = some page →
        (∀ new, page? = some new → new.contents.Supplied v) → page.contents.Supplied v := by
    intro changed page? hpage hnew
    rw [Function.update_apply] at hpage
    split at hpage
    · exact hnew page hpage
    · exact hcontents hpage
  cases h with
  | scribble | take | giveBack | store | openSpace | closeSpace | register => exact hcontents hpage
  | evict howner hevicted hbytes hstowed =>
      obtain ⟨isOccupied, pageIn, file, rfl⟩ := hstowed.exists_eq
      refine hreplaced hpage fun new he => ?_
      cases he
      exact (hcontents hevicted).stowed hstowed
  | bringIn hfound =>
      refine hreplaced hpage fun new he => ?_
      cases he
      exact (hcontents hfound).settled
  | add hdirectory hplace hsource =>
      refine hreplaced hpage fun new he => ?_
      cases he
      rw [hsource]
      exact hadded (List.mem_singleton_self _)
  | copyAside hfound hframe hcopied =>
      refine hreplaced hpage fun new he => ?_
      cases he
      exact (hcontents hfound).copied hcopied
  | copyIn hfound hcopied =>
      refine hreplaced hpage fun new he => ?_
      cases he
      exact (hcontents hfound).copied hcopied
  | removeAbsent => exact hreplaced hpage fun new he => by cases he
  | removePresent hplace howner hfound hbytes hgiven =>
      obtain ⟨file, rfl⟩ := hgiven.exists_eq
      exact hreplaced hpage fun new he => by cases he

theorem Steps.file_ne_none (h : Steps effects x v x' v') {f : Key File} (hf : v.file f ≠ none) :
    v'.file f ≠ none :=
  h.preserves (P := fun _ v => v.file f ≠ none) (fun hstep => hstep.file_ne_none) hf

theorem Steps.contents_supplied (h : Steps effects x v x' v')
    (hcontents : ∀ {key page}, v.page key = some page → page.contents.Supplied v)
    (hadded : ∀ {key source bytes}, .added key source bytes ∈ effects →
      (Contents.pending source).Supplied v) {key : Key Page} {page : Page}
    (hpage : v'.page key = some page) : page.contents.Supplied v' := by
  induction h with
  | nil => exact hcontents hpage
  | cons head tail ih =>
      refine ih (fun hfound => ?_) (fun hin => ?_) hpage
      · exact (head.contents_supplied hcontents (fun hin => hadded (List.mem_append_left _ hin))
          hfound).mono head.file_ne_none
      · exact (hadded (List.mem_append_right _ hin)).mono head.file_ne_none

theorem Steps.isAllocated_ne_none (h : Steps effects x v x' v') (hcoherent : Coherent x v)
    {f : FrameNumber} (hf : v'.isAllocated f ≠ none) : v.isAllocated f ≠ none := by
  induction h with
  | nil => exact hf
  | cons head tail ih =>
      have hsome := head.isSome_isAllocated hcoherent f
      rw [← Option.isSome_iff_ne_none, ← hsome, Option.isSome_iff_ne_none]
      exact ih (head.coherent hcoherent) hf

end

namespace Machine.Ready

variable {effects : List Effect} {x x' : Option FrameNumber} {m m' : Machine}

/-- A state stays supplied along a course if what is added on the way and the regions at the end
are. -/
theorem course (h : Ready x m) (hcourse : Course effects x m x' m')
    (hadded : ∀ {key source bytes}, .added key source bytes ∈ effects →
      (Contents.pending source).Supplied m.view)
    (hregions : ∀ {s start region}, m'.view.regionOf s start = some region →
      region.Supplied m.view) : Ready x' m' where
  sound := hcourse.sound h.sound
  supplied :=
    { frames := fun hf => h.supplied.frames (hcourse.steps.isAllocated_ne_none h.sound.coherent hf)
      slots := by
        obtain ⟨kept, hbooks⟩ := h.supplied.slots
        exact ⟨kept, hcourse.steps.slotBooks h.sound.coherent hbooks⟩
      contents := fun hpage => hcourse.steps.contents_supplied h.supplied.contents hadded hpage
      regions := fun hregion => ⟨(hregions hregion).inRange,
        hcourse.steps.file_ne_none (hregions hregion).file⟩ }

theorem quiet (h : Ready x m) (hcourse : Course effects x m x' m')
    (hadded : ∀ {key source bytes}, .added key source bytes ∉ effects)
    (hregions : m'.view.regionOf = m.view.regionOf) : Ready x' m' :=
  h.course hcourse (fun hin => absurd hin hadded) fun hregion =>
    h.supplied.regions (by rw [← hregions, hregion])

theorem silent (h : Ready x m) (hview : m'.view = m.view) (htidy : m'.Tidy) : Ready x m' :=
  h.quiet (.silent htidy hview) (by simp) (by rw [hview])

theorem passed {s : Key AddressSpace} (h : Ready none m) (hpassed : Passed s effects m m') :
    Ready none m' := by
  refine h.course hpassed.course (fun hin => ?_) fun hregion =>
    h.supplied.regions (by rw [← hpassed.pagesOnly.regionOf, hregion])
  cases hpassed.passing _ hin with
  | added => exact .zeros

theorem hasFrame (h : Ready x m) {f : FrameNumber} {entry : Option Owner}
    (hf : m.view.owner f = some entry) : m.HasFrame f := by
  have hallocated : m.view.isAllocated f ≠ none := by
    rw [h.sound.coherent.residency.allocated hf]
    exact Option.some_ne_none _
  exact ⟨hallocated, h.supplied.frames hallocated⟩

theorem isOccupied (h : Ready x m) {key : Key Page} {slot : SwapSlot}
    (hs : m.view.slotOf key = some slot) : m.view.isOccupied slot = true := by
  obtain ⟨kept, hbooks⟩ := h.supplied.slots
  exact hbooks.occupied.2 (.inr ⟨key, hs⟩)

theorem hasDirectory (h : Ready x m) {f : FrameNumber} {o : Owner}
    (hf : m.view.owner f = some (some o)) : m.view.hasDirectory o.directory = true := by
  obtain ⟨p, pa, hp, -⟩ := h.sound.coherent.residency.linked hf
  obtain ⟨s, hplace⟩ := h.sound.coherent.placement.held hp
  exact h.sound.coherent.placement.directories (h.sound.coherent.home hf hplace)

theorem firm (h : Ready x m) : Firm m.view := by
  have hcoherent := h.sound.coherent
  refine ⟨hcoherent.residency.allocated, h.supplied.frames, h.hasDirectory, fun hp hf => ?_,
    fun hp hp' hf hf' => ?_, h.isOccupied, fun hs hs' => ?_, fun hp => (h.supplied.contents hp).file,
    fun hplace => ?_, fun hplace hplace' => ?_, fun hregion => (h.supplied.regions hregion).inRange⟩
  · obtain ⟨o, howner, -⟩ := hcoherent.residency.listed hp hf
    rw [howner]
    exact Option.some_ne_none _
  · obtain ⟨o, howner, hkey⟩ := hcoherent.residency.listed hp hf
    obtain ⟨o', howner', hkey'⟩ := hcoherent.residency.listed hp' hf'
    cases howner.symm.trans howner'
    exact hkey.symm.trans hkey'
  · obtain ⟨kept, hbooks⟩ := h.supplied.slots
    exact hbooks.apart hs hs'
  · obtain ⟨p, hp, -⟩ := hcoherent.placement.placed hplace
    rw [hp]
    exact Option.some_ne_none _
  · obtain ⟨p, hp, hn⟩ := hcoherent.placement.placed hplace
    obtain ⟨p', hp', hn'⟩ := hcoherent.placement.placed hplace'
    cases hp.symm.trans hp'
    exact ⟨hcoherent.placement.alone hplace hplace', hn.symm.trans hn'⟩

theorem solid (h : Ready x m) : m.Solid := ⟨h.sound.tidy, h.firm⟩

end Machine.Ready

end DemandPaging
