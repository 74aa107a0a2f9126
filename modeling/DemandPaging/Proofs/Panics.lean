import DemandPaging.Proofs.Panics.Lifetime
import DemandPaging.Proofs.Run
import DemandPaging.Proofs.Space.Labels

/-!
A run stops only where an anonymous page is stuck.

Nothing is missing when a run starts, and no request takes away what another one will look for. So
whatever is asked of an address space, and with whatever numbers, no sum leaves the words, no index
leaves its range and no check of the code on itself fails. What is left is the one panic that is
meant: an anonymous page has to leave its frame, and swap does not take it.
-/

namespace DemandPaging

open Machine Space

variable {m m' start : Machine} {s : Key AddressSpace} {α : Type} {request : Request α} {answer : α}
  {effects : List Effect} {history : List Done}

/-! ### Requests -/

def Request.FilesIn (v : View) {α : Type} : Request α → Prop
  | .loadSegment file .. => v.file file.file ≠ none
  | .mapFile _ _ _ file _ => v.file file.file ≠ none
  | .mapDescriptor _ _ _ descriptor _ lookup =>
      ∀ file, lookup descriptor = some file → v.file file.file ≠ none
  | _ => True

def Request.Evicts (s : Key AddressSpace) (v : View) {α : Type} : Request α → Key Page → Prop
  | .pageOut va, key => v.pageOf s va.number = some key
  | _, _ => False

/-- Whatever is asked for but a fork, it stops where an eviction is broken off. -/
theorem stopped_of_perform (h : m.Serves s) (hfiles : request.FilesIn m.view)
    (hforks : ¬request.Forks) :
    PanicsOnly (Stopped (request.Evicts s m.view) m) (request.perform s) m := by
  cases request with
  | setStackPointer => exact .modify _
  | saveStackPointer => exact .modify _
  | loadSegment => exact panicsOnly_loadSegment h.exists_space hfiles
  | setUpStack => exact panicsOnly_setUpStack h
  | mapFile => exact panicsOnly_mapFile h.exists_space hfiles
  | mapDescriptor => exact panicsOnly_mapDescriptor h.exists_space hfiles
  | unmapFile start => exact panicsOnly_unmapFile h start
  | handleFault fault => exact panicsOnly_handleFault h fault
  | readUser va length => exact panicsOnly_readUser h va length
  | writeUser va data => exact panicsOnly_writeUser h va data
  | pageOut va => exact panicsOnly_pageOutAt h va
  | fork name => exact absurd trivial hforks
  | exit status => exact panicsOnly_exit h status
  | drop => exact panicsOnly_drop h

/-- The state in which a request panics. A fork ends what it has copied before the panic is passed on,
so there it is the state before that. -/
inductive Request.Raises (s : Key AddressSpace) (m : Machine) :
    {α : Type} → Request α → Panic → Machine → Prop where
  | here {α : Type} {request : Request α} {panic : Panic} {m' : Machine} (hforks : ¬request.Forks)
      (h : Panics (request.perform s) m panic m') : Raises s m request panic m'
  | copying {name : String} {current : AddressSpace} {child : Key AddressSpace} {panic : Panic}
      {m₁ m' : Machine} (hbegun : ForkBegun s name m current child m₁)
      (h : Panics (do
        copyRegions child current.regions.values
        copyPages child current.pages.values : ExceptT VmError Action Unit).run m₁ panic m') :
      Raises s m (.fork name) panic m'

/-- Whatever is asked for, it stops only where an anonymous page is stuck. -/
theorem raises_of_perform (h : m.Serves s) (hfiles : request.FilesIn m.view) :
    PanicsOnly (fun panic _ => ∃ m', request.Raises s m panic m' ∧
      StopCause (request.Evicts s m.view) m panic m') (request.perform s) m := by
  refine Ends.intro (fun _ _ _ => trivial) fun panic m' hpanic => ?_
  have hothers : ¬request.Forks → ∃ m', request.Raises s m panic m' ∧
      StopCause (request.Evicts s m.view) m panic m' := fun hforks =>
    ⟨m', .here hforks hpanic, ((stopped_of_perform h hfiles hforks).panicked hpanic).cause⟩
  cases request with
  | fork name =>
      obtain ⟨current, child, m₁, m₂, hbegun, hcourse, hcopy⟩ :=
        (copyStopped_of_fork h name).panicked hpanic
      exact ⟨m₂, .copying hbegun hcopy.panics, hcopy.stopped.cause.after hcourse⟩
  | _ => exact hothers id

/-! ### Outcomes -/

theorem supplied_of_inserted {make : Nat → Except Panic Page} {count : Nat} {pages : List Page}
    (hpages : (List.range count).mapM make = .ok pages)
    (hmake : ∀ {index page}, make index = .ok page → Insertable m page)
    (hinserted : Inserted s pages effects m m') {key : Key Page} {source : Pending}
    {bytes : PageBytes} (hin : .added key source bytes ∈ effects) :
    (Contents.pending source).Supplied m.view := by
  obtain ⟨_, _, _, he, -, page, hmem, hcontents⟩ := hinserted.labels _ hin
  cases he
  obtain ⟨index, -, hindex⟩ := (mem_of_mapM_eq_ok hpages).1 hmem
  rw [← hcontents]
  exact (hmake hindex).supplied

namespace Machine.Ready

theorem stored {a : Nat} {data : Array UInt8} (h : Ready none m)
    (hstored : Stored s a data effects m m') : Ready none m' := by
  refine h.course hstored.course (fun hin => ?_) fun hregion =>
    h.supplied.regions (by rw [← hstored.pagesOnly.regionOf, hregion])
  rcases hstored.labels _ hin with hpassing | ⟨_, _, _, he⟩
  · cases hpassing
    exact .zeros
  · cases he

theorem loaded (h : Ready none m) {file : Key File} {offset readBytes zeroBytes : Nat}
    {start : VirtualAddress} {writable : Bool}
    (hloaded : SegmentLoaded s file offset start readBytes zeroBytes writable effects m m') :
    Ready none m' := by
  obtain ⟨handle, -, hfile, count, pages, -, hpages, hinserted⟩ := hloaded.made
  refine h.course hinserted.course (supplied_of_inserted hpages
    (insertable_of_segmentPage fun opened he => ?_) hinserted) fun hregion =>
      h.supplied.regions (by rw [← hinserted.pagesOnly.regionOf, hregion])
  obtain ⟨rfl, hthere⟩ := hfile opened he
  exact hthere

theorem mapped (h : Ready none m) {file : Key File} {offset length : Nat} {start : VirtualAddress}
    {writable : Bool}
    (hmapped : FileMapped s file offset start length writable effects m m') : Ready none m' := by
  have hcourse := hmapped.course
  obtain ⟨current, handle, pages, inserted, m₁, hcurrent, rfl, hpages, hinserted, rfl, -, hview⟩ :=
    hmapped.made
  have hfile : m.view.file handle.file ≠ none := by
    simp only [view, hcurrent, Option.map_some]
    exact Option.some_ne_none _
  refine h.course hcourse (fun hin => ?_) fun {s' start' region} hregion => ?_
  · rcases List.mem_append.1 hin with hin | hin
    · exact supplied_of_inserted hpages (insertable_of_filePage hfile) hinserted hin
    · cases List.mem_singleton.1 hin
  · -- the region is the new one, or it was there before
    rw [hview, View.setRegion] at hregion
    simp only [Function.update_apply] at hregion
    rw [hinserted.pagesOnly.regionOf] at hregion
    split at hregion
    · next hs =>
      subst hs
      rw [Function.update_apply] at hregion
      split at hregion
      · cases hregion
        exact ⟨inRange_of_filePages hpages, hfile⟩
      · exact h.supplied.regions hregion
    · exact h.supplied.regions hregion

theorem closed (h : Ready none m) (hclosed : Closed s effects m m') : Ready none m' := by
  refine h.course hclosed.course (fun hin => ?_) fun {s' start region} hregion => ?_
  · rcases hclosed.labels _ hin with ⟨_, he⟩ | ⟨_, _, -, he⟩ | he <;> cases he
  · by_cases hs : s' = s
    · subst hs
      rw [hclosed.regionOf] at hregion
      cases hregion
    · exact h.supplied.regions (by rw [← (hclosed.elsewhere s' hs).2.1, hregion])

theorem forked (h : Ready none m) {child : Key AddressSpace}
    (hforked : Forked s child effects m m') : Ready none m' := by
  refine h.course hforked.course (fun hin => ?_) fun {s' start region} hregion => ?_
  · rcases hforked.labels _ hin with he | ⟨_, he⟩ | ⟨_, _, _, -, he, -⟩ <;> cases he
  · by_cases hs : s' = child
    · subst hs
      exact h.regionsFrom hforked.copied.regionOf hregion
    · exact h.supplied.regions (by rw [← (hforked.elsewhere s' hs).2.1, hregion])

theorem outcome (h : Ready none m) (houtcome : Outcome s m m' request answer effects) :
    Ready none m' := by
  cases houtcome with
  | passed _ hpassed => exact h.passed hpassed
  | stored _ _ _ hstored => exact h.stored hstored
  | loaded hloaded => exact h.loaded hloaded
  | mapped hmapped => exact h.mapped hmapped
  | descriptorMapped _ hmapped => exact h.mapped hmapped
  | @unmapped start region _ hregion hunmapped =>
      refine h.course hunmapped.course (fun hin => ?_) fun {s' start' region'} hregion' => ?_
      · rcases hunmapped.labels _ hin with he | ⟨_, _, -, he, -⟩ <;> cases he
      · rw [hunmapped.regionOf] at hregion'
        simp only [Function.update_apply] at hregion'
        split at hregion'
        · next hs =>
          subst hs
          rw [Function.update_apply] at hregion'
          split at hregion'
          · cases hregion'
          · exact h.supplied.regions hregion'
        · exact h.supplied.regions hregion'
  | nothingUnmapped _ hpassed => exact h.passed hpassed
  | exited hclosed => exact h.closed hclosed
  | dropped hclosed => exact h.closed hclosed
  | forked hforked => exact h.forked hforked
  | forkFailed hfailed =>
      refine h.quiet hfailed.course (fun hin => ?_) hfailed.regionOf
      rcases hfailed.labels _ hin with he | ⟨_, he⟩ | ⟨_, _, _, -, he, -⟩ | ⟨_, he, -⟩ | he <;>
        cases he

end Machine.Ready

/-! ### Runs -/

theorem Fresh.ready (h : Fresh m) (hcapacity : m.pool.capacity ≤ maxFrames) : Ready none m where
  sound := h.sound
  supplied :=
    { frames := fun {f} hf => by
        have hlt : f.toNat < m.pool.capacity := by
          simp only [view, Pool.allocation_eq_getElem?] at hf
          by_contra hge
          exact hf (by rw [Array.getElem?_eq_none (Nat.not_lt.1 hge), Option.map_none])
        exact Nat.lt_of_lt_of_le hlt hcapacity
      slots := ⟨_, Run.slotBooks ⟨h, .refl⟩⟩
      contents := fun hpage => by cases (h.pages _).symm.trans hpage
      regions := fun hregion => by
        simp only [view, h.spaces, Option.bind_none] at hregion
        cases hregion }

theorem Reaches.ready (h : Reaches start history m) (hready : Ready none start) : Ready none m := by
  induction h with
  | refl => exact hready
  | create _ hrun ih => exact (ih.created (returns_create ih.sound hrun)).ready
  | clients _ handles ih => exact ih.silent rfl (ih.sound.tidy.of_eq rfl rfl)
  | request _ hrun ih =>
      obtain ⟨effects, houtcome⟩ := Request.exists_outcome ih.sound
        (Request.returns_perform?.1 hrun).2
      exact ih.outcome houtcome

theorem Run.serves {space : AddressSpace} (h : Run start history m)
    (hcapacity : start.pool.capacity ≤ maxFrames) (hspace : m.spaces.get? s = some space) :
    m.Serves s :=
  ⟨h.reaches.ready (h.fresh.ready hcapacity), by
    rw [view_directoryOf_eq hspace]
    exact Option.some_ne_none _⟩

/-- A request that panics does so because an anonymous page had to leave its frame, which the pool and
the clock had decided or the request asked for, and swap did not take it: every slot was occupied, or
the device refused a sector of the lowest free one. -/
theorem Run.stuck_of_panics (h : Run start history m) (hcapacity : start.pool.capacity ≤ maxFrames)
    (hfiles : request.FilesIn m.view) {panic : Panic}
    (hpanic : Panics (request.perform? s) m panic m') :
    ∃ m₂, request.Raises s m panic m₂ ∧ ∃ effects m₁ key cause,
      Course effects none m none m₁ ∧ (m₁.HasToLeave key ∨ request.Evicts s m.view key) ∧
        m₁.BrokenOff key cause m₂ ∧ m₁.swap.Refuses cause ∧ panic = .anonymousPageStuck cause := by
  have hready := h.reaches.ready (h.fresh.ready hcapacity)
  have hends : PanicsOnly (fun panic _ => ∃ m', request.Raises s m panic m' ∧
      StopCause (request.Evicts s m.view) m panic m') (request.perform? s) m := by
    unfold Request.perform?
    refine .get_bind ?_
    cases hspace : m.spaces.get? s with
    | none => exact .pure _
    | some space =>
        have hserves : m.Serves s := ⟨hready, by
          rw [view_directoryOf_eq hspace]
          exact Option.some_ne_none _⟩
        exact .bind (raises_of_perform hserves hfiles) fun _ _ _ => .pure _
  obtain ⟨m₂, hraises, effects, m₁, key, cause, hcourse, hforced, hbroken, rfl⟩ :=
    hends.panicked hpanic
  exact ⟨m₂, hraises, effects, m₁, key, cause, hcourse, hforced, hbroken, hbroken.stuck.refuses, rfl⟩

/-- One frame, no swap, and a stack that needs a second page. -/
theorem stuck_of_growing_stack : ∃ history m s fault panic m',
    Run (bare 1 0 .empty) history m ∧ (bare 1 0 .empty).pool.capacity ≤ maxFrames ∧
      (Request.handleFault fault).FilesIn m.view ∧
      Panics ((Request.handleFault fault).perform? s) m panic m' ∧
      ∃ effects m₁ key m₂, Course effects none m none m₁ ∧ m₁.HasToLeave key ∧
        m₁.BrokenOff key .full m₂ ∧ m₁.swap.Refuses .full := by
  let address : VirtualAddress := ⟨userStack - 2 * pageSize, by decide⟩
  let fault : PageFault :=
    { address, user := true, write := true, notPresent := true, stackPointer := address.toNat }
  have htest : returnsWith (do
      let s ← Space.create "init"
      return (s, ← Request.setUpStack.perform? s)) (bare 1 0 .empty) (fun (s, answer) m =>
        answer.isSome && panicsWith ((Request.handleFault fault).perform? s) m
          fun panic _ => panic == .anonymousPageStuck .full) = true := by
    decide +kernel
  obtain ⟨⟨s, answer⟩, m, hrun, htest⟩ := exists_returns htest
  obtain ⟨_, m₁, hcreate, hrun⟩ := returns_bind.1 hrun
  obtain ⟨_, _, hstack, hpair⟩ := returns_bind.1 hrun
  obtain ⟨he, rfl⟩ := returns_pure.1 hpair
  cases he
  rw [Bool.and_eq_true, Option.isSome_iff_exists] at htest
  obtain ⟨⟨answer, rfl⟩, hfault⟩ := htest
  obtain ⟨panic, m', hpanic, he⟩ := exists_panics hfault
  have hreached : Run (bare 1 0 .empty) [⟨s, .setUpStack, answer, m₁, m⟩] m :=
    ⟨fresh_bare 1 0 .empty, .request (.create .refl hcreate) hstack⟩
  have hcapacity : (bare 1 0 .empty).pool.capacity ≤ maxFrames := by decide
  have hfiles : (Request.handleFault fault).FilesIn m.view := trivial
  obtain ⟨m₃, -, effects, m₂, key, cause, hcourse, hforced, hbroken, hrefuses, rfl⟩ :=
    hreached.stuck_of_panics hcapacity hfiles hpanic
  obtain rfl : cause = .full := by simpa using he
  exact ⟨_, m, s, fault, _, m', hreached, hcapacity, hfiles, hpanic, effects, m₂, key, m₃, hcourse,
    hforced.resolve_right id, hbroken, hrefuses⟩

end DemandPaging
