import DemandPaging.Proofs.Backing.Device
import DemandPaging.Proofs.Panics.Supply

/-!
The one panic.

An anonymous page that has to leave its frame has nowhere to go but to swap. Where swap does not take
it, because no slot is free or the device refuses a sector, the run stops. Nothing else can go wrong
with an eviction, and none is tried as long as the pool has a free frame, unless a page is asked out
of its frame.

What is said of the stop is said of the state in which the eviction began; the state that it leaves
behind is no longer coherent, but pages can still be given up in it.
-/

namespace DemandPaging

open Machine

/-! ### The stop -/

/-- Swap was asked to take a page out of its frame and refused, which left the swap area as `swap`. -/
def Machine.Denied (m : Machine) (key : Key Page) (cause : SwapError) (swap : Swap) : Prop :=
  ∃ page f bytes, m.pages.get? key = some page ∧ page.contents = .anonymous none ∧
    page.frame = some f ∧ m.pool.bytes? f = some bytes ∧ m.swap.store bytes = (.error cause, swap)

/-- A page that could not leave its frame if it had to. -/
def Machine.Stuck (m : Machine) (key : Key Page) (cause : SwapError) : Prop :=
  ∃ swap, m.Denied key cause swap

/-- A page has to leave its frame: the pool has no other one, and the clock comes to this one. -/
def Machine.HasToLeave (m : Machine) (key : Key Page) : Prop :=
  m.freeFrames = 0 ∧ ∃ index slot o m', Returns selectVictim m (some index) m' ∧
    m'.listed[index]? = some slot ∧ slot.owner = some o ∧ o.page = key

/-- An eviction was begun in `m₁` and broken off, which left `m'` behind: the frame has lost its
owner, and nothing has become of its page. -/
structure Machine.BrokenOff (m₁ : Machine) (key : Key Page) (cause : SwapError) (m' : Machine) :
    Prop where
  pages : m'.pages = m₁.pages
  spaces : m'.spaces = m₁.spaces
  pool : m'.pool = m₁.pool
  denied : m₁.Denied key cause m'.swap

/-- How a run that started in `m` is stopped in `m'`: on its way it came to a state in which an
anonymous page had to leave its frame, because there was no free one or because it was asked to, and
there the eviction was broken off. -/
def StopCause (asked : Key Page → Prop) (m : Machine) (panic : Panic) (m' : Machine) : Prop :=
  ∃ effects m₁ key cause, Course effects none m none m₁ ∧ (m₁.HasToLeave key ∨ asked key) ∧
    m₁.BrokenOff key cause m' ∧ panic = .anonymousPageStuck cause

/-- A run is stopped so, and in the state that it leaves behind pages can be given up. -/
structure Stopped (asked : Key Page → Prop) (m : Machine) (panic : Panic) (m' : Machine) : Prop where
  cause : StopCause asked m panic m'
  solid : m'.Solid

variable {m m₁ m' : Machine} {asked : Key Page → Prop} {panic : Panic} {effects : List Effect}

namespace Machine

variable {key : Key Page} {cause : SwapError}

/-- A page is stuck where no slot is free or the device refuses a sector of the slot it was to have. -/
theorem Stuck.refuses (h : m.Stuck key cause) : m.swap.Refuses cause := by
  obtain ⟨_, _, _, _, -, -, -, -, hstore⟩ := h
  exact (Swap.refuses_of_store hstore).1

theorem BrokenOff.stuck (h : m₁.BrokenOff key cause m') : m₁.Stuck key cause := ⟨_, h.denied⟩

theorem BrokenOff.of_eq (h : m₁.BrokenOff key cause m') (hpages : m.pages = m₁.pages)
    (hspaces : m.spaces = m₁.spaces) (hpool : m.pool = m₁.pool) (hswap : m.swap = m₁.swap) :
    m.BrokenOff key cause m' where
  pages := h.pages.trans hpages.symm
  spaces := h.spaces.trans hspaces.symm
  pool := h.pool.trans hpool.symm
  denied := by
    rw [Denied, hpages, hpool, hswap]
    exact h.denied

end Machine

theorem StopCause.after (h : StopCause asked m₁ panic m') (hcourse : Course effects none m none m₁) :
    StopCause asked m panic m' := by
  obtain ⟨rest, m₂, key, cause, hrest, hstop⟩ := h
  exact ⟨_, m₂, key, cause, hcourse.trans hrest, hstop⟩

theorem PanicsOnly.after {α : Type} {action : Action α} (h : PanicsOnly (Stopped asked m₁) action m₁)
    (hcourse : Course effects none m none m₁) : PanicsOnly (Stopped asked m) action m₁ :=
  h.mono fun _ _ hstop => ⟨hstop.cause.after hcourse, hstop.solid⟩

/-- A frame loses its owner, and nothing that pages name is gone. -/
theorem Firm.loosened {v v' : View} (h : Firm v) {f : FrameNumber}
    (hlisted : v.owner f ≠ none) (howner : v'.owner = Function.update v.owner f (some none))
    (hallocated : v'.isAllocated = v.isAllocated) (hdirectory : v'.hasDirectory = v.hasDirectory)
    (hpage : v'.page = v.page) (hoccupied : v'.isOccupied = v.isOccupied) (hfile : v'.file = v.file)
    (hplace : v'.pageOf = v.pageOf) (hregion : v'.regionOf = v.regionOf) : Firm v' := by
  have hslot : v'.slotOf = v.slotOf := by
    funext key
    rw [View.slotOf, View.slotOf, hpage]
  refine ⟨fun {g entry} hg => ?_, ?_, fun {g o} hg => ?_, fun {key p g} hp hg => ?_, ?_, ?_, ?_, ?_,
    ?_, ?_, ?_⟩
  · rw [howner, Function.update_apply] at hg
    rw [hallocated]
    split at hg
    · next hgf =>
      obtain ⟨entry', hentry⟩ := Option.ne_none_iff_exists'.1 hlisted
      exact hgf ▸ h.allocated hentry
    · exact h.allocated hg
  · rw [hallocated]
    exact h.inRange
  · rw [howner, Function.update_apply] at hg
    rw [hdirectory]
    split at hg
    · cases hg
    · exact h.mapped hg
  · rw [hpage] at hp
    rw [howner, Function.update_apply]
    split
    · exact Option.some_ne_none _
    · exact h.listed hp hg
  · rw [hpage]
    exact h.single
  · rw [hslot, hoccupied]
    exact h.occupied
  · rw [hslot]
    exact h.apart
  · rw [hpage, hfile]
    exact h.file
  · rw [hplace, hpage]
    exact h.placed
  · rw [hplace]
    exact h.alone
  · rw [hregion]
    exact h.region

/-! ### Evicting -/

section

variable {index : Nat} {slot : FrameSlot} {o : Owner} {f : FrameNumber}

theorem completes_storeInSwap (bytes : PageBytes) : Completes (storeInSwap bytes) m fun result m' =>
    ∀ cause, result = .error cause → ∃ swap, m.swap.store bytes = (.error cause, swap) ∧
      m' = { m with swap } := by
  unfold storeInSwap
  refine Ends.step (returns_asPage_self bytes) (Ends.get_bind ?_)
  cases hstore : m.swap.store bytes with
  | mk result swap =>
  simp only
  cases result with
  | ok slot =>
      refine Ends.modify_bind (Ends.modify_bind (Ends.pure ?_))
      intro _ he
      cases he
  | error cause =>
      refine Ends.modify_bind (Ends.pure ?_)
      intro _ he
      cases he
      exact ⟨swap, rfl, rfl⟩

/-- Moving contents that may be resident out of their frame stops only where swap refuses them. -/
theorem panicsOnly_moveOut {contents : Contents} {dirty : Bool} (hframe : m.HasFrame f)
    (hfits : contents.Fits true) (hsupplied : contents.Supplied m.view) :
    PanicsOnly (fun panic m' => ∃ bytes cause swap, contents = .anonymous none ∧
      m.pool.bytes? f = some bytes ∧ m.swap.store bytes = (.error cause, swap) ∧
      panic = .anonymousPageStuck cause ∧ m' = { m with swap }) (moveOut contents f dirty) m := by
  unfold moveOut
  refine .bind (panicsOnly_frameBytes hframe) fun buffer m₁ hbuffer => ?_
  obtain ⟨hbytes, rfl⟩ := returns_frameBytes hbuffer
  cases contents with
  | pending source => cases hfits
  | anonymous slot =>
      obtain rfl : slot = none := Option.isNone_iff_eq_none.1 hfits
      refine .bind ?_ fun _ _ _ => .pure _
      refine Ends.bind (completes_storeInSwap buffer |>.mono (fun _ _ _ => id) fun _ _ => False.elim)
        fun result m₂ _ hresult => ?_
      cases result with
      | ok slot => trivial
      | error cause =>
          obtain ⟨swap, hstore, hm₂⟩ := hresult cause rfl
          exact ⟨buffer, cause, swap, rfl, hbytes, hstore, rfl, hm₂⟩
  | file slice =>
      exact .bind (panicsOnly_evictToSlice (hsupplied.file rfl) buffer dirty) fun _ _ _ => .pure _

/-- Evicting a page stops only where the page is stuck. -/
theorem stuck_of_evict (h : Ready none m) (hslot : m.listed[index]? = some slot)
    (howner : slot.owner = some o) : PanicsOnly (fun panic m' => ∃ cause,
      m.BrokenOff o.page cause m' ∧ panic = .anonymousPageStuck cause ∧ m'.Solid) (evict index) m := by
  have hview : m.view.owner slot.frame = some (some o) := by
    rw [← howner]
    exact ownerIn_of_getElem? h.sound.tidy.nodup hslot
  obtain ⟨page, -, hpage, hframe, -⟩ := h.sound.coherent.residency.linked hview
  have hfound : m.pages.get? o.page = some page := hpage
  have hfits := h.sound.coherent.fits hpage
  rw [Page.isResident, hframe] at hfits
  unfold evict
  refine .step (returns_getSlot.2 ⟨hslot, rfl⟩) ?_
  simp only [howner]
  refine .modify_bind (.get_bind ?_)
  simp only [hfound]
  have hunowned := view_setOwner m h.sound.tidy.nodup hslot none
  refine .bind (panicsOnly_unmapOwner (h.hasDirectory hview)) fun dirty m₁ hunmap => ?_
  obtain ⟨-, hview₁, directories, hm₁⟩ := returns_unmapOwner hunmap
  rw [hunowned] at hview₁
  have hframe₁ : m₁.HasFrame slot.frame := by
    obtain ⟨hin, hrange⟩ := h.hasFrame hview
    exact ⟨by rw [hview₁]; exact hin, hrange⟩
  have hsupplied₁ : page.contents.Supplied m₁.view := by
    refine (h.supplied.contents hpage).mono fun hf => ?_
    rw [hview₁]
    exact hf
  refine .bind ((panicsOnly_moveOut hframe₁ hfits hsupplied₁).mono fun panic m₂ hstop => ?_)
    fun contents m₂ _ => .modify_bind (.modify _)
  obtain ⟨bytes, cause, swap, hcontents, hbytes, hstore, rfl, hm₂⟩ := hstop
  rw [hm₁] at hbytes hstore
  have hoccupied := (Swap.refuses_of_store hstore).2
  refine ⟨cause, ⟨by rw [hm₂, hm₁], by rw [hm₂, hm₁], by rw [hm₂, hm₁], page, slot.frame, bytes,
    hpage, hcontents, hframe, hbytes, ?_⟩, rfl, h.sound.tidy.congr ?_ ?_, ?_⟩
  · rw [hm₂]
    exact hstore
  · rw [hm₂, hm₁]
    exact ⟨rfl, fun _ => rfl⟩
  · rw [hm₂, hm₁]
    exact map_frame_modify _ _ _
  · -- the slots are as full as before, and the frame has no owner any more
    have hkept : ({ m₁ with swap } : Machine).view =
        { m₁.view with
          slots := swap.slotCount
          isOccupied := m.swap.isOccupied
          pageIn := swap.pageIn } := by
      rw [← hoccupied]
      rfl
    rw [hm₂, hkept, hview₁]
    exact h.firm.loosened (by rw [hview]; exact Option.some_ne_none _) rfl rfl rfl rfl rfl rfl rfl rfl

theorem panicsOnly_evict (h : Ready none m) (hslot : m.listed[index]? = some slot)
    (howner : slot.owner = some o) (hasked : asked o.page) :
    PanicsOnly (Stopped asked m) (evict index) m :=
  (stuck_of_evict h hslot howner).mono fun _ _ ⟨cause, hbroken, hpanic, hsolid⟩ =>
    ⟨⟨[], m, o.page, cause, .refl h.sound, .inr hasked, hbroken, hpanic⟩, hsolid⟩

/-! ### The clock -/

theorem completes_sweep {steps : Nat} (h : Ready none m) (hlisted : steps = 0 ∨ m.listed ≠ []) :
    Completes (sweep steps) m fun _ _ => True := by
  induction steps generalizing m with
  | zero => exact trivial
  | succ steps ih =>
      have hne := hlisted.resolve_left (Nat.succ_ne_zero steps)
      have hlt : m.hand % m.listed.length < m.listed.length :=
        Nat.mod_lt _ (List.length_pos_iff.2 hne)
      have hslot := List.getElem?_eq_getElem hlt
      have hlisting := ownerIn_of_getElem? h.sound.tidy.nodup hslot
      unfold sweep
      refine Ends.get_bind (Ends.modify_bind (Ends.step (returns_getSlot.2 ⟨hslot, rfl⟩) ?_))
      generalize hm₁ : ({ m with hand := (m.hand % m.listed.length + 1) % m.listed.length } :
        Machine) = m₁
      have h₁ : Ready none m₁ :=
        h.silent (by rw [← hm₁]; rfl) (h.sound.tidy.of_eq (by rw [← hm₁]) (by rw [← hm₁]))
      have hne₁ : m₁.listed ≠ [] := by rwa [← hm₁]
      generalize m.listed[m.hand % m.listed.length] = slot at hlisting
      cases howner : slot.owner with
      | none => exact ih h₁ (.inr hne₁)
      | some o =>
          have hview : m₁.view.owner slot.frame = some (some o) := by
            rw [← hm₁, ← howner]
            exact hlisting
          obtain ⟨frame, hframe⟩ := (h₁.hasFrame hview).exists_frame
          have hmapped := h₁.hasDirectory hview
          refine Ends.step (returns_liftM.2 ⟨by rw [← hm₁] at hframe; exact hframe, rfl⟩) ?_
          split
          · exact ih h₁ (.inr hne₁)
          refine Ends.bind (panicsOnly_testFlag hmapped .accessed) fun accessed m₂ htest _ => ?_
          obtain ⟨rfl, -⟩ := returns_testFlag htest
          split
          · refine Ends.bind (panicsOnly_setFlag hmapped .accessed false) fun _ m₃ hclear _ => ?_
            obtain ⟨hsame, directories, rfl⟩ := returns_clearAccessed hclear
            exact ih (h₁.silent hsame (h₁.sound.tidy.of_eq rfl rfl)) (.inr hne₁)
          · exact Ends.pure trivial

theorem completes_selectVictim (h : Ready none m) :
    Completes selectVictim m fun _ _ => True := by
  unfold selectVictim
  refine Ends.get_bind (completes_sweep h ?_)
  cases hlisted : m.listed with
  | nil => exact .inl rfl
  | cons slot rest => exact .inr (List.cons_ne_nil _ _)

theorem panicsOnly_acquire_of_evict {stop : Panic → Machine → Prop} (h : Ready none m)
    (hstop : ∀ index m₁, m.freeFrames = 0 → Returns selectVictim m (some index) m₁ →
      PanicsOnly stop (evict index) m₁) : PanicsOnly stop acquire m := by
  unfold acquire allocateFrame
  simp only [bind_assoc]
  refine .get_bind ?_
  cases hpool : m.pool.allocate with
  | some handed =>
      simp only [bind_assoc, pure_bind]
      exact .modify_bind (.modify_bind (.get_bind (.modify_bind (.pure _))))
  | none =>
      simp only [pure_bind]
      refine .bind (completes_selectVictim h).panicsOnly fun victim m₁ hselect => ?_
      cases victim with
      | none => exact .pure _
      | some index =>
          exact .bind (hstop index m₁ (freeFrames_eq_zero.2 hpool) hselect) fun _ _ _ => .pure _

/-- Acquiring a frame stops only where the pool is empty and the page that has to go is stuck. -/
theorem panicsOnly_acquire (h : Ready none m) : PanicsOnly (Stopped asked m) acquire m := by
  refine panicsOnly_acquire_of_evict h fun index m₁ hempty hselect => ?_
  obtain ⟨hview, ⟨hand, directories, rfl⟩, hvictim⟩ := returns_selectVictim hselect
  obtain ⟨slot, o, hslot, howner, -⟩ := hvictim index rfl
  refine (stuck_of_evict (h.silent hview (h.sound.tidy.of_eq rfl rfl)) hslot howner).mono
    fun _ _ ⟨cause, hbroken, hpanic, hsolid⟩ => ⟨⟨[], m, o.page, cause, .refl h.sound, .inl ?_,
      hbroken.of_eq rfl rfl rfl rfl, hpanic⟩, hsolid⟩
  exact ⟨hempty, index, slot, o, _, hselect, hslot, howner, rfl⟩

end

end DemandPaging
