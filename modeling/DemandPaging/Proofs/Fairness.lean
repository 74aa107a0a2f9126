import DemandPaging.Proofs.Availability
import DemandPaging.Proofs.Duplication

/-!
Frames leave the clock in turn.

The clock is fair as long as nothing but a sweep moves its hand. A frame that goes back to the pool
leaves a gap in the list, at any position, and the hand is corrected for it: the next sweep comes to
the frames that are left in the order in which it would have come to them. This is so for a page that
is paged out or released, and for a claim or a copy that fails with a frame in hand.
-/

namespace DemandPaging

open Machine

namespace Machine

variable {m m₁ m' : Machine} {f : FrameNumber} {index : Nat} {slot : FrameSlot} {key : Key Page}
  {page : Page} {d : Key Directory} {contents : Contents} {source : CopySource} {u : Unit}

structure Rests (m m' : Machine) : Prop where
  frames : m'.frames = m.frames
  hand : m'.hand = m.hand

theorem Rests.round (h : Rests m m') : m'.round = m.round := by
  rw [Machine.round, h.frames, h.hand, Machine.round]

theorem Rests.handInList (h : Rests m m') (hhand : m.HandInList) : m'.HandInList :=
  hhand.of_frames h.frames h.hand

theorem Leaves.of_rests (h : Leaves f m₁ m') (hrests : Rests m m₁) : Leaves f m m' where
  listed := by
    rw [← hrests.frames]
    exact h.listed
  frames := by rw [h.frames, hrests.frames]
  round := by rw [h.round, hrests.round]

/-- Whatever takes a frame off the list, the circle that the hand sees loses that frame alone. -/
structure Fair (m : Machine) : Prop where
  hand : m.HandInList
  pageOut : ∀ key page out m', m.pages.get? key = some page → Returns (pageOut key) m out m' →
    page.frame = none ∧ m' = m ∨ ∃ f, page.frame = some f ∧ Leaves f m m'
  release : ∀ key page m', m.pages.get? key = some page → Returns (release key) m () m' →
    page.frame = none ∧ Rests m m' ∨ ∃ f, page.frame = some f ∧ Leaves f m m'
  /-- A claim that fails had no frame in hand, or it gives it back. -/
  claim : ∀ key directory cause m', Answers (claim key directory) m (.error cause) m' →
    m' = m ∨ ∃ index m₁ f, Returns acquire m (some index) m₁ ∧ Leaves f m₁ m'
  duplicate : ∀ key directory cause m', Answers (duplicate key directory) m (.error cause) m' →
    Rests m m' ∨ ∃ source m₀ index m₁ f, Rests m m₀ ∧
      Returns (acquireBeside source) m₀ (some index) m₁ ∧ Leaves f m₁ m'

/-- Nothing that was done before a frame is taken off the list concerns the list or the hand. -/
theorem leaves_of_removeSlot (hhand : m.HandInList) (hrests : Rests m m₁) (htidy : m₁.Tidy)
    (hslot : m₁.listed[index]? = some slot) (hrun : Returns (removeSlot index) m₁ u m') :
    Leaves slot.frame m m' := by
  have hback := handedBack_of_removeSlot htidy hslot hrun
  exact (leaves_of_eraseIdx htidy.nodup (hrests.handInList hhand) hslot hback.listed
    hback.hand).of_rests hrests

/-! ### Pages that give up their frames -/

theorem leaves_of_pageOut (h : Sound none m) (hhand : m.HandInList)
    (hpage : m.pages.get? key = some page) {out : Bool} (hrun : Returns (pageOut key) m out m') :
    page.frame = none ∧ m' = m ∨ ∃ f, page.frame = some f ∧ Leaves f m m' := by
  simp only [pageOut, returns_bind, returns_getPage, returns_get, and_assoc, exists_and_left,
    exists_eq_left] at hrun
  obtain ⟨_, hpage', hrun⟩ := hrun
  cases hpage.symm.trans hpage'
  cases hframe : page.frame with
  | none =>
      rw [hframe] at hrun
      exact .inl ⟨rfl, (returns_pure.1 hrun).2⟩
  | some f =>
      obtain ⟨index, o, hposition, hslot, -, -⟩ := exists_slot_of_resident h hpage hframe
      rw [hframe, Option.bind_some, hposition] at hrun
      simp only [returns_bind, returns_pure] at hrun
      obtain ⟨_, m₁, hevict, _, m₂, hremove, -, rfl⟩ := hrun
      obtain ⟨⟨contents, swap, files, directories, events, hm₁⟩, -⟩ :=
        returns_evict h hslot rfl hevict
      have hframes : m₁.frames = m.frames := by rw [hm₁]; exact frames_setOwner m index none
      have htidy : m₁.Tidy := h.tidy.congr (by rw [hm₁]; exact ⟨rfl, fun _ => rfl⟩) hframes
      have hslot₁ : m₁.listed[index]? = some ⟨f, none⟩ := by
        rw [hm₁]
        simp [hslot]
      exact .inr ⟨f, rfl, leaves_of_removeSlot hhand ⟨hframes, by rw [hm₁]⟩ htidy hslot₁ hremove⟩

theorem leaves_of_release (h : Sound none m) (hhand : m.HandInList)
    (hpage : m.pages.get? key = some page) (hrun : Returns (release key) m u m') :
    page.frame = none ∧ Rests m m' ∨ ∃ f, page.frame = some f ∧ Leaves f m m' := by
  cases hframe : page.frame with
  | none =>
      obtain ⟨hlisted, -, hstill⟩ := same_of_release_of_absent hpage hframe hrun
      exact .inl ⟨rfl, ⟨by rw [frames, hlisted, frames], hstill⟩⟩
  | some f =>
      obtain ⟨index, o, m₁, hslot, hlisted, hpool, hstill, hremove⟩ :=
        removeSlot_of_release h hpage hframe hrun
      have hframes : m₁.frames = m.frames := by rw [frames, hlisted]; exact frames_setOwner m index none
      have htidy : m₁.Tidy := h.tidy.congr (by rw [hpool]; exact .refl _) hframes
      have hslot₁ : m₁.listed[index]? = some ⟨f, none⟩ := by
        rw [hlisted]
        simp [hslot]
      exact .inr ⟨f, rfl, leaves_of_removeSlot hhand ⟨hframes, hstill⟩ htidy hslot₁ hremove⟩

/-! ### Frames that were taken in vain -/

theorem leaves_of_claim (h : Sound none m) (hhand : m.HandInList) {cause : VmError}
    (hrun : Answers (claim key d) m (.error cause) m') :
    m' = m ∨ ∃ index m₁ f, Returns acquire m (some index) m₁ ∧ Leaves f m₁ m' := by
  simp only [claim_eq, answers_liftM_bind, returns_getPage, and_assoc, exists_and_left,
    exists_eq_left] at hrun
  obtain ⟨page, hpage, hrun⟩ := hrun
  split at hrun
  · cases (answers_pure.1 hrun).1
  simp only [answers_liftM_bind] at hrun
  obtain ⟨acquired, m₁, hacquire, hrun⟩ := hrun
  cases acquired with
  | none =>
      obtain ⟨-, rfl⟩ := answers_throw.1 hrun
      exact .inl (exhausted_of_acquire h hhand hacquire).2
  | some index =>
      obtain ⟨f, hslot, -, htidy⟩ := (course_acquire h hacquire).2.2 index rfl
      have hhand₁ : m₁.HandInList := (keeps_acquire.returns hacquire).steady.hand hhand
      obtain ⟨result, m₂, hbring, ⟨-, -, hremove⟩ | ⟨_, _, -, he, -⟩⟩ := claimInto_parts hslot hrun
      · obtain ⟨bytes, pool, swap, events, hm₂, hallocation, -⟩ := returns_bringIn hbring
        have hrests : Rests m₁ m₂ := by rw [hm₂]; exact ⟨rfl, rfl⟩
        have htidy₂ : m₂.Tidy := htidy.congr (by rw [hm₂]; exact hallocation) hrests.frames
        exact .inr ⟨index, m₁, f, hacquire,
          leaves_of_removeSlot hhand₁ hrests htidy₂ (by rw [hm₂, hslot]) hremove⟩
      · cases he

theorem rests_of_acquireBeside (h : Sound none m) (hhand : m.HandInList)
    (hfrom : CopiesFrom page contents (some source))
    (hrun : Returns (acquireBeside source) m none m') : Rests m m' := by
  obtain ⟨hempty, hnone⟩ := (acquireBeside_eq_none_iff h hhand hfrom hrun).1 rfl
  obtain ⟨-, -, pool, rfl⟩ := idle_of_acquireBeside h hhand hempty hfrom hnone hrun
  exact ⟨rfl, rfl⟩

theorem leaves_of_duplicate (h : Sound none m) (hhand : m.HandInList) {cause : VmError}
    (hrun : Answers (duplicate key d) m (.error cause) m') :
    Rests m m' ∨ ∃ source m₀ index m₁ f, Rests m m₀ ∧
      Returns (acquireBeside source) m₀ (some index) m₁ ∧ Leaves f m₁ m' := by
  simp only [duplicate_eq, answers_liftM_bind, returns_getPage, and_assoc, exists_and_left,
    exists_eq_left] at hrun
  obtain ⟨page, hpage, hrun⟩ := hrun
  have hfits : page.contents.Fits page.isResident := h.coherent.fits hpage
  rw [answers_bind] at hrun
  rcases hrun with ⟨_, -, hcontents⟩ | ⟨⟨contents, source⟩, m₀, hcontents, hrun⟩
  · obtain ⟨-, ⟨files, rfl⟩, -⟩ := answers_copyContents hfits hcontents
    exact .inl ⟨rfl, rfl⟩
  obtain ⟨hview, ⟨files, hm₀⟩, hsource⟩ := answers_copyContents hfits hcontents
  obtain ⟨-, hfrom, -⟩ := hsource contents source rfl
  have hrests : Rests m m₀ := by rw [hm₀]; exact ⟨rfl, rfl⟩
  have h₀ : Sound none m₀ := h.of_view hview (h.tidy.of_eq (by rw [hm₀]) (by rw [hm₀]))
  have hpage₀ : m₀.pages.get? key = some page := by rw [hm₀, hpage]
  have hhand₀ := hrests.handInList hhand
  rw [answers_liftM_computed_bind] at hrun
  obtain ⟨copy, -, hrun⟩ := hrun
  cases source with
  | none =>
      obtain ⟨_, he, -⟩ := answers_liftM.1 hrun
      cases he
  | some source =>
      simp only [answers_liftM_bind] at hrun
      obtain ⟨acquired, m₁, hacquire, hrun⟩ := hrun
      cases acquired with
      | none =>
          obtain ⟨-, rfl⟩ := answers_throw.1 hrun
          have hidle := rests_of_acquireBeside h₀ hhand₀ hfrom hacquire
          exact .inl ⟨hidle.frames.trans hrests.frames, hidle.hand.trans hrests.hand⟩
      | some index =>
          obtain ⟨-, hpage₁, -, -, hsome⟩ := course_acquireBeside h₀ hpage₀ hfrom hacquire
          obtain ⟨f, hslot, -, htidy⟩ := hsome index rfl
          have hhand₁ : m₁.HandInList :=
            ((keeps_acquireBeside source).returns hacquire).steady.hand hhand₀
          obtain ⟨copied, m₂, hbytes, ⟨-, -, hremove⟩ | ⟨-, he, -⟩⟩ := copyInto_parts hslot hrun
          · obtain ⟨-, -, -, pool, swap, hm₂, hallocation⟩ := returns_copyBytes hpage₁ hfrom hbytes
            have hrests₂ : Rests m₁ m₂ := by rw [hm₂]; exact ⟨rfl, rfl⟩
            have htidy₂ : m₂.Tidy := htidy.congr (by rw [hm₂]; exact hallocation) hrests₂.frames
            exact .inr ⟨source, m₀, index, m₁, f, hrests, hacquire,
              leaves_of_removeSlot hhand₁ hrests₂ htidy₂ (by rw [hm₂, hslot]) hremove⟩
          · cases he

theorem Sound.isFair (h : Sound none m) (hhand : m.HandInList) : Fair m where
  hand := hhand
  pageOut _ _ _ _ hpage hrun := leaves_of_pageOut h hhand hpage hrun
  release _ _ _ hpage hrun := leaves_of_release h hhand hpage hrun
  claim _ _ _ _ hrun := leaves_of_claim h hhand hrun
  duplicate _ _ _ _ hrun := leaves_of_duplicate h hhand hrun

end Machine

/-! ### Runs -/

variable {start m : Machine} {history : List Done}

theorem Fresh.frames_eq_nil (h : Fresh m) : m.frames = [] := by
  rw [Machine.frames, h.listed, List.map_nil]

theorem Fresh.accounts (h : Fresh m) : m.Accounts where
  pool := h.pool
  nodup := by
    rw [h.frames_eq_nil]
    exact List.nodup_nil
  allocated := by
    rw [h.frames_eq_nil]
    exact fun _ hmem => absurd hmem List.not_mem_nil

/-- All along a run the frames in use are listed in the order in which the pool handed them out, and
the circle that the hand sees changes by a new frame at the end of the list, by a step of a sweep, or
by the loss of a frame. -/
theorem Run.fair (h : Run start history m) (hhand : start.hand = 0) :
    Fair m ∧ Turns start m ∧ ∃ log, m.poolLog = start.poolLog ++ log ∧
      m.frames = log.foldl Event.onFrames [] := by
  have hturns := h.reaches.steady.turns h.fresh.accounts (.inl hhand)
  obtain ⟨log, hlog, hframes⟩ := frames_of_turns hturns
  rw [h.fresh.frames_eq_nil] at hframes
  exact ⟨h.sound.isFair (h.handInList hhand), hturns, log, hlog, hframes⟩

/-- Four pages of a stack have come to three frames, so that the hand stands at the second one, and
then the page in that frame is paged out. -/
theorem fair_of_pageOut : ∃ history m, Run (bare 3 3 .empty) history m ∧
    m.frames = [⟨0⟩, ⟨2⟩] ∧ m.round = [⟨2⟩, ⟨0⟩] ∧
      Fair m ∧ Turns (bare 3 3 .empty) m ∧ ∃ log, m.poolLog = (bare 3 3 .empty).poolLog ++ log ∧
        m.frames = log.foldl Event.onFrames [] := by
  have htest : returnsWith (do
        let s ← Space.create "init"
        let _ ← Request.setUpStack.perform? s
        let _ ← (Request.handleFault ⟨⟨userStack - 2 * pageSize, by decide⟩, true, true, true,
          userStack - 4 * pageSize⟩).perform? s
        let _ ← (Request.handleFault ⟨⟨userStack - 3 * pageSize, by decide⟩, true, true, true,
          userStack - 4 * pageSize⟩).perform? s
        let _ ← (Request.handleFault ⟨⟨userStack - 4 * pageSize, by decide⟩, true, true, true,
          userStack - 4 * pageSize⟩).perform? s
        (Request.pageOut ⟨userStack - 2 * pageSize, by decide⟩).perform? s) (bare 3 3 .empty)
      (fun _ m => m.frames == [⟨0⟩, ⟨2⟩] && m.round == [⟨2⟩, ⟨0⟩]) = true := by
    decide +kernel
  obtain ⟨_, m, hrun, htest⟩ := exists_returns htest
  simp only [returns_bind] at hrun
  obtain ⟨_, m₁, hcreate, _, m₂, hstack, _, m₃, hgrow₂, _, m₄, hgrow₃, _, m₅, hgrow₄, hout⟩ := hrun
  obtain ⟨_, hreached⟩ := (Reaches.refl.create hcreate).perform? hstack
  obtain ⟨_, hreached⟩ := hreached.perform? hgrow₂
  obtain ⟨_, hreached⟩ := hreached.perform? hgrow₃
  obtain ⟨_, hreached⟩ := hreached.perform? hgrow₄
  obtain ⟨history, hreached⟩ := hreached.perform? hout
  have hrun : Run (bare 3 3 .empty) history m := ⟨fresh_bare 3 3 .empty, hreached⟩
  simp only [Bool.and_eq_true, beq_iff_eq] at htest
  exact ⟨history, m, hrun, htest.1, htest.2, hrun.fair rfl⟩

end DemandPaging
