import DemandPaging.Proofs.Space.Outcome

/-!
Runs of the system.

A run starts when the frame table takes over the pool and the swap area: some frames and slots may be
in use for other purposes, but no page, no page directory and no address space is there yet. From
then on address spaces are created and asked for things, in any order, and clients open and close
files. A run goes on as long as nothing panics. Its history is the list of the requests that were
carried out, the last one first, each with its answer and the states before and after it.

Whatever a run does is a course of steps, so what every step keeps holds at its end.
-/

namespace DemandPaging

open Machine Space

structure Done where
  space : Key AddressSpace
  {α : Type}
  request : Request α
  answer : α
  before : Machine
  after : Machine

/-- The system before the first address space is created. -/
structure Fresh (m : Machine) : Prop where
  pool : m.pool.Consistent
  listed : m.listed = []
  pages : ∀ key, m.pages.get? key = none
  directories : ∀ key, m.directories.get? key = none
  spaces : ∀ key, m.spaces.get? key = none

/-- From one state to another by a history of requests. -/
inductive Reaches (m : Machine) : List Done → Machine → Prop where
  | refl : Reaches m [] m
  | create {history : List Done} {m₁ m₂ : Machine} {name : String} {s : Key AddressSpace}
      (h : Reaches m history m₁) (hrun : Returns (create name) m₁ s m₂) : Reaches m history m₂
  | clients {history : List Done} {m₁ : Machine} (h : Reaches m history m₁)
      (clients : List Handle) : Reaches m history { m₁ with clients }
  | request {history : List Done} {m₁ m₂ : Machine} {s : Key AddressSpace} {α : Type}
      {request : Request α} {answer : α} (h : Reaches m history m₁)
      (hrun : Returns (request.perform? s) m₁ (some answer) m₂) :
      Reaches m (⟨s, request, answer, m₁, m₂⟩ :: history) m₂

/-- A run from the first address space on. -/
structure Run (start : Machine) (history : List Done) (m : Machine) : Prop where
  fresh : Fresh start
  reaches : Reaches start history m

variable {start m m' : Machine} {history : List Done} {d : Done}

def Machine.bare (frames slots : Nat) (files : Arena File) : Machine :=
  { blank with
    pool := .ofCapacity frames
    swap := .ofDisk (.ofSize (slots * sectorsPerPage))
    files }

theorem fresh_bare (frames slots : Nat) (files : Arena File) : Fresh (bare frames slots files) where
  pool := Pool.consistent_ofCapacity frames
  listed := rfl
  pages := Arena.get?_empty
  directories := Arena.get?_empty
  spaces := Arena.get?_empty

theorem isOccupied_bare (frames slots : Nat) (files : Arena File) (slot : SwapSlot) :
    (bare frames slots files).swap.isOccupied slot = false := Bitmap.get_empty _ _

theorem Fresh.sound (h : Fresh m) : Sound none m where
  tidy :=
    { pool := h.pool
      nodup := by
        rw [h.listed]
        exact List.nodup_nil }
  coherent := by
    have howner : ∀ f, m.view.owner f = none := fun f => by
      simp only [view, h.listed, ownerIn, List.find?_nil, Option.map_none]
    have hpage : ∀ key, m.view.page key = none := h.pages
    have hgrant : ∀ d va, m.view.grant d va = none := fun d va => by
      simp only [view, h.directories, Option.bind_none]
    have hpageOf : ∀ s n, m.view.pageOf s n = none := fun s n => by
      simp only [view, h.spaces, Option.bind_none]
    have hdirectoryOf : ∀ s, m.view.directoryOf s = none := fun s => by
      simp only [view, h.spaces, Option.map_none]
    refine ⟨⟨?_, ?_, ?_, ?_, ?_⟩, ⟨?_, ?_, ?_, ?_, ?_, ?_, ?_, ?_⟩, ?_, ?_⟩ <;>
      simp [howner, hpage, hgrant, hpageOf, hdirectoryOf]

/-! ### Histories -/

theorem Request.returns_perform? {s : Key AddressSpace} {α : Type} {request : Request α}
    {answer : α} : Returns (request.perform? s) m (some answer) m' ↔
      (∃ space, m.spaces.get? s = some space) ∧ Returns (request.perform s) m answer m' := by
  rw [perform?, returns_get_bind]
  split
  · next space hspace =>
    simp only [hspace, returns_bind, returns_pure, Option.some.injEq]
    constructor
    · rintro ⟨_, _, hrun, rfl, rfl⟩
      exact ⟨⟨space, rfl⟩, hrun⟩
    · rintro ⟨-, hrun⟩
      exact ⟨_, _, hrun, rfl, rfl⟩
  · next hspace => simp [hspace, returns_pure]

theorem Request.returns_perform?_none {s : Key AddressSpace} {α : Type} {request : Request α} :
    Returns (request.perform? s) m none m' ↔ m.spaces.get? s = none ∧ m' = m := by
  rw [perform?, returns_get_bind]
  split
  · next space hspace =>
    simp only [hspace, returns_bind, returns_pure, reduceCtorEq, false_and, and_false,
      exists_false]
  · next hspace => simp [hspace, returns_pure]

namespace Reaches

theorem perform? {m₁ m₂ : Machine} {s : Key AddressSpace} {α : Type} {request : Request α}
    {answer? : Option α} (h : Reaches m history m₁)
    (hrun : Returns (request.perform? s) m₁ answer? m₂) : ∃ history', Reaches m history' m₂ := by
  cases answer? with
  | some answer => exact ⟨_, h.request hrun⟩
  | none =>
      obtain ⟨-, rfl⟩ := Request.returns_perform?_none.1 hrun
      exact ⟨_, h⟩

theorem trans {m₁ m₂ : Machine} {later : List Done} (h : Reaches m history m₁)
    (h' : Reaches m₁ later m₂) : Reaches m (later ++ history) m₂ := by
  induction h' with
  | refl => exact h
  | create _ hrun ih => exact ih.create hrun
  | clients _ handles ih => exact ih.clients handles
  | request _ hrun ih => exact ih.request hrun

/-! ### Courses -/

/-- What a request, carried out in a sound state, had for an outcome. -/
theorem exists_outcome (hsound : Sound none d.before)
    (hrun : Returns (d.request.perform? d.space) d.before (some d.answer) d.after) :
    ∃ effects, Outcome d.space d.before d.after d.request d.answer effects :=
  Request.exists_outcome hsound (Request.returns_perform?.1 hrun).2

theorem course (h : Reaches m history m') (hsound : Sound none m) :
    ∃ effects, Course effects none m none m' := by
  induction h with
  | refl => exact ⟨[], .refl hsound⟩
  | create _ hrun ih =>
      obtain ⟨effects, hcourse⟩ := ih
      exact ⟨_, hcourse.trans (returns_create (hcourse.sound hsound) hrun).course⟩
  | clients _ handles ih =>
      obtain ⟨effects, hcourse⟩ := ih
      exact ⟨effects, hcourse.to_view rfl (hcourse.tidy.of_eq rfl rfl)⟩
  | request _ hrun ih =>
      obtain ⟨effects, hcourse⟩ := ih
      obtain ⟨rest, houtcome⟩ := Request.exists_outcome (hcourse.sound hsound)
        (Request.returns_perform?.1 hrun).2
      exact ⟨_, hcourse.trans houtcome.course⟩

/-- The hand stays in the list, and the swap device is the same all along. -/
theorem steady (h : Reaches m history m') : Steady m m' := by
  induction h with
  | refl => exact .refl m
  | create _ hrun ih => exact ih.trans (others_of_create hrun).2.steady
  | clients _ handles ih => exact ih.trans (.of_eq rfl)
  | request _ hrun ih =>
      obtain ⟨_, hothers⟩ := Request.exists_others (Request.returns_perform?.1 hrun).2
      exact ih.trans hothers.steady

theorem sound (h : Reaches m history m') (hsound : Sound none m) : Sound none m' := by
  obtain ⟨effects, hcourse⟩ := h.course hsound
  exact hcourse.sound hsound

end Reaches

namespace Run

theorem sound (h : Run start history m) : Sound none m := h.reaches.sound h.fresh.sound

/-- What holds at the start and is kept by every step holds at the end of a run. -/
theorem preserves {P : Option FrameNumber → View → Prop} (h : Run start history m)
    (hstart : P none start.view)
    (hstep : ∀ {effects x v x' v'}, Coherent x v → Step effects x v x' v' → P x v → P x' v') :
    P none m.view := by
  obtain ⟨effects, hcourse⟩ := h.reaches.course h.fresh.sound
  exact (hcourse.steps.preserves (P := fun x v => Coherent x v ∧ P x v)
    (fun hstep' hand => ⟨hstep'.coherent hand.1, hstep hand.1 hstep' hand.2⟩)
    ⟨h.fresh.sound.coherent, hstart⟩).2

end Run

end DemandPaging
