import DemandPaging.Proofs.Coherence
import DemandPaging.Proofs.Machine.Components

/-!
Operations as chains of steps.

The view takes two things for granted: that the pool keeps its books and that no frame is listed
twice. A state is sound if it is tidy in this sense and its view is coherent, and an operation that
was started in a sound state runs a course: a chain of steps that ends in a tidy state, and therefore
in a sound one. Courses are put together end to end, as the actions they come from.
-/

namespace DemandPaging

namespace Machine

structure Tidy (m : Machine) : Prop where
  pool : m.pool.Consistent
  nodup : (m.listed.map (·.frame)).Nodup

/-- A state that may be met between two steps, with the frame that has no owner. -/
structure Sound (x : Option FrameNumber) (m : Machine) : Prop where
  tidy : m.Tidy
  coherent : Coherent x m.view

/-- From one state to another by a chain of steps. -/
structure Course (effects : List Effect) (x : Option FrameNumber) (m : Machine)
    (x' : Option FrameNumber) (m' : Machine) : Prop where
  steps : Steps effects x m.view x' m'.view
  tidy : m'.Tidy

variable {effects rest : List Effect} {x x₁ x' : Option FrameNumber} {m m₁ m' : Machine}

theorem Tidy.congr (h : m.Tidy) (hpool : Pool.SameAllocation m.pool m'.pool)
    (hlisted : m'.listed.map (·.frame) = m.listed.map (·.frame)) : m'.Tidy where
  pool := h.pool.of_sameAllocation hpool
  nodup := by
    rw [hlisted]
    exact h.nodup

theorem Tidy.of_eq (h : m.Tidy) (hpool : m'.pool = m.pool) (hlisted : m'.listed = m.listed) :
    m'.Tidy where
  pool := by
    rw [hpool]
    exact h.pool
  nodup := by
    rw [hlisted]
    exact h.nodup

theorem Sound.of_view (h : Sound x m) (hview : m'.view = m.view) (htidy : m'.Tidy) : Sound x m' where
  tidy := htidy
  coherent := by
    rw [hview]
    exact h.coherent

theorem Course.sound (hcourse : Course effects x m x' m') (h : Sound x m) : Sound x' m' where
  tidy := hcourse.tidy
  coherent := hcourse.steps.coherent h.coherent

theorem Course.silent (htidy : m'.Tidy) (hview : m'.view = m.view) : Course [] x m x m' where
  steps := by
    rw [hview]
    exact .nil
  tidy := htidy

theorem Course.refl (h : Sound x m) : Course [] x m x m := .silent h.tidy rfl

theorem Course.trans (h : Course effects x m x₁ m₁) (h' : Course rest x₁ m₁ x' m') :
    Course (effects ++ rest) x m x' m' where
  steps := h.steps.trans h'.steps
  tidy := h'.tidy

theorem Course.single {v' : View} (hstep : Step effects x m.view x' v') (hview : m'.view = v')
    (htidy : m'.Tidy) : Course effects x m x' m' where
  steps := by
    rw [hview]
    exact .single hstep
  tidy := htidy

theorem Course.of_view (h : Course effects x m₁ x' m') (hview : m₁.view = m.view) :
    Course effects x m x' m' where
  steps := by
    rw [← hview]
    exact h.steps
  tidy := h.tidy

theorem Course.to_view (h : Course effects x m x' m₁) (hview : m'.view = m₁.view)
    (htidy : m'.Tidy) : Course effects x m x' m' where
  steps := by
    rw [hview]
    exact h.steps
  tidy := htidy

end Machine

end DemandPaging
