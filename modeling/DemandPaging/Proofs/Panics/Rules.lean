import DemandPaging.Proofs.Completion

/-!
Actions that end well.

`Returns` speaks of the runs of an action that reach the end. Here it is said that there are no other
runs, or which ones there are: `Ends action m post stop` says that the action, started in `m`, either
returns as `post` says or panics as `stop` says. An action that cannot panic `Completes`, and
one of which nothing is to be said when it returns is described by `PanicsOnly`.

Such a statement is proved from the front. A part that is known to return is stepped over; after any
other part the proof goes on with the fact that it returned, from which the lemmas about completed
operations say where that leaves the state.
-/

namespace DemandPaging

/-- Started in `m`, the action panics and ends in `m'`. -/
def Panics {α : Type} (action : Action α) (m : Machine) (panic : Panic) (m' : Machine) : Prop :=
  action m = .error panic m'

/-- Started in `m`, the action returns as `post` says or panics as `stop` says. -/
def Ends {α : Type} (action : Action α) (m : Machine) (post : α → Machine → Prop)
    (stop : Panic → Machine → Prop) : Prop :=
  match action m with
  | .ok answer m' => post answer m'
  | .error panic m' => stop panic m'

/-- Started in `m`, the action panics only as `stop` says. -/
def PanicsOnly {α : Type} (stop : Panic → Machine → Prop) (action : Action α) (m : Machine) :
    Prop :=
  Ends action m (fun _ _ => True) stop

/-- Started in `m`, the action returns as `post` says. -/
def Completes {α : Type} (action : Action α) (m : Machine) (post : α → Machine → Prop) : Prop :=
  Ends action m post fun _ _ => False

def panicsWith {α : Type} (action : Action α) (m : Machine) (test : Panic → Machine → Bool) : Bool :=
  match action m with
  | .ok _ _ => false
  | .error panic m' => test panic m'

variable {α β ε : Type} {m m₁ m' : Machine} {stop stop' : Panic → Machine → Prop}

theorem exists_panics {action : Action α} {test : Panic → Machine → Bool}
    (h : panicsWith action m test = true) :
    ∃ panic m', Panics action m panic m' ∧ test panic m' = true := by
  unfold panicsWith at h
  split at h
  · cases h
  · next panic m' hrun => exact ⟨panic, m', hrun, h⟩

/-! ### Sequences -/

namespace Ends

variable {post : α → Machine → Prop} {next : α → Action β} {post' : β → Machine → Prop}

theorem intro {action : Action α} (hpost : ∀ a m', Returns action m a m' → post a m')
    (hstop : ∀ panic m', Panics action m panic m' → stop panic m') : Ends action m post stop := by
  unfold Ends
  split
  · next a m' hrun => exact hpost a m' hrun
  · next panic m' hrun => exact hstop panic m' hrun

theorem returned {action : Action α} (h : Ends action m post stop) {a : α}
    (hrun : Returns action m a m') : post a m' := by
  rwa [Ends, show action m = .ok a m' from hrun] at h

theorem panicked {action : Action α} (h : Ends action m post stop) {panic : Panic}
    (hrun : Panics action m panic m') : stop panic m' := by
  rwa [Ends, show action m = .error panic m' from hrun] at h

theorem mono {action : Action α} (h : Ends action m post stop) {post' : α → Machine → Prop}
    (hpost : ∀ a m', Returns action m a m' → post a m' → post' a m')
    (hstop : ∀ panic m', stop panic m' → stop' panic m') : Ends action m post' stop' :=
  intro (fun a m' hrun => hpost a m' hrun (h.returned hrun))
    fun panic m' hrun => hstop panic m' (h.panicked hrun)

theorem pure {a : α} (h : post a m) : Ends (Pure.pure a) m post stop := h

theorem of_returns {action : Action α} {a : α} (hrun : Returns action m a m') (h : post a m') :
    Ends action m post stop := by
  rwa [Ends, show action m = .ok a m' from hrun]

theorem bind {action : Action α} (h : Ends action m post stop)
    (h' : ∀ a m₁, Returns action m a m₁ → post a m₁ → Ends (next a) m₁ post' stop) :
    Ends (action >>= next) m post' stop := by
  change match EStateM.bind action next m with
    | .ok b m' => post' b m'
    | .error panic m' => stop panic m'
  unfold EStateM.bind
  unfold Ends at h
  split at h
  · next a m₁ hrun =>
    rw [hrun]
    exact h' a m₁ hrun h
  · next panic m₁ hrun =>
    rw [hrun]
    exact h

theorem step {action : Action α} {a : α} (hrun : Returns action m a m₁)
    (h : Ends (next a) m₁ post' stop) : Ends (action >>= next) m post' stop := by
  have hfirst : Ends action m (fun b m' => b = a ∧ m' = m₁) stop := of_returns hrun ⟨rfl, rfl⟩
  refine hfirst.bind ?_
  rintro _ _ - ⟨rfl, rfl⟩
  exact h

theorem get_bind {next : Machine → Action β} (h : Ends (next m) m post' stop) :
    Ends (get >>= next) m post' stop :=
  step (returns_get.2 ⟨rfl, rfl⟩) h

theorem modify_bind {change : Machine → Machine} {next : Unit → Action β}
    (h : Ends (next ()) (change m) post' stop) : Ends (modify change >>= next) m post' stop :=
  step (returns_modify.2 rfl) h

theorem modify {change : Machine → Machine} {post : Unit → Machine → Prop}
    (h : post () (change m)) : Ends (modify change) m post stop := h

/-! Actions that may fail. Failing with an error is one way of returning. -/

section

variable {post : Except ε α → Machine → Prop} {post' : Except ε β → Machine → Prop}

theorem run_pure {a : α} (h : post (.ok a) m) :
    Ends (Pure.pure a : ExceptT ε Action α).run m post stop := h

theorem run_throw {cause : ε} (h : post (.error cause) m) :
    Ends (throw cause : ExceptT ε Action α).run m post stop := h

theorem run_liftM {action : Action α} (h : Ends action m (fun a m' => post (.ok a) m') stop) :
    Ends (liftM action : ExceptT ε Action α).run m post stop :=
  h.bind fun _ _ _ hpost => hpost

theorem run_bind {action : ExceptT ε Action α} {next : α → ExceptT ε Action β}
    (h : Ends action.run m post stop)
    (herror : ∀ cause m₁, Answers action m (.error cause) m₁ → post (.error cause) m₁ →
      post' (.error cause) m₁)
    (hok : ∀ a m₁, Answers action m (.ok a) m₁ → post (.ok a) m₁ →
      Ends (next a).run m₁ post' stop) : Ends (action >>= next).run m post' stop := by
  change Ends (action.run >>= ExceptT.bindCont next) m post' stop
  refine h.bind fun answer m₁ hrun hpost => ?_
  cases answer with
  | error cause => exact herror cause m₁ hrun hpost
  | ok a => exact hok a m₁ hrun hpost

theorem run_liftM_bind {action : Action α} {next : α → ExceptT ε Action β}
    {post : α → Machine → Prop} (h : Ends action m post stop)
    (h' : ∀ a m₁, Returns action m a m₁ → post a m₁ → Ends (next a).run m₁ post' stop) :
    Ends (liftM action >>= next).run m post' stop := by
  change Ends ((action >>= fun a => Pure.pure (Except.ok a)) >>= ExceptT.bindCont next) m post' stop
  rw [bind_assoc]
  exact h.bind fun a m₁ hrun hpost => h' a m₁ hrun hpost

theorem run_step {action : Action α} {next : α → ExceptT ε Action β} {a : α}
    (hrun : Returns action m a m₁) (h : Ends (next a).run m₁ post' stop) :
    Ends (liftM action >>= next).run m post' stop := by
  have hfirst : Ends action m (fun b m' => b = a ∧ m' = m₁) stop := of_returns hrun ⟨rfl, rfl⟩
  refine hfirst.run_liftM_bind ?_
  rintro _ _ - ⟨rfl, rfl⟩
  exact h

theorem run_computed {computed : Except Panic α} {next : α → ExceptT ε Action β} {a : α}
    (hcomputed : computed = .ok a) (h : Ends (next a).run m post' stop) :
    Ends (liftM computed >>= next).run m post' stop := by
  have hrun : Returns (liftM computed : Action α) m a m := returns_liftM.2 ⟨hcomputed, rfl⟩
  exact run_step hrun h

theorem run_refuse {c : Prop} [Decidable c] {cause : ε} {next : β → ExceptT ε Action α}
    {rest : ExceptT ε Action α} (hrefused : c → post (.error cause) m)
    (h : ¬c → Ends rest.run m post stop) :
    Ends (if c then throw cause >>= next else rest).run m post stop := by
  split
  · next hc => exact hrefused hc
  · next hc => exact h hc

theorem run_require {c : Prop} [Decidable c] {cause : ε} {next : β → ExceptT ε Action α}
    {rest : ExceptT ε Action α} (hrefused : ¬c → post (.error cause) m)
    (h : c → Ends rest.run m post stop) :
    Ends (if c then rest else throw cause >>= next).run m post stop := by
  split
  · next hc => exact h hc
  · next hc => exact hrefused hc

theorem run_tryCatch {attempt : ExceptT ε Action α} {handle : ε → ExceptT ε Action α}
    {post' : Except ε α → Machine → Prop} (h : Ends attempt.run m post stop)
    (hok : ∀ a m₁, Answers attempt m (.ok a) m₁ → post (.ok a) m₁ → post' (.ok a) m₁)
    (herror : ∀ cause m₁, Answers attempt m (.error cause) m₁ → post (.error cause) m₁ →
      Ends (handle cause).run m₁ post' stop) :
    Ends (tryCatch attempt handle).run m post' stop := by
  change Ends (ExceptT.tryCatch attempt handle).run m post' stop
  simp only [ExceptT.tryCatch, ExceptT.run_mk]
  refine h.bind fun answer m₁ hrun hpost => ?_
  cases answer with
  | error cause => exact herror cause m₁ hrun hpost
  | ok a => exact hok a m₁ hrun hpost

end

end Ends

namespace Completes

variable {action : Action α} {post : α → Machine → Prop}

theorem panicsOnly (h : Completes action m post) : PanicsOnly stop action m :=
  h.mono (fun _ _ _ _ => trivial) fun _ _ => False.elim

theorem exists_returns (h : Completes action m post) :
    ∃ a m', Returns action m a m' ∧ post a m' := by
  cases hrun : action m with
  | ok a m' => exact ⟨a, m', hrun, h.returned hrun⟩
  | error panic m' => exact (h.panicked hrun).elim

end Completes

namespace PanicsOnly

/-- An action that does not panic returns, and is known by its returns. -/
theorem completes {action : Action α} {post : α → Machine → Prop}
    (h : PanicsOnly (fun _ _ => False) action m)
    (hpost : ∀ a m', Returns action m a m' → post a m') : Completes action m post :=
  Ends.mono h (fun a m' hrun _ => hpost a m' hrun) fun _ _ => id

theorem mono {action : Action α} (h : PanicsOnly stop action m)
    (hstop : ∀ panic m', stop panic m' → stop' panic m') : PanicsOnly stop' action m :=
  Ends.mono h (fun _ _ _ _ => trivial) hstop

theorem pure (a : α) : PanicsOnly stop (Pure.pure a) m := trivial

theorem of_returns {action : Action α} {a : α} (hrun : Returns action m a m') :
    PanicsOnly stop action m := Ends.of_returns hrun trivial

theorem bind {action : Action α} {next : α → Action β} (h : PanicsOnly stop action m)
    (h' : ∀ a m₁, Returns action m a m₁ → PanicsOnly stop (next a) m₁) :
    PanicsOnly stop (action >>= next) m :=
  Ends.bind h fun a m₁ hrun _ => h' a m₁ hrun

theorem step {action : Action α} {next : α → Action β} {a : α} (hrun : Returns action m a m₁)
    (h : PanicsOnly stop (next a) m₁) : PanicsOnly stop (action >>= next) m :=
  Ends.step hrun h

theorem get_bind {next : Machine → Action β} (h : PanicsOnly stop (next m) m) :
    PanicsOnly stop (get >>= next) m := Ends.get_bind h

theorem modify_bind {change : Machine → Machine} {next : Unit → Action β}
    (h : PanicsOnly stop (next ()) (change m)) : PanicsOnly stop (modify change >>= next) m :=
  Ends.modify_bind h

theorem modify (change : Machine → Machine) :
    PanicsOnly stop (modify change : Action PUnit) m := trivial

/-! Actions that may fail. -/

theorem run_pure (a : α) : PanicsOnly stop (Pure.pure a : ExceptT ε Action α).run m := trivial

theorem run_throw (cause : ε) :
    PanicsOnly stop (throw cause : ExceptT ε Action α).run m := trivial

theorem run_liftM {action : Action α} (h : PanicsOnly stop action m) :
    PanicsOnly stop (liftM action : ExceptT ε Action α).run m :=
  bind h fun _ _ _ => trivial

theorem run_bind {action : ExceptT ε Action α} {next : α → ExceptT ε Action β}
    (h : PanicsOnly stop action.run m)
    (h' : ∀ a m₁, Answers action m (.ok a) m₁ → PanicsOnly stop (next a).run m₁) :
    PanicsOnly stop (action >>= next).run m :=
  Ends.run_bind h (fun _ _ _ _ => trivial) fun a m₁ hrun _ => h' a m₁ hrun

theorem run_liftM_bind {action : Action α} {next : α → ExceptT ε Action β}
    (h : PanicsOnly stop action m)
    (h' : ∀ a m₁, Returns action m a m₁ → PanicsOnly stop (next a).run m₁) :
    PanicsOnly stop (liftM action >>= next).run m :=
  Ends.run_liftM_bind h fun a m₁ hrun _ => h' a m₁ hrun

theorem run_step {action : Action α} {next : α → ExceptT ε Action β} {a : α}
    (hrun : Returns action m a m₁) (h : PanicsOnly stop (next a).run m₁) :
    PanicsOnly stop (liftM action >>= next).run m := Ends.run_step hrun h

theorem run_computed {computed : Except Panic α} {next : α → ExceptT ε Action β} {a : α}
    (hcomputed : computed = .ok a) (h : PanicsOnly stop (next a).run m) :
    PanicsOnly stop (liftM computed >>= next).run m := Ends.run_computed hcomputed h

theorem run_get_bind {next : Machine → ExceptT ε Action β} (h : PanicsOnly stop (next m).run m) :
    PanicsOnly stop (get >>= next).run m := by
  have hrun : Returns (get : Action Machine) m m m := returns_get.2 ⟨rfl, rfl⟩
  exact run_step hrun h

theorem run_refuse {c : Prop} [Decidable c] {cause : ε} {next : β → ExceptT ε Action α}
    {rest : ExceptT ε Action α} (h : ¬c → PanicsOnly stop rest.run m) :
    PanicsOnly stop (if c then throw cause >>= next else rest).run m :=
  Ends.run_refuse (fun _ => trivial) h

theorem run_require {c : Prop} [Decidable c] {cause : ε} {next : β → ExceptT ε Action α}
    {rest : ExceptT ε Action α} (h : c → PanicsOnly stop rest.run m) :
    PanicsOnly stop (if c then rest else throw cause >>= next).run m :=
  Ends.run_require (fun _ => trivial) h

theorem run_tryCatch {attempt : ExceptT ε Action α} {handle : ε → ExceptT ε Action α}
    (h : PanicsOnly stop attempt.run m)
    (h' : ∀ cause m₁, Answers attempt m (.error cause) m₁ → PanicsOnly stop (handle cause).run m₁) :
    PanicsOnly stop (tryCatch attempt handle).run m :=
  Ends.run_tryCatch h (fun _ _ _ _ => trivial) fun cause m₁ hrun _ => h' cause m₁ hrun

/-- A panic is passed on when the cleaning up after it is done. -/
theorem run_tryCatchThe {attempt : ExceptT ε Action α} {cleanUp : Action Unit}
    (h : PanicsOnly stop attempt.run m)
    (h' : ∀ panic m₁, Panics attempt.run m panic m₁ → stop panic m₁ →
      Completes cleanUp m₁ fun _ m₂ => stop' panic m₂) :
    PanicsOnly stop' (tryCatchThe Panic attempt fun panic => do
      cleanUp
      throwThe Panic panic).run m := by
  refine Ends.intro (fun _ _ _ => trivial) fun panic m' hrun => ?_
  change EStateM.tryCatch attempt.run _ m = _ at hrun
  unfold EStateM.tryCatch at hrun
  cases hattempt : attempt.run m with
  | ok answer m₁ =>
      rw [hattempt] at hrun
      cases hrun
  | error first m₁ =>
      rw [hattempt] at hrun
      have hstop := Ends.panicked h (show Panics attempt.run m first m₁ from hattempt)
      obtain ⟨u, m₂, hclean, hdone⟩ := (h' first m₁ hattempt hstop).exists_returns
      have hthrown : Panics (liftM cleanUp >>= fun _ => throwThe Panic first :
          ExceptT ε Action α).run m₁ panic m' := hrun
      have hends : Ends (liftM cleanUp >>= fun _ => throwThe Panic first :
          ExceptT ε Action α).run m₁ (fun _ _ => True) fun panic' m₃ => panic' = first ∧ m₃ = m₂ :=
        run_step hclean ⟨rfl, rfl⟩
      obtain ⟨rfl, rfl⟩ := hends.panicked hthrown
      exact hdone

end PanicsOnly

/-- A request to an address space that is there ends as the operation it names. -/
theorem Request.ends_perform? {request : Request α} {s : Key AddressSpace} {space : AddressSpace}
    {post : Option α → Machine → Prop} (hspace : m.spaces.get? s = some space)
    (h : Ends (request.perform s) m (fun answer m' => post (some answer) m') stop) :
    Ends (request.perform? s) m post stop := by
  refine .get_bind ?_
  rw [hspace]
  exact h.bind fun _ _ _ hpost => .pure hpost

end DemandPaging
