import DemandPaging.Space.Request

/-!
Actions that run to their end.

`Returns action m a m'` says that an action, started in `m`, answers `a` and leaves `m'` behind; an
action that panics returns nothing. `Answers` says the same of an action that may also fail with an
error. Every construct has an equivalence that takes such a statement apart, so a completed
operation is read backwards: from the fact that it returned to the facts that its parts returned,
one state after the other.
-/

namespace DemandPaging

/-- Started in `m`, the action answers `answer` and ends in `m'`. -/
def Returns {α : Type} (action : Action α) (m : Machine) (answer : α) (m' : Machine) : Prop :=
  action m = .ok answer m'

/-- Started in `m`, the action that may fail answers `answer`, or fails with it, and ends
in `m'`. -/
def Answers {ε α : Type} (action : ExceptT ε Action α) (m : Machine) (answer : Except ε α)
    (m' : Machine) : Prop :=
  Returns action.run m answer m'

def returnsWith {α : Type} (action : Action α) (m : Machine) (test : α → Machine → Bool) : Bool :=
  match action m with
  | .ok answer m' => test answer m'
  | .error _ _ => false

section

variable {α β ε : Type} {m m' : Machine}

theorem exists_returns {action : Action α} {test : α → Machine → Bool}
    (h : returnsWith action m test = true) :
    ∃ answer m', Returns action m answer m' ∧ test answer m' = true := by
  unfold returnsWith at h
  split at h
  · next answer m' hrun => exact ⟨answer, m', hrun, h⟩
  · cases h

theorem Returns.unique {action : Action α} {a a' : α} {m₁ m₂ : Machine}
    (h : Returns action m a m₁) (h' : Returns action m a' m₂) : a = a' ∧ m₁ = m₂ := by
  have hsame : EStateM.Result.ok a m₁ = .ok a' m₂ := Eq.trans (Eq.symm h) h'
  cases hsame
  exact ⟨rfl, rfl⟩

/-! ### Constructs -/

theorem returns_pure {a b : α} : Returns (pure a) m b m' ↔ b = a ∧ m' = m := by
  constructor
  · intro h
    cases h
    exact ⟨rfl, rfl⟩
  · rintro ⟨rfl, rfl⟩
    rfl

theorem returns_bind {action : Action α} {next : α → Action β} {b : β} :
    Returns (action >>= next) m b m' ↔ ∃ a m₁, Returns action m a m₁ ∧ Returns (next a) m₁ b m' := by
  change EStateM.bind action next m = _ ↔ ∃ a m₁, action m = _ ∧ next a m₁ = _
  unfold EStateM.bind
  constructor
  · intro h
    cases hrun : action m with
    | ok a m₁ =>
        rw [hrun] at h
        exact ⟨a, m₁, rfl, h⟩
    | error panic m₁ =>
        rw [hrun] at h
        cases h
  · rintro ⟨a, m₁, hrun, h⟩
    rw [hrun]
    exact h

theorem not_returns_throw {panic : Panic} {a : α} : ¬Returns (throw panic) m a m' := by
  intro h
  cases h

theorem returns_refuse {c : Prop} [Decidable c] {panic : Panic} {next : β → Action α}
    {rest : Action α} {a : α} :
    Returns (if c then throw panic >>= next else rest) m a m' ↔ ¬c ∧ Returns rest m a m' := by
  by_cases h : c
  · rw [if_pos h, returns_bind]
    exact ⟨fun ⟨_, _, hthrow, _⟩ => absurd hthrow not_returns_throw, fun hand => absurd h hand.1⟩
  · rw [if_neg h]
    exact ⟨fun hrest => ⟨h, hrest⟩, And.right⟩

theorem returns_require {c : Prop} [Decidable c] {panic : Panic} {next : β → Action α}
    {rest : Action α} {a : α} :
    Returns (if c then rest else throw panic >>= next) m a m' ↔ c ∧ Returns rest m a m' := by
  by_cases h : c
  · rw [if_pos h]
    exact ⟨fun hrest => ⟨h, hrest⟩, And.right⟩
  · rw [if_neg h, returns_bind]
    exact ⟨fun ⟨_, _, hthrow, _⟩ => absurd hthrow not_returns_throw, fun hand => absurd hand.1 h⟩

theorem returns_get {a : Machine} : Returns get m a m' ↔ a = m ∧ m' = m := by
  constructor
  · intro h
    cases h
    exact ⟨rfl, rfl⟩
  · rintro ⟨rfl, rfl⟩
    rfl

/-- Reading a part of the state and computing with it changes nothing. -/
theorem returns_get_bind {next : Machine → Action α} {a : α} :
    Returns (get >>= next) m a m' ↔ Returns (next m) m a m' := by
  simp only [returns_bind, returns_get]
  constructor
  · rintro ⟨_, _, ⟨rfl, rfl⟩, h⟩
    exact h
  · intro h
    exact ⟨m, m, ⟨rfl, rfl⟩, h⟩

theorem returns_modify {change : Machine → Machine} {u : Unit} :
    Returns (modify change) m u m' ↔ m' = change m := by
  constructor
  · intro h
    cases h
    rfl
  · rintro rfl
    rfl

theorem returns_modifyGet {change : Machine → α × Machine} {a : α} :
    Returns (modifyGet change) m a m' ↔ a = (change m).1 ∧ m' = (change m).2 := by
  constructor
  · intro h
    cases h
    exact ⟨rfl, rfl⟩
  · rintro ⟨rfl, rfl⟩
    rfl

theorem returns_liftM {computed : Except Panic α} {a : α} :
    Returns (liftM computed) m a m' ↔ computed = .ok a ∧ m' = m := by
  cases computed with
  | ok b =>
      change Returns (pure b) m a m' ↔ _
      rw [returns_pure, Except.ok.injEq, eq_comm]
  | error panic =>
      constructor
      · intro h
        cases h
      · rintro ⟨h, -⟩
        cases h

theorem returns_run {action : ExceptT ε Action α} {r : Except ε α} :
    Returns action.run m r m' ↔ Answers action m r m' := Iff.rfl

theorem answers_pure {a : α} {r : Except ε α} :
    Answers (pure a) m r m' ↔ r = .ok a ∧ m' = m := returns_pure

theorem answers_throw {cause : ε} {r : Except ε α} :
    Answers (throw cause) m r m' ↔ r = .error cause ∧ m' = m := returns_pure

theorem answers_liftM {action : Action α} {r : Except ε α} :
    Answers (liftM action) m r m' ↔ ∃ a, r = .ok a ∧ Returns action m a m' := by
  change Returns (action >>= fun a => pure (Except.ok a)) m r m' ↔ _
  rw [returns_bind]
  constructor
  · rintro ⟨a, m₁, h, hpure⟩
    obtain ⟨rfl, rfl⟩ := returns_pure.1 hpure
    exact ⟨a, rfl, h⟩
  · rintro ⟨a, rfl, h⟩
    exact ⟨a, m', h, returns_pure.2 ⟨rfl, rfl⟩⟩

/-- A sequence fails with its first part or goes on with its answer. -/
theorem answers_bind {action : ExceptT ε Action α} {next : α → ExceptT ε Action β}
    {r : Except ε β} :
    Answers (action >>= next) m r m' ↔
      (∃ cause, r = .error cause ∧ Answers action m (.error cause) m') ∨
        ∃ a m₁, Answers action m (.ok a) m₁ ∧ Answers (next a) m₁ r m' := by
  change Returns (action.run >>= ExceptT.bindCont next) m r m' ↔ _
  rw [returns_bind]
  constructor
  · rintro ⟨answer, m₁, h, hnext⟩
    cases answer with
    | error cause =>
        obtain ⟨rfl, rfl⟩ := returns_pure.1 hnext
        exact .inl ⟨cause, rfl, h⟩
    | ok a => exact .inr ⟨a, m₁, h, hnext⟩
  · rintro (⟨cause, rfl, h⟩ | ⟨a, m₁, h, hnext⟩)
    · exact ⟨_, _, h, returns_pure.2 ⟨rfl, rfl⟩⟩
    · exact ⟨_, _, h, hnext⟩

/-- Where the first part cannot fail, the sequence goes on. -/
theorem answers_liftM_bind {action : Action α} {next : α → ExceptT ε Action β}
    {r : Except ε β} :
    Answers (liftM action >>= next) m r m' ↔
      ∃ a m₁, Returns action m a m₁ ∧ Answers (next a) m₁ r m' := by
  rw [answers_bind]
  simp only [answers_liftM, reduceCtorEq, false_and, exists_false, and_false, false_or,
    Except.ok.injEq]
  constructor
  · rintro ⟨a, m₁, ⟨b, rfl, h⟩, hnext⟩
    exact ⟨_, m₁, h, hnext⟩
  · rintro ⟨a, m₁, h, hnext⟩
    exact ⟨a, m₁, ⟨a, rfl, h⟩, hnext⟩

theorem answers_liftM_computed_bind {computed : Except Panic α} {next : α → ExceptT ε Action β}
    {r : Except ε β} :
    Answers (liftM computed >>= next) m r m' ↔
      ∃ a, computed = .ok a ∧ Answers (next a) m r m' := by
  change Answers (liftM (liftM computed : Action α) >>= next) m r m' ↔ _
  rw [answers_liftM_bind]
  simp only [returns_liftM, and_assoc, exists_and_left, exists_eq_left]

theorem answers_get_bind {next : Machine → ExceptT ε Action β} {r : Except ε β} :
    Answers (get >>= next) m r m' ↔ Answers (next m) m r m' := by
  change Answers (liftM (get : Action Machine) >>= next) m r m' ↔ _
  simp only [answers_liftM_bind, returns_get, and_assoc, exists_and_left, exists_eq_left]

theorem answers_throw_bind {cause : ε} {next : α → ExceptT ε Action β} {r : Except ε β} :
    Answers (throw cause >>= next) m r m' ↔ r = .error cause ∧ m' = m := by
  rw [answers_bind]
  simp only [answers_throw, reduceCtorEq, false_and, exists_false, or_false, Except.error.injEq]
  constructor
  · rintro ⟨_, rfl, rfl, rfl⟩
    exact ⟨rfl, rfl⟩
  · rintro ⟨rfl, rfl⟩
    exact ⟨cause, rfl, rfl, rfl⟩

theorem answers_refuse {c : Prop} [Decidable c] {cause : ε} {next : β → ExceptT ε Action α}
    {rest : ExceptT ε Action α} {r : Except ε α} :
    Answers (if c then throw cause >>= next else rest) m r m' ↔
      (c ∧ r = .error cause ∧ m' = m) ∨ ¬c ∧ Answers rest m r m' := by
  by_cases h : c
  · rw [if_pos h, answers_throw_bind]
    exact ⟨fun hthrow => .inl ⟨h, hthrow⟩, fun hor => (hor.resolve_right fun hno => hno.1 h).2⟩
  · rw [if_neg h]
    exact ⟨fun hrest => .inr ⟨h, hrest⟩, fun hor => (hor.resolve_left fun hyes => h hyes.1).2⟩

theorem answers_require {c : Prop} [Decidable c] {cause : ε} {next : β → ExceptT ε Action α}
    {rest : ExceptT ε Action α} {r : Except ε α} :
    Answers (if c then rest else throw cause >>= next) m r m' ↔
      (¬c ∧ r = .error cause ∧ m' = m) ∨ c ∧ Answers rest m r m' := by
  by_cases h : c
  · rw [if_pos h]
    exact ⟨fun hrest => .inr ⟨h, hrest⟩, fun hor => (hor.resolve_left fun hno => hno.1 h).2⟩
  · rw [if_neg h, answers_throw_bind]
    exact ⟨fun hthrow => .inl ⟨h, hthrow⟩, fun hor => (hor.resolve_right fun hyes => h hyes.1).2⟩

theorem answers_tryCatch {attempt : ExceptT ε Action α} {handle : ε → ExceptT ε Action α}
    {r : Except ε α} :
    Answers (tryCatch attempt handle) m r m' ↔
      (∃ a, r = .ok a ∧ Answers attempt m (.ok a) m') ∨
        ∃ cause m₁, Answers attempt m (.error cause) m₁ ∧ Answers (handle cause) m₁ r m' := by
  unfold Answers
  change Returns (ExceptT.tryCatch attempt handle).run m r m' ↔ _
  simp only [ExceptT.tryCatch, ExceptT.run_mk]
  rw [returns_bind]
  constructor
  · rintro ⟨answer, m₁, h, hnext⟩
    cases answer with
    | ok a =>
        obtain ⟨rfl, rfl⟩ := returns_pure.1 hnext
        exact .inl ⟨a, rfl, h⟩
    | error cause => exact .inr ⟨cause, m₁, h, hnext⟩
  · rintro (⟨a, rfl, h⟩ | ⟨cause, m₁, h, hnext⟩)
    · exact ⟨_, _, h, returns_pure.2 ⟨rfl, rfl⟩⟩
    · exact ⟨_, _, h, hnext⟩

/-- Cleaning up after a panic does not turn it into an answer. -/
theorem answers_tryCatchThe {attempt : ExceptT ε Action α} {cleanUp : Action Unit}
    {r : Except ε α} :
    Answers (tryCatchThe Panic attempt fun panic => do
        cleanUp
        throwThe Panic panic) m r m' ↔ Answers attempt m r m' := by
  change EStateM.tryCatch attempt.run _ m = _ ↔ attempt.run m = _
  unfold EStateM.tryCatch
  cases hrun : attempt.run m with
  | ok answer m₁ => exact Iff.rfl
  | error panic m₁ =>
      constructor
      · intro h
        have hhandled : Answers (liftM cleanUp >>= fun _ => throwThe Panic panic) m₁ r m' := h
        obtain ⟨-, m₂, -, hthrow⟩ := answers_liftM_bind.1 hhandled
        cases hthrow
      · intro h
        cases h

end

/-! ### Primitive actions -/

namespace Machine

variable {m m' : Machine}

theorem get_eq_ok {α : Type} {arena : Arena α} {key : Key α} {value : α} :
    arena.get key = .ok value ↔ arena.get? key = some value := by
  unfold Arena.get
  cases arena.get? key with
  | none => simp only [reduceCtorEq]
  | some found => simp only [Except.ok.injEq, Option.some.injEq]

theorem returns_getPage {key : Key Page} {page : Page} :
    Returns (getPage key) m page m' ↔ m.pages.get? key = some page ∧ m' = m := by
  simp only [getPage, returns_get_bind, returns_liftM, get_eq_ok]

theorem returns_getDirectory {key : Key Directory} {directory : Directory} :
    Returns (getDirectory key) m directory m' ↔
      m.directories.get? key = some directory ∧ m' = m := by
  simp only [getDirectory, returns_get_bind, returns_liftM, get_eq_ok]

theorem returns_getSpace {key : Key AddressSpace} {space : AddressSpace} :
    Returns (getSpace key) m space m' ↔ m.spaces.get? key = some space ∧ m' = m := by
  simp only [getSpace, returns_get_bind, returns_liftM, get_eq_ok]

theorem returns_getFile {key : Key File} {file : File} :
    Returns (getFile key) m file m' ↔ m.files.get? key = some file ∧ m' = m := by
  simp only [getFile, returns_get_bind, returns_liftM, get_eq_ok]

theorem returns_getSlot {index : Nat} {slot : FrameSlot} :
    Returns (getSlot index) m slot m' ↔ m.listed[index]? = some slot ∧ m' = m := by
  simp only [getSlot, returns_get_bind]
  cases m.listed[index]? with
  | none => simp only [not_returns_throw, reduceCtorEq, false_and]
  | some found => simp only [returns_pure, Option.some.injEq, eq_comm]

theorem returns_record {event : Event} {u : Unit} :
    Returns (record event) m u m' ↔ m' = { m with events := m.events.push event } :=
  returns_modify

theorem returns_setPool {pool : Pool} {u : Unit} :
    Returns (setPool pool) m u m' ↔ m' = { m with pool } := returns_modify

theorem returns_setSwap {swap : Swap} {u : Unit} :
    Returns (setSwap swap) m u m' ↔ m' = { m with swap } := returns_modify

theorem returns_setHand {hand : Nat} {u : Unit} :
    Returns (setHand hand) m u m' ↔ m' = { m with hand } := returns_modify

theorem returns_setListed {listed : List FrameSlot} {u : Unit} :
    Returns (setListed listed) m u m' ↔ m' = { m with listed } := returns_modify

theorem returns_setOwner {index : Nat} {owner : Option Owner} {u : Unit} :
    Returns (setOwner index owner) m u m' ↔
      m' = { m with listed := m.listed.modify index fun slot => { slot with owner } } :=
  returns_modify

theorem returns_updatePage {key : Key Page} {change : Page → Page} {u : Unit} :
    Returns (updatePage key change) m u m' ↔
      m' = { m with pages := m.pages.modify key change } := returns_modify

theorem returns_updateDirectory {key : Key Directory} {change : Directory → Directory}
    {u : Unit} :
    Returns (updateDirectory key change) m u m' ↔
      m' = { m with directories := m.directories.modify key change } := returns_modify

theorem returns_updateSpace {key : Key AddressSpace} {change : AddressSpace → AddressSpace}
    {u : Unit} :
    Returns (updateSpace key change) m u m' ↔
      m' = { m with spaces := m.spaces.modify key change } := returns_modify

theorem returns_updateFile {key : Key File} {change : File → File} {u : Unit} :
    Returns (updateFile key change) m u m' ↔
      m' = { m with files := m.files.modify key change } := returns_modify

theorem returns_eraseSpace {key : Key AddressSpace} {u : Unit} :
    Returns (eraseSpace key) m u m' ↔ m' = { m with spaces := m.spaces.erase key } :=
  returns_modify

theorem returns_addPage {page : Page} {key : Key Page} :
    Returns (addPage page) m key m' ↔
      key = m.pages.nextKey ∧ m' = { m with pages := m.pages.add page } := returns_modifyGet

theorem returns_addDirectory {key : Key Directory} :
    Returns addDirectory m key m' ↔
      key = m.directories.nextKey ∧ m' = { m with directories := m.directories.add .empty } :=
  returns_modifyGet

theorem returns_addSpace {space : AddressSpace} {key : Key AddressSpace} :
    Returns (addSpace space) m key m' ↔
      key = m.spaces.nextKey ∧ m' = { m with spaces := m.spaces.add space } :=
  returns_modifyGet

end Machine

end DemandPaging
