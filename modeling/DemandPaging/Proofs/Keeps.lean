import DemandPaging.Proofs.Backing.Device
import DemandPaging.Proofs.Backing.Slices
import DemandPaging.Proofs.Machine.Turns
import Mathlib.Tactic

/-!
What an action leaves alone.

An action keeps a relation between states if it leads from any state to one that is related to it,
whether it returns or panics. This is put together as actions are, and needs nothing to be known
about the state in between: an action keeps what its parts keep, whatever they answer.

Bringing pages in and out, and giving them up, keeps the address spaces and the handles of clients.
What is done to one address space keeps all others. And no action takes back a handle that was
issued, so a handle that is issued later is a new one. The hand of the clock never leaves the list of
frames, and the swap device is the same one all along.
-/

namespace DemandPaging

def final {α : Type} (action : Action α) (m : Machine) : Machine :=
  match action m with
  | .ok _ m' => m'
  | .error _ m' => m'

/-- An action leads to a state that is related to the one in which it started. -/
def Keeps {α : Type} (relation : Machine → Machine → Prop) (action : Action α) : Prop :=
  ∀ m, relation m (final action m)

def Same {γ : Type} (part : Machine → γ) (m m' : Machine) : Prop := part m' = part m

instance {γ : Type} (part : Machine → γ) : IsPreorder Machine (Same part) where
  refl _ := rfl
  trans _ _ _ h h' := h'.trans h

theorem Returns.final_eq {α : Type} {action : Action α} {m m' : Machine} {a : α}
    (h : Returns action m a m') : final action m = m' := by
  rw [final, show action m = .ok a m' from h]

theorem Returns.final_bind {α β : Type} {action : Action α} {next : α → Action β}
    {m m₁ : Machine} {a : α} (h : Returns action m a m₁) :
    final (action >>= next) m = final (next a) m₁ := by
  change final (fun m => EStateM.bind action next m) m = _
  simp only [final, EStateM.bind, show action m = .ok a m₁ from h]

namespace Keeps

variable {α β ε : Type} {r : Machine → Machine → Prop}

theorem returns {action : Action α} {m m' : Machine} {a : α} (h : Keeps r action)
    (hrun : Returns action m a m') : r m m' := by
  rw [← hrun.final_eq]
  exact h m

theorem mono {action : Action α} {r' : Machine → Machine → Prop} (h : Keeps r action)
    (hle : ∀ {m m'}, r m m' → r' m m') : Keeps r' action := fun m => hle (h m)

theorem modify {change : Machine → Machine} (h : ∀ m, r m (change m)) :
    Keeps r (modify change : Action PUnit) := h

theorem modifyGet {change : Machine → α × Machine} (h : ∀ m, r m (change m).2) :
    Keeps r (modifyGet change : Action α) := h

variable [IsPreorder Machine r]

/-! ### Constructs -/

@[grind .] theorem pure (a : α) : Keeps r (Pure.pure a : Action α) := fun m => refl_of r m

@[grind .] theorem throw (panic : Panic) : Keeps r (throw panic : Action α) := fun m => refl_of r m

@[grind .] theorem get : Keeps r (get : Action Machine) := fun m => refl_of r m

@[grind .] theorem liftM (computed : Except Panic α) :
    Keeps r (MonadLiftT.monadLift computed : Action α) := by
  cases computed <;> exact fun m => refl_of r m

/-- The second action may count on what the first one returned. -/
theorem final_bind {action : Action α} {next : α → Action β} {m : Machine}
    (h : r m (final action m)) (h' : ∀ a m', Returns action m a m' → r m' (final (next a) m')) :
    r m (final (action >>= next) m) := by
  change r m (final (fun m => EStateM.bind action next m) m)
  simp only [final, EStateM.bind] at h ⊢
  cases hrun : action m with
  | ok a m₁ =>
      rw [hrun] at h
      exact trans_of r h (h' a m₁ hrun)
  | error panic m₁ =>
      rw [hrun] at h
      exact h

@[grind ←] theorem bind {action : Action α} {next : α → Action β} (h : Keeps r action)
    (h' : ∀ a, Keeps r (next a)) : Keeps r (action >>= next) :=
  fun m => final_bind (h m) fun a m' _ => h' a m'

@[grind ←] theorem map {action : Action α} {change : α → β} (h : Keeps r action) :
    Keeps r (change <$> action) := by
  rw [map_eq_pure_bind]
  exact h.bind fun _ => pure _

theorem tryCatch {attempt : Action α} {handle : Panic → Action α} (h : Keeps r attempt)
    (h' : ∀ panic, Keeps r (handle panic)) : Keeps r (EStateM.tryCatch attempt handle) := by
  intro m
  have hfirst := h m
  simp only [final, EStateM.tryCatch] at hfirst ⊢
  cases hrun : attempt m with
  | ok a m₁ =>
      rw [hrun] at hfirst
      exact hfirst
  | error panic m₁ =>
      rw [hrun] at hfirst
      exact trans_of r hfirst (h' panic m₁)

/-! Actions that may fail. -/

@[grind .] theorem run_pure (a : α) : Keeps r (Pure.pure a : ExceptT ε Action α).run :=
  fun m => refl_of r m

@[grind .] theorem run_throw (cause : ε) :
    Keeps r (MonadExceptOf.throw cause : ExceptT ε Action α).run := fun m => refl_of r m

@[grind .] theorem run_get : Keeps r (MonadState.get : ExceptT ε Action Machine).run :=
  fun m => refl_of r m

@[grind ←] theorem run_liftM {action : Action α} (h : Keeps r action) :
    Keeps r (MonadLiftT.monadLift action : ExceptT ε Action α).run :=
  bind h fun _ => pure _

@[grind .] theorem run_computed (computed : Except Panic α) :
    Keeps r (MonadLiftT.monadLift computed : ExceptT ε Action α).run :=
  run_liftM (liftM computed)

@[grind ←] theorem run_bind {action : ExceptT ε Action α} {next : α → ExceptT ε Action β}
    (h : Keeps r action.run) (h' : ∀ a, Keeps r (next a).run) :
    Keeps r (action >>= next).run :=
  bind h fun answer => by
    cases answer with
    | ok a => exact h' a
    | error cause => exact pure _

theorem final_run_bind {action : ExceptT ε Action α} {next : α → ExceptT ε Action β} {m : Machine}
    (h : r m (final action.run m))
    (h' : ∀ a m', Answers action m (.ok a) m' → r m' (final (next a).run m')) :
    r m (final (action >>= next).run m) :=
  final_bind h fun answer m' hrun => by
    cases answer with
    | ok a => exact h' a m' hrun
    | error cause => exact refl_of r m'

theorem run_computed_bind {computed : Except Panic α} {next : α → ExceptT ε Action β}
    (h : ∀ a, computed = .ok a → Keeps r (next a).run) :
    Keeps r ((MonadLiftT.monadLift computed : ExceptT ε Action α) >>= next).run := fun m =>
  final_run_bind (run_computed computed m) fun a m' hrun => by
    obtain ⟨_, he, hlift⟩ := answers_liftM.1 hrun
    cases he
    exact h a (returns_liftM.1 hlift).1 m'

theorem run_refuse {c : Prop} [Decidable c] {cause : ε} {next : β → ExceptT ε Action α}
    {rest : ExceptT ε Action α} (h : Keeps r rest.run) :
    Keeps r (if c then MonadExcept.throw cause >>= next else rest).run := by
  split
  · exact fun m => refl_of r m
  · exact h

theorem run_require {c : Prop} [Decidable c] {cause : ε} {next : β → ExceptT ε Action α}
    {rest : ExceptT ε Action α} (h : Keeps r rest.run) :
    Keeps r (if c then rest else MonadExcept.throw cause >>= next).run := by
  split
  · exact h
  · exact fun m => refl_of r m

@[grind ←] theorem run_tryCatch {attempt : ExceptT ε Action α} {handle : ε → ExceptT ε Action α}
    (h : Keeps r attempt.run) (h' : ∀ cause, Keeps r (handle cause).run) :
    Keeps r (MonadExcept.tryCatch attempt handle : ExceptT ε Action α).run :=
  bind h fun answer => by
    cases answer with
    | ok a => exact pure _
    | error cause => exact h' cause

end Keeps

namespace Machine

def issued (m : Machine) (f : Key File) : Nat := (m.files.get? f).elim 0 (·.issued)

theorem issued_modify {m : Machine} {f : Key File} {file changed : File}
    (hfile : m.files.get? f = some file) (hle : file.issued ≤ changed.issued) (g : Key File) :
    m.issued g ≤ { m with files := m.files.modify f fun _ => changed }.issued g := by
  simp only [issued, Arena.get?_modify]
  split
  · next hg =>
    subst hg
    simpa [hfile] using hle
  · exact Nat.le_refl _

structure Opened (m m' : Machine) (handle : Handle) : Prop where
  new : m.issued handle.file ≤ handle.serial
  issued : handle.serial < m'.issued handle.file

theorem Opened.mono {m m₁ m₂ m' : Machine} {handle : Handle} (h : Opened m₁ m₂ handle)
    (hbefore : ∀ f, m.issued f ≤ m₁.issued f) (hafter : ∀ f, m₂.issued f ≤ m'.issued f) :
    Opened m m' handle :=
  ⟨(hbefore _).trans h.new, h.issued.trans_le (hafter _)⟩

theorem opened_of_reopen {m m' : Machine} {f : Key File} {handle : Handle}
    (hrun : Returns (reopen f) m (some handle) m') : Opened m m' handle := by
  simp only [reopen, returns_bind, returns_getFile, returns_get, and_assoc, exists_and_left,
    exists_eq_left] at hrun
  obtain ⟨current, hfile, hrun⟩ := hrun
  split at hrun
  · simp only [returns_bind, returns_updateFile, returns_pure, exists_and_left, exists_eq_left,
      exists_const] at hrun
    obtain ⟨he, rfl⟩ := hrun
    cases he
    refine ⟨?_, ?_⟩
    · simp [issued, hfile, File.issue]
    · simp [issued, Arena.get?_modify, hfile, File.issue]
  · cases (returns_pure.1 hrun).1

/-! ### Pages, frames and files -/

/-- The hand does not leave the list, the list changes only with what the pool hands out and takes
back, and the swap device is the same. -/
structure Steady (m m' : Machine) : Prop where
  hand : m.HandInList → m'.HandInList
  accounts : m.Accounts → m'.Accounts
  turns : m.Accounts → m.HandInList → Turns m m'
  device : m.swap.disk.SameDevice m'.swap.disk

namespace Steady

variable {m m₁ m' : Machine}

theorem refl (m : Machine) : Steady m m := ⟨id, id, fun _ _ => .refl, .refl _⟩

theorem trans (h : Steady m m₁) (h' : Steady m₁ m') : Steady m m' where
  hand := h'.hand ∘ h.hand
  accounts := h'.accounts ∘ h.accounts
  turns haccounts hhand :=
    (h.turns haccounts hhand).trans (h'.turns (h.accounts haccounts) (h.hand hhand))
  device := h.device.trans h'.device

theorem single (hhand : m.HandInList → m'.HandInList) (haccounts : m.Accounts → m'.Accounts)
    (hmove : m.Accounts → m.HandInList → Move m m')
    (hdevice : m.swap.disk.SameDevice m'.swap.disk) : Steady m m' :=
  ⟨hhand, haccounts, fun h h' => .single ⟨hmove h h', hhand h'⟩, hdevice⟩

theorem still (hframes : m'.frames = m.frames) (hhand : m'.hand = m.hand)
    (hpool : Pool.SameAllocation m.pool m'.pool) (hlog : m'.poolLog = m.poolLog)
    (hdevice : m.swap.disk.SameDevice m'.swap.disk) : Steady m m' :=
  .single (fun h => h.of_frames hframes hhand) (fun h => h.congr hpool hframes)
    (fun _ _ => .still hframes hhand hlog) hdevice

/-- Most changes concern neither the clock nor the device. -/
theorem of_eq (h : (m'.pool, m'.listed, m'.hand, m'.events, m'.swap) =
    (m.pool, m.listed, m.hand, m.events, m.swap)) : Steady m m' := by
  simp only [Prod.mk.injEq] at h
  obtain ⟨hpool, hlisted, hhand, hevents, hswap⟩ := h
  refine .still (by rw [frames, hlisted, frames]) hhand ?_ (by rw [poolLog, hevents, poolLog]) ?_
  · rw [hpool]
    exact .refl _
  · rw [hswap]
    exact .refl _

end Steady

/-- The parts of the state that frames and contents have no share in, what clients hold and the
address spaces, are the same, and no handle was taken back. -/
structure Aside (m m' : Machine) : Prop where
  clients : m'.clients = m.clients
  spaces : m'.spaces = m.spaces
  issued : ∀ f, m.issued f ≤ m'.issued f
  steady : Steady m m'

instance : IsPreorder Machine Aside where
  refl m := ⟨rfl, rfl, fun _ => Nat.le_refl _, .refl m⟩
  trans _ _ _ h h' := ⟨h'.clients.trans h.clients, h'.spaces.trans h.spaces,
    fun f => (h.issued f).trans (h'.issued f), h.steady.trans h'.steady⟩

theorem Aside.of_files {m m' : Machine} (hclients : m'.clients = m.clients)
    (hspaces : m'.spaces = m.spaces) (hfiles : m'.files = m.files) (hsteady : Steady m m') :
    Aside m m' :=
  ⟨hclients, hspaces, fun f => by rw [Machine.issued, Machine.issued, hfiles], hsteady⟩

@[grind .] theorem keeps_record {event : Event} (h : event.isOfPool = false) :
    Keeps Aside (record event) :=
  fun _ => .of_files rfl rfl rfl (.still rfl rfl (.refl _) (poolLog_other h rfl) (.refl _))

/-- A change of the pool that concerns neither the free frames nor those in use. -/
theorem keeps_changePool (change : Pool → Except Panic Pool)
    (h : ∀ {pool pool'}, change pool = .ok pool' → Pool.SameAllocation pool pool') :
    Keeps Aside (do
      let pool ← change (← get).pool
      setPool pool) := by
  intro m
  refine Keeps.final_bind (Keeps.get m) fun _ m₁ hget => ?_
  obtain ⟨rfl, rfl⟩ := returns_get.1 hget
  refine Keeps.final_bind (Keeps.liftM _ _) fun pool m₂ hlift => ?_
  obtain ⟨hchange, rfl⟩ := returns_liftM.1 hlift
  exact .of_files rfl rfl rfl (.still rfl rfl (h hchange) rfl (.refl _))

@[grind .] theorem keeps_setOwner (index : Nat) (owner : Option Owner) :
    Keeps Aside (setOwner index owner) :=
  fun m => .of_files rfl rfl rfl (.still (frames_setOwner m index owner) rfl (.refl _) rfl (.refl _))

@[grind .] theorem keeps_updatePage (key : Key Page) (change : Page → Page) :
    Keeps Aside (updatePage key change) :=
  fun _ => .of_files rfl rfl rfl (.of_eq rfl)

@[grind .] theorem keeps_updateDirectory (key : Key Directory) (change : Directory → Directory) :
    Keeps Aside (updateDirectory key change) :=
  fun _ => .of_files rfl rfl rfl (.of_eq rfl)

@[grind .] theorem keeps_addPage (page : Page) : Keeps Aside (addPage page) :=
  fun _ => .of_files rfl rfl rfl (.of_eq rfl)

@[grind .] theorem keeps_getPage (key : Key Page) : Keeps Aside (getPage key) := by
  unfold getPage
  grind

@[grind .] theorem keeps_getDirectory (key : Key Directory) : Keeps Aside (getDirectory key) := by
  unfold getDirectory
  grind

@[grind .] theorem keeps_getSpace (key : Key AddressSpace) : Keeps Aside (getSpace key) := by
  unfold getSpace
  grind

@[grind .] theorem keeps_getFile (key : Key File) : Keeps Aside (getFile key) := by
  unfold getFile
  grind

@[grind .] theorem keeps_getSlot (index : Nat) : Keeps Aside (getSlot index) := by
  unfold getSlot
  grind

@[grind .] theorem keeps_pinFrame (f : FrameNumber) (on : Bool) : Keeps Aside (pinFrame f on) :=
  keeps_changePool (·.setPinned f on) Pool.sameAllocation_setPinned

@[grind .] theorem keeps_frameBytes (f : FrameNumber) : Keeps Aside (frameBytes f) := by
  unfold frameBytes
  grind

@[grind .] theorem keeps_setFrameBytes (f : FrameNumber) (bytes : PageBytes) :
    Keeps Aside (setFrameBytes f bytes) :=
  keeps_changePool (·.setBytes f bytes) Pool.sameAllocation_setBytes

@[grind .] theorem keeps_copyFrame (source target : FrameNumber) :
    Keeps Aside (copyFrame source target) :=
  keeps_changePool (·.copy source target) fun h => by
    obtain ⟨bytes, -, hset⟩ := Pool.copy_eq_ok h
    exact Pool.sameAllocation_setBytes hset

@[grind .] theorem keeps_writeMemory (pa : PhysicalAddress) (data : Array UInt8) :
    Keeps Aside (writeMemory pa data) :=
  keeps_changePool (·.write pa data) fun h => by
    obtain ⟨bytes, -, -, hset⟩ := Pool.write_eq_ok h
    exact Pool.sameAllocation_setBytes hset

theorem aside_setSwap_bind {α : Type} {m : Machine} {swap : Swap} {next : Unit → Action α}
    (hdevice : m.swap.disk.SameDevice swap.disk) (h : Keeps Aside (next ())) :
    Aside m (final (setSwap swap >>= next) m) :=
  Keeps.final_bind (.of_files rfl rfl rfl (.still rfl rfl (.refl _) rfl hdevice)) fun _ m' _ => h m'

@[grind .] theorem keeps_storeInSwap {n : Nat} (buffer : Bytes n) :
    Keeps Aside (storeInSwap buffer) := by
  intro m
  refine Keeps.final_bind (Keeps.liftM _ m) fun page m' hlift => ?_
  obtain ⟨-, rfl⟩ := returns_liftM.1 hlift
  refine Keeps.final_bind (Keeps.get m') fun _ m₁ hget => ?_
  obtain ⟨rfl, rfl⟩ := returns_get.1 hget
  split
  next result swap hstore =>
  refine aside_setSwap_bind (Swap.sameDevice_store hstore) ?_
  dsimp only
  grind

@[grind .] theorem keeps_readFromSwap (slot : SwapSlot) {n : Nat} (buffer : Bytes n) :
    Keeps Aside (readFromSwap slot buffer) := by
  intro m
  refine Keeps.final_bind (Keeps.liftM _ m) fun page m' hlift => ?_
  obtain ⟨-, rfl⟩ := returns_liftM.1 hlift
  refine Keeps.final_bind (Keeps.get m') fun _ m₁ hget => ?_
  obtain ⟨rfl, rfl⟩ := returns_get.1 hget
  refine Keeps.final_bind (Keeps.liftM _ _) fun ⟨result, bytes, swap⟩ m₂ hlift => ?_
  obtain ⟨hread, rfl⟩ := returns_liftM.1 hlift
  exact aside_setSwap_bind (Swap.sameDevice_read hread) (.pure _)

@[grind .] theorem keeps_freeSwapSlot (slot : SwapSlot) : Keeps Aside (freeSwapSlot slot) := by
  intro m
  refine Keeps.final_bind (Keeps.get m) fun _ m₁ hget => ?_
  obtain ⟨rfl, rfl⟩ := returns_get.1 hget
  refine Keeps.final_bind (Keeps.liftM _ _) fun swap m₂ hlift => ?_
  obtain ⟨hfree, rfl⟩ := returns_liftM.1 hlift
  exact .of_files rfl rfl rfl (.still rfl rfl (.refl _) rfl (Swap.sameDevice_free hfree))

@[grind .] theorem keeps_evictAnonymous (slot : Option SwapSlot) {n : Nat} (buffer : Bytes n) :
    Keeps Aside (evictAnonymous slot buffer) := by
  unfold evictAnonymous
  grind

@[grind .] theorem keeps_discardAnonymous (slot : Option SwapSlot) :
    Keeps Aside (discardAnonymous slot) := by
  unfold discardAnonymous
  grind

@[grind .] theorem keeps_reopen (file : Key File) : Keeps Aside (reopen file) := by
  intro m
  refine Keeps.final_bind (keeps_getFile file m) fun current m' hget => ?_
  obtain ⟨hfile, rfl⟩ := returns_getFile.1 hget
  change Aside m' (final (if m'.canReopen file current = true then _ else _) m')
  split
  · exact ⟨rfl, rfl, issued_modify hfile (Nat.le_succ _), .of_eq rfl⟩
  · exact refl_of Aside m'

@[grind .] theorem keeps_writeSliceBack (slice : FileSlice) {n : Nat} (buffer : Bytes n) :
    Keeps Aside (writeSliceBack slice buffer) := by
  intro m
  refine Keeps.final_bind (keeps_getFile _ m) fun current m' hget => ?_
  obtain ⟨hfile, rfl⟩ := returns_getFile.1 hget
  refine Keeps.final_bind (Keeps.liftM _ m') fun ⟨written, changed⟩ m₁ hlift => ?_
  obtain ⟨hback, rfl⟩ := returns_liftM.1 hlift
  have hissued : changed.issued = current.issued := by
    rcases FileSlice.writeBack_eq_ok hback with ⟨rfl, -⟩ | rfl <;> rfl
  refine Keeps.final_bind ⟨rfl, rfl, issued_modify hfile hissued.ge, .of_eq rfl⟩
    fun _ m₂ _ => ?_
  split
  · exact keeps_record rfl m₂
  · exact refl_of Aside m₂

@[grind .] theorem keeps_evictToSlice (slice : FileSlice) {n : Nat} (buffer : Bytes n)
    (dirty : Bool) : Keeps Aside (evictToSlice slice buffer dirty) := by
  unfold evictToSlice
  grind

@[grind .] theorem keeps_duplicateSlice (slice : FileSlice) :
    Keeps Aside (duplicateSlice slice) := by
  unfold duplicateSlice
  grind

@[grind .] theorem keeps_duplicatePending (source : Pending) :
    Keeps Aside (duplicatePending source) := by
  unfold duplicatePending
  grind

@[grind .] theorem keeps_mapPage (d : Key Directory) (va : VirtualAddress) (pa : PhysicalAddress)
    (flags : PageFlags) : Keeps Aside (mapPage d va pa flags) := by
  unfold mapPage
  grind

@[grind .] theorem keeps_unmapPage (d : Key Directory) (va : VirtualAddress) :
    Keeps Aside (unmapPage d va) := by
  unfold unmapPage
  grind

@[grind .] theorem keeps_testFlag (d : Key Directory) (va : VirtualAddress) (flag : Flag) :
    Keeps Aside (testFlag d va flag) := by
  unfold testFlag
  grind

@[grind .] theorem keeps_setFlag (d : Key Directory) (va : VirtualAddress) (flag : Flag)
    (on : Bool) : Keeps Aside (setFlag d va flag on) := by
  unfold setFlag
  grind

@[grind .] theorem keeps_moveOut (contents : Contents) (f : FrameNumber) (dirty : Bool) :
    Keeps Aside (moveOut contents f dirty) := by
  unfold moveOut
  grind

@[grind .] theorem keeps_unmapOwner (owner : Owner) : Keeps Aside (unmapOwner owner) := by
  unfold unmapOwner
  grind

@[grind .] theorem keeps_evict (index : Nat) : Keeps Aside (evict index) := by
  unfold evict
  refine .bind (keeps_getSlot index) fun slot => ?_
  split
  · refine .bind (keeps_setOwner index none) fun _ => .bind .get fun m => ?_
    split <;> grind
  · grind

@[grind .] theorem keeps_link (index : Nat) (key : Key Page) (d : Key Directory) :
    Keeps Aside (link index key d) := by
  unfold link
  grind

theorem handAfterRemoval_lt {hand index remaining : Nat} :
    handAfterRemoval hand index remaining = 0 ∨ handAfterRemoval hand index remaining < remaining := by
  unfold handAfterRemoval
  generalize (if index < hand then hand - 1 else hand) = moved
  dsimp only
  split
  · exact .inl rfl
  · next hlt => exact .inr (Nat.not_le.1 hlt)

@[grind .] theorem keeps_removeSlot (index : Nat) : Keeps Aside (removeSlot index) := by
  intro m
  refine Keeps.final_bind (keeps_getSlot index m) fun slot m' hget => ?_
  obtain ⟨hslot, rfl⟩ := returns_getSlot.1 hget
  let left : Machine := { m' with
    listed := m'.listed.eraseIdx index
    hand := handAfterRemoval m'.hand index (m'.listed.eraseIdx index).length }
  change Aside m' (final (ofExcept (m'.pool.release slot.frame) >>= fun pool => do
    setPool pool
    record (.frameFreed slot.frame)) left)
  have hmem : slot.frame ∈ m'.frames := List.mem_map_of_mem (List.mem_of_getElem? hslot)
  cases hrelease : m'.pool.release slot.frame with
  | ok pool =>
      let freed : Machine := { left with pool, events := left.events.push (.frameFreed slot.frame) }
      have hleaves : m'.Accounts → m'.HandInList → Leaves slot.frame m' freed :=
        fun h hhand => leaves_of_eraseIdx h.nodup hhand hslot rfl rfl
      exact .of_files rfl rfl rfl (.single (fun _ => handAfterRemoval_lt)
        (fun h => h.left hrelease rfl (frames_eraseIdx h.nodup hslot rfl))
        (fun h hhand => .left _ (hleaves h hhand) (poolLog_report rfl rfl)) (.refl _))
  | error panic =>
      -- the pool takes back every frame that is listed
      have hnot : ¬m'.Accounts := fun h => by
        obtain ⟨pool, hfreed⟩ := Pool.exists_release (h.allocated _ hmem)
        rw [hfreed] at hrelease
        cases hrelease
      exact .of_files rfl rfl rfl (.single (fun _ => handAfterRemoval_lt) (fun h => absurd h hnot)
        (fun h => absurd h hnot) (.refl _))

@[grind .] theorem keeps_giveUp (contents : Contents) (frame : Option FrameNumber) (dirty : Bool) :
    Keeps Aside (giveUp contents frame dirty) := by
  unfold giveUp
  cases frame <;> simp only [Option.mapM_none, Option.mapM_some] <;> grind

theorem steady_passed {m : Machine} (hempty : m.pool.allocate = none) (h : m.listed ≠ []) :
    Steady m { m with hand := (m.hand % m.listed.length + 1) % m.listed.length } := by
  have hlength : m.listed.length = m.frames.length := (length_frames m).symm
  refine .single (fun _ => .inr (Nat.mod_lt _ (List.length_pos_iff.2 h)))
    (fun h => h.congr (.refl _) rfl) (fun _ _ => .passed hempty rfl ?_ rfl) (.refl _)
  change m.frames.rotate ((m.hand % m.listed.length + 1) % m.listed.length) = m.round.rotate 1
  rw [Nat.mod_add_mod, hlength, List.rotate_mod, round, List.rotate_rotate]

theorem aside_sweep {m : Machine} {steps : Nat} (hempty : m.pool.allocate = none)
    (h : steps = 0 ∨ m.listed ≠ []) : Aside m (final (sweep steps) m) := by
  induction steps generalizing m with
  | zero => exact refl_of Aside m
  | succ steps ih =>
      have hne := h.resolve_left (Nat.succ_ne_zero steps)
      have hmoved : Aside m { m with hand := (m.hand % m.listed.length + 1) % m.listed.length } :=
        .of_files rfl rfl rfl (steady_passed hempty hne)
      refine trans_of Aside hmoved (Keeps.final_bind (keeps_getSlot _ _) fun slot m₁ hget => ?_)
      obtain ⟨-, rfl⟩ := returns_getSlot.1 hget
      split
      swap
      · exact ih hempty (.inr hne)
      refine Keeps.final_bind (Keeps.liftM _ _) fun frame m₂ hlift => ?_
      obtain ⟨-, rfl⟩ := returns_liftM.1 hlift
      split
      · exact ih hempty (.inr hne)
      refine Keeps.final_bind (keeps_testFlag _ _ _ _) fun accessed m₃ htest => ?_
      obtain ⟨directory, m₄, hdirectory, hpure⟩ := returns_bind.1 htest
      obtain ⟨-, rfl⟩ := returns_getDirectory.1 hdirectory
      obtain ⟨-, rfl⟩ := returns_pure.1 hpure
      split
      · refine Keeps.final_bind (keeps_setFlag _ _ _ _ _) fun _ m₅ hclear => ?_
        obtain ⟨_, m₆, hdirectory, hupdate⟩ := returns_bind.1 hclear
        obtain ⟨-, rfl⟩ := returns_getDirectory.1 hdirectory
        obtain rfl := returns_updateDirectory.1 hupdate
        exact ih hempty (.inr hne)
      · exact refl_of Aside _

theorem aside_selectVictim {m : Machine} (hempty : m.pool.allocate = none) :
    Aside m (final selectVictim m) := by
  refine aside_sweep hempty ?_
  cases hlisted : m.listed with
  | nil => exact .inl rfl
  | cons slot rest => exact .inr (List.cons_ne_nil _ _)

theorem returns_allocateFrame_none {m : Machine} (hempty : m.pool.allocate = none) :
    Returns allocateFrame m none m := by
  simp only [allocateFrame, returns_bind, returns_get, and_assoc, exists_and_left, exists_eq_left,
    hempty, returns_pure, and_self]

theorem returns_allocateFrame_some {m : Machine} {f : FrameNumber} {pool : Pool}
    (hallocate : m.pool.allocate = some (f, pool)) :
    Returns allocateFrame m (some f)
      { m with pool, events := m.events.push (.frameAllocated f) } := by
  simp only [allocateFrame, returns_bind, returns_get, and_assoc, exists_and_left, exists_eq_left,
    hallocate, returns_setPool, returns_record, returns_pure, exists_const, and_self]

@[grind .] theorem keeps_acquire : Keeps Aside acquire := by
  intro m
  unfold acquire
  cases hallocate : m.pool.allocate with
  | some handed =>
      -- the list grows at the end, so the hand stays in it
      obtain ⟨f, pool⟩ := handed
      rw [(returns_allocateFrame_some hallocate).final_bind]
      have hframes : (m.listed ++ [(⟨f, none⟩ : FrameSlot)]).map (·.frame) = m.frames ++ [f] :=
        List.map_append
      refine .of_files rfl rfl rfl (.single (fun h => h.imp_right fun hlt => ?_)
        (fun h => h.joined hallocate rfl hframes)
        (fun _ _ => .joined f ⟨pool, hallocate⟩ hframes rfl (poolLog_report rfl rfl)) (.refl _))
      change m.hand < (m.listed ++ _).length
      rw [List.length_append]
      omega
  | none =>
      rw [(returns_allocateFrame_none hallocate).final_bind]
      refine Keeps.final_bind (aside_selectVictim hallocate) fun victim? m₁ _ => ?_
      split
      · exact (keeps_evict _).bind (fun _ => .pure _) m₁
      · exact refl_of Aside m₁

@[grind .] theorem keeps_acquireBeside (source : CopySource) :
    Keeps Aside (acquireBeside source) := by
  unfold acquireBeside
  grind

@[grind .] theorem keeps_release (key : Key Page) : Keeps Aside (release key) := by
  unfold release
  refine .bind (keeps_getPage key) fun page => .bind (keeps_updatePage key _) fun _ =>
    .bind .get fun m => ?_
  dsimp only
  split <;> split <;> grind

@[grind .] theorem keeps_copyBytes (source : CopySource) (target : FrameNumber) :
    Keeps Aside (copyBytes source target) := by
  unfold copyBytes
  grind

@[grind .] theorem keeps_copyContents (page : Page) : Keeps Aside (copyContents page).run := by
  unfold copyContents
  grind

@[grind .] theorem keeps_duplicate (key : Key Page) (d : Key Directory) :
    Keeps Aside (duplicate key d).run := by
  unfold duplicate
  refine .run_bind (.run_liftM (keeps_getPage key)) fun page =>
    .run_bind (keeps_copyContents page) fun parts => .run_bind (.run_computed _) fun copy => ?_
  split
  · grind
  · refine .run_bind (.run_liftM (keeps_acquireBeside _)) fun acquired => ?_
    split <;> grind

@[grind .] theorem keeps_dropPage (key : Key Page) : Keeps Aside (dropPage key) := by
  unfold dropPage
  refine .bind (keeps_getPage key) fun page => ?_
  split
  · exact .modify fun _ => .of_files rfl rfl rfl (.of_eq rfl)
  · exact keeps_updatePage key _

@[grind .] theorem keeps_releaseHeld (key : Key Page) : Keeps Aside (releaseHeld key) := by
  unfold releaseHeld
  grind

@[grind .] theorem keeps_removeFromMap (map : PageMap) (n : PageNumber) :
    Keeps Aside (removeFromMap map n) := by
  unfold removeFromMap
  grind

end Machine

/-! ### One address space -/

def Machine.stackPointersOf (m : Machine) (s : Key AddressSpace) : Option (Nat × Nat) :=
  (m.spaces.get? s).map fun space => (space.stackPointer, space.savedStackPointer)

namespace Space

open Machine

/-- What the clients hold, and the address spaces other than the one, are the same, and no handle and
no name of an address space was taken back. -/
structure Others (s : Id) (m m' : Machine) : Prop where
  clients : m'.clients = m.clients
  elsewhere : ∀ s', s' ≠ s → m'.spaces.get? s' = m.spaces.get? s'
  issued : ∀ f, m.issued f ≤ m'.issued f
  named : m.spaces.nextKey.index ≤ m'.spaces.nextKey.index
  steady : Steady m m'

instance (s : Id) : IsPreorder Machine (Others s) where
  refl m := ⟨rfl, fun _ _ => rfl, fun _ => Nat.le_refl _, Nat.le_refl _, .refl m⟩
  trans _ _ _ h h' := ⟨h'.clients.trans h.clients,
    fun s' hs' => (h'.elsewhere s' hs').trans (h.elsewhere s' hs'),
    fun f => (h.issued f).trans (h'.issued f), h.named.trans h'.named, h.steady.trans h'.steady⟩

variable (s : Id)

@[grind ←] theorem keeps_others {α : Type} {action : Action α} (h : Keeps Aside action) :
    Keeps (Others s) action :=
  h.mono fun haside => ⟨haside.clients, fun _ _ => by rw [haside.spaces], haside.issued,
    by rw [haside.spaces], haside.steady⟩

@[grind .] theorem keeps_updateSpace (change : AddressSpace → AddressSpace) :
    Keeps (Others s) (updateSpace s change) :=
  .modify fun m => ⟨rfl, fun s' hs' => by rw [Arena.get?_modify, if_neg (Ne.symm hs')],
    fun _ => Nat.le_refl _, by rw [Arena.nextKey_modify], .of_eq rfl⟩

@[grind .] theorem keeps_eraseSpace : Keeps (Others s) (eraseSpace s) :=
  .modify fun m => ⟨rfl, fun s' hs' => by rw [Arena.get?_erase, if_neg (Ne.symm hs')],
    fun _ => Nat.le_refl _, by rw [Arena.nextKey_erase], .of_eq rfl⟩

@[grind .] theorem keeps_removePage (n : PageNumber) : Keeps (Others s) (removePage s n) := by
  unfold removePage
  grind

@[grind .] theorem keeps_removePages (numbers : List PageNumber) :
    Keeps (Others s) (removePages s numbers) := by
  induction numbers with
  | nil => exact .pure _
  | cons n rest ih =>
      unfold removePages
      grind

@[grind .] theorem keeps_unmapFile (start : VirtualAddress) :
    Keeps (Others s) (unmapFile s start) := by
  unfold unmapFile
  refine .bind (keeps_others s (keeps_getSpace s)) fun space =>
    .bind (keeps_others s (keeps_getSpace s)) fun space' => ?_
  split <;> grind

@[grind .] theorem keeps_unmapFiles (starts : List VirtualAddress) :
    Keeps (Others s) (unmapFiles s starts) := by
  induction starts with
  | nil => exact .pure _
  | cons start rest ih =>
      unfold unmapFiles
      grind

@[grind .] theorem keeps_drop : Keeps (Others s) (drop s) := by
  unfold drop tearDown
  grind

/-- The address space may have other regions and pages, but it is there and its stack pointers are the
same. -/
structure Filled (m m' : Machine) : Prop where
  others : Others s m m'
  stackPointers : m'.stackPointersOf s = m.stackPointersOf s

instance : IsPreorder Machine (Filled s) where
  refl m := ⟨refl_of (Others s) m, rfl⟩
  trans _ _ _ h h' := ⟨trans_of (Others s) h.others h'.others,
    h'.stackPointers.trans h.stackPointers⟩

theorem filled_of_aside {m m' : Machine} (h : Aside m m') : Filled s m m' where
  others := ⟨h.clients, fun _ _ => by rw [h.spaces], h.issued, by rw [h.spaces], h.steady⟩
  stackPointers := by rw [stackPointersOf, h.spaces, stackPointersOf]

theorem keeps_filled {α : Type} {action : Action α} (h : Keeps Aside action) :
    Keeps (Filled s) action := h.mono (filled_of_aside s)

theorem keeps_filled_updateSpace {change : AddressSpace → AddressSpace}
    (h : ∀ space, (change space).stackPointer = space.stackPointer ∧
      (change space).savedStackPointer = space.savedStackPointer) :
    Keeps (Filled s) (updateSpace s change) := fun m => by
  refine ⟨keeps_updateSpace s change m, ?_⟩
  change Option.map _ (Arena.get? (Arena.modify m.spaces s change) s) = _
  rw [Arena.get?_modify, if_pos rfl, stackPointersOf]
  cases m.spaces.get? s with
  | none => rfl
  | some space => simp only [Option.map_some, h]

theorem keeps_copyRegions (regions : List Region) :
    Keeps (Filled s) (copyRegions s regions).run := by
  induction regions with
  | nil => exact .run_pure _
  | cons region rest ih =>
      refine .run_bind (.run_liftM (keeps_filled s (keeps_reopen _))) fun handle? => ?_
      split
      · exact .run_bind (.run_liftM (keeps_filled_updateSpace s fun _ => ⟨rfl, rfl⟩)) fun _ => ih
      · exact .run_throw _

theorem keeps_copyPages (keys : List (Key Page)) : Keeps (Filled s) (copyPages s keys).run := by
  induction keys with
  | nil => exact .run_pure _
  | cons key rest ih =>
      refine .run_bind (.run_liftM (keeps_filled s (keeps_getSpace s))) fun target =>
        .run_bind (keeps_filled s (keeps_duplicate _ _)) fun copy =>
          .run_bind (.run_liftM (keeps_filled s (keeps_getPage _))) fun page => ?_
      split
      · exact .run_bind (.run_liftM (keeps_filled_updateSpace s fun _ => ⟨rfl, rfl⟩)) fun _ => ih
      · exact .run_bind (.run_liftM (keeps_filled s (keeps_releaseHeld _))) fun _ => .run_throw _

theorem keeps_copy (parent : AddressSpace) : Keeps (Filled s) (do
    copyRegions s parent.regions.values
    copyPages s parent.pages.values : ExceptT VmError Action Unit).run :=
  .run_bind (keeps_copyRegions s _) fun _ => keeps_copyPages s _

@[grind .] theorem keeps_copyAll (parent : AddressSpace) :
    Keeps (Others s) (copyAll s parent).run :=
  .tryCatch ((keeps_copy s parent).mono fun h => h.others) fun _ =>
    .run_bind (.run_liftM (keeps_drop s)) fun _ => .run_liftM (.throw _)

theorem others_of_create {name : String} {m m' : Machine} {s : Id}
    (hrun : Returns (create name) m s m') : s = m.spaces.nextKey ∧ Others s m m' := by
  simp only [Space.create, returns_bind, returns_record, returns_addDirectory, returns_addSpace,
    and_assoc, exists_and_left, exists_eq_left, exists_const] at hrun
  obtain ⟨rfl, hm'⟩ := hrun
  rw [hm']
  exact ⟨rfl, rfl, fun s' hs' => by rw [Arena.get?_add, if_neg hs'], fun _ => Nat.le_refl _,
    (Nat.le_succ _).trans_eq (Arena.index_nextKey_add _ _).symm,
    .still rfl rfl (.refl _) (poolLog_other rfl rfl) (.refl _)⟩

theorem others_of_fork {parent : Id} {name : String} {m m' : Machine} {answer : Except VmError Id}
    (hrun : Answers (fork parent name) m answer m') :
    Others m.spaces.nextKey m m' := by
  unfold fork at hrun
  obtain ⟨current, m₀, hget, hrest⟩ := answers_liftM_bind.1 hrun
  obtain ⟨-, rfl⟩ := returns_getSpace.1 hget
  obtain ⟨child, m₁, hcreate, hcopy⟩ := answers_liftM_bind.1 hrest
  obtain ⟨rfl, hcreated⟩ := others_of_create hcreate
  refine trans_of (Others _) hcreated (Keeps.returns ?_ hcopy)
  refine .run_bind (.run_liftM (keeps_updateSpace _ _)) fun _ =>
    .run_bind (.run_liftM (keeps_updateSpace _ _)) fun _ => .run_bind ?_ fun _ => ?_
  · grind
  · grind

end Space

end DemandPaging
