import DemandPaging.Proofs.Machine.Copies
import Mathlib.Data.List.Rotate
import Mathlib.Data.List.TakeWhile

/-!
The eviction clock.

The frames in use stand in a circle, and the hand points at the one where the next sweep begins. Of
the frames that have an owner and are not pinned, the rule of the second chance takes the first one
whose page was not accessed since the hand last came by, and if every page was, the first one. The
frames before that one are passed over, and their pages lose their accessed bits.

The rule is stated here as a function of the state, and the clock is proved to follow it. What the
clock does over a stretch of the circle is put together from what it does at one frame, and a second
round only comes to pages whose bit was cleared in the first.
-/

namespace DemandPaging

def Owner.covers (o : Owner) (d : Key Directory) (va : VirtualAddress) : Bool :=
  decide (o.directory = d ∧ o.va.number = va.number)

def FrameSlot.covers (slot : FrameSlot) (d : Key Directory) (va : VirtualAddress) : Bool :=
  slot.owner.any (·.covers d va)

namespace Machine

/-! ### The rule -/

section

variable (m : Machine) (spared : Option FrameNumber)

def isAccessed (d : Key Directory) (va : VirtualAddress) : Bool :=
  (m.directories.get? d).any (·.test va .accessed)

def wasAccessed (slot : FrameSlot) : Bool :=
  slot.owner.any fun o => m.isAccessed o.directory o.va

/-- Whether a frame may be taken from its page, if one frame is spared. -/
def isEligible (slot : FrameSlot) : Bool :=
  slot.owner.isSome && !m.pool.isPinned slot.frame && decide (spared ≠ some slot.frame)

/-- The frames in use, in the order in which the clock comes to them. -/
def clockOrder : List FrameSlot := m.listed.rotate m.hand

/-- The frames that may be taken from their pages, in the order of the clock. -/
def eligible : List FrameSlot := m.clockOrder.filter (m.isEligible spared)

/-- The frame to be taken from its page: the first one whose page was not accessed, or else the
first one. -/
def victim? : Option FrameSlot :=
  ((m.eligible spared).find? fun slot => !m.wasAccessed slot).or (m.eligible spared).head?

/-- The frames whose pages get a second chance: those before the first one whose page was not
accessed. -/
def reprieved : List FrameSlot := (m.eligible spared).takeWhile m.wasAccessed

end

variable {m m₁ m' : Machine} {slot v : FrameSlot} {slots rest : List FrameSlot}
  {spared : Option FrameNumber} {d : Key Directory} {va : VirtualAddress} {o : Owner}

/-! ### Accessed bits -/

theorem isAccessed_of_covers (h : o.covers d va = true) :
    m.isAccessed d va = m.isAccessed o.directory o.va := by
  rw [Owner.covers, decide_eq_true_eq] at h
  rw [isAccessed, isAccessed, h.1]
  simp only [Directory.test, Directory.find?_eq_of_number_eq h.2]

theorem isAccessed_modify {directory changed : Directory}
    (hdirectory : m.directories.get? d = some directory) (n : PageNumber)
    (hchanged : ∀ b, changed.test b .accessed =
      if n = b.number then false else directory.test b .accessed)
    (d' : Key Directory) (b : VirtualAddress) :
    ({ m with directories := m.directories.modify d fun _ => changed } : Machine).isAccessed d' b =
      (m.isAccessed d' b && !decide (d = d' ∧ n = b.number)) := by
  simp only [isAccessed, Arena.get?_modify]
  by_cases hd : d = d'
  · subst hd
    by_cases hn : n = b.number <;> simp [hdirectory, hchanged, hn]
  · simp [hd]

theorem isAccessed_clearFlag {u : Unit} (h : Returns (setFlag o.directory o.va .accessed false) m u m')
    (d : Key Directory) (va : VirtualAddress) :
    m'.isAccessed d va = (m.isAccessed d va && !o.covers d va) := by
  simp only [setFlag, returns_bind, returns_getDirectory, returns_updateDirectory, and_assoc,
    exists_and_left, exists_eq_left] at h
  obtain ⟨directory, hdirectory, rfl⟩ := h
  exact isAccessed_modify hdirectory _ (Directory.test_accessed_clear directory o.va) d va

theorem isAccessed_unmapOwner {dirty : Bool} (h : Returns (unmapOwner o) m dirty m')
    (d : Key Directory) (va : VirtualAddress) :
    m'.isAccessed d va = (m.isAccessed d va && !o.covers d va) := by
  simp only [unmapOwner, unmapPage, returns_bind, returns_getDirectory, returns_updateDirectory,
    returns_pure, and_assoc, exists_and_left, exists_eq_left, exists_const] at h
  obtain ⟨_, m₁, htest, _, _, ⟨directory, hdirectory, -, rfl⟩, -, rfl⟩ := h
  obtain ⟨rfl, -⟩ := returns_testFlag htest
  exact isAccessed_modify hdirectory _ (fun b => Directory.test_unmap directory o.va b .accessed) d va

theorem isAccessed_mapPage {pa : PhysicalAddress} {flags : PageFlags} {u : Unit}
    (h : Returns (mapPage o.directory o.va pa flags) m u m') (d : Key Directory)
    (va : VirtualAddress) : m'.isAccessed d va = (m.isAccessed d va && !o.covers d va) := by
  simp only [mapPage, returns_bind, returns_getDirectory, returns_liftM, returns_updateDirectory,
    and_assoc, exists_and_left, exists_eq_left] at h
  obtain ⟨directory, hdirectory, changed, hmap, rfl⟩ := h
  exact isAccessed_modify hdirectory _ (Directory.test_map hmap (.inl rfl)) d va

theorem returns_testAccessed {on : Bool} (h : Returns (testFlag d va .accessed) m on m') :
    on = m.isAccessed d va := by
  simp only [testFlag, returns_bind, returns_getDirectory, returns_pure, and_assoc,
    exists_and_left, exists_eq_left] at h
  obtain ⟨directory, hdirectory, rfl, -⟩ := h
  rw [isAccessed, hdirectory, Option.any_some]

/-! ### The circle -/

theorem HandInList.mod_eq (h : m.HandInList) : m.hand % m.listed.length = m.hand := by
  obtain h | h := h
  · rw [h, Nat.zero_mod]
  · exact Nat.mod_eq_of_lt h

theorem HandInList.getElem?_hand (h : m.HandInList) (horder : m.clockOrder = slot :: rest) :
    m.listed[m.hand]? = some slot := by
  have hne : m.listed ≠ [] := fun hnil => by simp [clockOrder, hnil] at horder
  have hlt : m.hand < m.listed.length := by
    obtain h | h := h
    · rw [h]
      exact List.length_pos_iff.2 hne
    · exact h
  rw [← List.head?_rotate hlt, ← clockOrder, horder, List.head?_cons]

theorem mem_clockOrder : slot ∈ m.clockOrder ↔ slot ∈ m.listed := List.mem_rotate

theorem mem_eligible : slot ∈ m.eligible spared ↔
    slot ∈ m.listed ∧ m.isEligible spared slot = true := by
  rw [eligible, List.mem_filter, mem_clockOrder]

theorem eligible_eq_nil : m.eligible spared = [] ↔
    ∀ slot ∈ m.listed, m.isEligible spared slot = false := by
  simp only [eligible, List.filter_eq_nil_iff, mem_clockOrder, Bool.not_eq_true]

theorem length_clockOrder : m.clockOrder.length = m.listed.length := List.length_rotate ..

theorem Sound.eq_of_covers {x : Option FrameNumber} (h : Sound x m) {other : FrameSlot}
    (hslot : slot ∈ m.listed) (hother : other ∈ m.listed) (howner : other.owner = some o)
    (hcovers : slot.covers o.directory o.va = true) : slot = other := by
  obtain ⟨f, owner⟩ := slot
  obtain ⟨g, owner'⟩ := other
  obtain rfl : owner' = some o := howner
  obtain ⟨o', rfl, hsame⟩ := (Option.any_eq_true ..).1 hcovers
  simp only [Owner.covers, decide_eq_true_eq] at hsame
  have hlisted := (ownerIn_eq_some h.tidy.nodup).2 hslot
  have hlisted' := (ownerIn_eq_some h.tidy.nodup).2 hother
  obtain rfl := h.coherent.residency.owner_injective hlisted hlisted' hsame.1.symm hsame.2.symm
  cases hlisted.symm.trans hlisted'
  rfl

/-! ### Sweeping -/

structure Swept (slots : List FrameSlot) (m m' : Machine) : Prop where
  state : ∃ directories, m' = { m with
    hand := (m.hand + slots.length) % m.listed.length
    directories }
  view : m'.view = m.view
  accessed : ∀ d va, m'.isAccessed d va =
    (m.isAccessed d va && !(slots.filter (m.isEligible none)).any (·.covers d va))
  /-- Nothing is done to a page that may not be taken out of its frame. -/
  idle : slots.filter (m.isEligible none) = [] → m'.directories = m.directories

namespace Swept

theorem refl (hhand : m.HandInList) : Swept [] m m :=
  ⟨⟨m.directories, by simp only [List.length_nil, Nat.add_zero, hhand.mod_eq]⟩, rfl, by simp,
    fun _ => rfl⟩

theorem listed_eq (h : Swept slots m m') : m'.listed = m.listed := by
  obtain ⟨directories, rfl⟩ := h.state
  rfl

theorem isEligible_eq (h : Swept slots m m') : m'.isEligible = m.isEligible := by
  obtain ⟨directories, rfl⟩ := h.state
  rfl

theorem trans (h : Swept slots m m₁) (h' : Swept rest m₁ m') : Swept (slots ++ rest) m m' where
  state := by
    obtain ⟨directories, rfl⟩ := h.state
    obtain ⟨directories', rfl⟩ := h'.state
    refine ⟨directories', ?_⟩
    simp only [Nat.mod_add_mod, List.length_append, Nat.add_assoc]
  view := h'.view.trans h.view
  accessed d va := by
    rw [h'.accessed, h.accessed, h.isEligible_eq, List.filter_append, List.any_append,
      Bool.not_or, Bool.and_assoc]
  idle hnone := by
    rw [List.filter_append, List.append_eq_nil_iff] at hnone
    rw [h'.idle (by rw [h.isEligible_eq, hnone.2]), h.idle hnone.1]

theorem clockOrder (h : Swept slots m m') : m'.clockOrder = m.clockOrder.rotate slots.length := by
  obtain ⟨directories, rfl⟩ := h.state
  simp only [Machine.clockOrder, List.rotate_mod, List.rotate_rotate]

theorem handInList (h : Swept slots m m') (hne : m.listed ≠ []) : m'.HandInList := by
  obtain ⟨directories, rfl⟩ := h.state
  exact .inr (Nat.mod_lt _ (List.length_pos_iff.2 hne))

theorem sound {x : Option FrameNumber} (h : Swept slots m m') (hsound : Sound x m) : Sound x m' := by
  refine hsound.of_view h.view ?_
  obtain ⟨directories, rfl⟩ := h.state
  exact hsound.tidy.of_eq rfl rfl

end Swept

theorem sweep_cases {steps : Nat} {victim : Option Nat} (hhand : m.HandInList)
    (horder : m.clockOrder = slot :: rest) (hrun : Returns (sweep (steps + 1)) m victim m') :
    m.isEligible none slot = true ∧ m.wasAccessed slot = false ∧ victim = some m.hand ∧
        m' = { m with hand := (m.hand + 1) % m.listed.length } ∨
      (m.isEligible none slot = true → m.wasAccessed slot = true) ∧
        ∃ m₁, Swept [slot] m m₁ ∧ Returns (sweep steps) m₁ victim m' := by
  simp only [sweep, returns_bind, returns_get, returns_setHand, returns_getSlot, and_assoc,
    exists_and_left, exists_eq_left, exists_const, hhand.mod_eq] at hrun
  obtain ⟨_, hslot, hrun⟩ := hrun
  rw [hhand.getElem?_hand horder] at hslot
  cases hslot
  have hpassed : m.isEligible none slot = false →
      Swept [slot] m { m with hand := (m.hand + 1) % m.listed.length } := fun hspared =>
    ⟨⟨m.directories, rfl⟩, rfl, by simp [hspared, isAccessed], fun _ => rfl⟩
  cases howner : slot.owner with
  | none =>
      rw [howner] at hrun
      have hspared : m.isEligible none slot = false := by simp [isEligible, howner]
      exact .inr ⟨by simp [hspared], _, hpassed hspared, hrun⟩
  | some o =>
      rw [howner] at hrun
      simp only [returns_bind, returns_liftM, and_assoc, exists_and_left,
        exists_eq_left] at hrun
      obtain ⟨frame, hframe, hrun⟩ := hrun
      have hpinned : m.pool.isPinned slot.frame = frame.flags.pinned := by
        rw [Pool.isPinned, Pool.frame_eq_ok.1 hframe]
        rfl
      split at hrun
      · next hpin =>
        have hspared : m.isEligible none slot = false := by simp [isEligible, hpinned, hpin]
        exact .inr ⟨by simp [hspared], _, hpassed hspared, hrun⟩
      next hpin =>
      have heligible : m.isEligible none slot = true := by
        simp [isEligible, howner, hpinned, hpin]
      simp only [returns_bind] at hrun
      obtain ⟨accessed, m₁, htest, hrun⟩ := hrun
      obtain ⟨rfl, -⟩ := returns_testFlag htest
      have hwas : m.wasAccessed slot = accessed := by
        rw [wasAccessed, howner, Option.any_some, returns_testAccessed htest]
        rfl
      split at hrun
      · next hset =>
        simp only [returns_bind] at hrun
        obtain ⟨_, m₂, hclear, hrun⟩ := hrun
        obtain ⟨hview, directories, hm₂⟩ := returns_clearAccessed hclear
        refine .inr ⟨fun _ => by rw [hwas, hset], m₂, ⟨⟨directories, hm₂⟩, hview, fun d va => ?_,
          fun hnone => ?_⟩, hrun⟩
        · rw [isAccessed_clearFlag hclear]
          simp [heligible, FrameSlot.covers, howner, isAccessed]
        · simp [heligible] at hnone
      · next hunset =>
        obtain ⟨rfl, rfl⟩ := returns_pure.1 hrun
        exact .inl ⟨heligible, by rw [hwas]; simpa using hunset, rfl, rfl⟩

/-- Over a stretch of the circle without a frame that it would take, the clock passes. -/
theorem sweep_passes {steps : Nat} {victim : Option Nat} (hsound : Sound none m)
    (hhand : m.HandInList) (horder : m.clockOrder = slots ++ rest)
    (hpassed : ∀ slot ∈ slots, m.isEligible none slot = true → m.wasAccessed slot = true)
    (hrun : Returns (sweep (slots.length + steps)) m victim m') :
    ∃ m₁, Swept slots m m₁ ∧ m₁.HandInList ∧ Returns (sweep steps) m₁ victim m' := by
  induction slots generalizing m rest with
  | nil =>
      rw [List.length_nil, Nat.zero_add] at hrun
      exact ⟨m, .refl hhand, hhand, hrun⟩
  | cons slot slots ih =>
      rw [List.length_cons, Nat.add_right_comm] at hrun
      rw [List.cons_append] at horder
      obtain ⟨heligible, hwas, -⟩ | ⟨-, m₁, hswept, hrun⟩ := sweep_cases hhand horder hrun
      · rw [hpassed slot List.mem_cons_self heligible] at hwas
        cases hwas
      have hlisted : ∀ other ∈ slot :: slots, other ∈ m.listed := fun other hother => by
        rw [← mem_clockOrder, horder, ← List.cons_append]
        exact List.mem_append_left _ hother
      have hne : m.listed ≠ [] := List.ne_nil_of_mem (hlisted slot List.mem_cons_self)
      have hnodup : m.clockOrder.Nodup := List.nodup_rotate.2 hsound.tidy.nodup.of_map
      have horder₁ : m₁.clockOrder = slots ++ (rest ++ [slot]) := by
        rw [hswept.clockOrder, horder]
        simp
      have hpassed₁ : ∀ other ∈ slots, m₁.isEligible none other = true →
          m₁.wasAccessed other = true := fun other hother heligible => by
        rw [hswept.isEligible_eq] at heligible
        have hwas := hpassed other (List.mem_cons_of_mem _ hother) heligible
        obtain ⟨o, howner, hset⟩ := (Option.any_eq_true ..).1 hwas
        -- the bit that was cleared is not the one of another frame
        have huncovered : slot.covers o.directory o.va = false := by
          by_contra hcovers
          obtain rfl := hsound.eq_of_covers (hlisted slot List.mem_cons_self)
            (hlisted other (List.mem_cons_of_mem _ hother)) howner (by simpa using hcovers)
          rw [horder, ← List.cons_append] at hnodup
          exact (List.nodup_cons.1 (List.nodup_append.1 hnodup).1).1 hother
        rw [wasAccessed, howner, Option.any_some, hswept.accessed, hset]
        cases hown : m.isEligible none slot <;> simp [huncovered, hown]
      obtain ⟨m₂, hswept₂, hhand₂, hrun⟩ :=
        ih (hswept.sound hsound) (hswept.handInList hne) horder₁ hpassed₁ hrun
      exact ⟨m₂, hswept.trans hswept₂, hhand₂, hrun⟩

/-! ### The frame that is taken -/

theorem mem_eligible_of_victim (h : m.victim? spared = some v) : v ∈ m.eligible spared := by
  obtain hfound | ⟨-, hfirst⟩ := Option.or_eq_some_iff.1 h
  · exact List.mem_of_find?_eq_some hfound
  · exact List.mem_of_head? hfirst

theorem exists_owner_of_victim (h : m.victim? spared = some v) : ∃ o, v.owner = some o := by
  have heligible := (mem_eligible.1 (mem_eligible_of_victim h)).2
  simp only [isEligible, Bool.and_eq_true] at heligible
  exact Option.isSome_iff_exists.1 heligible.1.1

theorem victim?_eq_none : m.victim? spared = none ↔ m.eligible spared = [] := by
  rw [victim?, Option.or_eq_none_iff, List.head?_eq_none_iff]
  exact ⟨And.right, fun hnil => ⟨by rw [hnil, List.find?_nil], hnil⟩⟩

/-- There is no victim where every frame in use is pinned or has no owner. -/
theorem victim?_eq_none_iff : m.victim? none = none ↔
    ∀ slot ∈ m.listed, slot.owner = none ∨ m.pool.isPinned slot.frame = true := by
  rw [victim?_eq_none, eligible_eq_nil]
  refine forall₂_congr fun slot _ => ?_
  rw [isEligible]
  cases slot.owner <;> simp

/-- A page that was accessed is evicted only after it had a second chance. -/
theorem mem_reprieved_of_victim (h : m.victim? spared = some v) (hwas : m.wasAccessed v = true) :
    v ∈ m.reprieved spared := by
  obtain hfound | ⟨hnone, hfirst⟩ := Option.or_eq_some_iff.1 h
  · have hnot := List.find?_some hfound
    rw [hwas] at hnot
    cases hnot
  · have hall : ∀ slot ∈ m.eligible spared, m.wasAccessed slot = true := by
      simpa using List.find?_eq_none.1 hnone
    rw [reprieved, List.takeWhile_eq_self_iff.2 hall]
    exact List.mem_of_head? hfirst

structure Chosen (index : Nat) (v : FrameSlot) (m m' : Machine) : Prop where
  slot : m.listed[index]? = some v
  state : ∃ directories, m' = { m with hand := (index + 1) % m.listed.length, directories }
  view : m'.view = m.view
  accessed : ∀ d va, m'.isAccessed d va =
    (m.isAccessed d va && !(m.reprieved none).any (·.covers d va))

theorem sweep_stops {steps : Nat} {victim : Option Nat} (hsound : Sound none m)
    (hhand : m.HandInList) (horder : m.clockOrder = slots ++ v :: rest)
    (hpassed : ∀ slot ∈ slots, m.isEligible none slot = true → m.wasAccessed slot = true)
    (heligible : m.isEligible none v = true) (hwas : m.wasAccessed v = false)
    (hrun : Returns (sweep (slots.length + (steps + 1))) m victim m') :
    ∃ m₁ index, Swept slots m m₁ ∧ victim = some index ∧ m.listed[index]? = some v ∧
      m' = { m₁ with hand := (index + 1) % m.listed.length } := by
  obtain ⟨m₁, hswept, hhand₁, hrun⟩ := sweep_passes hsound hhand horder hpassed hrun
  have horder₁ : m₁.clockOrder = v :: (rest ++ slots) := by
    rw [hswept.clockOrder, horder, List.rotate_append_length_eq, List.cons_append]
  have hwas₁ : m₁.wasAccessed v = false := by
    obtain ⟨f, owner⟩ := v
    cases owner with
    | none => rfl
    | some o =>
        have hclear : m.isAccessed o.directory o.va = false := hwas
        rw [wasAccessed, Option.any_some, hswept.accessed, hclear, Bool.false_and]
  obtain ⟨-, -, rfl, hm'⟩ | ⟨hset, -⟩ := sweep_cases hhand₁ horder₁ hrun
  · rw [← hswept.listed_eq]
    exact ⟨m₁, m₁.hand, hswept, rfl, hhand₁.getElem?_hand horder₁, hm'⟩
  · rw [hset (by rw [hswept.isEligible_eq, heligible])] at hwas₁
    cases hwas₁

section

variable {victim : Option Nat}

/-- The first page that was not accessed is found in the first round. -/
theorem chosen_of_find? (hsound : Sound none m) (hhand : m.HandInList)
    (hfound : (m.eligible none).find? (fun slot => !m.wasAccessed slot) = some v)
    (hrun : Returns selectVictim m victim m') :
    ∃ index, victim = some index ∧ Chosen index v m m' := by
  rw [eligible, List.find?_filter, List.find?_eq_some_iff_append] at hfound
  obtain ⟨hv, slots, rest, horder, hslots⟩ := hfound
  simp only [Bool.not_eq_true', decide_eq_true_eq, decide_eq_false_iff_not, not_and,
    Bool.not_eq_false] at hv hslots
  obtain ⟨heligible, hwas⟩ := hv
  obtain ⟨steps, hsteps⟩ : ∃ steps, m.listed.length * 2 = slots.length + (steps + 1) := by
    have hlength := length_clockOrder (m := m)
    rw [horder, List.length_append, List.length_cons] at hlength
    exact ⟨m.listed.length * 2 - slots.length - 1, by omega⟩
  rw [selectVictim, returns_get_bind, hsteps] at hrun
  obtain ⟨m₁, index, hswept, rfl, hslot, rfl⟩ :=
    sweep_stops hsound hhand horder hslots heligible hwas hrun
  have hreprieved : m.reprieved none = slots.filter (m.isEligible none) := by
    rw [reprieved, eligible, horder, List.filter_append, List.filter_cons_of_pos heligible,
      List.takeWhile_append_of_pos, List.takeWhile_cons_of_neg, List.append_nil]
    · simp [hwas]
    · intro slot hmem
      obtain ⟨hmem, helig⟩ := List.mem_filter.1 hmem
      exact hslots slot hmem helig
  obtain ⟨directories, hstate⟩ := hswept.state
  refine ⟨index, rfl, hslot, ⟨directories, by rw [hstate]⟩, hswept.view, fun d va => ?_⟩
  rw [hreprieved]
  exact hswept.accessed d va

/-- If every page was accessed, the first one is found in the second round. -/
theorem chosen_of_head? (hsound : Sound none m) (hhand : m.HandInList)
    (hnone : (m.eligible none).find? (fun slot => !m.wasAccessed slot) = none)
    (hfirst : (m.eligible none).head? = some v) (hrun : Returns selectVictim m victim m') :
    ∃ index, victim = some index ∧ Chosen index v m m' := by
  have hall : ∀ slot ∈ m.eligible none, m.wasAccessed slot = true := by
    simpa using List.find?_eq_none.1 hnone
  have hv : v ∈ m.eligible none := List.mem_of_head? hfirst
  obtain ⟨hlisted, heligible⟩ := mem_eligible.1 hv
  obtain ⟨tail, htail⟩ := List.head?_eq_some_iff.1 hfirst
  obtain ⟨slots, rest, horder, hspared, -, -⟩ := List.filter_eq_cons_iff.1 htail
  rw [selectVictim, returns_get_bind, Nat.mul_two, ← length_clockOrder (m := m)] at hrun
  -- the first round comes back to where it began, with every bit cleared
  obtain ⟨m₁, hswept, hhand₁, hrun⟩ := sweep_passes hsound hhand
    (List.append_nil _).symm (fun slot hmem helig =>
      hall slot (mem_eligible.2 ⟨mem_clockOrder.1 hmem, helig⟩)) hrun
  have horder₁ : m₁.clockOrder = slots ++ v :: rest := by
    rw [hswept.clockOrder, List.rotate_length, horder]
  have hspared₁ : ∀ slot ∈ slots, m₁.isEligible none slot = true → m₁.wasAccessed slot = true :=
    fun slot hmem helig => by
      rw [hswept.isEligible_eq] at helig
      exact absurd helig (hspared slot hmem)
  have hwas₁ : m₁.wasAccessed v = false := by
    cases howner : v.owner with
    | none => rw [wasAccessed, howner, Option.any_none]
    | some o =>
        have hcovers : (m.clockOrder.filter (m.isEligible none)).any
            (·.covers o.directory o.va) = true :=
          List.any_eq_true.2 ⟨v, hv, by simp [FrameSlot.covers, Owner.covers, howner]⟩
        rw [wasAccessed, howner, Option.any_some, hswept.accessed, hcovers, Bool.not_true,
          Bool.and_false]
  obtain ⟨steps, hsteps⟩ : ∃ steps, m.clockOrder.length = slots.length + (steps + 1) :=
    ⟨rest.length, by rw [horder, List.length_append, List.length_cons]⟩
  rw [hsteps] at hrun
  obtain ⟨m₂, index, hswept₂, rfl, hslot, rfl⟩ := sweep_stops (hswept.sound hsound) hhand₁ horder₁
    hspared₁ (by rw [hswept.isEligible_eq, heligible]) hwas₁ hrun
  have hidle : slots.filter (m₁.isEligible none) = [] := by
    rw [List.filter_eq_nil_iff, hswept.isEligible_eq]
    exact hspared
  have hreprieved : m.reprieved none = m.eligible none := List.takeWhile_eq_self_iff.2 hall
  obtain ⟨directories, hstate⟩ := (hswept.trans hswept₂).state
  refine ⟨index, rfl, by rw [← hswept.listed_eq, hslot], ⟨directories, ?_⟩,
    (hswept.trans hswept₂).view, fun d va => ?_⟩
  · rw [hstate, hswept.listed_eq]
  · rw [hreprieved]
    have haccessed := hswept₂.accessed d va
    rw [hidle, List.any_nil, Bool.not_false, Bool.and_true, hswept.accessed] at haccessed
    exact haccessed

/-- If no frame may be taken from its page, two rounds change nothing. -/
theorem idle_of_eligible_eq_nil (hsound : Sound none m) (hhand : m.HandInList)
    (hnil : m.eligible none = []) (hrun : Returns selectVictim m victim m') :
    victim = none ∧ m' = m := by
  have hspared : ∀ slot ∈ m.clockOrder, m.isEligible none slot = false := fun slot hmem =>
    eligible_eq_nil.1 hnil slot (mem_clockOrder.1 hmem)
  rw [selectVictim, returns_get_bind, Nat.mul_two, ← length_clockOrder (m := m)] at hrun
  obtain ⟨m₁, hswept, hhand₁, hrun⟩ :=
    sweep_passes hsound hhand (List.append_nil _).symm
      (fun slot hmem helig => by rw [hspared slot hmem] at helig; cases helig) hrun
  have horder₁ : m₁.clockOrder = m.clockOrder := by rw [hswept.clockOrder, List.rotate_length]
  obtain ⟨m₂, hswept₂, -, hrun⟩ := sweep_passes (hswept.sound hsound) hhand₁
    (horder₁.trans (List.append_nil _).symm)
    (fun slot hmem helig => by
      rw [hswept.isEligible_eq, hspared slot hmem] at helig
      cases helig) (show Returns (sweep (m.clockOrder.length + 0)) m₁ victim m' from hrun)
  obtain ⟨rfl, rfl⟩ := returns_pure.1 hrun
  have hround := hswept.trans hswept₂
  obtain ⟨directories, hstate⟩ := hround.state
  have hdirectories := hround.idle (by rw [List.filter_append]; simpa [eligible] using hnil)
  rw [hstate] at hdirectories ⊢
  obtain rfl : directories = m.directories := hdirectories
  refine ⟨rfl, ?_⟩
  rw [List.length_append, length_clockOrder, ← Nat.mul_two, Nat.add_mul_mod_self_left, hhand.mod_eq]

/-- The clock follows the rule of the second chance. -/
theorem chosen_of_selectVictim (hsound : Sound none m) (hhand : m.HandInList)
    (hrun : Returns selectVictim m victim m') :
    (m.victim? none = none → victim = none ∧ m' = m) ∧
      ∀ v, m.victim? none = some v → ∃ index, victim = some index ∧ Chosen index v m m' := by
  refine ⟨fun hnone => idle_of_eligible_eq_nil hsound hhand (victim?_eq_none.1 hnone) hrun,
    fun v hv => ?_⟩
  obtain hfound | ⟨hnone, hfirst⟩ := Option.or_eq_some_iff.1 hv
  · exact chosen_of_find? hsound hhand hfound hrun
  · exact chosen_of_head? hsound hhand hnone hfirst hrun

end

end Machine

end DemandPaging
