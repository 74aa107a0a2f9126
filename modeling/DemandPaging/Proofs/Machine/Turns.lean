import DemandPaging.Proofs.View
import Mathlib.Data.List.Rotate
import Mathlib.Logic.Relation

/-!
What becomes of the list of frames and of the hand.

The list and the hand change in three ways only. A frame that the pool hands out joins the list at the
end; while the pool is empty the hand moves on from one frame to the next; and a frame that goes back
to the pool leaves the list, and then the others stand in the same circle as before, seen from the
hand. So the list can be read off from what the pool reported: it names the frames that were handed
out and not taken back, in the order in which they were handed out.
-/

namespace DemandPaging

namespace Event

def isOfPool : Event → Bool
  | frameAllocated _ => true
  | frameFreed _ => true
  | _ => false

attribute [grind =] isOfPool.eq_def

/-- The frames in use after an event, in the order in which they were handed out. -/
def onFrames (frames : List FrameNumber) : Event → List FrameNumber
  | frameAllocated f => frames ++ [f]
  | frameFreed f => frames.erase f
  | _ => frames

end Event

namespace Machine

def frames (m : Machine) : List FrameNumber := m.listed.map (·.frame)

/-- The frames in use, in the order in which the next sweep comes to them. -/
def round (m : Machine) : List FrameNumber := m.frames.rotate m.hand

def poolLog (m : Machine) : List Event := m.events.toList.filter Event.isOfPool

/-- The hand is at a position of the list, or at the start of an empty one. -/
def HandInList (m : Machine) : Prop := m.hand = 0 ∨ m.hand < m.listed.length

/-- The frames in use are listed once each, and the pool knows them to be in use. -/
structure Accounts (m : Machine) : Prop where
  pool : m.pool.Consistent
  nodup : m.frames.Nodup
  allocated : ∀ f ∈ m.frames, m.pool.allocation f = some true

/-- A frame left the list, and the circle that the hand sees lost it and nothing else. -/
structure Leaves (f : FrameNumber) (m m' : Machine) : Prop where
  listed : f ∈ m.frames
  frames : m'.frames = m.frames.erase f
  round : m'.round = m.round.erase f

/-- A change of the list of frames or of the hand, or of anything else. -/
inductive Move (m m' : Machine) : Prop where
  | still (frames : m'.frames = m.frames) (hand : m'.hand = m.hand) (log : m'.poolLog = m.poolLog)
  | joined (f : FrameNumber) (free : ∃ pool, m.pool.allocate = some (f, pool))
      (frames : m'.frames = m.frames ++ [f]) (hand : m'.hand = m.hand)
      (log : m'.poolLog = m.poolLog ++ [.frameAllocated f])
  | passed (empty : m.pool.allocate = none) (frames : m'.frames = m.frames)
      (round : m'.round = m.round.rotate 1) (log : m'.poolLog = m.poolLog)
  | left (f : FrameNumber) (leaves : Leaves f m m')
      (log : m'.poolLog = m.poolLog ++ [.frameFreed f])

structure Turn (m m' : Machine) : Prop where
  move : Move m m'
  hand : m'.HandInList

abbrev Turns : Machine → Machine → Prop := Relation.ReflTransGen Turn

variable {m m' : Machine} {f : FrameNumber}

theorem length_frames (m : Machine) : m.frames.length = m.listed.length := List.length_map _

theorem HandInList.of_frames (h : m.HandInList) (hframes : m'.frames = m.frames)
    (hhand : m'.hand = m.hand) : m'.HandInList := by
  rw [HandInList, ← length_frames, hframes, hhand, length_frames]
  exact h

theorem poolLog_report {event : Event} (h : event.isOfPool = true)
    (hevents : m'.events = m.events.push event) : m'.poolLog = m.poolLog ++ [event] := by
  rw [poolLog, poolLog, hevents, Array.toList_push, List.filter_append, List.filter_cons_of_pos h,
    List.filter_nil]

theorem poolLog_other {event : Event} (h : event.isOfPool = false)
    (hevents : m'.events = m.events.push event) : m'.poolLog = m.poolLog := by
  rw [poolLog, poolLog, hevents, Array.toList_push, List.filter_append,
    List.filter_cons_of_neg (Bool.eq_false_iff.1 h), List.filter_nil, List.append_nil]

/-- A change of the list is one that the pool reported. -/
theorem Move.exists_log (h : Move m m') : ∃ log, m'.poolLog = m.poolLog ++ log ∧
    m'.frames = log.foldl Event.onFrames m.frames := by
  cases h with
  | still hframes _ hlog => exact ⟨[], hlog.trans (List.append_nil _).symm, hframes⟩
  | joined f _ hframes _ hlog => exact ⟨[.frameAllocated f], hlog, hframes⟩
  | passed _ hframes _ hlog => exact ⟨[], hlog.trans (List.append_nil _).symm, hframes⟩
  | left f hleaves hlog => exact ⟨[.frameFreed f], hlog, hleaves.frames⟩

/-- The list names the frames that were handed out and not taken back, in the order in which they were
handed out. -/
theorem frames_of_turns (h : Turns m m') : ∃ log, m'.poolLog = m.poolLog ++ log ∧
    m'.frames = log.foldl Event.onFrames m.frames := by
  induction h with
  | refl => exact ⟨[], (List.append_nil _).symm, rfl⟩
  | tail _ hturn ih =>
      obtain ⟨log, hlog, hframes⟩ := ih
      obtain ⟨log', hlog', hframes'⟩ := hturn.move.exists_log
      exact ⟨log ++ log', by rw [hlog', hlog, List.append_assoc],
        by rw [hframes', hframes, List.foldl_append]⟩

/-! ### A frame that leaves the circle -/

theorem rotate_append {xs ys : List FrameNumber} {n : Nat} (h : n ≤ ys.length) :
    (xs ++ ys).rotate (xs.length + n) = ys.drop n ++ xs ++ ys.take n := by
  rw [← List.rotate_rotate, List.rotate_append_length_eq, List.rotate_eq_drop_append_take
    (h.trans (by simp)), List.drop_append_of_le_length h, List.take_append_of_le_length h]

/-- A hand that is moved from behind the last frame to the first one sees the same circle. -/
theorem rotate_ite_zero {xs : List FrameNumber} {hand : Nat} (h : hand ≤ xs.length) :
    xs.rotate (if xs.length ≤ hand then 0 else hand) = xs.rotate hand := by
  split
  · next hge => rw [Nat.le_antisymm h hge, List.rotate_length, List.rotate_zero]
  · rfl

theorem erase_between {before behind : List FrameNumber} (h : f ∉ before) :
    (before ++ f :: behind).erase f = before ++ behind := by
  rw [List.erase_append_right _ h, List.erase_cons_head]

/-- Wherever the hand stands, the circle that it sees only loses the frame that is removed. -/
theorem rotate_handAfterRemoval {before behind : List FrameNumber} {hand : Nat}
    (hnodup : (before ++ f :: behind).Nodup)
    (hhand : hand = 0 ∨ hand < (before ++ f :: behind).length) :
    (before ++ behind).rotate
        (handAfterRemoval hand before.length (before ++ behind).length) =
      ((before ++ f :: behind).rotate hand).erase f := by
  have hbefore : f ∉ before := fun hmem =>
    (List.nodup_append.1 hnodup).2.2 f hmem f List.mem_cons_self rfl
  have hbehind : f ∉ behind := (List.nodup_cons.1 (List.nodup_append.1 hnodup).2.1).1
  rw [List.length_append, List.length_cons] at hhand
  rw [handAfterRemoval]
  by_cases hlt : before.length < hand
  · -- the hand stands behind the frame, and moves with the others
    obtain ⟨k, rfl⟩ := Nat.exists_eq_add_of_le' (Nat.succ_le_of_lt hlt)
    have hk : k ≤ behind.length := by omega
    have hmoved : k + before.length.succ - 1 = before.length + k := by omega
    have hstood : k + before.length.succ = before.length + (k + 1) := by omega
    have hfound : f ∉ behind.drop k ++ before := by
      simpa [hbefore] using fun h => hbehind (List.mem_of_mem_drop h)
    rw [if_pos hlt, hmoved, rotate_ite_zero (by rw [List.length_append]; omega), rotate_append hk,
      hstood, rotate_append (Nat.succ_le_succ hk), List.drop_succ_cons, List.take_succ_cons,
      erase_between hfound]
  · -- the hand stands at the frame or before it, and stays where it is
    obtain ⟨passed, rest, rfl, rfl⟩ : ∃ passed rest, before = passed ++ rest ∧ hand = passed.length :=
      ⟨before.take hand, before.drop hand, (List.take_append_drop ..).symm,
        (List.length_take_of_le (Nat.not_lt.1 hlt)).symm⟩
    have hfound : f ∉ rest := fun hmem => hbefore (List.mem_append_right _ hmem)
    rw [if_neg hlt, rotate_ite_zero (by simp only [List.length_append]; omega), List.append_assoc,
      List.append_assoc, List.rotate_append_length_eq, List.rotate_append_length_eq,
      List.append_assoc rest (f :: behind), List.cons_append, erase_between hfound,
      List.append_assoc]

theorem frames_eraseIdx {index : Nat} {slot : FrameSlot} (hnodup : m.frames.Nodup)
    (hslot : m.listed[index]? = some slot) (hlisted : m'.listed = m.listed.eraseIdx index) :
    m'.frames = m.frames.erase slot.frame := by
  have hframe : m.frames[index]? = some slot.frame := by
    rw [frames, List.getElem?_map, hslot, Option.map_some]
  obtain ⟨hlt, hget⟩ := List.getElem?_eq_some_iff.1 hframe
  rw [← hget, hnodup.erase_getElem, frames, hlisted, frames, List.eraseIdx_map]

/-- The frame at a position is taken off the list, and the hand follows. -/
theorem leaves_of_eraseIdx {index : Nat} {slot : FrameSlot} (hnodup : m.frames.Nodup)
    (hhand : m.HandInList) (hslot : m.listed[index]? = some slot)
    (hlisted : m'.listed = m.listed.eraseIdx index)
    (hmoved : m'.hand = handAfterRemoval m.hand index m'.listed.length) :
    Leaves slot.frame m m' := by
  have herased := frames_eraseIdx hnodup hslot hlisted
  obtain ⟨hlt, hget⟩ := List.getElem?_eq_some_iff.1 hslot
  obtain ⟨before, behind, hframes, rfl⟩ :
      ∃ before behind, m.frames = before ++ slot.frame :: behind ∧ before.length = index := by
    refine ⟨(m.listed.take index).map (·.frame), (m.listed.drop (index + 1)).map (·.frame), ?_, ?_⟩
    · rw [← List.map_cons, ← List.map_append, ← hget, List.getElem_cons_drop,
        List.take_append_drop, frames]
    · rw [List.length_map, List.length_take_of_le hlt.le]
  have hleft : m'.frames = before ++ behind := by
    rw [hframes] at hnodup herased
    rw [herased, erase_between]
    exact fun hmem => (List.nodup_append.1 hnodup).2.2 _ hmem _ List.mem_cons_self rfl
  rw [HandInList, ← length_frames, hframes] at hhand
  have hround := rotate_handAfterRemoval (hframes ▸ hnodup) hhand
  rw [← hleft, ← hframes, length_frames, ← hmoved] at hround
  refine ⟨?_, herased, hround⟩
  rw [hframes]
  exact List.mem_append_right _ List.mem_cons_self

theorem frames_setOwner (m : Machine) (index : Nat) (owner : Option Owner) :
    { m with listed := m.listed.modify index fun slot => { slot with owner } }.frames = m.frames :=
  map_frame_modify _ _ _

/-! ### The books -/

namespace Accounts

theorem congr (h : m.Accounts) (hpool : Pool.SameAllocation m.pool m'.pool)
    (hframes : m'.frames = m.frames) : m'.Accounts where
  pool := h.pool.of_sameAllocation hpool
  nodup := by
    rw [hframes]
    exact h.nodup
  allocated := by
    simp only [hframes, hpool.allocation]
    exact h.allocated

theorem joined (h : m.Accounts) {pool : Pool} (hallocate : m.pool.allocate = some (f, pool))
    (hpool : m'.pool = pool) (hframes : m'.frames = m.frames ++ [f]) : m'.Accounts := by
  obtain ⟨hfree, hconsistent, -, hallocation⟩ := Pool.allocate_eq_some h.pool hallocate
  have hnew : f ∉ m.frames := fun hmem => by
    rw [h.allocated f hmem] at hfree
    cases hfree
  refine ⟨hpool ▸ hconsistent, ?_, fun g hg => ?_⟩
  · rw [hframes]
    exact List.nodup_append.2 ⟨h.nodup, List.nodup_singleton f, fun g hg g' hg' he =>
      hnew (List.mem_singleton.1 hg' ▸ he ▸ hg)⟩
  · rw [hpool, hallocation]
    split
    · rfl
    · next hne =>
      rw [hframes, List.mem_append, List.mem_singleton] at hg
      exact h.allocated g (hg.resolve_right (Ne.symm hne))

theorem left (h : m.Accounts) {pool : Pool} (hrelease : m.pool.release f = .ok pool)
    (hpool : m'.pool = pool) (hframes : m'.frames = m.frames.erase f) : m'.Accounts := by
  obtain ⟨-, hconsistent, -, hallocation⟩ := Pool.release_eq_ok h.pool hrelease
  refine ⟨hpool ▸ hconsistent, ?_, fun g hg => ?_⟩
  · rw [hframes]
    exact h.nodup.erase f
  · rw [hframes, h.nodup.mem_erase_iff] at hg
    rw [hpool, hallocation, if_neg hg.1.symm]
    exact h.allocated g hg.2

end Accounts

end Machine

end DemandPaging
