import DemandPaging.Proofs.Fate
import DemandPaging.Proofs.FlatMemory
import DemandPaging.Proofs.SlotOwnership
import DemandPaging.Proofs.Space.Labels

/-!
Anonymous memory is flat memory.

An anonymous page has no place of its own: its bytes are in a frame, in a slot, or still in the file
of its segment, and every process may push them from one to the next. What stays is that they are
the bytes that the labels of the course tell. This is kept by every step, by cases on what the step
does to the page: a page on its way out carries its bytes into a free slot, one on its way in takes
them back, and nothing else reaches an occupied slot or a frame that is owned.

The file of a segment is read when a page is touched for the first time, which may be long after the
segment was loaded. So the bytes of such a page are only known if nothing is written to the file in
between, and a file counts the writes.
-/

namespace DemandPaging

open Machine Space

/-! ### Kinds of pages -/

theorem Contents.Copied.kind_settled_eq {contents contents' : Contents}
    (h : Contents.Copied contents contents') : contents'.settled.kind = contents.settled.kind := by
  cases h with
  | pending h => cases h <;> rfl
  | anonymous => rfl
  | file => rfl

def Contents.segment? : Contents → Option FileSlice
  | .pending (.loader (.segment slice)) => some slice
  | _ => none

theorem Contents.eq_of_segment? {source : Pending} {slice : FileSlice}
    (h : (Contents.pending source).segment? = some slice) : source = .loader (.segment slice) := by
  unfold segment? at h
  split at h
  · next he =>
    cases he
    cases h
    rfl
  · cases h

theorem Contents.eq_pending_of_segment? {contents : Contents} {slice : FileSlice}
    (h : contents.segment? = some slice) : contents = .pending (.loader (.segment slice)) := by
  cases contents with
  | pending source => rw [Contents.eq_of_segment? h]
  | _ => cases h

theorem Contents.segment?_settled (contents : Contents) : contents.settled.segment? = none := by
  cases contents with
  | pending source => cases source <;> rfl
  | _ => rfl

/-- A page that is or will be anonymous is over a file only while it waits for its segment. -/
theorem Contents.segment?_of_anonymous {contents : Contents}
    (hkind : contents.settled.kind = .anonymous) {slice : FileSlice}
    (hslice : contents.slice? = some slice) : contents.segment? = some slice := by
  cases contents with
  | pending source =>
      cases source with
      | zeros => cases hslice
      | loader loader =>
          cases loader with
          | segment own => exact hslice
          | fill byte count succeeds => cases hslice
      | file own => cases hkind
  | anonymous slot => cases hslice
  | file own => cases hkind

theorem Stowed.segment?_eq_none {bytes : PageBytes} {dirty : Bool} {contents contents' : Contents}
    {v v' : View} (h : Stowed bytes dirty contents v contents' v') : contents'.segment? = none := by
  cases h <;> rfl

theorem Contents.Copied.segment?_eq {contents contents' : Contents}
    (h : Contents.Copied contents contents') {slice' : FileSlice}
    (hslice : contents'.segment? = some slice') :
    ∃ slice, contents.segment? = some slice ∧ slice'.handle.file = slice.handle.file := by
  cases h with
  | pending h =>
      cases h with
      | segment =>
          cases hslice
          exact ⟨_, rfl, rfl⟩
      | _ => cases hslice
  | _ => cases hslice

section

variable {v v' : View} {key : Key Page} {page : Page} {contents contents' : Contents}

theorem View.contentsBytes_congr_of_anonymous (hkind : contents.settled.kind = .anonymous)
    (hfile : ∀ slice, contents.segment? = some slice →
      v'.file slice.handle.file = v.file slice.handle.file)
    (hslot : ∀ slot, contents.slot? = some slot → v'.pageIn slot = v.pageIn slot) :
    v'.contentsBytes contents = v.contentsBytes contents :=
  View.contentsBytes_congr
    (fun slice hslice => hfile slice (Contents.segment?_of_anonymous hkind hslice)) hslot

theorem Contents.Copied.contentsBytes_eq (h : Contents.Copied contents contents')
    (hkind : contents'.settled.kind = .anonymous) (haside : contents'.kind ≠ .anonymous) :
    v.contentsBytes contents' = v.contentsBytes contents := by
  cases h with
  | pending h =>
      cases h with
      | zeros | fill => rfl
      | segment => exact View.shown_congr rfl rfl rfl
      | file => cases hkind
  | anonymous => exact absurd rfl haside
  | file => cases hkind

end

/-! ### What pages hold -/

/-- A page holds the bytes of memory if it is anonymous. If it is still to be read from its segment,
the file is what it will be at last. -/
structure FaithfulAt (last : View) (memory : Memory) (key : Key Page) (v : View) : Prop where
  segment : ∀ {page slice}, v.page key = some page → page.contents.segment? = some slice →
    v.file slice.handle.file = last.file slice.handle.file
  bytes : ∀ {page}, v.page key = some page → page.contents.settled.kind = .anonymous →
    v.bytesOf page = memory key

/-- Anonymous pages hold the bytes of memory. Segments that are still to be read are what they will
be at last. -/
def Faithful (last : View) (memory : Memory) (v : View) : Prop := ∀ key, FaithfulAt last memory key v

section

variable {last v v' : View} {memory : Memory} {effects : List Effect} {x x' : Option FrameNumber}
  {kept : SwapSlot → Bool}

/-- Pages that are loaded from a segment are loaded from what it will be at last. -/
def SegmentsLast (last v : View) (effects : List Effect) : Prop :=
  ∀ key slice bytes, .added key (.loader (.segment slice)) bytes ∈ effects →
    v.file slice.handle.file = last.file slice.handle.file

/-- A step that does not set the bytes of an anonymous page leaves them alone, wherever it moves
them. -/
theorem Step.bytesOf_eq (h : Step effects x v x' v') (hcoherent : Coherent x v)
    (hbooks : SlotBooks kept v.isOccupied v.slotOf) {key : Key Page} {page page' : Page}
    (hpage : v.page key = some page) (hpage' : v'.page key = some page')
    (hkind : page.contents.settled.kind = .anonymous)
    (hsegment : ∀ slice, page.contents.segment? = some slice →
      v'.file slice.handle.file = v.file slice.handle.file)
    (hunset : ∀ e ∈ effects, ¬Effect.Sets key e) : v'.bytesOf page' = v.bytesOf page := by
  cases h.fate hcoherent key with
  | absent hnone => cases hpage.symm.trans hnone
  | kept hold hnew _ hbytes =>
      cases hpage.symm.trans hold
      cases hpage'.symm.trans hnew
      cases hframe : page.frame with
      | some f => simp only [View.bytesOf, hframe, hbytes f hframe]
      | none =>
          rw [View.bytesOf_of_absent hframe, View.bytesOf_of_absent hframe]
          exact View.contentsBytes_congr_of_anonymous hkind hsegment fun slot hslot =>
            h.pageIn_of_occupied (hbooks.occupied_of_page hpage hslot)
  | stored => exact absurd rfl (hunset _ (List.mem_singleton_self _))
  | evicted hold hframe hbytes hdirty hstowed hnew hpageIn =>
      cases hpage.symm.trans hold
      cases hpage'.symm.trans hnew
      rw [View.bytesOf_of_frame hframe hbytes, View.bytesOf_of_absent rfl]
      generalize page.contents = before at hstowed hkind
      cases hstowed with
      | slot hfree =>
          rw [View.contentsBytes, hpageIn]
          exact Function.update_self _ _ _
      | file hback => cases hkind
  | broughtIn hold hframe hnew hbytes' =>
      cases hpage.symm.trans hold
      cases hpage'.symm.trans hnew
      rw [View.bytesOf_of_frame rfl hbytes', ← View.bytesOf_of_absent hframe]
  | added _ hnone => cases hpage.symm.trans hnone
  | copied _ hnone => cases hpage.symm.trans hnone
  | removedAbsent _ _ hnone => cases hpage'.symm.trans hnone
  | removedPresent _ _ _ _ _ hnone => cases hpage'.symm.trans hnone

/-- A page never goes back to being loaded from a segment. -/
theorem Step.segment?_eq (h : Step effects x v x' v') (hcoherent : Coherent x v) {key : Key Page}
    {page page' : Page} (hpage : v.page key = some page) (hpage' : v'.page key = some page')
    {slice : FileSlice} (hslice : page'.contents.segment? = some slice) :
    page.contents.segment? = some slice := by
  cases h.fate hcoherent key with
  | absent hnone => cases hpage.symm.trans hnone
  | kept hold hnew =>
      cases hpage.symm.trans hold
      cases hpage'.symm.trans hnew
      exact hslice
  | stored hold hnew =>
      cases hpage.symm.trans hold
      cases hpage'.symm.trans hnew
      exact hslice
  | evicted hold hframe hbytes hdirty hstowed hnew =>
      cases hpage'.symm.trans hnew
      cases hstowed.segment?_eq_none.symm.trans hslice
  | @broughtIn found _ hold hframe hnew =>
      cases hpage'.symm.trans hnew
      cases found.contents.segment?_settled.symm.trans hslice
  | added _ hnone => cases hpage.symm.trans hnone
  | copied _ hnone => cases hpage.symm.trans hnone
  | removedAbsent _ _ hnone => cases hpage'.symm.trans hnone
  | removedPresent _ _ _ _ _ hnone => cases hpage'.symm.trans hnone

theorem Steps.bytesOf_eq (h : Steps effects x v x' v') (hcoherent : Coherent x v)
    (hbooks : SlotBooks kept v.isOccupied v.slotOf) {key : Key Page} {page page' : Page}
    (hpage : v.page key = some page) (hpage' : v'.page key = some page')
    (hkind : page.contents.settled.kind = .anonymous)
    (hsegment : ∀ slice, page.contents.segment? = some slice →
      v'.file slice.handle.file = v.file slice.handle.file)
    (hunset : ∀ e ∈ effects, ¬Effect.Sets key e) : v'.bytesOf page' = v.bytesOf page := by
  induction h generalizing page with
  | nil =>
      cases hpage.symm.trans hpage'
      rfl
  | cons head tail ih =>
      -- the page is old, so it was there all the time
      have hlt := Nat.lt_of_lt_of_le (hcoherent.placement.created hpage) head.created_le
      obtain ⟨page₁, hpage₁⟩ := Option.ne_none_iff_exists'.1
        ((tail.page_old hlt).1 (by rw [hpage']; exact Option.some_ne_none _))
      have hstill : ∀ slice, page.contents.segment? = some slice → _ := fun slice hslice =>
        head.filesSince.file_eq_between tail.filesSince (hsegment slice hslice)
      have hfirst := head.bytesOf_eq hcoherent hbooks hpage hpage₁ hkind hstill
        fun e he => hunset e (List.mem_append_left _ he)
      refine (ih (head.coherent hcoherent) (head.slotBooks hcoherent hbooks) hpage₁ hpage'
        ((head.kindKept hcoherent hpage hpage₁).settled.trans hkind) (fun slice hslice => ?_)
        fun e he => hunset e (List.mem_append_right _ he)).trans hfirst
      have hslice' := head.segment?_eq hcoherent hpage hpage₁ hslice
      rw [hsegment slice hslice', hstill slice hslice']

/-- A step keeps the bytes of a page if it is anonymous, or adds them. -/
theorem Step.faithfulAt (h : Step effects x v x' v') (hcoherent : Coherent x v)
    (hbooks : SlotBooks kept v.isOccupied v.slotOf) (hlast : v'.FilesSince last) {key : Key Page}
    (hsource : ∀ slice bytes, .added key (.loader (.segment slice)) bytes ∈ effects →
      v.file slice.handle.file = last.file slice.handle.file)
    (hcopied : ∀ source, .copied source key ∉ effects) (hfaithful : FaithfulAt last memory key v) :
    FaithfulAt last (memory.after effects) key v' := by
  -- a file that is now what it will be at last is so after the step
  have hstill : ∀ {f}, v.file f = last.file f → v'.file f = last.file f := fun hf =>
    (h.filesSince.file_eq_between hlast hf.symm).trans hf
  have hsame : ∀ {f}, v.file f = last.file f → v'.file f = v.file f := fun hf =>
    (hstill hf).trans hf.symm
  refine ⟨fun {page' slice} hpage' hslice => hstill ?_, fun {page'} hpage' hkind => ?_⟩
  · cases h.fate hcoherent key with
    | absent _ hnone => cases hpage'.symm.trans hnone
    | kept hpage hnew =>
        cases hpage'.symm.trans hnew
        exact hfaithful.segment hpage hslice
    | stored hpage hnew =>
        cases hpage'.symm.trans hnew
        exact hfaithful.segment hpage hslice
    | evicted hpage hframe hbytes hdirty hstowed hnew =>
        cases hpage'.symm.trans hnew
        cases hstowed.segment?_eq_none.symm.trans hslice
    | @broughtIn page _ hpage hframe hnew =>
        cases hpage'.symm.trans hnew
        cases page.contents.segment?_settled.symm.trans hslice
    | added _ _ hadded hcontents =>
        cases hpage'.symm.trans hadded
        rw [hcontents] at hslice
        obtain rfl := Contents.eq_of_segment? hslice
        exact hsource slice _ (List.mem_singleton_self _)
    | copied => exact absurd (List.mem_singleton_self _) (hcopied _)
    | removedAbsent _ _ hnone => cases hpage'.symm.trans hnone
    | removedPresent _ _ _ _ _ hnone => cases hpage'.symm.trans hnone
  · have hunset : ∀ {page}, v.page key = some page →
        page.contents.settled.kind = page'.contents.settled.kind →
        (∀ e ∈ effects, ¬Effect.Sets key e) → v'.bytesOf page' = memory.after effects key := by
      intro page hpage hsettled hlabels
      rw [Memory.after_of_unset hlabels, ← hfaithful.bytes hpage (hsettled.trans hkind)]
      exact h.bytesOf_eq hcoherent hbooks hpage hpage' (hsettled.trans hkind)
        (fun slice hslice => hsame (hfaithful.segment hpage hslice)) hlabels
    cases h.fate hcoherent key with
    | absent _ hnone => cases hpage'.symm.trans hnone
    | kept hpage hnew hlabels =>
        cases hpage'.symm.trans hnew
        exact hunset hpage rfl hlabels
    | @stored page f bytes offset data hpage hnew hframe hbytes hbytes' =>
        cases hpage'.symm.trans hnew
        rw [show memory.after [.stored key offset data] key = (memory key).overlay offset data from
          Function.update_self _ _ _, ← hfaithful.bytes hpage hkind,
          View.bytesOf_of_frame hframe hbytes, View.bytesOf_of_frame hframe hbytes']
    | evicted hpage hframe hbytes hdirty hstowed hnew =>
        cases hpage'.symm.trans hnew
        exact hunset hpage hstowed.kind_eq.2.symm fun e he => by cases he
    | @broughtIn page f hpage hframe hnew =>
        cases hpage'.symm.trans hnew
        exact hunset hpage page.contents.kind_settled_settled.symm fun e he hsets => by
          rw [List.mem_singleton.1 he] at hsets
          cases hsets
    | @added page source _ _ hadded hcontents hframe =>
        cases hpage'.symm.trans hadded
        have hset : memory.after [.added key source (v.pendingBytes source)] key =
            v.pendingBytes source := Function.update_self _ _ _
        rw [View.bytesOf_of_absent hframe, hcontents, hset]
        rw [hcontents] at hkind
        refine View.contentsBytes_congr_of_anonymous hkind (fun slice hslice => ?_)
          fun slot hslot => by cases hslot
        obtain rfl := Contents.eq_of_segment? hslice
        exact hsame (hsource slice _ (List.mem_singleton_self _))
    | copied => exact absurd (List.mem_singleton_self _) (hcopied _)
    | removedAbsent _ _ hnone => cases hpage'.symm.trans hnone
    | removedPresent _ _ _ _ _ hnone => cases hpage'.symm.trans hnone

theorem Steps.faithfulAt (h : Steps effects x v x' v') (hcoherent : Coherent x v)
    (hbooks : SlotBooks kept v.isOccupied v.slotOf) (hlast : v'.FilesSince last) {key : Key Page}
    (hsource : ∀ slice bytes, .added key (.loader (.segment slice)) bytes ∈ effects →
      v.file slice.handle.file = last.file slice.handle.file)
    (hcopied : ∀ source, .copied source key ∉ effects) (hfaithful : FaithfulAt last memory key v) :
    FaithfulAt last (memory.after effects) key v' := by
  induction h generalizing memory with
  | nil => exact hfaithful
  | cons head tail ih =>
      have hlast₁ := tail.filesSince.trans hlast
      rw [Memory.after_append]
      refine ih (head.coherent hcoherent) (head.slotBooks hcoherent hbooks) hlast
        (fun slice bytes he => ?_) (fun source he => hcopied source (List.mem_append_right _ he))
        (head.faithfulAt hcoherent hbooks hlast₁
          (fun slice bytes he => hsource slice bytes (List.mem_append_left _ he))
          (fun source he => hcopied source (List.mem_append_left _ he)) hfaithful)
      have hstart := hsource slice bytes (List.mem_append_right _ he)
      exact (head.filesSince.file_eq_between hlast₁ hstart.symm).trans hstart

theorem Step.faithful (h : Step effects x v x' v') (hcoherent : Coherent x v)
    (hbooks : SlotBooks kept v.isOccupied v.slotOf) (hlast : v'.FilesSince last)
    (hsources : SegmentsLast last v effects) (hfaithful : Faithful last memory v) :
    Faithful last (memory.after effects) v' := by
  intro key
  by_cases hcopied : ∃ source, .copied source key ∈ effects
  swap
  · exact h.faithfulAt hcoherent hbooks hlast (fun slice bytes => hsources key slice bytes)
      (fun source he => hcopied ⟨source, he⟩) (hfaithful key)
  obtain ⟨_, he⟩ := hcopied
  have hstill : ∀ {f}, v.file f = last.file f → v'.file f = last.file f := fun hf =>
    (h.filesSince.file_eq_between hlast hf.symm).trans hf
  cases h.fate hcoherent key with
  | @copied source page contents frame hnew hpage hsource hcopied hcopy hbytes' haside =>
      have hfile : ∀ {slice}, contents.segment? = some slice →
          v'.file slice.handle.file = last.file slice.handle.file := fun hslice => by
        obtain ⟨original, horiginal, hfile⟩ := hcopied.segment?_eq hslice
        rw [hfile]
        exact hstill ((hfaithful source).segment hsource horiginal)
      refine ⟨fun {page' slice} hpage' hslice => ?_, fun {page'} hpage' hkind => ?_⟩ <;>
        cases hpage'.symm.trans hcopy
      · exact hfile hslice
      · rw [show memory.after [.copied source key] key = memory source from
          Function.update_self _ _ _,
          ← (hfaithful source).bytes hsource (hcopied.kind_settled_eq.symm.trans hkind)]
        cases frame with
        | some f => exact View.bytesOf_of_frame rfl (hbytes' f rfl)
        | none =>
            obtain ⟨habsent, hnot⟩ := haside rfl
            rw [View.bytesOf_of_absent rfl, View.bytesOf_of_absent habsent,
              ← hcopied.contentsBytes_eq hkind hnot]
            refine View.contentsBytes_congr_of_anonymous hkind (fun slice hslice => ?_)
              fun slot hslot => by cases hcopied.slot?_eq_none.symm.trans hslot
            obtain ⟨original, horiginal, hfile⟩ := hcopied.segment?_eq hslice
            rw [hfile, hstill ((hfaithful source).segment hsource horiginal)]
            exact ((hfaithful source).segment hsource horiginal).symm
  | absent _ _ hunset | kept _ _ hunset => exact absurd rfl (hunset _ he)
  | stored | broughtIn | added | removedAbsent | removedPresent => cases List.mem_singleton.1 he
  | evicted => cases he

theorem Steps.faithful (h : Steps effects x v x' v') (hcoherent : Coherent x v)
    (hbooks : SlotBooks kept v.isOccupied v.slotOf) (hlast : v'.FilesSince last)
    (hsources : SegmentsLast last v effects) (hfaithful : Faithful last memory v) :
    Faithful last (memory.after effects) v' := by
  induction h generalizing memory with
  | nil => exact hfaithful
  | cons head tail ih =>
      have hlast₁ := tail.filesSince.trans hlast
      rw [Memory.after_append]
      refine ih (head.coherent hcoherent) (head.slotBooks hcoherent hbooks) hlast ?_
        (head.faithful hcoherent hbooks hlast₁
          (fun key slice bytes he => hsources key slice bytes (List.mem_append_left _ he)) hfaithful)
      intro key slice bytes he
      have hstart := hsources key slice bytes (List.mem_append_right _ he)
      exact (head.filesSince.file_eq_between hlast₁ hstart.symm).trans hstart

end

/-! ### Runs -/

def Machine.writesTo (m : Machine) (f : Key File) : Option Nat := (m.files.get? f).map (·.writes)

theorem Machine.writesTo_eq (m : Machine) (f : Key File) :
    m.writesTo f = (m.view.file f).map (·.writes) := by
  simp only [writesTo, view, Option.map_map]
  rfl

def SegmentsUnwritten (history : List Done) (m : Machine) : Prop :=
  ∀ d ∈ history, ∀ f, d.request.Loads f d.answer → m.writesTo f = d.before.writesTo f

variable {start m m' : Machine} {history : List Done} {s : Key AddressSpace}

/-- The pages hold what the history left in flat memory, as far as they are anonymous. -/
theorem Run.exists_faithful (h : Run start history m) (hlast : m.view.FilesSince m'.view)
    (hsegments : SegmentsUnwritten history m') :
    ∃ memory, Agrees (remembered history) memory m.view ∧ Faithful m'.view memory m.view := by
  -- the files at the end of the run are later than those in any state on the way
  obtain ⟨memory, hagrees, -, hfaithful⟩ := h.reaches.agrees
    (P := fun memory v => SlotBooks start.swap.isOccupied v.isOccupied v.slotOf ∧
      (v.FilesSince m'.view → Faithful m'.view memory v))
    h.fresh.sound (agrees_fresh h.fresh)
    ⟨(Run.slotBooks ⟨h.fresh, .refl⟩), fun _ =>
      fun key => ⟨fun hpage => (by cases (h.fresh.pages _).symm.trans hpage),
        fun hpage => (by cases (h.fresh.pages _).symm.trans hpage)⟩⟩
    (fun {memory s m₁ m₂} hsound hcreated hp => by
      have hsteps := hcreated.course.steps
      refine ⟨hsteps.slotBooks hsound.coherent hp.1, fun hsince => ?_⟩
      exact hsteps.faithful hsound.coherent hp.1 hsince
        (fun key slice bytes he => by simp at he) (hp.2 (hsteps.filesSince.trans hsince)))
    (fun d hd {memory effects} hsound houtcome hp => by
      have hsteps := houtcome.course.steps
      refine ⟨hsteps.slotBooks hsound.coherent hp.1, fun hsince => ?_⟩
      have hbefore := hsteps.filesSince.trans hsince
      refine hsteps.faithful hsound.coherent hp.1 hsince (fun key slice bytes he => ?_)
        (hp.2 hbefore)
      have hloads : d.request.Loads slice.handle.file d.answer := by
        cases houtcome.labels he with
        | added _ hsegment _ => exact hsegment slice rfl
      have hunwritten := hsegments d hd _ hloads
      rw [writesTo_eq, writesTo_eq] at hunwritten
      exact (hbefore.file_eq hunwritten).symm)
  exact ⟨memory, hagrees, hfaithful hlast⟩

/-! ### Reading and writing -/

/-- Readings of anonymous pages give what the history left in flat memory. Every byte that was read
is one of a page that was brought in. -/
def ReadsFlat (history : List Done) (m : Machine) : Prop :=
  ∀ {s va length bytes result m'},
    Returns ((Request.readUser va length).perform? s) m (some (bytes, result)) m' →
      SegmentsUnwritten history m' → (result = .ok () → bytes.size = length) ∧
        ∀ i byte, bytes[i]? = some byte → ∃ (n : PageNumber) (key : Key Page) (page : Page),
          n.toNat = (va.toNat + i) / pageSize ∧ m'.view.pageOf s n = some key ∧
            m'.pages.get? key = some page ∧ page.contents.kind ≠ .uninit ∧
              (page.contents.kind = .anonymous → byte = remembered history s (va.toNat + i))

/-- A write leaves in flat memory the pieces before the one that is rejected, if one is. -/
def WritesPrefix (history : List Done) (m : Machine) : Prop :=
  ∀ {s va data answer m'},
    Returns ((Request.writeUser va data).perform? s) m (some answer) m' →
      ∃ stored rest, pieces va.toNat 0 data.size = stored ++ rest ∧
        (answer = .ok () ↔ rest = []) ∧
          remembered (⟨s, .writeUser va data, answer, m, m'⟩ :: history) =
            (remembered history).lay s va.toNat (stored.map (·.length)).sum fun i => data[i]?.getD 0

theorem Space.sum_pieces (position offset length : Nat) :
    ((pieces position offset length).map (·.length)).sum = length := by
  fun_induction pieces position offset length with
  | case1 position offset => rfl
  | case2 position offset length hlength =>
      rename_i size ih
      have hle : size ≤ length := Nat.min_le_right _ _
      rw [List.map_cons, List.sum_cons, ih]
      exact Nat.add_sub_cancel' hle

theorem Space.exists_stored_pieces {va : VirtualAddress} {data : Array UInt8} {all : List Piece}
    {answer : Except Rejection Unit} (hrun : Answers (writePieces s va data all) m answer m') :
    ∃ stored rest, all = stored ++ rest ∧ (answer = .ok () ↔ rest = []) ∧
      storedLength s va data all m = (stored.map (·.length)).sum := by
  induction all generalizing m with
  | nil =>
      obtain ⟨rfl, -⟩ := answers_pure.1 hrun
      exact ⟨[], [], rfl, by simp, rfl⟩
  | cons piece all ih =>
      rw [writePieces, answers_bind] at hrun
      rcases hrun with ⟨cause, rfl, hpiece⟩ | ⟨_, m₁, hpiece, hrun⟩
      · refine ⟨[], piece :: all, rfl, by simp, ?_⟩
        rw [storedLength, show (writePiece s va data piece).run m = _ from hpiece]
        rfl
      · obtain ⟨stored, rest, rfl, hanswer, hsum⟩ := ih hrun
        refine ⟨piece :: stored, rest, rfl, hanswer, ?_⟩
        rw [storedLength, show (writePiece s va data piece).run m = _ from hpiece]
        simp only [hsum, List.map_cons, List.sum_cons]

/-- A byte read from an anonymous page is one that the page had before. -/
theorem Space.bytesOf_of_readUser (h : Sound none m) {kept : SwapSlot → Bool}
    (hbooks : SlotBooks kept m.view.isOccupied m.view.slotOf) {va : VirtualAddress} {length : Nat}
    {bytes : Array UInt8} {result : Except Rejection Unit}
    (hread : Returns (readUser s va length) m (bytes, result) m') {n : PageNumber} {key : Key Page}
    {page : Page} (hplace : m.view.pageOf s n = some key) (hpage : m.view.page key = some page)
    (hkind : page.contents.settled.kind = .anonymous)
    (hsegment : ∀ slice, page.contents.segment? = some slice →
      m'.view.file slice.handle.file = m.view.file slice.handle.file)
    {i : Nat} {byte : UInt8} (hbyte : bytes[i]? = some byte)
    (hi : (va.toNat + i) / pageSize = n.toNat) :
    (m.view.bytesOf page)[(va.toNat + i) % pageSize]? = some byte := by
  obtain ⟨effects, hpassed, -, hseen⟩ := returns_readUser h hread
  obtain ⟨m₁, before, after, hbefore, hafter, n', offset, key', page', ha, hplace', hpage', -,
    hbyte'⟩ := hseen i byte hbyte
  have hsince := hbefore.course.steps.filesSince
  have hlater := hafter.course.steps.filesSince
  obtain ⟨hoffset, -⟩ := Vector.getElem?_eq_some_iff.1 hbyte'
  obtain rfl : n' = n := Number.ext (by
    simp only [pageSize] at hoffset ha hi ⊢
    omega)
  obtain ⟨-, hkept⟩ := hbefore.page_kept h hpage
  cases (hkept s n' hplace).symm.trans hplace'
  have hsame := hbefore.course.steps.bytesOf_eq h.coherent hbooks hpage hpage' hkind
    (fun slice hslice => hsince.file_eq_between hlater (hsegment slice hslice)) fun e he hsets => by
      cases hbefore.passing e he with
      | added hnew =>
          cases hsets
          exact Nat.not_lt.2 hnew (h.coherent.placement.created hpage)
      | broughtIn => cases hsets
      | removed => cases hsets
  rw [← hsame, ← hbyte', ha, Nat.mul_comm, Nat.mul_add_mod, Nat.mod_eq_of_lt hoffset]

theorem Run.readsFlat (h : Run start history m) : ReadsFlat history m := by
  intro s va length bytes result m' hread hsegments
  obtain ⟨-, hread⟩ := Request.returns_perform?.1 hread
  obtain ⟨effects, hpassed, hsize, hseen⟩ := returns_readUser h.sound hread
  refine ⟨hsize, fun i byte hbyte => ?_⟩
  obtain ⟨m₁, before, after, hbefore, hafter, n, offset, key, page, ha, hplace, hpage, hresident,
    hbyte⟩ := hseen i byte hbyte
  obtain ⟨hoffset, hbyte⟩ := Vector.getElem?_eq_some_iff.1 hbyte
  have hsound₁ := hbefore.sound h.sound
  obtain ⟨⟨page', hpage', -⟩, hkept⟩ := hafter.page_kept hsound₁ hpage
  have hkind := hafter.course.steps.kindKept hsound₁.coherent hpage hpage'
  have hbrought : page.contents.kind ≠ .uninit := by
    have hfits := hsound₁.coherent.fits hpage
    intro huninit
    cases hcontents : page.contents with
    | pending source =>
        rw [hcontents, hresident] at hfits
        cases hfits
    | _ => simp [hcontents, Contents.kind] at huninit
  refine ⟨n, key, page', ?_, hkept s n hplace, hpage', ?_, fun hanonymous => ?_⟩
  · simp only [pageSize] at hoffset ha ⊢
    omega
  · by_cases hagain : .broughtIn key ∈ after
    · rw [hkind.of_brought hagain]
      exact page.contents.kind_settled_ne
    · rwa [hkind.of_unbrought hagain]
  · have hsettled : page.contents.settled.kind = .anonymous := by
      rw [← hkind.settled, Contents.kind_settled_of_ne (by rw [hanonymous]; simp), hanonymous]
    obtain ⟨memory, hagrees, hfaithful⟩ := h.exists_faithful
      (hbefore.course.steps.filesSince.trans hafter.course.steps.filesSince) hsegments
    have hfaithful₁ := hbefore.course.steps.faithful h.sound.coherent h.slotBooks
      hafter.course.steps.filesSince (fun key slice bytes he => by
        cases hbefore.passing _ he) hfaithful
    rw [ha, ← (hagrees.passed h.sound hbefore).placed hplace hoffset,
      ← (hfaithful₁ key).bytes hpage hsettled]
    exact hbyte.symm

theorem writesPrefix (history : List Done) (m : Machine) : WritesPrefix history m := by
  intro s va data answer m' hwrite
  obtain ⟨-, hwrite⟩ := Request.returns_perform?.1 hwrite
  have hwrite : Answers (writePieces s va data (pieces va.toNat 0 data.size)) m answer m' := hwrite
  obtain ⟨stored, rest, hall, hanswer, hsum⟩ := exists_stored_pieces hwrite
  refine ⟨stored, rest, hall, hanswer, ?_⟩
  cases answer with
  | ok u =>
      obtain rfl := hanswer.1 rfl
      rw [List.append_nil] at hall
      rw [← hall, sum_pieces]
      rfl
  | error cause =>
      rw [← hsum]
      rfl

/-- After any run anonymous memory is what the history left in flat memory. -/
theorem Run.anonymousMemory (h : Run start history m) :
    ReadsFlat history m ∧ WritesPrefix history m := ⟨h.readsFlat, writesPrefix history m⟩

def readAfterEviction : Option (Except VmError Unit) × Option (Except Rejection Unit) ×
    Option Bool × Option (Array UInt8 × Except Rejection Unit) → Bool
  | (some _, some (.ok ()), some true, some (_, .ok ())) => true
  | _ => false

/-- A byte on the stack of a process is evicted, and read back. -/
theorem anonymousMemory_of_pageOut : ∃ s history m m' bytes, Run (bare 1 1 .empty) history m ∧
    Returns ((Request.readUser ⟨userStack - 1, by decide⟩ 1).perform? s) m
      (some (bytes, .ok ())) m' ∧ bytes = #[65] := by
  have hpieces : pieces (userStack - 1) 0 1 = [⟨0, 1⟩] := pieces_of_le (by decide) (by decide)
  have htest : returnsWith (do
        let s ← Space.create "init"
        let stack ← Request.setUpStack.perform? s
        let wrote ← (Request.writeUser ⟨userStack - 1, by decide⟩ #[65]).perform? s
        let out ← (Request.pageOut ⟨userStack - 1, by decide⟩).perform? s
        return (stack, wrote, out, ← (Request.readUser ⟨userStack - 1, by decide⟩ 1).perform? s))
      (bare 1 1 .empty) (fun answers m =>
        readAfterEviction answers && m.pages.values.all (·.contents.kind == .anonymous)) = true := by
    simp only [Request.perform?, Request.perform, writeUser, readUser, List.size_toArray,
      List.length_singleton, hpieces]
    decide +kernel
  obtain ⟨answers, m', hrun, htest⟩ := exists_returns htest
  simp only [returns_bind, returns_pure] at hrun
  obtain ⟨s, m₁, hcreate, stack, m₂, hstack, wrote, m₃, hwrite, out, m₄, hout, read, m₅, hread,
    rfl, rfl⟩ := hrun
  rw [Bool.and_eq_true, List.all_eq_true] at htest
  obtain ⟨hanswers, hkinds⟩ := htest
  unfold readAfterEviction at hanswers
  split at hanswers
  swap
  · cases hanswers
  next stack bytes he =>
  cases he
  have hreached : Run (bare 1 1 .empty) [⟨s, .pageOut ⟨userStack - 1, by decide⟩, true, m₃, m₄⟩,
      ⟨s, .writeUser ⟨userStack - 1, by decide⟩ #[65], .ok (), m₂, m₃⟩,
      ⟨s, .setUpStack, stack, m₁, m₂⟩] m₄ :=
    ⟨fresh_bare 1 1 .empty, .request (.request (.request (.create .refl hcreate) hstack) hwrite) hout⟩
  obtain ⟨hsize, hbytes⟩ := hreached.anonymousMemory.1 hread fun d hd f hloads => by
    simp only [List.mem_cons, List.not_mem_nil, or_false] at hd
    rcases hd with rfl | rfl | rfl <;> cases hloads
  refine ⟨s, _, m₄, m', bytes, hreached, hread, Array.ext (hsize rfl) fun i hi _ => ?_⟩
  obtain ⟨n, key, page, -, -, hpage, -, hbyte⟩ := hbytes i bytes[i] (Array.getElem?_eq_getElem hi)
  have hkind := hkinds page ((Arena.mem_values_iff _ _).2 ⟨key, hpage⟩)
  rw [beq_iff_eq] at hkind
  obtain rfl : i = 0 := by
    have hone := hsize rfl
    omega
  have hflat : ∀ flat : Flat, flat.lay s (userStack - 1) 1 (fun i => #[65][i]?.getD 0) s
      (userStack - 1) = 65 := fun flat => by
    rw [Flat.lay_self, if_pos ⟨Nat.le_refl _, Nat.lt_succ_self _⟩, Nat.sub_self]
    rfl
  rw [hbyte hkind]
  exact hflat _

end DemandPaging
