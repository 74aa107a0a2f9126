import DemandPaging.Proofs.AnonymousMemory
import DemandPaging.Proofs.MappedFile

/-!
Which writes a run makes.

A page is in frames for periods: one begins when the page is brought into a frame or copied into
one, and ends when the page leaves it, because its frame is taken or because the page is given up.
Within a period the entry of the page remembers whether the process stored into it. The entry is
overwritten, cleared and made anew on the way, but what it says is a matter of the period alone. So
there is a write to a file for every period that ends with stores, of a page that shows a part of
the file, and there is no other.

To say so a run is taken apart into its steps. They are listed with the views before and after them
and with the request under which they happened, the last one first. A step stores into a page what the
request has for that place, and whatever a request stores it stores in one of its steps.
-/

namespace DemandPaging

open Machine Space

variable {effects : List Effect} {x x' : Option FrameNumber} {v v' : View} {key : Key Page}
  {page : Page} {f : FrameNumber}

/-! ### Leaving a frame -/

/-- The page leaves the frame in which it is: it is moved out or gone. -/
structure View.Leaves (v v' : View) (key : Key Page) (page : Page) (f : FrameNumber) : Prop where
  there : v.page key = some page
  frame : page.frame = some f
  gone : ∀ page', v'.page key = some page' → page'.frame = none

structure Departure (v v' : View) (key : Key Page) (page : Page) (f : FrameNumber)
    (bytes : PageBytes) (dirty : Bool) : Prop where
  leaves : v.Leaves v' key page f
  held : v.bytes f = some bytes
  stained : dirty = true ↔ v.Stained key
  written : ∀ slice, page.contents = .file slice →
    ∃ v₁, WrittenBack slice bytes dirty v v₁ ∧ v'.file = v₁.file
  unwritten : (∀ slice, page.contents ≠ .file slice) → v'.file = v.file
  sole : ∀ {key' page' f'}, v.Leaves v' key' page' f' → key' = key

theorem View.not_leaves_of_update {key₀ : Key Page} {page? : Option Page}
    (hpage : v'.page = Function.update v.page key₀ page?)
    (hstays : ∀ page f, v.page key₀ = some page → page.frame = some f →
      ∃ page', page? = some page' ∧ page'.frame ≠ none) : ¬v.Leaves v' key page f := by
  rintro ⟨hthere, hframe, hgone⟩
  rw [hpage] at hgone
  by_cases hkey : key = key₀
  · subst hkey
    obtain ⟨page', hpage', hframe'⟩ := hstays page f hthere hframe
    exact hframe' (hgone page' (by rw [Function.update_self, hpage']))
  · rw [Function.update_of_ne hkey] at hgone
    rw [hgone page hthere] at hframe
    cases hframe

theorem Coherent.departure (h : Coherent x v) (page? : Option Page) {o : Owner} {bytes : PageBytes}
    (howner : v.owner f = some (some o)) (hpage : v.page o.page = some page)
    (hbytes : v.bytes f = some bytes) (hpage' : v'.page = Function.update v.page o.page page?)
    (habsent : ∀ page', page? = some page' → page'.frame = none)
    (hwritten : ∀ slice, page.contents = .file slice →
      ∃ v₁, WrittenBack slice bytes (v.isDirty o.directory o.va) v v₁ ∧ v'.file = v₁.file)
    (hunwritten : (∀ slice, page.contents ≠ .file slice) → v'.file = v.file) :
    Departure v v' o.page page f bytes (v.isDirty o.directory o.va) := by
  obtain ⟨p, -, hp, hframe, -⟩ := h.residency.linked howner
  cases hpage.symm.trans hp
  refine ⟨⟨hpage, hframe, fun page' hpage'' => habsent page' ?_⟩, hbytes,
    ⟨fun hdirty => ⟨f, o, howner, rfl, hdirty⟩, h.isDirty_of_stained howner⟩, hwritten, hunwritten,
    fun {key' page' f'} hleaves => ?_⟩
  · rwa [hpage', Function.update_self] at hpage''
  · by_contra hkey
    have hgone := hleaves.gone page' (by rw [hpage', Function.update_of_ne hkey, hleaves.there])
    rw [hleaves.frame] at hgone
    cases hgone

/-- At a step at most one page leaves its frame, and where none does the files stay as they are. -/
theorem Step.departure (h : Step effects x v x' v') (hcoherent : Coherent x v) :
    (v'.file = v.file ∧ ∀ key page f, ¬v.Leaves v' key page f) ∨
      ∃ key page f bytes dirty, Departure v v' key page f bytes dirty := by
  have hsame : v'.page = v.page → ∀ key page f, ¬v.Leaves v' key page f := by
    rintro hpage key page f ⟨hthere, hframe, hgone⟩
    rw [hpage] at hgone
    rw [hgone page hthere] at hframe
    cases hframe
  have hnew : ∀ page f, v.page ⟨v.created⟩ = some page → page.frame = some f → False := by
    intro page f hpage
    rw [hcoherent.page_created] at hpage
    cases hpage
  cases h with
  | scribble | take | giveBack | store | openSpace | closeSpace | register =>
      exact .inl ⟨rfl, hsame rfl⟩
  | @evict _ v₁ f o page bytes contents howner hpage hbytes hstowed =>
      refine .inr ⟨o.page, page, f, bytes, _, hcoherent.departure
        (some { page with contents, frame := none }) howner hpage hbytes ?_ ?_ ?_ ?_⟩
      · obtain ⟨isOccupied, pageIn, file, rfl⟩ := hstowed.exists_eq
        rfl
      · rintro _ ⟨⟩
        rfl
      · intro slice hcontents
        rw [hcontents] at hstowed
        cases hstowed with
        | file hback => exact ⟨v₁, hback, rfl⟩
      · intro hcontents
        generalize page.contents = before at hstowed hcontents
        cases hstowed with
        | slot => rfl
        | file => exact absurd rfl (hcontents _)
  | bringIn hpage =>
      exact .inl ⟨rfl, fun _ _ _ => View.not_leaves_of_update rfl fun _ _ _ _ =>
        ⟨_, rfl, Option.some_ne_none _⟩⟩
  | add | copyAside | copyIn =>
      exact .inl ⟨rfl, fun _ _ _ => View.not_leaves_of_update rfl fun p g hp hg =>
        (hnew p g hp hg).elim⟩
  | removeAbsent hplace hpage hframe =>
      refine .inl ⟨rfl, fun _ _ _ => View.not_leaves_of_update rfl fun p g hp hg => ?_⟩
      cases hpage.symm.trans hp
      cases hframe.symm.trans hg
  | @removePresent _ v₁ s f o page bytes hplace howner hpage hbytes hgiven =>
      refine .inr ⟨o.page, page, f, bytes, _, hcoherent.departure none howner hpage hbytes ?_
        (fun _ he => by cases he) ?_ ?_⟩
      · obtain ⟨file, rfl⟩ := hgiven.exists_eq
        rfl
      · intro slice hcontents
        rw [hcontents] at hgiven
        cases hgiven with
        | file hback => exact ⟨v₁, hback, rfl⟩
      · intro hcontents
        generalize page.contents = before at hgiven hcontents
        cases hgiven with
        | anonymous => rfl
        | file => exact absurd rfl (hcontents _)

/-- A page in a frame is stained by what was stored since it came there. -/
theorem Step.stained_iff (h : Step effects x v x' v') (hcoherent : Coherent x v) :
    v'.Stained key ↔ (∃ offset data, .stored key offset data ∈ effects) ∨
      v.Stained key ∧ ∃ page f, v'.page key = some page ∧ page.frame = some f := by
  constructor
  · intro hstained
    refine (h.stained_old hcoherent hstained).symm.imp_right fun hold => ⟨hold, ?_⟩
    obtain ⟨f, o, howner, rfl, -⟩ := hstained
    obtain ⟨page, -, hpage, hframe, -⟩ := (h.coherent hcoherent).residency.linked howner
    exact ⟨page, f, hpage, hframe⟩
  · intro hnow
    cases h.fate hcoherent key with
    | absent hpage hpage' hunset =>
        rcases hnow with ⟨offset, data, hin⟩ | ⟨-, page, f, hpage'', -⟩
        · exact absurd rfl (hunset _ hin)
        · cases hpage'.symm.trans hpage''
    | kept hpage hpage' hunset hbytes hstained =>
        rcases hnow with ⟨offset, data, hin⟩ | ⟨hold, -⟩
        · exact absurd rfl (hunset _ hin)
        · exact hstained hold
    | stored _ _ _ _ _ hstained => exact hstained
    | evicted hpage hframe hbytes hdirty hstowed hpage' =>
        rcases hnow with ⟨offset, data, hin⟩ | ⟨-, page, f, hpage'', hframe'⟩
        · cases hin
        · cases hpage'.symm.trans hpage''
          cases hframe'
    | broughtIn hpage hframe =>
        rcases hnow with ⟨offset, data, hin⟩ | ⟨hold, -⟩
        · cases List.mem_singleton.1 hin
        · exact absurd hold (hcoherent.not_stained_of_absent hpage hframe)
    | added _ hpage | copied _ hpage =>
        rcases hnow with ⟨offset, data, hin⟩ | ⟨⟨f, o, howner, rfl, -⟩, -⟩
        · cases List.mem_singleton.1 hin
        · obtain ⟨p, -, hp, -⟩ := hcoherent.residency.linked howner
          cases hpage.symm.trans hp
    | removedAbsent _ _ hpage' | removedPresent _ _ _ _ _ hpage' =>
        rcases hnow with ⟨offset, data, hin⟩ | ⟨-, page, f, hpage'', -⟩
        · cases List.mem_singleton.1 hin
        · cases hpage'.symm.trans hpage''

/-! ### Moments -/

/-- One step of a run, and the request that was being carried out. -/
structure Moment where
  during : Option Done
  effects : List Effect
  before : View
  after : View

/-- The request stores the bytes, which lie within a page of its address space. -/
structure Done.Writes (d : Done) (n : PageNumber) (offset : Nat) (data : Array UInt8) : Prop where
  fits : offset + data.size ≤ pageSize
  stores : ∀ i < data.size, d.stores? d.space (n.toNat * pageSize + offset + i) = data[i]?

namespace Moment

structure Puts (moment : Moment) (d : Done) (n : PageNumber) (key : Key Page) (offset : Nat)
    (data : Array UInt8) : Prop where
  during : moment.during = some d
  place : moment.before.pageOf d.space n = some key
  label : .stored key offset data ∈ moment.effects
  writes : d.Writes n offset data

/-- The process to which the page belongs stores into it. -/
def Stores (moment : Moment) (key : Key Page) : Prop :=
  ∃ (d : Done) (n : PageNumber) (offset : Nat) (data : Array UInt8),
    moment.Puts d n key offset data ∧ 0 < data.size

def Attributed (moment : Moment) : Prop :=
  ∀ key offset data, .stored key offset data ∈ moment.effects → moment.Stores key

def Reaches (moment : Moment) (d : Done) (a : Nat) : Prop :=
  ∃ (n : PageNumber) (key : Key Page) (offset : Nat) (data : Array UInt8),
    moment.Puts d n key offset data ∧ n.toNat * pageSize + offset ≤ a ∧
      a < n.toNat * pageSize + offset + data.size

end Moment

/-- Steps one after the other, the last one first. -/
inductive Follows (start : View) : List Moment → Option FrameNumber → View → Prop where
  | nil : Follows start [] none start
  | step {trail : List Moment} {during : Option Done} {effects : List Effect}
      {x x' : Option FrameNumber} {v v' : View} (h : Follows start trail x v)
      (hstep : Step effects x v x' v') : Follows start (⟨during, effects, v, v'⟩ :: trail) x' v'

/-- The page is in a frame, and its process stored into it since it came there. The moments are
listed with the last one first. -/
def StoredInPeriod (key : Key Page) : List Moment → Prop
  | [] => False
  | moment :: earlier => moment.Stores key ∨ StoredInPeriod key earlier ∧
      ∃ page f, moment.after.page key = some page ∧ page.frame = some f

structure WriteCall where
  file : Key File
  offset : Nat
  bytes : Array UInt8

/-- A period of a page ends at this moment, and the call is due: the page shows a part of a file
and its process stored into it during the period. What is to be written is what the frame holds of
that part. -/
def Due (moment : Moment) (earlier : List Moment) (key : Key Page) (call : WriteCall) : Prop :=
  ∃ page f slice bytes, moment.before.Leaves moment.after key page f ∧
    page.contents = .file slice ∧ 0 < slice.readBytes ∧ StoredInPeriod key earlier ∧
      moment.before.bytes f = some bytes ∧
        call = ⟨slice.handle.file, slice.offset, bytes.slice 0 slice.readBytes⟩

/-- The calls that were due, the last one first: one for every period that ended so. -/
inductive CallsDue : List Moment → List WriteCall → Prop where
  | nil : CallsDue [] []
  | silent {moment : Moment} {earlier : List Moment} {calls : List WriteCall}
      (h : CallsDue earlier calls) (hnone : ∀ key call, ¬Due moment earlier key call) :
      CallsDue (moment :: earlier) calls
  | call {moment : Moment} {earlier : List Moment} {calls : List WriteCall} {key : Key Page}
      {call : WriteCall} (h : CallsDue earlier calls) (hdue : Due moment earlier key call)
      (hsole : ∀ key' call', Due moment earlier key' call' → key' = key ∧ call' = call) :
      CallsDue (moment :: earlier) (call :: calls)

def WriteCall.perform (call : WriteCall) (files : Key File → Option File) :
    Key File → Option File :=
  Function.update files call.file
    ((files call.file).map fun file => (file.write call.offset call.bytes).2)

theorem writes_perform (files : Key File → Option File) (calls : List WriteCall) (f : Key File) :
    (calls.foldr WriteCall.perform files f).map (·.writes) =
      (files f).map (·.writes + calls.countP (·.file = f)) := by
  induction calls with
  | nil => rfl
  | cons call calls ih =>
      rw [List.foldr_cons, WriteCall.perform, List.countP_cons]
      by_cases hf : f = call.file
      · subst hf
        have hcount := congrArg (Option.map (· + 1)) ih
        rw [Option.map_map, Option.map_map] at hcount
        simp only [Function.update_self, Option.map_map, decide_true, if_true]
        exact hcount
      · simp only [Function.update_of_ne hf, ih, Ne.symm hf, decide_false, Bool.false_eq_true,
          if_false, Nat.add_zero]

/-! ### What one step makes due -/

section

variable {during : Option Done} {trail : List Moment} {slice : FileSlice} {bytes : PageBytes}
  {dirty : Bool} {v₁ : View}

/-- Only the page that leaves its frame can be due, and only if it is dirty. -/
theorem Due.of_departure {key' : Key Page} {call : WriteCall}
    (h : Due ⟨during, effects, v, v'⟩ trail key' call)
    (hdeparture : Departure v v' key page f bytes dirty)
    (hstained : ∀ key, v.Stained key ↔ StoredInPeriod key trail) :
    key' = key ∧ dirty = true ∧ ∃ slice, page.contents = .file slice ∧ 0 < slice.readBytes ∧
      call = ⟨slice.handle.file, slice.offset, bytes.slice 0 slice.readBytes⟩ := by
  obtain ⟨page', f', slice, bytes', hleaves, hcontents, hsome, hstored, hbytes, rfl⟩ := h
  obtain rfl := hdeparture.sole hleaves
  cases hdeparture.leaves.there.symm.trans hleaves.there
  cases hdeparture.leaves.frame.symm.trans hleaves.frame
  cases hdeparture.held.symm.trans hbytes
  exact ⟨rfl, hdeparture.stained.2 ((hstained _).2 hstored), slice, hcontents, hsome, rfl⟩

theorem WrittenBack.performed_or (h : WrittenBack slice bytes dirty v v₁) :
    v₁.file = v.file ∧ ¬(dirty = true ∧ 0 < slice.readBytes) ∨
      (dirty = true ∧ 0 < slice.readBytes) ∧ v₁.file = WriteCall.perform
        ⟨slice.handle.file, slice.offset, bytes.slice 0 slice.readBytes⟩ v.file := by
  cases h with
  | clean => exact .inl ⟨rfl, fun hdirty => by cases hdirty.1⟩
  | @dirty _ file file' written hfound hwritten =>
      by_cases hsome : 0 < slice.readBytes
      · refine .inr ⟨⟨rfl, hsome⟩, ?_⟩
        rw [FileSlice.writeBack_of_pos (Nat.ne_of_gt hsome)] at hwritten
        cases hwritten
        rw [WriteCall.perform, hfound]
        rfl
      · refine .inl ⟨?_, fun hboth => hsome hboth.2⟩
        rw [FileSlice.writeBack_of_empty (Nat.eq_zero_of_not_pos hsome)] at hwritten
        cases hwritten
        exact Function.update_eq_self_iff.2 hfound.symm

/-- The write that is made at a step is the one that is due. -/
theorem Step.performed_or (h : Step effects x v x' v') (hcoherent : Coherent x v)
    (hstained : ∀ key, v.Stained key ↔ StoredInPeriod key trail) :
    (∀ key call, ¬Due ⟨during, effects, v, v'⟩ trail key call) ∧ v'.file = v.file ∨
      ∃ key call, Due ⟨during, effects, v, v'⟩ trail key call ∧
        (∀ key' call', Due ⟨during, effects, v, v'⟩ trail key' call' → key' = key ∧ call' = call) ∧
          v'.file = call.perform v.file := by
  rcases h.departure hcoherent with ⟨hsame, hnone⟩ | ⟨key, page, f, bytes, dirty, hdeparture⟩
  · refine .inl ⟨fun key call => ?_, hsame⟩
    rintro ⟨page, f, slice, bytes, hleaves, -⟩
    exact hnone key page f hleaves
  have hsole := fun {key' call} (hdue : Due ⟨during, effects, v, v'⟩ trail key' call) =>
    hdue.of_departure hdeparture hstained
  by_cases hfile : ∃ slice, page.contents = .file slice
  swap
  · refine .inl ⟨fun key' call hdue => ?_, hdeparture.unwritten fun slice hcontents =>
      hfile ⟨slice, hcontents⟩⟩
    obtain ⟨-, -, slice, hcontents, -⟩ := hsole hdue
    exact hfile ⟨slice, hcontents⟩
  obtain ⟨slice, hcontents⟩ := hfile
  obtain ⟨v₁, hback, hafter⟩ := hdeparture.written slice hcontents
  rw [hafter]
  rcases hback.performed_or with ⟨hsame, hnot⟩ | ⟨⟨hdirty, hsome⟩, hperformed⟩
  · refine .inl ⟨fun key' call hdue => hnot ?_, hsame⟩
    obtain ⟨-, hdirty, slice', hcontents', hsome, -⟩ := hsole hdue
    cases hcontents.symm.trans hcontents'
    exact ⟨hdirty, hsome⟩
  · refine .inr ⟨key, _, ⟨page, f, slice, bytes, hdeparture.leaves, hcontents, hsome,
      (hstained key).1 (hdeparture.stained.1 hdirty), hdeparture.held, rfl⟩,
      fun key' call' hdue => ?_, hperformed⟩
    obtain ⟨hkey, -, slice', hcontents', -, rfl⟩ := hsole hdue
    cases hcontents.symm.trans hcontents'
    exact ⟨hkey, rfl⟩

end

/-! ### Periods -/

namespace Follows

variable {start : View} {trail : List Moment}

theorem coherent (h : Follows start trail x v) (hstart : Coherent none start) : Coherent x v := by
  induction h with
  | nil => exact hstart
  | step _ hstep ih => exact hstep.coherent ih

/-- The entry of a page says what happened in the period. -/
theorem stained_iff (h : Follows start trail x v) (hstart : Coherent none start)
    (hclean : ∀ key, ¬start.Stained key) (hattributed : ∀ moment ∈ trail, moment.Attributed)
    (key : Key Page) : v.Stained key ↔ StoredInPeriod key trail := by
  induction h with
  | nil => exact iff_of_false (hclean key) id
  | step h hstep ih =>
      rw [hstep.stained_iff (h.coherent hstart),
        ih fun moment hmem => hattributed moment (List.mem_cons_of_mem _ hmem)]
      refine or_congr ⟨fun ⟨offset, data, hin⟩ => ?_, fun ⟨_, _, offset, data, hputs, _⟩ =>
        ⟨offset, data, hputs.label⟩⟩ Iff.rfl
      exact hattributed _ List.mem_cons_self key offset data hin

theorem writable_of_stored (h : Follows start trail x v) (hstart : Coherent none start)
    (hstored : StoredInPeriod key trail) :
    ∃ page, v.page key = some page ∧ page.writable = true := by
  induction h with
  | nil => exact hstored.elim
  | @step trail during effects x x' v v' h hstep ih =>
      have hcoherent := h.coherent hstart
      rcases hstored with ⟨_, _, offset, data, hputs, -⟩ | ⟨hstored, page', f, hpage', -⟩
      · have hin : .stored key offset data ∈ effects := hputs.label
        cases hstep with
        | store howner hpage hwritable =>
            cases List.mem_singleton.1 hin
            exact ⟨_, hpage, hwritable⟩
        | _ => simp at hin
      · obtain ⟨page, hpage, hwritable⟩ := ih hstored
        have hkept : .removed key ∉ effects := by
          intro hremoved
          cases hstep with
          | removeAbsent =>
              cases List.mem_singleton.1 hremoved
              cases hpage'.symm.trans (Function.update_self _ _ _)
          | removePresent _ _ _ _ hgiven =>
              cases List.mem_singleton.1 hremoved
              cases hpage'.symm.trans (Function.update_self _ _ _)
          | _ => simp at hremoved
        obtain ⟨⟨page'', hpage'', -, hsame⟩, -⟩ := hstep.page_kept hcoherent hpage hkept
        exact ⟨page'', hpage'', hsame.trans hwritable⟩

theorem of_suffix (h : Follows start trail x v) {moment : Moment} {earlier : List Moment}
    (hsuffix : moment :: earlier <:+ trail) : ∃ x₁, Follows start earlier x₁ moment.before := by
  induction h with
  | nil => cases List.suffix_nil.1 hsuffix
  | step h hstep ih =>
      rcases List.suffix_cons_iff.1 hsuffix with he | hsuffix
      · cases he
        exact ⟨_, h⟩
      · exact ih hsuffix

/-- The writes that are due are the ones that are made. -/
theorem exists_calls (h : Follows start trail x v) (hstart : Coherent none start)
    (hclean : ∀ key, ¬start.Stained key) (hattributed : ∀ moment ∈ trail, moment.Attributed) :
    ∃ calls, CallsDue trail calls ∧ v.file = calls.foldr WriteCall.perform start.file := by
  induction h with
  | nil => exact ⟨[], .nil, rfl⟩
  | step h hstep ih =>
      have hearlier := fun moment hmem => hattributed moment (List.mem_cons_of_mem _ hmem)
      obtain ⟨calls, hcalls, hfiles⟩ := ih hearlier
      rcases hstep.performed_or (h.coherent hstart) (h.stained_iff hstart hclean hearlier) with
        ⟨hnone, hsame⟩ | ⟨key, call, hdue, hsole, hperformed⟩
      · exact ⟨calls, hcalls.silent hnone, hsame.trans hfiles⟩
      · exact ⟨call :: calls, hcalls.call hdue hsole, by rw [hperformed, hfiles, List.foldr_cons]⟩

end Follows

/-! ### Runs -/

section

variable {start : View} {trail : List Moment}

theorem Steps.exists_moments (h : Steps effects x v x' v') (during : Option Done)
    (hcoherent : Coherent x v)
    (hstored : ∀ key offset data, .stored key offset data ∈ effects → .removed key ∉ effects ∧
      0 < data.size ∧ ∃ d n, during = some d ∧ v.pageOf d.space n = some key ∧
        d.Writes n offset data)
    (hfollows : Follows start trail x v) :
    ∃ moments, (∀ moment ∈ moments, moment.during = during ∧ moment.Attributed) ∧
      Follows start (moments ++ trail) x' v' ∧
      ∀ {d n key offset data}, .stored key offset data ∈ effects → during = some d →
        v.pageOf d.space n = some key → d.Writes n offset data →
          ∃ moment ∈ moments, moment.Puts d n key offset data := by
  induction h generalizing trail with
  | nil => exact ⟨[], fun _ hmem => (by cases hmem), hfollows, fun hin => by cases hin⟩
  | @cons first rest x x₁ x' v v₁ v' head tail ih =>
      have hfirst : Follows start (⟨during, first, v, v₁⟩ :: trail) x₁ v₁ := .step hfollows head
      -- a page that is stored into later is still in its place
      have hlater : ∀ {key offset data s n}, .stored key offset data ∈ rest →
          v.pageOf s n = some key → .removed key ∉ rest ∧ v₁.pageOf s n = some key := by
        intro key offset data s n hin hplace
        have hkept := (hstored key offset data (List.mem_append_right _ hin)).1
        rw [List.mem_append, not_or] at hkept
        obtain ⟨page, hpage, -⟩ := hcoherent.placement.placed hplace
        exact ⟨hkept.2, (head.page_kept hcoherent hpage hkept.1).2 _ _ hplace⟩
      obtain ⟨moments, hmoments, hwhole, hputs⟩ := ih (head.coherent hcoherent)
        (fun key offset data hin => by
          obtain ⟨-, hsome, d, n, hduring, hplace, hwrites⟩ :=
            hstored key offset data (List.mem_append_right _ hin)
          obtain ⟨hkept, hplace₁⟩ := hlater hin hplace
          exact ⟨hkept, hsome, d, n, hduring, hplace₁, hwrites⟩)
        hfirst
      refine ⟨moments ++ [⟨during, first, v, v₁⟩], fun moment hmem => ?_, ?_,
        fun hin hduring hplace hwrites => ?_⟩
      · rcases List.mem_append.1 hmem with hmem | hmem
        · exact hmoments moment hmem
        · rw [List.mem_singleton.1 hmem]
          refine ⟨rfl, fun key offset data hin => ?_⟩
          obtain ⟨-, hsome, d, n, hduring, hplace, hwrites⟩ :=
            hstored key offset data (List.mem_append_left _ hin)
          exact ⟨d, n, offset, data, ⟨hduring, hplace, hin, hwrites⟩, hsome⟩
      · rwa [List.append_assoc]
      · rcases List.mem_append.1 hin with hin | hin
        · exact ⟨_, List.mem_append_right _ (List.mem_singleton_self _),
            hduring, hplace, hin, hwrites⟩
        · obtain ⟨moment, hmem, hput⟩ := hputs hin hduring (hlater hin hplace).2 hwrites
          exact ⟨moment, List.mem_append_left _ hmem, hput⟩

theorem Space.Stored.exists_moments {s : Key AddressSpace} {a : Nat} {data : Array UInt8}
    {m m' : Machine} (h : Stored s a data effects m m') (hsound : Sound none m) {d : Done}
    (hspace : d.space = s) (hstores : ∀ i < data.size, d.stores? s (a + i) = data[i]?)
    (hfollows : Follows start trail none m.view) :
    ∃ moments, (∀ moment ∈ moments, moment.during = some d ∧ moment.Attributed) ∧
      Follows start (moments ++ trail) none m'.view ∧
      ∀ i < data.size, ∃ moment ∈ moments, moment.Reaches d (a + i) := by
  have hpassing : ∀ {effects m m' trail}, Passed s effects m m' → Sound none m →
      Follows start trail none m.view →
        ∃ moments, (∀ moment ∈ moments, moment.during = some d ∧ moment.Attributed) ∧
          Follows start (moments ++ trail) none m'.view := fun hpassed hsound hfollows => by
    obtain ⟨moments, hmoments, hwhole, -⟩ := hpassed.course.steps.exists_moments (some d)
      hsound.coherent (fun _ _ _ hin => by cases hpassed.passing _ hin) hfollows
    exact ⟨moments, hmoments, hwhole⟩
  induction h generalizing trail with
  | passed hpassed =>
      obtain ⟨moments, hmoments, hwhole⟩ := hpassing hpassed hsound hfollows
      exact ⟨moments, hmoments, hwhole, fun _ hi => absurd hi (Nat.not_lt_zero _)⟩
  | @store n offset key data more effects rest m m₁ m₂ m' hpassed hplace hfits hsome hspaces hcourse
      hrest ih =>
      subst hspace
      have hwrites : d.Writes n offset data := ⟨hfits, fun i hi => by
        rw [hstores i (by rw [Array.size_append]; omega), Array.getElem?_append_left hi]⟩
      have hstores' : ∀ i < more.size,
          d.stores? d.space (n.toNat * pageSize + offset + data.size + i) = more[i]? := fun i hi => by
        rw [Nat.add_assoc _ data.size, hstores _ (by rw [Array.size_append]; omega),
          Array.getElem?_append_right (Nat.le_add_right _ _), Nat.add_sub_cancel_left]
      obtain ⟨before, hbefore, hfollows₁⟩ := hpassing hpassed hsound hfollows
      have hsound₁ := hpassed.sound hsound
      obtain ⟨now, hnow, hfollows₂, hputs⟩ := hcourse.steps.exists_moments (some d)
        hsound₁.coherent (fun _ _ _ hin => by
          cases List.mem_singleton.1 hin
          exact ⟨by simp, hsome, d, n, rfl, hplace, hwrites⟩) hfollows₁
      obtain ⟨after, hafter, hfollows', hreaches⟩ :=
        ih (hcourse.sound hsound₁) hstores' hfollows₂
      refine ⟨after ++ (now ++ before), fun moment hmem => ?_, by simpa using hfollows',
        fun i hi => ?_⟩
      · rcases List.mem_append.1 hmem with hmem | hmem
        · exact hafter moment hmem
        · rcases List.mem_append.1 hmem with hmem | hmem
          · exact hnow moment hmem
          · exact hbefore moment hmem
      · by_cases hfirst : i < data.size
        · obtain ⟨moment, hmem, hput⟩ := hputs (List.mem_singleton_self _) rfl hplace hwrites
          exact ⟨moment, List.mem_append_right _ (List.mem_append_left _ hmem), n, key, offset, data,
            hput, by omega, by omega⟩
        · rw [Array.size_append] at hi
          obtain ⟨moment, hmem, hreach⟩ := hreaches (i - data.size) (by omega)
          rw [show n.toNat * pageSize + offset + data.size + (i - data.size) =
            n.toNat * pageSize + offset + i by omega] at hreach
          exact ⟨moment, List.mem_append_left _ hmem, hreach⟩

theorem Outcome.exists_moments {s : Key AddressSpace} {m m' : Machine} {α : Type}
    {request : Request α} {answer : α} (h : Outcome s m m' request answer effects)
    (hsound : Sound none m) (hfollows : Follows start trail none m.view) :
    ∃ moments, (∀ moment ∈ moments,
        moment.during = some ⟨s, request, answer, m, m'⟩ ∧ moment.Attributed) ∧
      Follows start (moments ++ trail) none m'.view ∧
      ∀ a, request.stores? s m a answer ≠ none →
        ∃ moment ∈ moments, moment.Reaches ⟨s, request, answer, m, m'⟩ a := by
  have hquiet : ¬request.Writes →
      ∃ moments, (∀ moment ∈ moments,
        moment.during = some ⟨s, request, answer, m, m'⟩ ∧ moment.Attributed) ∧
      Follows start (moments ++ trail) none m'.view ∧
      ∀ a, request.stores? s m a answer ≠ none →
        ∃ moment ∈ moments, moment.Reaches ⟨s, request, answer, m, m'⟩ a := fun hwrites => by
    obtain ⟨moments, hmoments, hwhole, -⟩ := h.course.steps.exists_moments
      (some ⟨s, request, answer, m, m'⟩) hsound.coherent
      (fun _ _ _ hin => by
        cases h.labels hin with
        | stored hwrites' => exact absurd hwrites' hwrites) hfollows
    exact ⟨moments, hmoments, hwhole, fun a hstores =>
      absurd (Request.stores?_of_not_writes hwrites s m a) hstores⟩
  cases h with
  | @stored va data answer _ length hlength hle hok hstored =>
      have hsize : (data.extract 0 length).size = length := by
        rw [Array.size_extract, Nat.sub_zero, Nat.min_eq_left hle]
      have hstores := Request.stores?_writeUser hlength hok
      obtain ⟨moments, hmoments, hwhole, hreaches⟩ := hstored.exists_moments hsound rfl
        (d := ⟨s, .writeUser va data, answer, m, m'⟩) (fun i hi => by
          rw [hsize] at hi
          rw [Done.stores?, if_pos rfl, hstores, if_pos ⟨by omega, by omega⟩,
            Nat.add_sub_cancel_left, Array.getElem?_extract, Nat.min_eq_left hle, Nat.sub_zero,
            if_pos hi, Nat.zero_add]) hfollows
      refine ⟨moments, hmoments, hwhole, fun a hsome => ?_⟩
      obtain ⟨hle', hlt⟩ : va.toNat ≤ a ∧ a < va.toNat + length := by
        by_contra hout
        rw [hstores, if_neg hout] at hsome
        exact hsome rfl
      have hreach := hreaches (a - va.toNat) (by omega)
      rwa [Nat.add_sub_of_le hle'] at hreach
  | passed hpassing =>
      refine hquiet fun hwrites => ?_
      cases request with
      | writeUser => cases hpassing
      | _ => cases hwrites
  | _ => exact hquiet id

end

/-- A run with the steps that were taken, request by request. -/
inductive Recorded (start : Machine) : List Done → List Moment → Machine → Prop where
  | refl : Recorded start [] [] start
  | create {history : List Done} {trail moments : List Moment} {m₁ m₂ : Machine} {name : String}
      {s : Key AddressSpace} (h : Recorded start history trail m₁)
      (hrun : Returns (create name) m₁ s m₂) (hduring : ∀ moment ∈ moments, moment.during = none)
      (hfollows : Follows start.view (moments ++ trail) none m₂.view) :
      Recorded start history (moments ++ trail) m₂
  | clients {history : List Done} {trail : List Moment} {m₁ : Machine}
      (h : Recorded start history trail m₁) (clients : List Handle) :
      Recorded start history trail { m₁ with clients }
  | request {history : List Done} {trail moments : List Moment} {m₁ m₂ : Machine}
      {s : Key AddressSpace} {α : Type} {request : Request α} {answer : α}
      (h : Recorded start history trail m₁)
      (hrun : Returns (request.perform? s) m₁ (some answer) m₂)
      (hduring : ∀ moment ∈ moments, moment.during = some ⟨s, request, answer, m₁, m₂⟩)
      (hfollows : Follows start.view (moments ++ trail) none m₂.view) :
      Recorded start (⟨s, request, answer, m₁, m₂⟩ :: history) (moments ++ trail) m₂

/-- Every run can be taken apart into steps, and what its requests stored was stored in them. -/
theorem Reaches.exists_trail {start m : Machine} {history : List Done}
    (h : Reaches start history m) (hsound : Sound none start) :
    ∃ trail, Recorded start history trail m ∧ Follows start.view trail none m.view ∧
      (∀ moment ∈ trail, moment.Attributed) ∧
      ∀ d ∈ history, ∀ a, d.stores? d.space a ≠ none → ∃ moment ∈ trail, moment.Reaches d a := by
  induction h with
  | refl => exact ⟨[], .refl, .nil, fun _ hmem => (by cases hmem), fun _ hd => by cases hd⟩
  | create h hrun ih =>
      obtain ⟨trail, hrecorded, hfollows, hattributed, hreaches⟩ := ih
      have hsound := h.sound hsound
      obtain ⟨moments, hmoments, hfollows', -⟩ := (returns_create hsound hrun).course.steps.exists_moments
        none hsound.coherent (fun _ _ _ hin => by cases List.mem_singleton.1 hin) hfollows
      refine ⟨_, hrecorded.create hrun (fun moment hmem => (hmoments moment hmem).1) hfollows',
        hfollows', fun moment hmem => ?_, fun d hd a hstores => ?_⟩
      · exact (List.mem_append.1 hmem).elim (fun hmem => (hmoments moment hmem).2) (hattributed moment)
      · obtain ⟨moment, hmem, hreach⟩ := hreaches d hd a hstores
        exact ⟨moment, List.mem_append_right _ hmem, hreach⟩
  | clients h handles ih =>
      obtain ⟨trail, hrecorded, hfollows, hattributed, hreaches⟩ := ih
      exact ⟨trail, hrecorded.clients handles, hfollows, hattributed, hreaches⟩
  | @request history m₁ m₂ s α request answer h hrun ih =>
      obtain ⟨trail, hrecorded, hfollows, hattributed, hreaches⟩ := ih
      have hsound := h.sound hsound
      obtain ⟨effects, houtcome⟩ := Request.exists_outcome hsound (Request.returns_perform?.1 hrun).2
      obtain ⟨moments, hmoments, hfollows', hnow⟩ := houtcome.exists_moments hsound hfollows
      refine ⟨_, hrecorded.request hrun (fun moment hmem => (hmoments moment hmem).1) hfollows',
        hfollows', fun moment hmem => ?_, fun d hd a hstores => ?_⟩
      · exact (List.mem_append.1 hmem).elim (fun hmem => (hmoments moment hmem).2) (hattributed moment)
      · rcases List.mem_cons.1 hd with rfl | hd
        · rw [Done.stores?, if_pos rfl] at hstores
          obtain ⟨moment, hmem, hreach⟩ := hnow a hstores
          exact ⟨moment, List.mem_append_left _ hmem, hreach⟩
        · obtain ⟨moment, hmem, hreach⟩ := hreaches d hd a hstores
          exact ⟨moment, List.mem_append_right _ hmem, hreach⟩

/-- The calls that were due in the course of a run are the ones that were made. -/
structure WritesMade (start m : Machine) (history : List Done) (trail : List Moment)
    (calls : List WriteCall) : Prop where
  due : CallsDue trail calls
  /-- Whatever a request stored it stored at one of the moments. -/
  stored : ∀ d ∈ history, ∀ a, d.stores? d.space a ≠ none → ∃ moment ∈ trail, moment.Reaches d a
  /-- The files are what the calls made of them. -/
  files : m.view.file = calls.foldr WriteCall.perform start.view.file
  counted : ∀ f, m.writesTo f = (start.writesTo f).map (· + calls.countP (·.file = f))
  /-- No call is due for a page that may not be written to. -/
  writable : ∀ {moment earlier key call}, moment :: earlier <:+ trail →
    Due moment earlier key call → ∃ page, moment.before.page key = some page ∧ page.writable = true

/-- A run writes to a file once for every period of a page over it that ends with stores, what the
frame holds of the file's part, and at no other time. -/
theorem Run.writesMade {start m : Machine} {history : List Done} (h : Run start history m) :
    ∃ trail calls, Recorded start history trail m ∧ WritesMade start m history trail calls := by
  have hcoherent := h.fresh.sound.coherent
  have hclean : ∀ key, ¬start.view.Stained key := by
    rintro key ⟨f, o, howner, -⟩
    simp only [view, h.fresh.listed, ownerIn, List.find?_nil, Option.map_none] at howner
    cases howner
  obtain ⟨trail, hrecorded, hfollows, hattributed, hreaches⟩ := h.reaches.exists_trail h.fresh.sound
  obtain ⟨calls, hdue, hfiles⟩ := hfollows.exists_calls hcoherent hclean hattributed
  refine ⟨trail, calls, hrecorded, hdue, hreaches, hfiles, fun f => ?_, ?_⟩
  · rw [writesTo_eq, writesTo_eq, hfiles, writes_perform, Option.map_map]
    rfl
  · rintro moment earlier key call hsuffix ⟨page, f, slice, bytes, hleaves, -, -, hstored, -⟩
    obtain ⟨x, hfollows⟩ := hfollows.of_suffix hsuffix
    exact hfollows.writable_of_stored hcoherent hstored

def evictedAfterStore : Option (Except VmError VirtualAddress) × Option (Except Rejection Unit) ×
    Option Bool → Bool
  | (some (.ok _), some (.ok ()), some true) => true
  | _ => false

/-- A byte is stored into a mapping of two bytes, and the page is evicted: one call is made. -/
theorem writesMade_of_pageOut : ∃ history m trail calls,
    Run (bare 1 0 (Arena.empty.add (.ofData #[1, 2] none))) history m ∧ m.writesTo ⟨0⟩ = some 1 ∧
      Recorded (bare 1 0 (Arena.empty.add (.ofData #[1, 2] none))) history trail m ∧
        WritesMade (bare 1 0 (Arena.empty.add (.ofData #[1, 2] none))) m history trail calls ∧
          calls.countP (·.file = ⟨0⟩) = 1 := by
  have hpieces : pieces 0x10000000 0 1 = [⟨0, 1⟩] := pieces_of_le (by decide) (by decide)
  -- the sizes of what is written back are known without looking at the bytes
  have htest : returnsWith (do
        let s ← Space.create "init"
        let mapped ← (Request.mapFile ⟨0x10000000, by decide⟩ 2 true ⟨⟨0⟩, 0⟩ 0).perform? s
        let wrote ← (Request.writeUser ⟨0x10000000, by decide⟩ #[65]).perform? s
        return (mapped, wrote, ← (Request.pageOut ⟨0x10000000, by decide⟩).perform? s))
      (bare 1 0 (Arena.empty.add (.ofData #[1, 2] none))) (fun answers m =>
        evictedAfterStore answers && m.writesTo ⟨0⟩ == some 1) = true := by
    simp only [Request.perform?, Request.perform, writeUser, List.size_toArray,
      List.length_singleton, hpieces, Space.pageOut, Machine.pageOut, evict, moveOut,
      evictToSlice, writeSliceBack, FileSlice.writeBack, File.write, Bytes.slice,
      Array.size_extract, Vector.size_toArray]
    decide +kernel
  obtain ⟨answers, m, hrun, htest⟩ := exists_returns htest
  simp only [returns_bind, returns_pure] at hrun
  obtain ⟨s, m₀, hcreate, mapped, m₁, hmap, wrote, m₂, hwrite, out, _, hout, rfl, rfl⟩ := hrun
  rw [Bool.and_eq_true, beq_iff_eq] at htest
  obtain ⟨htest, hcount⟩ := htest
  unfold evictedAfterStore at htest
  split at htest
  swap
  · cases htest
  next he =>
  simp only [Prod.mk.injEq] at he
  obtain ⟨rfl, rfl, rfl⟩ := he
  have hreached : Run (bare 1 0 (Arena.empty.add (.ofData #[1, 2] none))) _ m := ⟨fresh_bare _ _ _,
    .request (.request (.request (.create .refl hcreate) hmap) hwrite) hout⟩
  obtain ⟨trail, calls, hrecorded, hmade⟩ := hreached.writesMade
  refine ⟨_, m, trail, calls, hreached, hcount, hrecorded, hmade, ?_⟩
  have hcalls := hmade.counted ⟨0⟩
  rw [hcount] at hcalls
  have hcalls : some 1 = some (0 + calls.countP (·.file = ⟨0⟩)) := hcalls
  rw [Option.some.inj hcalls, Nat.zero_add]

end DemandPaging
