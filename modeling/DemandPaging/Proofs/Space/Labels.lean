import DemandPaging.Proofs.Space.Outcome

/-!
What the labels of a request tell about it.

The label of a step does not say who asked for it. But the requests that could have are few: only a
fork copies pages, only a write stores bytes, and a page that was there before is removed only by a
request that takes it away. This is said once for every label, by cases on the outcomes, and what
becomes of the places and regions of an address space follows from it.
-/

namespace DemandPaging

open Machine Space

/-! ### Kinds of requests -/

def Region.Has (region : Region) (n : PageNumber) : Prop :=
  region.start.number.toNat ≤ n.toNat ∧ n.toNat < region.start.number.toNat + region.pages

namespace Request

variable {α : Type}

def Loads (f : Key File) : Request α → α → Prop
  | .loadSegment file _ _ _ _ _, .ok () => file.file = f
  | _, _ => False

def Maps (f : Key File) (start : VirtualAddress) (length offset : Nat) : Request α → α → Prop
  | .mapFile start' length' _ file offset', .ok _ =>
      file.file = f ∧ start' = start ∧ length' = length ∧ offset' = offset
  | .mapDescriptor start' length' _ descriptor offset' lookup, .ok _ =>
      (∃ file, (mappableDescriptor? descriptor).bind lookup = some file ∧ file.file = f) ∧
        start' = start ∧ length' = length ∧ offset' = offset
  | _, _ => False

def Writes : Request α → Prop
  | .writeUser _ _ => True
  | _ => False

/-- The request ends the mapping that starts at an address, if there is one. -/
def Ends (start : VirtualAddress) : Request α → Prop
  | .unmapFile start' => start' = start
  | .exit _ => True
  | .drop => True
  | _ => False

def Takes (s : Key AddressSpace) (m : Machine) (n : PageNumber) (request : Request α) : Prop :=
  ∃ start, request.Ends start ∧ ((∀ start', request.Ends start') ∨
    ∃ region, m.view.regionOf s start = some region ∧ region.Has n)

end Request

/-! ### Labels -/

/-- The labels that a request with its answer may have. -/
inductive Request.Labels {α : Type} (s : Key AddressSpace) (m : Machine) (request : Request α)
    (answer : α) : Effect → Prop where
  | broughtIn {key : Key Page} : Labels s m request answer (.broughtIn key)
  | added {key : Key Page} {source : Pending} {bytes : PageBytes}
      (hnew : m.view.created ≤ key.index)
      (hsegment : ∀ slice, source = .loader (.segment slice) →
        request.Loads slice.handle.file answer)
      (hfile : ∀ slice, source = .file slice → ∃ start length offset,
        request.Maps slice.handle.file start length offset answer) :
      Labels s m request answer (.added key source bytes)
  | copied {source copy : Key Page} {n : PageNumber} (hforks : request.Forks)
      (hplace : m.view.pageOf s n = some source) (hnew : m.view.created ≤ copy.index) :
      Labels s m request answer (.copied source copy)
  | removedNew {key : Key Page} (hnew : m.view.created ≤ key.index) :
      Labels s m request answer (.removed key)
  | removed {key : Key Page} {n : PageNumber} (htakes : request.Takes s m n)
      (hplace : m.view.pageOf s n = some key) : Labels s m request answer (.removed key)
  | stored {key : Key Page} {offset : Nat} {data : Array UInt8} (hwrites : request.Writes) :
      Labels s m request answer (.stored key offset data)
  | opened {s' : Key AddressSpace} : Labels s m request answer (.opened s')
  | closed {s' : Key AddressSpace} : Labels s m request answer (.closed s')
  | registered {s' : Key AddressSpace} {start : VirtualAddress} :
      Labels s m request answer (.registered s' start)

section

variable {α : Type} {m m' : Machine} {s : Key AddressSpace} {request : Request α} {answer : α}
  {effects : List Effect} {e : Effect}

theorem Effect.Passing.labels {created : Nat} (h : Effect.Passing created e)
    (hle : m.view.created ≤ created) : request.Labels s m answer e := by
  cases h with
  | broughtIn => exact .broughtIn
  | added hnew =>
      exact .added (Nat.le_trans hle hnew) (fun _ he => by cases he) (fun _ he => by cases he)
  | removed hnew => exact .removedNew (Nat.le_trans hle hnew)

theorem Space.Stored.labels {a : Nat} {data : Array UInt8} (h : Stored s a data effects m m') :
    ∀ e ∈ effects, Effect.Passing m.view.created e ∨
      ∃ key offset data, e = .stored key offset data := by
  induction h with
  | passed h => exact fun e he => .inl (h.passing e he)
  | store hpassed _ _ _ _ hcourse _ ih =>
      intro e he
      rcases List.mem_append.1 he with he | he
      · exact .inl (hpassed.passing e he)
      rcases List.mem_cons.1 he with rfl | he
      · exact .inr ⟨_, _, _, rfl⟩
      · exact (ih e he).imp_left fun hlater => hlater.mono
          (Nat.le_trans hpassed.course.steps.created_le hcourse.steps.created_le)

theorem Space.Stored.pagesOnly {a : Nat} {data : Array UInt8} (h : Stored s a data effects m m') :
    PagesOnly s m m' := by
  induction h with
  | passed h => exact h.pagesOnly
  | store hpassed _ _ _ hspaces _ _ ih => exact (hpassed.pagesOnly.trans (.of_spaces hspaces)).trans ih

theorem Space.FileMapped.labels {f : Key File} {offset length : Nat} {start : VirtualAddress}
    {writable : Bool} (h : FileMapped s f offset start length writable effects m m')
    (he : e ∈ effects) (hmaps : request.Maps f start length offset answer) :
    request.Labels s m answer e := by
  obtain ⟨-, -, -, _, handle, pages, inserted, m₁, -, rfl, hpages, hinserted, rfl, -⟩ := h
  rcases List.mem_append.1 he with he | he
  · obtain ⟨key, source, bytes, rfl, hnew, page, hpage, hcontents⟩ := hinserted.labels e he
    obtain ⟨index, -, hmake⟩ := (mem_of_mapM_eq_ok hpages).1 hpage
    obtain ⟨-, -, slice, hcontents', rfl, -⟩ := filePage_eq_ok hmake
    cases hcontents.symm.trans hcontents'
    refine .added hnew (fun _ he => by cases he) fun _ he => ?_
    cases he
    exact ⟨start, length, offset, hmaps⟩
  · cases List.mem_singleton.1 he
    exact .registered

theorem Space.Closed.labelled (h : Closed s effects m m') (he : e ∈ effects)
    (hends : ∀ start, request.Ends start) : request.Labels s m answer e := by
  rcases h.labels e he with ⟨start, rfl⟩ | ⟨n, key, hplace, rfl⟩ | rfl
  · exact .registered
  · exact .removed ⟨⟨0, by decide⟩, hends _, .inl hends⟩ hplace
  · exact .closed

/-- The labels of an outcome are among those that its request may have. -/
theorem Outcome.labels (h : Outcome s m m' request answer effects) (he : e ∈ effects) :
    request.Labels s m answer e := by
  cases h with
  | passed _ h => exact (h.passing e he).labels (Nat.le_refl _)
  | stored _ _ _ h =>
      rcases h.labels e he with hpassing | ⟨_, _, _, rfl⟩
      · exact hpassing.labels (Nat.le_refl _)
      · exact .stored trivial
  | loaded h =>
      obtain ⟨-, -, handle, -, hfile, count, pages, -, hpages, hinserted⟩ := h
      obtain ⟨key, source, bytes, rfl, hnew, page, hpage, hcontents⟩ := hinserted.labels e he
      obtain ⟨index, -, hmake⟩ := (mem_of_mapM_eq_ok hpages).1 hpage
      obtain ⟨-, -, ⟨hzeros, -⟩ | ⟨slice, hcontents', hhandle, -⟩⟩ := segmentPage_eq_ok hmake
      · cases hcontents.symm.trans hzeros
        exact .added hnew (fun _ he => by cases he) (fun _ he => by cases he)
      · cases hcontents.symm.trans hcontents'
        refine .added hnew (fun _ he => ?_) (fun _ he => by cases he)
        cases he
        exact (hfile _ hhandle).1.symm
  | mapped h => exact h.labels he ⟨rfl, rfl, rfl, rfl⟩
  | descriptorMapped hfile h => exact h.labels he ⟨⟨_, hfile, rfl⟩, rfl, rfl, rfl⟩
  | @unmapped start region _ hregion h =>
      rcases h.labels e he with rfl | ⟨n, key, hplace, rfl, hin⟩
      · exact .registered
      · exact .removed ⟨start, rfl, .inr ⟨region, hregion, hin⟩⟩ hplace
  | nothingUnmapped => cases he
  | exited h => exact h.labelled he fun _ => trivial
  | dropped h => exact h.labelled he fun _ => trivial
  | forked h =>
      rcases h.labels e he with rfl | ⟨_, rfl⟩ | ⟨n, key, copy, hplace, rfl, hnew⟩
      · exact .opened
      · exact .registered
      · exact .copied trivial hplace hnew
  | forkFailed h =>
      rcases h.labels e he with rfl | ⟨_, rfl⟩ | ⟨n, key, copy, hplace, rfl, hnew⟩ |
        ⟨key, rfl, hnew⟩ | rfl
      · exact .opened
      · exact .registered
      · exact .copied trivial hplace hnew
      · exact .removedNew hnew
      · exact .closed

theorem Outcome.writes_of_sets (h : Outcome s m m' request answer effects) (he : e ∈ effects)
    {key : Key Page} (hsets : e.Sets key) (hold : key.index < m.view.created) :
    request.Writes := by
  cases h.labels he with
  | added hnew =>
      cases hsets
      exact absurd hold (Nat.not_lt.2 hnew)
  | copied _ _ hnew =>
      cases hsets
      exact absurd hold (Nat.not_lt.2 hnew)
  | stored hwrites => exact hwrites
  | _ => cases hsets

theorem Outcome.fileMapped (houtcome : Outcome s m m' request answer effects) {f : Key File}
    {start : VirtualAddress} {length offset : Nat}
    (hmaps : request.Maps f start length offset answer) :
    ∃ writable, FileMapped s f offset start length writable effects m m' := by
  cases houtcome with
  | passed hquiet =>
      cases request with
      | mapFile => cases answer with
        | ok start' => exact absurd rfl (hquiet start')
        | error => cases hmaps
      | mapDescriptor => cases answer with
        | ok start' => exact absurd rfl (hquiet start')
        | error => cases hmaps
      | _ => cases hmaps
  | mapped h =>
      obtain ⟨rfl, rfl, rfl, rfl⟩ := hmaps
      exact ⟨_, h⟩
  | descriptorMapped hfile h =>
      obtain ⟨⟨file, hfile', rfl⟩, rfl, rfl, rfl⟩ := hmaps
      cases hfile.symm.trans hfile'
      exact ⟨_, h⟩
  | _ => cases hmaps

theorem Outcome.forked_or_forkFailed (h : Outcome s m m' request answer effects)
    (hforks : request.Forks) :
    ∃ child, Forked s child effects m m' ∨ ForkFailed s child effects m m' := by
  cases h with
  | forked h => exact ⟨_, .inl h⟩
  | forkFailed h => exact ⟨_, .inr h⟩
  | passed hquiet =>
      cases request with
      | fork => cases hquiet
      | _ => cases hforks
  | _ => cases hforks

/-- A page that was there is removed only by a request that takes it away. -/
theorem Outcome.not_removed (h : Outcome s m m' request answer effects) (hsound : Sound none m)
    {s' : Key AddressSpace} {n : PageNumber} {key : Key Page}
    (hplace : m.view.pageOf s' n = some key) (hkept : s' = s → ¬request.Takes s m n) :
    .removed key ∉ effects := by
  intro hremoved
  obtain ⟨page, hpage, hn⟩ := hsound.coherent.placement.placed hplace
  cases h.labels hremoved with
  | removedNew hnew => exact Nat.not_lt.2 hnew (hsound.coherent.placement.created hpage)
  | @removed _ n' htakes hplace' =>
      obtain rfl := hsound.coherent.placement.alone hplace hplace'
      rw [hsound.coherent.placement.number_eq hplace' hpage |>.symm, hn] at htakes
      exact hkept rfl htakes

theorem Outcome.pageOf_kept (h : Outcome s m m' request answer effects) (hsound : Sound none m)
    {s' : Key AddressSpace} {n : PageNumber} {key : Key Page}
    (hplace : m.view.pageOf s' n = some key) :
    m'.view.pageOf s' n = some key ∨ s' = s ∧ request.Takes s m n := by
  by_cases htakes : s' = s ∧ request.Takes s m n
  · exact .inr htakes
  · obtain ⟨page, hpage, -⟩ := hsound.coherent.placement.placed hplace
    have hkept := h.not_removed hsound hplace fun hs htake => htakes ⟨hs, htake⟩
    exact .inl ((h.course.steps.page_kept hsound.coherent hpage hkept).2 s' n hplace)

end

end DemandPaging
