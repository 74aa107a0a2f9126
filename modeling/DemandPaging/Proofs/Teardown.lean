import DemandPaging.Proofs.HandleOwnership
import DemandPaging.Proofs.Panics

/-!
The end of an address space gives everything back.

What an address space has is counted by its pages and by the handles that it holds, and when it ends
all of that is gone and nothing else is. So what is free afterwards is what was free before and what
the address space had. The counts themselves are not looked at on the way: frames are free or hold a
page and slots are free or hold a page, before and after, so it is enough to see which pages are left.
-/

namespace DemandPaging

open Machine Space

/-! ### Counting pages -/

theorem Arena.countP_values {α : Type} (arena : Arena α) (p : α → Bool) : arena.values.countP p =
    ((Finset.range arena.nextKey.index).filter fun index =>
      (arena.get? ⟨index⟩).any p = true).card := by
  rw [values, List.countP_filterMap,
    countP_eq_count (q := fun index => (arena.get? ⟨index⟩).any p = true)
      arena.cells.toList _ fun index hindex => ?_,
    Nat.count_eq_card_filter_range, Array.length_toList, nextKey]
  have hlt : index < arena.cells.size := by simpa using hindex
  rw [Array.getElem_toList, get?, Array.getElem?_eq_getElem hlt, Option.join_some]
  dsimp only [id]
  generalize arena.cells[index] = cell
  cases cell <;> rfl

/-- Where some keys are gone and nothing else is different, as many fewer values are left. -/
theorem Arena.countP_values_add {α : Type} {arena arena' : Arena α} {gone : List (Key α)}
    (hnodup : gone.Nodup)
    (hget : ∀ key, arena'.get? key = if key ∈ gone then none else arena.get? key) (p : α → Bool) :
    arena.values.countP p =
      arena'.values.countP p + gone.countP fun key => (arena.get? key).any p := by
  let taken := (gone.filter fun key => (arena.get? key).any p).map Key.index
  have htaken : taken.Nodup := (hnodup.filter _).map fun _ _ => Key.ext
  have hmem : ∀ {index}, index ∈ taken ↔ ⟨index⟩ ∈ gone ∧ (arena.get? ⟨index⟩).any p = true := by
    intro index
    simp only [taken, List.mem_map, List.mem_filter]
    constructor
    · rintro ⟨key, hkey, rfl⟩
      exact hkey
    · exact fun hkey => ⟨_, hkey, rfl⟩
  have hlt : ∀ {arena : Arena α} {index}, (arena.get? ⟨index⟩).any p = true →
      index < arena.nextKey.index := by
    intro arena index hany
    by_contra hge
    rw [get?, Array.getElem?_eq_none (Nat.not_lt.1 hge)] at hany
    cases hany
  have hunion : (Finset.range arena.nextKey.index).filter
      (fun index => (arena.get? ⟨index⟩).any p = true) =
        ((Finset.range arena'.nextKey.index).filter fun index =>
          (arena'.get? ⟨index⟩).any p = true) ∪ taken.toFinset := by
    ext index
    simp only [Finset.mem_union, Finset.mem_filter, Finset.mem_range, List.mem_toFinset, hmem]
    rw [and_iff_right_of_imp hlt, and_iff_right_of_imp hlt, hget]
    by_cases hgone : (⟨index⟩ : Key α) ∈ gone <;> simp [hgone]
  have hdisjoint : Disjoint ((Finset.range arena'.nextKey.index).filter fun index =>
      (arena'.get? ⟨index⟩).any p = true) taken.toFinset := by
    rw [Finset.disjoint_left]
    intro index hleft hin
    have hany := (Finset.mem_filter.1 hleft).2
    rw [hget, if_pos (hmem.1 (List.mem_toFinset.1 hin)).1] at hany
    cases hany
  rw [countP_values, countP_values, hunion, Finset.card_union_of_disjoint hdisjoint,
    List.toFinset_card_of_nodup htaken, List.length_map, ← List.countP_eq_length_filter]

/-- Every listed frame holds a page, and every resident page is in a listed frame. -/
theorem Machine.Sound.length_listed {m : Machine} (h : Sound none m) :
    m.listed.length = m.pages.values.countP Page.isResident := by
  have hnodup : (m.pages.values.filterMap (·.frame)).Nodup := by
    rw [List.Nodup, List.pairwise_filterMap]
    refine Arena.pairwise_values fun hne hpage hpage' f hframe f' hframe' he => hne ?_
    subst he
    obtain ⟨o, howner, rfl⟩ := h.coherent.residency.listed hpage hframe
    obtain ⟨o', howner', rfl⟩ := h.coherent.residency.listed hpage' hframe'
    cases howner.symm.trans howner'
    rfl
  have hperm : (m.listed.map (·.frame)).Perm (m.pages.values.filterMap (·.frame)) := by
    rw [List.perm_ext_iff_of_nodup h.tidy.nodup hnodup]
    intro f
    rw [List.mem_map, List.mem_filterMap]
    constructor
    · rintro ⟨slot, hslot, rfl⟩
      obtain ⟨o, -, howner⟩ := h.exists_owner hslot
      obtain ⟨page, -, hpage, hframe, -⟩ := h.coherent.residency.linked howner
      exact ⟨page, (Arena.mem_values_iff _ _).2 ⟨_, hpage⟩, hframe⟩
    · rintro ⟨page, hpage, hframe⟩
      obtain ⟨key, hpage⟩ := (Arena.mem_values_iff _ _).1 hpage
      obtain ⟨o, howner, -⟩ := h.coherent.residency.listed hpage hframe
      exact ⟨_, h.owner_eq_some.1 howner, rfl⟩
  have hlength := hperm.length_eq
  rw [List.length_map, List.length_filterMap_eq_countP] at hlength
  exact hlength

def Machine.swappedPagesOf (m : Machine) (space : AddressSpace) : Nat :=
  space.pages.values.countP fun key =>
    (m.pages.get? key).any fun page => page.contents.slot?.isSome

/-! ### The end of an address space -/

def Request.Closes {α : Type} : Request α → Prop
  | .exit _ => True
  | .drop => True
  | _ => False

structure SpaceKept (space : AddressSpace) (m m' : Machine) : Prop where
  /-- The mappings are the same, and so are their accessed and dirty bits. -/
  directory : m'.directories.get? space.directory = m.directories.get? space.directory
  page : ∀ (n : PageNumber) key, space.pages[n]? = some key →
    ∃ page, m.pages.get? key = some page ∧ m'.pages.get? key = some page
  /-- A resident page is in the same frame, with the same bytes. -/
  frame : ∀ (n : PageNumber) key page f, space.pages[n]? = some key →
    m.pages.get? key = some page → page.frame = some f →
      (∃ o, o.page = key ∧ ⟨f, some o⟩ ∈ m.listed ∧ ⟨f, some o⟩ ∈ m'.listed) ∧
      ∃ bytes, m.pool.bytes? f = some bytes ∧ m'.pool.bytes? f = some bytes
  /-- A page that is swapped out is in the same slot, with the same bytes. -/
  slot : ∀ (n : PageNumber) key page slot, space.pages[n]? = some key →
    m.pages.get? key = some page → page.contents = .anonymous (some slot) →
      m.swap.isOccupied slot = true ∧ m'.swap.isOccupied slot = true ∧
        m'.swap.pageIn slot = m.swap.pageIn slot

structure SpaceEnded (s : Key AddressSpace) (space : AddressSpace) (m m' : Machine) : Prop where
  gone : m'.spaces.get? s = none
  freeFrames : m'.freeFrames = m.freeFrames + m.residentPages space
  freeSwapSlots : m'.freeSwapSlots = m.freeSwapSlots + m.swappedPagesOf space
  clients : m'.clients = m.clients
  /-- The handles of the address space are closed and no others. A handle that a client holds as well
  stays open. -/
  closed : ∀ handle, handle ∈ m'.heldHandles ↔
    handle ∈ m.heldHandles ∧ (handle ∈ m.handlesOf space → handle ∈ m.clients)
  openHandles : ∀ f, m.openHandles f = m'.openHandles f + ((m.handlesOf space).filter fun handle =>
    handle.file == f && !m.clients.contains handle).eraseDups.length
  others : ∀ s', s' ≠ s → m'.spaces.get? s' = m.spaces.get? s'
  kept : ∀ s' space', s' ≠ s → m.spaces.get? s' = some space' → SpaceKept space' m m'

variable {start m m' : Machine} {history : List Done} {s : Key AddressSpace} {space : AddressSpace}
  {effects : List Effect}

theorem Request.closed_of_closes {α : Type} {request : Request α} {answer : α}
    (h : Sound none m) (hcloses : request.Closes)
    (hrun : Returns (request.perform s) m answer m') :
    (∃ effects, Closed s effects m m') ∧ Others s m m' := by
  cases request with
  | exit status => exact ⟨(closed_exit h hrun).2, (keeps_exit s status).returns hrun⟩
  | drop => exact ⟨closed_drop h hrun, (keeps_drop s).returns hrun⟩
  | _ => exact hcloses.elim

namespace Space.Closed

theorem gone (h : Closed s effects m m') : m'.spaces.get? s = none :=
  Option.map_eq_none_iff.1 h.directoryOf

/-- The pages of the address space are gone, and all others are the same. -/
theorem get?_pages (h : Closed s effects m m') (hsound : Sound none m)
    (hspace : m.spaces.get? s = some space) (key : Key Page) :
    m'.pages.get? key = if key ∈ space.pages.values then none else m.pages.get? key := by
  split
  · next hin =>
    obtain ⟨n, hn⟩ := (mem_pages hspace).1 hin
    obtain ⟨page, hpage, -⟩ := hsound.coherent.placement.placed hn
    by_contra hleft
    obtain ⟨page', hpage'⟩ := Option.ne_none_iff_exists'.1 hleft
    -- what is left has a place, and it can be no new one
    obtain ⟨s', hplace⟩ := (h.course.sound hsound).coherent.placement.held hpage'
    by_cases hs : s' = s
    · rw [hs, h.pageOf] at hplace
      cases hplace
    · rw [(h.elsewhere s' hs).1] at hplace
      exact hs (hsound.coherent.placement.alone hplace hn)
  · next hnot => exact h.untouched.page fun n hn => hnot ((mem_pages hspace).2 ⟨n, hn⟩)

theorem countP_pages (h : Closed s effects m m') (hsound : Sound none m)
    (hspace : m.spaces.get? s = some space) (p : Page → Bool) : m.pages.values.countP p =
      m'.pages.values.countP p + space.pages.values.countP fun key => (m.pages.get? key).any p :=
  Arena.countP_values_add (hsound.nodup_pages hspace) (h.get?_pages hsound hspace) p

theorem held_iff (h : Closed s effects m m') (hsound : Sound none m) {s' : Key AddressSpace}
    {x : Holder} {handle : Handle} :
    m'.view.held s' x = some handle ↔ s' ≠ s ∧ m.view.held s' x = some handle := by
  by_cases hs : s' = s
  · subst hs
    cases x <;> simp [View.held, h.pageOf, h.regionOf]
  rw [and_iff_right hs]
  obtain ⟨hpageOf, hregionOf, -⟩ := h.elsewhere s' hs
  cases x with
  | region start => rw [View.held, View.held, hregionOf]
  | page n =>
      rw [View.held, View.held, hpageOf]
      cases hplace : m.view.pageOf s' n with
      | none => rfl
      | some key =>
          rw [Option.bind_some, Option.bind_some, h.untouched.page fun n' hn' =>
            hs (hsound.coherent.placement.alone hplace hn')]

theorem spaceKept (h : Closed s effects m m') (hsound : Sound none m) {kept : SwapSlot → Bool}
    (hbooks : SlotBooks kept m.view.isOccupied m.view.slotOf) {s' : Key AddressSpace}
    {space' : AddressSpace} (hs : s' ≠ s) (hspace' : m.spaces.get? s' = some space') :
    SpaceKept space' m m' := by
  have hsound' := h.course.sound hsound
  have hbooks' := h.course.steps.slotBooks hsound.coherent hbooks
  have hhome := view_directoryOf_eq hspace'
  have hsame : ∀ {n : PageNumber} {key : Key Page}, space'.pages[n]? = some key →
      m'.view.page key = m.view.page key := by
    intro n key hplace
    rw [← view_pageOf_eq hspace'] at hplace
    exact h.untouched.page fun n' hn' => hs (hsound.coherent.placement.alone hplace hn')
  refine ⟨h.untouched.directory fun he => ?_, fun n key hplace => ?_,
    fun n key page f hplace hpage hframe => ⟨?_, ?_⟩,
    fun n key page slot hplace hpage hcontents => ?_⟩
  · exact hs (hsound.coherent.placement.separate hhome he)
  · obtain ⟨page, hpage, -⟩ :=
      hsound.coherent.placement.placed ((view_pageOf_eq hspace' n).trans hplace)
    exact ⟨page, hpage, (hsame hplace).trans hpage⟩
  · have hpage' : m'.view.page key = some page := (hsame hplace).trans hpage
    rw [← view_pageOf_eq hspace'] at hplace
    obtain ⟨hpageOf, -, hdirectoryOf⟩ := h.elsewhere s' hs
    -- the page and the directory are the same, and so is the owner
    have howner := hsound.coherent.owner_of_page hpage hframe hplace hhome
    have howner' := hsound'.coherent.owner_of_page hpage' hframe (by rw [hpageOf, hplace])
      (by rw [hdirectoryOf, hhome])
    exact ⟨_, rfl, hsound.owner_eq_some.1 howner, hsound'.owner_eq_some.1 howner'⟩
  · obtain ⟨o, howner, -⟩ := hsound.coherent.residency.listed hpage hframe
    obtain ⟨frame, hfound, -⟩ :=
      Option.map_eq_some_iff.1 (hsound.coherent.residency.allocated howner)
    have hbytes : m.pool.bytes? f = some frame.bytes := by
      rw [Pool.bytes?, hfound, Option.map_some]
    exact ⟨_, hbytes, (congrFun h.untouched.bytes f).trans hbytes⟩
  · have hslot : m.view.slotOf key = some slot :=
      (View.slotOf_eq hpage).trans (slot?_eq_some_iff.2 hcontents)
    have hslot' : m'.view.slotOf key = some slot := by
      rw [View.slotOf, hsame hplace]
      exact hslot
    exact ⟨hbooks.occupied.2 (.inr ⟨key, hslot⟩), hbooks'.occupied.2 (.inr ⟨key, hslot'⟩),
      congrFun h.untouched.pageIn slot⟩

/-- The handles that are closed are those that nobody else holds. -/
theorem mem_heldHandles (h : Closed s effects m m') (hsound : Sound none m) (hbooks : HandleBooks m)
    (hclients : m'.clients = m.clients) (hspace : m.spaces.get? s = some space) (handle : Handle) :
    handle ∈ m'.heldHandles ↔
      handle ∈ m.heldHandles ∧ (handle ∈ m.handlesOf space → handle ∈ m.clients) := by
  rw [(h.course.sound hsound).mem_heldHandles, hsound.mem_heldHandles, hclients,
    mem_handlesOf hspace]
  simp only [h.held_iff hsound, exists_and_left]
  constructor
  · rintro (hclient | ⟨s', hs, x, hx⟩)
    · exact ⟨.inl hclient, fun _ => hclient⟩
    · exact ⟨.inr ⟨s', x, hx⟩, fun ⟨x', hx'⟩ => absurd (hbooks.apart hx hx') hs⟩
  · rintro ⟨hclient | ⟨s', x, hx⟩, hkept⟩
    · exact .inl hclient
    · by_cases hs : s' = s
      · exact .inl (hkept ⟨x, hs ▸ hx⟩)
      · exact .inr ⟨s', hs, x, hx⟩

theorem openHandles_eq (h : Closed s effects m m') (hsound : Sound none m) (hbooks : HandleBooks m)
    (hclients : m'.clients = m.clients) (hspace : m.spaces.get? s = some space) (f : Key File) :
    m.openHandles f = m'.openHandles f + ((m.handlesOf space).filter fun handle =>
      handle.file == f && !m.clients.contains handle).eraseDups.length := by
  have hleft := h.mem_heldHandles hsound hbooks hclients hspace
  refine length_eraseDups_add (fun handle => ?_) fun handle hopen hgone => ?_
  · have hheld : handle ∈ m.handlesOf space → handle ∈ m.heldHandles := fun hin => by
      obtain ⟨x, hx⟩ := (mem_handlesOf hspace).1 hin
      exact hsound.mem_heldHandles.2 (.inr ⟨s, x, hx⟩)
    simp only [List.mem_filter, hleft, Bool.and_eq_true, Bool.not_eq_true',
      List.contains_eq_mem, decide_eq_false_iff_not]
    tauto
  · simp only [List.mem_filter, hleft, Bool.and_eq_true, Bool.not_eq_true',
      List.contains_eq_mem, decide_eq_false_iff_not] at hopen hgone
    exact hgone.2.2 (hopen.1.2 hgone.1)

end Space.Closed

/-- Whatever the run, an address space that ends gives back what it had and no more. -/
theorem Run.spaceEnded {α : Type} {request : Request α} {answer : α} (h : Run start history m)
    (hspace : m.spaces.get? s = some space) (hcloses : request.Closes)
    (hrun : Returns (request.perform? s) m (some answer) m') : SpaceEnded s space m m' := by
  have h' : Run start _ m' := ⟨h.fresh, h.reaches.request hrun⟩
  obtain ⟨⟨effects, hclosed⟩, hothers⟩ :=
    Request.closed_of_closes h.sound hcloses (Request.returns_perform?.1 hrun).2
  refine ⟨hclosed.gone, ?_, ?_, hothers.clients,
    hclosed.mem_heldHandles h.sound h.handleBooks hothers.clients hspace,
    hclosed.openHandles_eq h.sound h.handleBooks hothers.clients hspace, hothers.elsewhere,
    fun s' space' hs hspace' => hclosed.spaceKept h.sound h.slotBooks hs hspace'⟩
  · have hpages := hclosed.countP_pages h.sound hspace Page.isResident
    have hframes := h.frames_eq
    have hframes' := h'.frames_eq
    rw [h.sound.length_listed] at hframes
    rw [h'.sound.length_listed] at hframes'
    rw [residentPages]
    omega
  · have hpages := hclosed.countP_pages h.sound hspace fun page => page.contents.slot?.isSome
    have hslots := h.freeSwapSlots_eq
    have hslots' := h'.freeSwapSlots_eq
    rw [swappedPages] at hslots hslots'
    rw [swappedPagesOf]
    omega

/-! ### Ending all of them -/

def Space.dropAll : List Id → Action Unit
  | [] => return ()
  | s :: rest => do
      let _ ← Request.drop.perform? s
      dropAll rest

structure Emptied (start m : Machine) : Prop where
  spaces : ∀ s, m.spaces.get? s = none
  freeFrames : m.freeFrames = start.freeFrames
  freeSwapSlots : m.freeSwapSlots = start.freeSwapSlots
  residentFrames : m.residentFrames = 0
  /-- Only the clients hold handles, as at the start. -/
  openHandles : ∀ f, m.openHandles f = { start with clients := m.clients }.openHandles f

/-- What an address space gives back when it ends, and that it can always be ended. -/
structure GivesBack (start m : Machine) : Prop where
  ended : ∀ s space, m.spaces.get? s = some space → ∀ (α : Type) (request : Request α) answer m',
    request.Closes → Returns (request.perform? s) m (some answer) m' → SpaceEnded s space m m'
  completes : start.pool.capacity ≤ maxFrames → ∀ s space, m.spaces.get? s = some space →
    (∃ m', Returns (Request.drop.perform? s) m (some ()) m') ∧
      ∀ status, ∃ m', Returns ((Request.exit status).perform? s) m (some status) m'
  /-- When all address spaces have ended, in whichever order, everything is back. -/
  emptied : ∀ order : List Id, (∀ s space, m.spaces.get? s = some space → s ∈ order) →
    ∀ u m', Returns (dropAll order) m u m' → Emptied start m'
  allCompletes : start.pool.capacity ≤ maxFrames → ∀ order : List Id,
    ∃ m', Returns (dropAll order) m () m'

namespace Run

/-- Without address spaces there are no pages and no handles but those of the clients. -/
theorem emptied (h : Run start history m) (hspaces : ∀ s, m.spaces.get? s = none) :
    Emptied start m := by
  have hpages : ∀ key, m.pages.get? key = none := by
    intro key
    by_contra hleft
    obtain ⟨page, hpage⟩ := Option.ne_none_iff_exists'.1 hleft
    obtain ⟨s, hplace⟩ := h.sound.coherent.placement.held hpage
    simp only [view, hspaces, Option.bind_none] at hplace
    cases hplace
  have hnone : ∀ p : Page → Bool, m.pages.values.countP p = 0 := fun p => by
    rw [List.countP_eq_zero]
    intro page hpage
    obtain ⟨key, hkey⟩ := (Arena.mem_values_iff _ _).1 hpage
    cases (hpages key).symm.trans hkey
  have hlisted : m.listed.length = 0 := h.sound.length_listed.trans (hnone _)
  have hframes := h.frames_eq
  have hslots := h.freeSwapSlots_eq
  have hswapped : m.swappedPages = 0 := hnone _
  refine ⟨hspaces, by omega, by omega, h.sound.residentFrames_eq.trans hlisted, fun f =>
    openHandles_congr (fun handle => ?_) f⟩
  have hstart : Sound none { start with clients := m.clients } :=
    h.fresh.sound.of_view rfl (h.fresh.sound.tidy.of_eq rfl rfl)
  have hunheld : ∀ m₀ : Machine, (∀ s, m₀.spaces.get? s = none) →
      ∀ s x, m₀.view.held s x ≠ some handle := by
    intro m₀ hm₀ s x hheld
    cases x <;> simp [View.held, view, hm₀] at hheld
  rw [h.sound.mem_heldHandles, hstart.mem_heldHandles]
  simp only [hunheld m hspaces, hunheld { start with clients := m.clients } h.fresh.spaces]

theorem exists_drop (h : Run start history m) (hcapacity : start.pool.capacity ≤ maxFrames)
    (hspace : m.spaces.get? s = some space) :
    ∃ m', Returns (Request.drop.perform? s) m (some ()) m' := by
  have hcompletes : Completes (drop s) m fun _ _ => True :=
    panicsOnly_drop (h.serves hcapacity hspace)
  obtain ⟨_, m', hrun, -⟩ := hcompletes.exists_returns
  exact ⟨m', Request.returns_perform?.2 ⟨⟨space, hspace⟩, hrun⟩⟩

theorem exists_exit (h : Run start history m) (hcapacity : start.pool.capacity ≤ maxFrames)
    (hspace : m.spaces.get? s = some space) (status : Int) :
    ∃ m', Returns ((Request.exit status).perform? s) m (some status) m' := by
  have hcompletes : Completes (exit s status) m fun _ _ => True :=
    panicsOnly_exit (h.serves hcapacity hspace) status
  obtain ⟨answer, m', hrun, -⟩ := hcompletes.exists_returns
  obtain ⟨rfl, -⟩ := closed_exit h.sound hrun
  exact ⟨m', Request.returns_perform?.2 ⟨⟨space, hspace⟩, hrun⟩⟩

/-- Ending one address space after another leaves the others, and the run goes on. -/
theorem dropAll {order : List Id} (h : Run start history m) {u : Unit}
    (hrun : Returns (dropAll order) m u m') : (∃ history', Run start history' m') ∧
      ∀ s, (s ∈ order ∨ m.spaces.get? s = none) → m'.spaces.get? s = none := by
  induction order generalizing m history with
  | nil =>
      obtain ⟨-, rfl⟩ := returns_pure.1 hrun
      exact ⟨⟨history, h⟩, fun s hs => hs.resolve_left List.not_mem_nil⟩
  | cons s rest ih =>
      obtain ⟨answer?, m₁, hdrop, hrest⟩ := returns_bind.1 hrun
      obtain ⟨history₁, hreached⟩ := h.reaches.perform? hdrop
      obtain ⟨hlater, hgone⟩ := ih ⟨h.fresh, hreached⟩ hrest
      refine ⟨hlater, fun s' hs' => hgone s' ?_⟩
      have hdropped : m₁.spaces.get? s = none ∧
          ∀ s', m.spaces.get? s' = none → m₁.spaces.get? s' = none := by
        cases answer? with
        | none =>
            obtain ⟨hspace, rfl⟩ := Request.returns_perform?_none.1 hdrop
            exact ⟨hspace, fun _ => id⟩
        | some _ =>
            have hdrop := (Request.returns_perform?.1 hdrop).2
            obtain ⟨effects, hclosed⟩ := closed_drop h.sound hdrop
            refine ⟨hclosed.gone, fun s' hs' => ?_⟩
            by_cases hs : s' = s
            · rw [hs, hclosed.gone]
            · rw [((keeps_drop s).returns hdrop).elsewhere s' hs, hs']
      rcases hs' with hin | hnone
      · rcases List.mem_cons.1 hin with rfl | hin
        · exact .inr hdropped.1
        · exact .inl hin
      · exact .inr (hdropped.2 s' hnone)

theorem exists_dropAll (h : Run start history m) (hcapacity : start.pool.capacity ≤ maxFrames)
    (order : List Id) : ∃ m', Returns (Space.dropAll order) m () m' := by
  induction order generalizing m history with
  | nil => exact ⟨m, returns_pure.2 ⟨rfl, rfl⟩⟩
  | cons s rest ih =>
      obtain ⟨answer?, m₁, hdrop⟩ :
          ∃ answer? m₁, Returns (Request.drop.perform? s) m answer? m₁ := by
        cases hspace : m.spaces.get? s with
        | none => exact ⟨none, m, Request.returns_perform?_none.2 ⟨hspace, rfl⟩⟩
        | some space => exact ⟨_, h.exists_drop hcapacity hspace⟩
      obtain ⟨history₁, hreached⟩ := h.reaches.perform? hdrop
      obtain ⟨m', hrest⟩ := ih ⟨h.fresh, hreached⟩
      exact ⟨m', returns_bind.2 ⟨answer?, m₁, hdrop, hrest⟩⟩

/-- After any run, what an address space had is free again when it ends, and nothing else is
different; and when all have ended everything is as it was at the start. -/
theorem givesBack (h : Run start history m) : GivesBack start m where
  ended _ _ hspace _ _ _ _ hcloses hrun := h.spaceEnded hspace hcloses hrun
  completes hcapacity _ _ hspace :=
    ⟨h.exists_drop hcapacity hspace, h.exists_exit hcapacity hspace⟩
  emptied order hall u m' hrun := by
    obtain ⟨⟨history', h'⟩, hgone⟩ := h.dropAll hrun
    refine h'.emptied fun s => hgone s ?_
    cases hspace : m.spaces.get? s with
    | none => exact .inr rfl
    | some space => exact .inl (hall s space hspace)
  allCompletes := h.exists_dropAll

end Run

/-- A process with a page in the only slot and a file mapped. -/
theorem givesBack_of_pageOut : ∃ history m,
    Run (bare 1 1 (Arena.empty.add (.ofData #[1, 2] none))) history m ∧ m.swappedPages = 1 ∧
      m.openHandles ⟨0⟩ = 1 ∧ GivesBack (bare 1 1 (Arena.empty.add (.ofData #[1, 2] none))) m := by
  have htest : returnsWith (do
        let s ← Space.create "init"
        let _ ← Request.setUpStack.perform? s
        let _ ← (Request.mapFile ⟨0x10000000, by decide⟩ 2 true ⟨⟨0⟩, 0⟩ 0).perform? s
        (Request.pageOut ⟨userStack - 1, by decide⟩).perform? s)
      (bare 1 1 (Arena.empty.add (.ofData #[1, 2] none)))
      (fun _ m => m.swappedPages == 1 && m.openHandles ⟨0⟩ == 1) = true := by
    decide +kernel
  obtain ⟨answer, m, hrun, htest⟩ := exists_returns htest
  simp only [returns_bind] at hrun
  obtain ⟨s, m₁, hcreate, _, m₂, hstack, _, m₃, hmap, hout⟩ := hrun
  rw [Bool.and_eq_true, beq_iff_eq, beq_iff_eq] at htest
  obtain ⟨_, hstacked⟩ := (Reaches.refl.create hcreate).perform? hstack
  obtain ⟨_, hmapped⟩ := hstacked.perform? hmap
  obtain ⟨history, hreached⟩ := hmapped.perform? hout
  have hrun : Run (bare 1 1 (Arena.empty.add (.ofData #[1, 2] none))) history m :=
    ⟨fresh_bare _ _ _, hreached⟩
  exact ⟨history, m, hrun, htest.1, htest.2, hrun.givesBack⟩

end DemandPaging
