import DemandPaging.Proofs.PageTable.Count
import DemandPaging.Proofs.Run

/-!
Who is in which slot.

A slot is filled when a page is evicted and freed when the page comes back or is given up. In between
the page names the slot, and no other page does: a fork copies the bytes of a page that is swapped
out, not its slot. Slots that were occupied before the first address space was created stay as they
are, since no page ever names them.

The life of a page has two parts. Until it is brought in for the first time it is pending; from then
on it is anonymous or a window of a file, and it stays so.
-/

namespace DemandPaging

open Machine

/-! ### The books on slots -/

def View.slotOf (v : View) (key : Key Page) : Option SwapSlot :=
  (v.page key).bind (·.contents.slot?)

/-- A slot is occupied from before, or because one page names it. -/
structure SlotBooks (kept : SwapSlot → Bool) (isOccupied : SwapSlot → Bool)
    (named : Key Page → Option SwapSlot) : Prop where
  occupied : ∀ {slot}, isOccupied slot = true ↔
    kept slot = true ∨ ∃ key, named key = some slot
  apart : ∀ {key key' slot}, named key = some slot → named key' = some slot → key = key'
  unkept : ∀ {key slot}, named key = some slot → kept slot = false

namespace SlotBooks

variable {kept isOccupied isOccupied' : SwapSlot → Bool} {named : Key Page → Option SwapSlot}
  {key : Key Page}

theorem replace (h : SlotBooks kept isOccupied named) {slot? : Option SwapSlot}
    (hfree : ∀ slot, slot? = some slot → isOccupied slot = false)
    (hoccupied : ∀ slot, isOccupied' slot =
      if slot? = some slot then true else if named key = some slot then false
      else isOccupied slot) :
    SlotBooks kept isOccupied' (Function.update named key slot?) := by
  have hother : ∀ {key' slot}, key' ≠ key → named key' = some slot →
      slot? ≠ some slot ∧ named key ≠ some slot := by
    intro key' slot hne hnamed
    refine ⟨fun he => ?_, fun he => hne (h.apart hnamed he)⟩
    have hfull := h.occupied.2 (.inr ⟨key', hnamed⟩)
    rw [hfree slot he] at hfull
    cases hfull
  refine ⟨fun {slot} => ?_, ?_, ?_⟩
  · rw [hoccupied]
    split
    · next hnew =>
      exact ⟨fun _ => .inr ⟨key, by rw [Function.update_self, hnew]⟩, fun _ => rfl⟩
    split
    · next hnew hold =>
      simp only [Bool.false_eq_true, false_iff, not_or, not_exists]
      refine ⟨by rw [h.unkept hold]; decide, fun key' hkey' => ?_⟩
      by_cases hkey : key' = key
      · rw [hkey, Function.update_self] at hkey'
        exact hnew hkey'
      · rw [Function.update_of_ne hkey] at hkey'
        exact (hother hkey hkey').2 hold
    · next hnew hold =>
      rw [h.occupied]
      refine or_congr Iff.rfl (exists_congr fun key' => ?_)
      by_cases hkey : key' = key
      · rw [hkey, Function.update_self]
        exact iff_of_false hold hnew
      · rw [Function.update_of_ne hkey]
  · intro key₁ key₂ slot h₁ h₂
    by_cases hkey₁ : key₁ = key
    · by_cases hkey₂ : key₂ = key
      · rw [hkey₁, hkey₂]
      · rw [hkey₁, Function.update_self] at h₁
        rw [Function.update_of_ne hkey₂] at h₂
        exact absurd h₁ (hother hkey₂ h₂).1
    · rw [Function.update_of_ne hkey₁] at h₁
      by_cases hkey₂ : key₂ = key
      · rw [hkey₂, Function.update_self] at h₂
        exact absurd h₂ (hother hkey₁ h₁).1
      · rw [Function.update_of_ne hkey₂] at h₂
        exact h.apart h₁ h₂
  · intro key' slot hslot
    by_cases hkey : key' = key
    · rw [hkey, Function.update_self] at hslot
      have hempty := hfree slot hslot
      by_contra hfull
      rw [Bool.not_eq_false] at hfull
      rw [h.occupied.2 (.inl hfull)] at hempty
      cases hempty
    · rw [Function.update_of_ne hkey] at hslot
      exact h.unkept hslot

theorem of_page {v v' : View} (h : SlotBooks kept v.isOccupied v.slotOf) {page? : Option Page}
    (hpage : v'.page = Function.update v.page key page?)
    (hfree : ∀ slot, page?.bind (·.contents.slot?) = some slot → v.isOccupied slot = false)
    (hoccupied : ∀ slot, v'.isOccupied slot =
      if page?.bind (·.contents.slot?) = some slot then true
      else if v.slotOf key = some slot then false else v.isOccupied slot) :
    SlotBooks kept v'.isOccupied v'.slotOf := by
  have hnamed : v'.slotOf = Function.update v.slotOf key (page?.bind (·.contents.slot?)) := by
    funext key'
    rw [View.slotOf, hpage]
    by_cases hkey : key' = key
    · rw [hkey, Function.update_self, Function.update_self]
    · rw [Function.update_of_ne hkey, Function.update_of_ne hkey]
      rfl
  rw [hnamed]
  exact h.replace hfree hoccupied

theorem of_unnamed {v v' : View} (h : SlotBooks kept v.isOccupied v.slotOf) {page? : Option Page}
    (hpage : v'.page = Function.update v.page key page?)
    (hold : v.slotOf key = none) (hnew : page?.bind (·.contents.slot?) = none)
    (hoccupied : v'.isOccupied = v.isOccupied) : SlotBooks kept v'.isOccupied v'.slotOf :=
  h.of_page hpage (fun slot hslot => by rw [hnew] at hslot; cases hslot) fun slot => by
    rw [hnew, hold, hoccupied]
    simp

theorem of_vacated {v v' : View} (h : SlotBooks kept v.isOccupied v.slotOf) {page? : Option Page}
    {page : Page} (hold : v.page key = some page)
    (hpage : v'.page = Function.update v.page key page?)
    (hnew : page?.bind (·.contents.slot?) = none)
    (hoccupied : v'.isOccupied = (v.vacate page.contents.slot?).isOccupied) :
    SlotBooks kept v'.isOccupied v'.slotOf :=
  h.of_page hpage (fun slot hslot => by rw [hnew] at hslot; cases hslot) fun slot => by
    rw [hnew, hoccupied, View.slotOf, hold]
    simp [View.vacate]

end SlotBooks

theorem View.slotOf_eq {v : View} {key : Key Page} {page : Page} (h : v.page key = some page) :
    v.slotOf key = page.contents.slot? := by
  rw [slotOf, h, Option.bind_some]

theorem SlotBooks.occupied_of_page {kept : SwapSlot → Bool} {v : View} {key : Key Page} {page : Page}
    (h : SlotBooks kept v.isOccupied v.slotOf)
    (hpage : v.page key = some page) {slot : SwapSlot} (hslot : page.contents.slot? = some slot) :
    v.isOccupied slot = true :=
  h.occupied.2 (.inr ⟨key, (View.slotOf_eq hpage).trans hslot⟩)

theorem Coherent.slotOf_created {x : Option FrameNumber} {v : View} (h : Coherent x v) :
    v.slotOf ⟨v.created⟩ = none := by
  rw [View.slotOf, h.page_created, Option.bind_none]

theorem Contents.slot?_settled (contents : Contents) : contents.settled.slot? = none := by
  cases contents with
  | pending source => cases source <;> rfl
  | _ => rfl

theorem Contents.Copied.slot?_eq_none {contents contents' : Contents}
    (h : Contents.Copied contents contents') : contents'.slot? = none := by
  cases h <;> rfl

theorem Step.slotBooks {effects : List Effect} {x x' : Option FrameNumber} {v v' : View}
    {kept : SwapSlot → Bool} (hcoherent : Coherent x v) (hstep : Step effects x v x' v')
    (h : SlotBooks kept v.isOccupied v.slotOf) : SlotBooks kept v'.isOccupied v'.slotOf := by
  cases hstep with
  | scribble | take | giveBack | store | openSpace | closeSpace | register => exact h
  | @evict _ _ f o page bytes contents howner hpage hbytes hstowed =>
      have hunnamed : v.slotOf o.page = none := by
        rw [View.slotOf_eq hpage]
        generalize page.contents = before at hstowed
        cases hstowed <;> rfl
      generalize page.contents = before at hstowed
      cases hstowed with
      | @slot _ slot hfree =>
          refine h.of_page rfl (fun other hother => ?_) fun other => ?_
          · cases hother
            exact hfree
          · rw [hunnamed]
            exact (Function.update_apply _ _ _ _).trans (by simp [Contents.slot?, eq_comm])
      | file hback =>
          obtain ⟨file, rfl⟩ := hback.exists_eq
          exact h.of_unnamed rfl hunnamed rfl rfl
  | @bringIn _ f key page s d pa hpage hframe hplace hdirectory hstart hbytes =>
      exact h.of_vacated hpage rfl page.contents.slot?_settled rfl
  | add hdirectory hplace hcontents hframe hholders =>
      exact h.of_unnamed rfl hcoherent.slotOf_created (by simp [hcontents, Contents.slot?]) rfl
  | copyAside hpage hframe hcopied hkind hdirectory hplace =>
      exact h.of_unnamed rfl hcoherent.slotOf_created hcopied.slot?_eq_none rfl
  | copyIn hpage hcopied hkind hdirectory hplace hstart hbytes =>
      exact h.of_unnamed rfl hcoherent.slotOf_created hcopied.slot?_eq_none rfl
  | removeAbsent hplace hpage hframe => exact h.of_vacated hpage rfl rfl rfl
  | @removePresent _ _ s f o page bytes hplace howner hpage hbytes hgiven =>
      have hunnamed : v.slotOf o.page = none := by
        rw [View.slotOf_eq hpage]
        generalize page.contents = before at hgiven
        cases hgiven <;> rfl
      obtain ⟨file, rfl⟩ := hgiven.exists_eq
      exact h.of_unnamed rfl hunnamed rfl rfl

theorem Steps.slotBooks {effects : List Effect} {x x' : Option FrameNumber} {v v' : View}
    {kept : SwapSlot → Bool} (hsteps : Steps effects x v x' v') (hcoherent : Coherent x v)
    (h : SlotBooks kept v.isOccupied v.slotOf) : SlotBooks kept v'.isOccupied v'.slotOf := by
  induction hsteps with
  | nil => exact h
  | cons head tail ih => exact ih (head.coherent hcoherent) (head.slotBooks hcoherent h)

/-! ### The kind of a page -/

theorem Contents.kind_settled_settled (contents : Contents) :
    contents.settled.settled.kind = contents.settled.kind := by
  cases contents with
  | pending source => cases source <;> rfl
  | _ => rfl

theorem Contents.kind_settled_of_ne {contents : Contents} (h : contents.kind ≠ .uninit) :
    contents.settled.kind = contents.kind := by
  cases contents with
  | pending source => exact absurd rfl h
  | _ => rfl

theorem Stowed.kind_eq {bytes : PageBytes} {dirty : Bool} {contents contents' : Contents}
    {v v' : View} (h : Stowed bytes dirty contents v contents' v') :
    contents'.kind = contents.kind ∧ contents'.settled.kind = contents.settled.kind := by
  cases h <;> exact ⟨rfl, rfl⟩

/-- What becomes of the contents of a page: they settle when the page is brought in, and otherwise
keep their kind. -/
structure KindKept (brought : Prop) (contents contents' : Contents) : Prop where
  settled : contents'.settled.kind = contents.settled.kind
  of_brought : brought → contents'.kind = contents.settled.kind
  of_unbrought : ¬brought → contents'.kind = contents.kind

theorem Step.kindKept {effects : List Effect} {x x' : Option FrameNumber} {v v' : View}
    (h : Step effects x v x' v') (hcoherent : Coherent x v) {key : Key Page} {page page' : Page}
    (hpage : v.page key = some page) (hpage' : v'.page key = some page') :
    KindKept (.broughtIn key ∈ effects) page.contents page'.contents := by
  have hsame : some page' = some page → .broughtIn key ∉ effects →
      KindKept (.broughtIn key ∈ effects) page.contents page'.contents := by
    rintro ⟨⟩ hnot
    exact ⟨rfl, fun hyes => absurd hyes hnot, fun _ => rfl⟩
  have hold : key ≠ ⟨v.created⟩ := by
    rintro rfl
    rw [hcoherent.page_created] at hpage
    cases hpage
  cases h with
  | scribble | take | giveBack | store | openSpace | closeSpace | register =>
      exact hsame (hpage'.symm.trans hpage) (by simp)
  | @evict _ _ f o evicted bytes contents howner hevicted hbytes hstowed =>
      obtain ⟨hkind, hsettled⟩ := hstowed.kind_eq
      obtain ⟨isOccupied, pageIn, file, rfl⟩ := hstowed.exists_eq
      by_cases hkey : key = o.page
      · subst hkey
        cases hpage.symm.trans hevicted
        cases hpage'.symm.trans (Function.update_self _ _ _)
        exact ⟨hsettled, fun hyes => (by cases hyes), fun _ => hkind⟩
      · exact hsame (hpage'.symm.trans ((Function.update_of_ne hkey _ _).trans hpage)) (by simp)
  | @bringIn _ f brought found s d pa hbrought hframe hplace hdirectory hstart hbytes =>
      by_cases hkey : key = brought
      · subst hkey
        cases hpage.symm.trans hbrought
        cases hpage'.symm.trans (Function.update_self _ _ _)
        exact ⟨page.contents.kind_settled_settled, fun _ => rfl,
          fun hnot => absurd (List.mem_singleton_self _) hnot⟩
      · exact hsame (hpage'.symm.trans ((Function.update_of_ne hkey _ _).trans hpage))
          (by simpa using hkey)
  | add | copyAside | copyIn =>
      exact hsame (hpage'.symm.trans ((Function.update_of_ne hold _ _).trans hpage)) (by simp)
  | @removeAbsent _ s gone found hplace hfound hframe =>
      have hkey : key ≠ gone := by
        rintro rfl
        cases hpage'.symm.trans (Function.update_self _ _ _)
      exact hsame (hpage'.symm.trans ((Function.update_of_ne hkey _ _).trans hpage)) (by simp)
  | @removePresent _ _ s f o found bytes hplace howner hfound hbytes hgiven =>
      obtain ⟨file, rfl⟩ := hgiven.exists_eq
      have hkey : key ≠ o.page := by
        rintro rfl
        cases hpage'.symm.trans (Function.update_self _ _ _)
      exact hsame (hpage'.symm.trans ((Function.update_of_ne hkey _ _).trans hpage)) (by simp)

theorem Steps.kindKept {effects : List Effect} {x x' : Option FrameNumber} {v v' : View}
    (h : Steps effects x v x' v') (hcoherent : Coherent x v) {key : Key Page} {page page' : Page}
    (hpage : v.page key = some page) (hpage' : v'.page key = some page') :
    KindKept (.broughtIn key ∈ effects) page.contents page'.contents := by
  induction h generalizing page with
  | nil =>
      cases hpage.symm.trans hpage'
      exact ⟨rfl, fun hyes => (by cases hyes), fun _ => rfl⟩
  | @cons first rest _ _ _ _ _ _ head tail ih =>
      have hcoherent₁ := head.coherent hcoherent
      -- the page is old, so it was there all the time
      have hlt := Nat.lt_of_lt_of_le (hcoherent.placement.created hpage) head.created_le
      obtain ⟨page₁, hpage₁⟩ := Option.ne_none_iff_exists'.1
        ((tail.page_old hlt).1 (by rw [hpage']; exact Option.some_ne_none _))
      have hfirst := head.kindKept hcoherent hpage hpage₁
      have hrest := ih hcoherent₁ hpage₁ hpage'
      refine ⟨hrest.settled.trans hfirst.settled, fun hyes => ?_, fun hnot => ?_⟩
      · by_cases hlater : .broughtIn key ∈ rest
        · exact (hrest.of_brought hlater).trans hfirst.settled
        · exact (hrest.of_unbrought hlater).trans
            (hfirst.of_brought ((List.mem_append.1 hyes).resolve_right hlater))
      · rw [List.mem_append, not_or] at hnot
        exact (hrest.of_unbrought hnot.2).trans (hfirst.of_unbrought hnot.1)

/-! ### Counting slots -/

theorem Arena.pairwise_values {α : Type} {arena : Arena α} {R : α → α → Prop}
    (h : ∀ {key key' a b}, key ≠ key' → arena.get? key = some a → arena.get? key' = some b → R a b) :
    arena.values.Pairwise R := by
  rw [values, List.pairwise_filterMap, List.pairwise_iff_getElem]
  intro i j hi hj hij a ha b hb
  have hget : ∀ {k c} (hk : k < arena.cells.toList.length), arena.cells.toList[k] = some c →
      arena.get? ⟨k⟩ = some c := by
    intro k c hk hc
    rw [Array.getElem_toList] at hc
    rw [get?, Array.getElem?_eq_getElem (by simpa using hk), hc, Option.join_some]
  exact h (fun he => Nat.ne_of_lt hij (congrArg Key.index he)) (hget hi ha) (hget hj hb)

def Machine.swappedPages (m : Machine) : Nat :=
  m.pages.values.countP fun page => page.contents.slot?.isSome

theorem Step.slots_eq {effects : List Effect} {x x' : Option FrameNumber} {v v' : View}
    (h : Step effects x v x' v') : v'.slots = v.slots := by
  cases h with
  | evict _ _ _ hstowed =>
      obtain ⟨isOccupied, pageIn, file, rfl⟩ := hstowed.exists_eq
      rfl
  | removePresent _ _ _ _ hgiven =>
      obtain ⟨file, rfl⟩ := hgiven.exists_eq
      rfl
  | _ => rfl

/-- The slots in use are those that are kept for other purposes and those that a page names. -/
theorem count_occupied_eq {m : Machine} {kept : SwapSlot → Bool}
    (h : SlotBooks kept m.view.isOccupied m.view.slotOf) :
    m.swap.occupied.count = m.swappedPages +
      ((Finset.range m.swap.slotCount).filter fun index => kept ⟨index⟩ = true).card := by
  let named := (m.pages.values.filterMap (·.contents.slot?)).map SwapSlot.index
  have hnamed : ∀ {index}, index ∈ named ↔ ∃ key, m.view.slotOf key = some ⟨index⟩ := by
    intro index
    simp only [named, List.mem_map, List.mem_filterMap, Arena.mem_values_iff]
    constructor
    · rintro ⟨slot, ⟨page, ⟨key, hpage⟩, hslot⟩, rfl⟩
      exact ⟨key, (View.slotOf_eq hpage).trans hslot⟩
    · rintro ⟨key, hslot⟩
      obtain ⟨page, hpage, hslot⟩ := Option.bind_eq_some_iff.1 hslot
      exact ⟨_, ⟨page, ⟨key, hpage⟩, hslot⟩, rfl⟩
  have hnodup : named.Nodup := by
    rw [List.Nodup, List.pairwise_map, List.pairwise_filterMap]
    refine Arena.pairwise_values fun hne hpage hpage' slot hslot slot' hslot' he => hne ?_
    have hsame : slot = slot' := by
      cases slot
      cases slot'
      exact congrArg SwapSlot.mk he
    subst hsame
    exact h.apart ((View.slotOf_eq hpage).trans hslot) ((View.slotOf_eq hpage').trans hslot')
  have hoccupied : ∀ {index}, m.swap.isOccupied ⟨index⟩ = true ↔
      kept ⟨index⟩ = true ∨ index ∈ named := h.occupied.trans (by rw [hnamed])
  have hslots : (Finset.range m.swap.slotCount).filter
      (fun index => m.swap.isOccupied ⟨index⟩ = true) =
        named.toFinset ∪ (Finset.range m.swap.slotCount).filter fun index => kept ⟨index⟩ = true := by
    ext index
    rw [Finset.mem_union, Finset.mem_filter, Finset.mem_filter, Finset.mem_range, List.mem_toFinset,
      hoccupied]
    have hlt : index ∈ named → index < m.swap.slotCount := fun hin =>
      Swap.index_lt_of_isOccupied (hoccupied.2 (.inr hin))
    tauto
  have hdisjoint : Disjoint named.toFinset
      ((Finset.range m.swap.slotCount).filter fun index => kept ⟨index⟩ = true) := by
    rw [Finset.disjoint_left]
    intro index hin hkept
    obtain ⟨key, hslot⟩ := hnamed.1 (List.mem_toFinset.1 hin)
    have hfree := h.unkept hslot
    rw [(Finset.mem_filter.1 hkept).2] at hfree
    cases hfree
  rw [Swap.count_occupied, hslots, Finset.card_union_of_disjoint hdisjoint,
    List.toFinset_card_of_nodup hnodup, List.length_map, List.length_filterMap_eq_countP,
    Machine.swappedPages]

/-- Where no slot is kept for other purposes, slots are free or hold a page. -/
theorem freeSwapSlots_add_swappedPages {m : Machine}
    (h : SlotBooks (fun _ => false) m.view.isOccupied m.view.slotOf) :
    m.freeSwapSlots + m.swappedPages = m.swap.slotCount := by
  have hcount := count_occupied_eq h
  simp only [Bool.false_eq_true, Finset.filter_false, Finset.card_empty, Nat.add_zero] at hcount
  have hle : m.swap.occupied.count ≤ m.swap.slotCount := Bitmap.count_le_size _
  rw [freeSwapSlots, Swap.freeSlots, hcount]
  rw [hcount] at hle
  exact Nat.sub_add_cancel hle

/-! ### Ownership -/

/-- The books on slots are in order, and every page is where its kind says. -/
structure SlotsOwned (m : Machine) : Prop where
  /-- An occupied slot is named by a page of an address space. -/
  occupied : ∀ slot, m.swap.isOccupied slot = true ↔ ∃ s space, m.spaces.get? s = some space ∧
    ∃ (n : PageNumber) (key : Key Page) (page : Page), space.pages[n]? = some key ∧
      m.pages.get? key = some page ∧ page.contents = .anonymous (some slot)
  /-- No two pages name the same slot. -/
  apart : ∀ key key' page page' slot, m.pages.get? key = some page →
    m.pages.get? key' = some page' → page.contents = .anonymous (some slot) →
    page'.contents = .anonymous (some slot) → key = key'
  /-- No page is in two places. -/
  placed : ∀ s s' space space', m.spaces.get? s = some space → m.spaces.get? s' = some space' →
    ∀ (n n' : PageNumber) (key : Key Page), space.pages[n]? = some key →
      space'.pages[n']? = some key → s = s' ∧ n = n'
  counted : m.freeSwapSlots + m.swappedPages = m.swap.slotCount
  uninit : ∀ key page, m.pages.get? key = some page → page.contents.kind = .uninit →
    page.isResident = false ∧ page.contents.slot? = none
  anonymous : ∀ key page, m.pages.get? key = some page → page.contents.kind = .anonymous →
    (page.isResident = true ↔ page.contents.slot? = none)
  fileBacked : ∀ key page, m.pages.get? key = some page → page.contents.kind = .fileBacked →
    page.contents.slot? = none

/-- What a history does to the kinds of the pages that are there before and after it: a page that
is not pending keeps its kind, and one that is settles exactly if it is brought in. -/
def KindsKept (m m' : Machine) : Prop :=
  ∃ effects, Course effects none m none m' ∧ ∀ key page page', m.pages.get? key = some page →
    m'.pages.get? key = some page' →
      (page.contents.kind ≠ .uninit → page'.contents.kind = page.contents.kind) ∧
      (page.contents.kind = .uninit →
        (page'.contents.kind ≠ .uninit ↔ .broughtIn key ∈ effects) ∧
        (.broughtIn key ∈ effects → page'.contents.kind = page.contents.settled.kind))

/-- Bringing in a page settles it if it succeeds and leaves its kind if it fails. -/
def ClaimsSettle (m : Machine) : Prop :=
  ∀ s space, m.spaces.get? s = some space → ∀ (n : PageNumber) (key : Key Page) (page : Page),
    space.pages[n]? = some key → m.pages.get? key = some page →
      ∀ answer m', Answers (claim key space.directory) m answer m' →
        ∃ page', m'.pages.get? key = some page' ∧
          (answer = .ok () → page'.contents.kind = page.contents.settled.kind) ∧
          ∀ cause, answer = .error cause → page'.contents.kind = page.contents.kind

theorem Contents.kind_settled_ne (contents : Contents) : contents.settled.kind ≠ .uninit := by
  cases contents with
  | pending source => cases source <;> simp [settled, Pending.settled, kind]
  | _ => simp [settled, kind]

theorem kindsKept_of_course {m m' : Machine} {effects : List Effect} (hsound : Sound none m)
    (hcourse : Course effects none m none m') : KindsKept m m' := by
  refine ⟨effects, hcourse, fun key page page' hpage hpage' => ?_⟩
  have hkept := hcourse.steps.kindKept hsound.coherent hpage hpage'
  by_cases hbrought : .broughtIn key ∈ effects
  · have hkind := hkept.of_brought hbrought
    refine ⟨fun hne => hkind.trans (Contents.kind_settled_of_ne hne), fun _ =>
      ⟨iff_of_true ?_ hbrought, fun _ => hkind⟩⟩
    rw [hkind]
    exact page.contents.kind_settled_ne
  · have hkind := hkept.of_unbrought hbrought
    refine ⟨fun _ => hkind, fun huninit => ⟨iff_of_false ?_ hbrought, fun hyes =>
      absurd hyes hbrought⟩⟩
    rw [hkind, huninit]
    exact fun hne => hne rfl

theorem Machine.Sound.claimsSettle {m : Machine} (h : Sound none m) : ClaimsSettle m := by
  intro s space hspace n key page hplace hpage answer m' hclaim
  obtain ⟨-, effects, hcourse, hok, herror⟩ := course_claim h (view_directoryOf_eq hspace)
    ((view_pageOf_eq hspace n).trans hplace) hclaim
  have hkeeps : .removed key ∉ effects := by
    cases answer with
    | ok u => rcases hok rfl with ⟨rfl, -⟩ | rfl <;> simp
    | error cause => simp [herror cause rfl]
  obtain ⟨⟨page', hpage', -⟩, -⟩ := hcourse.steps.page_kept h.coherent hpage hkeeps
  have hkept := hcourse.steps.kindKept h.coherent hpage hpage'
  refine ⟨page', hpage', fun he => ?_, fun cause he => hkept.of_unbrought ?_⟩
  · rcases hok he with ⟨rfl, rfl, found, hfound, hresident⟩ | rfl
    · cases hpage.symm.trans hpage'
      cases hpage.symm.trans hfound
      -- a resident page was brought in before
      have hfits := h.coherent.fits hpage
      refine (Contents.kind_settled_of_ne fun huninit => ?_).symm
      cases hcontents : page.contents with
      | pending source =>
          rw [hcontents, hresident] at hfits
          cases hfits
      | _ => simp [hcontents, Contents.kind] at huninit
    · exact hkept.of_brought (List.mem_singleton_self _)
  · rw [herror cause he]
    exact List.not_mem_nil

variable {start m : Machine} {history : List Done}

theorem Run.slotBooks (h : Run start history m) :
    SlotBooks start.swap.isOccupied m.view.isOccupied m.view.slotOf := by
  have hunnamed : start.view.slotOf = fun _ => none := by
    funext key
    rw [View.slotOf, show start.view.page key = none from h.fresh.pages key, Option.bind_none]
  refine h.preserves (P := fun _ v => SlotBooks start.swap.isOccupied v.isOccupied v.slotOf) ?_
    Step.slotBooks
  rw [hunnamed]
  exact ⟨fun {slot} => by simp [view], fun hnamed => (by cases hnamed), fun hnamed => by
    cases hnamed⟩

theorem Run.slotCount_eq (h : Run start history m) : m.swap.slotCount = start.swap.slotCount :=
  h.preserves (P := fun _ v => v.slots = start.swap.slotCount) rfl
    fun _ hstep hslots => hstep.slots_eq.trans hslots

theorem Run.freeSwapSlots_eq (h : Run start history m) :
    m.freeSwapSlots + m.swappedPages = start.freeSwapSlots := by
  have hcount := count_occupied_eq h.slotBooks
  rw [h.slotCount_eq, ← Swap.count_occupied] at hcount
  have hle : m.swap.occupied.count ≤ m.swap.slotCount := Bitmap.count_le_size _
  have hslots := h.slotCount_eq
  simp only [freeSwapSlots, Swap.freeSlots]
  omega

theorem slot?_eq_some_iff {contents : Contents} {slot : SwapSlot} :
    contents.slot? = some slot ↔ contents = .anonymous (some slot) := by
  cases contents <;> simp [Contents.slot?]

/-- After any run the books on slots are in order, provided that they were empty at the start, and
from then on no page changes its kind but by being brought in. -/
theorem Run.slotsOwned (h : Run start history m)
    (hempty : ∀ slot, start.swap.isOccupied slot = false) :
    SlotsOwned m ∧ ClaimsSettle m ∧ ∀ later m', Reaches m later m' → KindsKept m m' := by
  have hbooks := h.slotBooks
  rw [funext hempty] at hbooks
  have hplacement := h.sound.coherent.placement
  have hfits : ∀ {key page}, m.pages.get? key = some page →
      page.contents.Fits page.isResident := h.sound.coherent.fits
  refine ⟨⟨fun slot => ?_, ?_, ?_, freeSwapSlots_add_swappedPages hbooks, ?_, ?_, ?_⟩,
    h.sound.claimsSettle, fun later m' hlater => ?_⟩
  · rw [show m.swap.isOccupied slot = true ↔ _ from hbooks.occupied]
    simp only [Bool.false_eq_true, false_or]
    constructor
    · rintro ⟨key, hslot⟩
      obtain ⟨page, hpage, hcontents⟩ := Option.bind_eq_some_iff.1 hslot
      obtain ⟨s, hplace⟩ := hplacement.held hpage
      obtain ⟨space, hspace, hplace⟩ := Option.bind_eq_some_iff.1 hplace
      exact ⟨s, space, hspace, _, key, page, hplace, hpage, slot?_eq_some_iff.1 hcontents⟩
    · rintro ⟨s, space, -, n, key, page, -, hpage, hcontents⟩
      exact ⟨key, (View.slotOf_eq hpage).trans (slot?_eq_some_iff.2 hcontents)⟩
  · intro key key' page page' slot hpage hpage' hslot hslot'
    exact hbooks.apart ((View.slotOf_eq hpage).trans (slot?_eq_some_iff.2 hslot))
      ((View.slotOf_eq hpage').trans (slot?_eq_some_iff.2 hslot'))
  · intro s s' space space' hspace hspace' n n' key hplace hplace'
    rw [← view_pageOf_eq hspace] at hplace
    rw [← view_pageOf_eq hspace'] at hplace'
    obtain ⟨page, hpage, rfl⟩ := hplacement.placed hplace
    exact ⟨hplacement.alone hplace hplace', hplacement.number_eq hplace' hpage⟩
  · intro key page hpage hkind
    have hfit := hfits hpage
    cases hcontents : page.contents with
    | pending source =>
        rw [hcontents] at hfit
        exact ⟨hfit, rfl⟩
    | _ => simp [hcontents, Contents.kind] at hkind
  · intro key page hpage hkind
    have hfit := hfits hpage
    cases hcontents : page.contents with
    | anonymous slot =>
        rw [hcontents] at hfit
        rw [← hfit]
        exact Option.isNone_iff_eq_none
    | _ => simp [hcontents, Contents.kind] at hkind
  · intro key page hpage hkind
    cases hcontents : page.contents with
    | file slice => rfl
    | _ => simp [hcontents, Contents.kind] at hkind
  · obtain ⟨effects, hcourse⟩ := hlater.course h.sound
    exact kindsKept_of_course h.sound hcourse

/-- The first stack page of a process is evicted into the only slot there is. -/
theorem slotsOwned_of_pageOut : ∃ history m, Run (bare 1 1 .empty) history m ∧
    m.swappedPages = 1 ∧ SlotsOwned m ∧ ClaimsSettle m ∧
      ∀ later m', Reaches m later m' → KindsKept m m' := by
  have htest : returnsWith (do
        let s ← Space.create "init"
        let _ ← Request.setUpStack.perform? s
        (Request.pageOut ⟨userStack - 1, by decide⟩).perform? s)
      (bare 1 1 .empty) (fun answer m => answer == some true && m.swappedPages == 1) = true := by
    decide +kernel
  obtain ⟨answer, m, hrun, htest⟩ := exists_returns htest
  obtain ⟨s, m₁, hcreate, hrun⟩ := returns_bind.1 hrun
  obtain ⟨_, m₂, hstack, hout⟩ := returns_bind.1 hrun
  rw [Bool.and_eq_true, beq_iff_eq, beq_iff_eq] at htest
  obtain ⟨history, hstacked⟩ := (Reaches.refl.create hcreate).perform? hstack
  obtain ⟨history', hevicted⟩ := hstacked.perform? hout
  have hreached : Run (bare 1 1 .empty) history' m := ⟨fresh_bare 1 1 .empty, hevicted⟩
  exact ⟨history', m, hreached, htest.2, hreached.slotsOwned (isOccupied_bare 1 1 .empty)⟩

end DemandPaging
