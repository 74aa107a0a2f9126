import DemandPaging.Proofs.Fate
import DemandPaging.Proofs.Keeps

/-!
Which handles are held.

A handle of a file stays open as long as a region or a page holds it. A page keeps the handle it came
with, or loses it when the last byte was read from its segment; it never gets another one. So a
handle that is held after a chain of steps was held before, or came with a page that was made on the
way.

The copy of an address space holds nothing at first. Whatever it comes to hold is opened for it, and
opened for one holder only.
-/

namespace DemandPaging

open Machine

/-- What may hold a handle in an address space: a region, by its first address, or a page. -/
inductive Holder where
  | region (start : VirtualAddress)
  | page (n : PageNumber)
deriving DecidableEq

def View.held (v : View) (s : Key AddressSpace) : Holder → Option Handle
  | .region start => (v.regionOf s start).map (·.handle)
  | .page n => ((v.pageOf s n).bind v.page).bind Page.handle?

/-! ### Pages and their handles -/

/-- The labels of the steps that make a page with the handle. A copy may have any. -/
def Effect.Brings (key : Key Page) (handle : Handle) : Effect → Prop
  | .added new source _ => new = key ∧ source.slice?.map FileSlice.handle = some handle
  | .copied _ new => new = key
  | _ => False

theorem Contents.slice?_of_settled {contents : Contents} {slice : FileSlice}
    (h : contents.settled.slice? = some slice) : contents.slice? = some slice := by
  cases contents with
  | pending source =>
      cases source with
      | file found => exact h
      | _ => cases h
  | anonymous => cases h
  | file => exact h

theorem Stowed.slice?_eq {bytes : PageBytes} {dirty : Bool} {contents contents' : Contents}
    {v v' : View} (h : Stowed bytes dirty contents v contents' v') :
    contents'.slice? = contents.slice? := by
  cases h <;> rfl

section

variable {effects : List Effect} {x x' : Option FrameNumber} {v v' : View} {key : Key Page}
  {handle : Handle}

theorem Step.handle_old (h : Step effects x v x' v') (hcoherent : Coherent x v)
    (hhandle : (v'.page key).bind Page.handle? = some handle) :
    (v.page key).bind Page.handle? = some handle ∨ ∃ e ∈ effects, e.Brings key handle := by
  obtain ⟨page', hpage', hhandle⟩ := Option.bind_eq_some_iff.1 hhandle
  have hsame : ∀ {page : Page}, v.page key = some page → page.handle? = some handle →
      (v.page key).bind Page.handle? = some handle := by
    intro page hpage hsome
    rw [hpage, Option.bind_some, hsome]
  cases h.fate hcoherent key with
  | absent _ hnone => cases hpage'.symm.trans hnone
  | kept hold hnew =>
      cases hpage'.symm.trans hnew
      exact .inl (hsame hold hhandle)
  | stored hold hnew =>
      cases hpage'.symm.trans hnew
      exact .inl (hsame hold hhandle)
  | evicted hold hframe hbytes hdirty hstowed hnew =>
      cases hpage'.symm.trans hnew
      rw [Page.handle?, hstowed.slice?_eq] at hhandle
      exact .inl (hsame hold hhandle)
  | broughtIn hold hframe hnew =>
      cases hpage'.symm.trans hnew
      obtain ⟨slice, hslice, rfl⟩ := Option.map_eq_some_iff.1 hhandle
      refine .inl (hsame hold ?_)
      rw [Page.handle?, Contents.slice?_of_settled hslice, Option.map_some]
  | added _ hnone hnew hcontents =>
      cases hpage'.symm.trans hnew
      rw [Page.handle?, hcontents] at hhandle
      exact .inr ⟨_, List.mem_singleton_self _, rfl, hhandle⟩
  | copied => exact .inr ⟨_, List.mem_singleton_self _, rfl⟩
  | removedAbsent _ _ hnone => cases hpage'.symm.trans hnone
  | removedPresent _ _ _ _ _ hnone => cases hpage'.symm.trans hnone

theorem Steps.handle_old (h : Steps effects x v x' v') (hcoherent : Coherent x v)
    (hhandle : (v'.page key).bind Page.handle? = some handle) :
    (v.page key).bind Page.handle? = some handle ∨ ∃ e ∈ effects, e.Brings key handle := by
  induction h with
  | nil => exact .inl hhandle
  | cons head tail ih =>
      rcases ih (head.coherent hcoherent) hhandle with hhandle | ⟨e, he, hbrings⟩
      · rcases head.handle_old hcoherent hhandle with hold | ⟨e, he, hbrings⟩
        · exact .inl hold
        · exact .inr ⟨e, List.mem_append_left _ he, hbrings⟩
      · exact .inr ⟨e, List.mem_append_right _ he, hbrings⟩

/-- A handle that is held by a page was held at the same place before, or came with the page. -/
theorem Steps.held_page_old (h : Steps effects x v x' v') (hcoherent : Coherent x v)
    {s : Key AddressSpace} {n : PageNumber} (hheld : v'.held s (.page n) = some handle) :
    v.held s (.page n) = some handle ∨
      ∃ key, v'.pageOf s n = some key ∧ ∃ e ∈ effects, e.Brings key handle := by
  simp only [View.held, Option.bind_assoc, Option.bind_eq_some_iff] at hheld
  obtain ⟨key, hplace, page', hpage', hhandle⟩ := hheld
  rcases h.handle_old hcoherent (Option.bind_eq_some_iff.2 ⟨page', hpage', hhandle⟩) with
    hold | hbrings
  · obtain ⟨page, hpage, hhandle⟩ := Option.bind_eq_some_iff.1 hold
    have hplace := (h.page_old (hcoherent.placement.created hpage)).2 s n hplace
    refine .inl ?_
    rw [View.held, hplace, Option.bind_some, hpage, Option.bind_some, hhandle]
  · exact .inr ⟨key, hplace, hbrings⟩

end

/-! ### Handles opened for one address space -/

structure Region.Reopened (region copy : Region) : Prop where
  start : copy.start = region.start
  pages : copy.pages = region.pages
  offset : copy.offset = region.offset
  writable : copy.writable = region.writable
  file : copy.handle.file = region.handle.file

namespace Machine

/-- The pages that are made hold handles that were opened on the way, if they hold any. -/
def MadeAfresh (effects : List Effect) (m m' : Machine) : Prop :=
  ∀ e ∈ effects, ∀ {key handle}, e.Brings key handle → Opened m m' handle

/-- Everything that is held in an address space was opened since, each handle for one holder. -/
structure Afresh (s : Key AddressSpace) (m m' : Machine) : Prop where
  issued : ∀ f, m.issued f ≤ m'.issued f
  opened : ∀ {x handle}, m'.view.held s x = some handle → Opened m m' handle
  alone : ∀ {x y handle}, m'.view.held s x = some handle → m'.view.held s y = some handle → x = y

namespace Afresh

variable {s : Key AddressSpace} {m₀ m m' : Machine}

theorem of_bare (hbare : ∀ x, m.view.held s x = none) : Afresh s m m where
  issued _ := Nat.le_refl _
  opened hheld := by cases (hbare _).symm.trans hheld
  alone hheld := by cases (hbare _).symm.trans hheld

theorem of_earlier (h : Afresh s m m') (hissued : ∀ f, m₀.issued f ≤ m.issued f) :
    Afresh s m₀ m' where
  issued f := (hissued f).trans (h.issued f)
  opened hheld := (h.opened hheld).mono hissued fun _ => Nat.le_refl _
  alone := h.alone

theorem keep (h : Afresh s m₀ m) (hissued : ∀ f, m.issued f ≤ m'.issued f)
    (hheld : ∀ {x handle}, m'.view.held s x = some handle → m.view.held s x = some handle) :
    Afresh s m₀ m' where
  issued f := (h.issued f).trans (hissued f)
  opened hnow := (h.opened (hheld hnow)).mono (fun _ => Nat.le_refl _) hissued
  alone hnow hnow' := h.alone (hheld hnow) (hheld hnow')

theorem add (h : Afresh s m₀ m) (hissued : ∀ f, m.issued f ≤ m'.issued f) (new : Holder)
    (hheld : ∀ {x handle}, m'.view.held s x = some handle →
      m.view.held s x = some handle ∨ x = new ∧ Opened m m' handle) : Afresh s m₀ m' where
  issued f := (h.issued f).trans (hissued f)
  opened hnow := by
    rcases hheld hnow with hold | ⟨-, hopened⟩
    · exact (h.opened hold).mono (fun _ => Nat.le_refl _) hissued
    · exact hopened.mono h.issued fun _ => Nat.le_refl _
  alone hnow hnow' := by
    rcases hheld hnow with hold | ⟨rfl, hopened⟩ <;> rcases hheld hnow' with hold' | ⟨rfl, hopened'⟩
    · exact h.alone hold hold'
    -- a handle that was held before was issued before
    · exact absurd (h.opened hold).issued (Nat.not_lt.2 hopened'.new)
    · exact absurd (h.opened hold').issued (Nat.not_lt.2 hopened.new)
    · rfl

end Afresh

end Machine

end DemandPaging
