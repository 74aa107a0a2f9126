import DemandPaging.Proofs.Panics.Parts
import DemandPaging.Proofs.SlotOwnership
import DemandPaging.Proofs.Space.Lifetime

/-!
Giving up pages never panics.

A page is given up in states that are not coherent, too: an eviction that could not be completed has
taken the owner from a frame, and the page still names it. Releasing a page takes less for granted.
The frames in use are frames of the pool, the pages that name a frame or a slot are the only ones
that name it, and what a page or a mapping refers to is there. A state with these properties is
firm. Releasing, unmapping and ending an address space keep it firm and come to their end.
-/

namespace DemandPaging

open Machine Space

def Region.InRange (region : Region) : Prop :=
  ∀ index < region.pages, ∃ n, regionPage region index = .ok n

/-- What giving up pages takes for granted. -/
structure Firm (v : View) : Prop where
  allocated : ∀ {f entry}, v.owner f = some entry → v.isAllocated f = some true
  inRange : ∀ {f}, v.isAllocated f ≠ none → f.toNat < maxFrames
  mapped : ∀ {f o}, v.owner f = some (some o) → v.hasDirectory o.directory = true
  listed : ∀ {key p f}, v.page key = some p → p.frame = some f → v.owner f ≠ none
  single : ∀ {key key' p p' f}, v.page key = some p → v.page key' = some p' → p.frame = some f →
    p'.frame = some f → key = key'
  occupied : ∀ {key slot}, v.slotOf key = some slot → v.isOccupied slot = true
  apart : ∀ {key key' slot}, v.slotOf key = some slot → v.slotOf key' = some slot → key = key'
  file : ∀ {key p slice}, v.page key = some p → p.contents.slice? = some slice →
    v.file slice.handle.file ≠ none
  placed : ∀ {s n key}, v.pageOf s n = some key → v.page key ≠ none
  alone : ∀ {s s' n n' key}, v.pageOf s n = some key → v.pageOf s' n' = some key → s = s' ∧ n = n'
  region : ∀ {s start region}, v.regionOf s start = some region → region.InRange

/-- A state from which pages can be given up. -/
structure Machine.Solid (m : Machine) : Prop where
  tidy : m.Tidy
  firm : Firm m.view

namespace Firm

variable {v v' : View} {key : Key Page} {page left : Page} {s : Key AddressSpace} {n : PageNumber}

/-- A page is released: it is in no frame and in no slot, and its frame may be back in the pool. -/
theorem released (h : Firm v) (hpage : v.page key = some page) (hframe : left.frame = none)
    (hslot : left.contents.slot? = none) (hslice : left.contents.slice? = page.contents.slice?)
    (howner : ∀ f entry, v'.owner f = some entry →
      v.owner f = some entry ∧ v'.isAllocated f = v.isAllocated f)
    (hlisted : ∀ f, page.frame ≠ some f → v.owner f ≠ none → v'.owner f ≠ none)
    (hallocated : ∀ f, v'.isAllocated f ≠ none → v.isAllocated f ≠ none)
    (hpages : v'.page = Function.update v.page key (some left))
    (hoccupied : v'.isOccupied = (v.vacate page.contents.slot?).isOccupied)
    (hfile : ∀ f, v.file f ≠ none → v'.file f ≠ none)
    (hdirectory : v'.hasDirectory = v.hasDirectory) (hplace : v'.pageOf = v.pageOf)
    (hregion : v'.regionOf = v.regionOf) : Firm v' := by
  have hother : ∀ {key' p}, v'.page key' = some p →
      key' = key ∧ p = left ∨ key' ≠ key ∧ v.page key' = some p := by
    intro key' p hp
    rw [hpages, Function.update_apply] at hp
    split at hp
    · next hkey =>
      cases hp
      exact .inl ⟨hkey, rfl⟩
    · next hkey => exact .inr ⟨hkey, hp⟩
  have hresident : ∀ {key' p f}, v'.page key' = some p → p.frame = some f →
      key' ≠ key ∧ v.page key' = some p := by
    intro key' p f hp hf
    rcases hother hp with ⟨-, rfl⟩ | hkept
    · rw [hframe] at hf
      cases hf
    · exact hkept
  have hslots : ∀ {key' slot}, v'.slotOf key' = some slot → key' ≠ key ∧ v.slotOf key' = some slot := by
    intro key' slot hs
    obtain ⟨p, hp, hs⟩ := Option.bind_eq_some_iff.1 hs
    rcases hother hp with ⟨-, rfl⟩ | ⟨hne, hp⟩
    · rw [hslot] at hs
      cases hs
    · exact ⟨hne, (View.slotOf_eq hp).trans hs⟩
  refine ⟨fun hf => ?_, fun hf => h.inRange (hallocated _ hf), fun hf => ?_, fun hp hf => ?_,
    fun hp hp' hf hf' => ?_, fun hs => ?_, fun hs hs' => h.apart (hslots hs).2 (hslots hs').2,
    fun hp hs => ?_, fun hn => ?_, fun hn hn' => ?_, fun hr => ?_⟩
  · obtain ⟨hbefore, hsame⟩ := howner _ _ hf
    rw [hsame, h.allocated hbefore]
  · rw [hdirectory]
    exact h.mapped (howner _ _ hf).1
  · obtain ⟨hne, hp⟩ := hresident hp hf
    exact hlisted _ (fun he => hne (h.single hp hpage hf he)) (h.listed hp hf)
  · exact h.single (hresident hp hf).2 (hresident hp' hf').2 hf hf'
  · obtain ⟨hne, hs⟩ := hslots hs
    rw [hoccupied, View.vacate]
    dsimp only
    rw [if_neg, h.occupied hs]
    intro he
    exact hne (h.apart hs ((View.slotOf_eq hpage).trans he))
  · rcases hother hp with ⟨-, rfl⟩ | ⟨-, hp⟩
    · exact hfile _ (h.file hpage (hslice ▸ hs))
    · exact hfile _ (h.file hp hs)
  · rw [hplace] at hn
    have hbefore := h.placed hn
    rw [hpages, Function.update_apply]
    split
    · exact Option.some_ne_none _
    · exact hbefore
  · rw [hplace] at hn hn'
    exact h.alone hn hn'
  · rw [hregion] at hr
    exact h.region hr

theorem dropped (h : Firm v) (hplace : v.pageOf s n = some key) {page? : Option Page}
    (hleft : ∀ left, page? = some left → ∃ p, v.page key = some p ∧ left.frame = p.frame ∧
      left.contents = p.contents) : Firm ((v.setPage key page?).setPlace s n none) := by
  have hother : ∀ {key' p}, (v.setPage key page?).page key' = some p →
      ∃ p', v.page key' = some p' ∧ p.frame = p'.frame ∧ p.contents = p'.contents := by
    intro key' p hp
    simp only [View.setPage, Function.update_apply] at hp
    split at hp
    · next hkey =>
      subst hkey
      exact hleft p hp
    · exact ⟨p, hp, rfl, rfl⟩
  have hslots : ∀ {key' slot}, (v.setPage key page?).slotOf key' = some slot →
      v.slotOf key' = some slot := by
    intro key' slot hs
    obtain ⟨p, hp, hs⟩ := Option.bind_eq_some_iff.1 hs
    obtain ⟨p', hp', -, hcontents⟩ := hother hp
    exact (View.slotOf_eq hp').trans (hcontents ▸ hs)
  have hpageOf : ∀ {s' n' key'}, ((v.setPage key page?).setPlace s n none).pageOf s' n' = some key' →
      v.pageOf s' n' = some key' ∧ ¬(s' = s ∧ n' = n) := by
    intro s' n' key' hn
    simp only [View.setPlace, View.setPage, Function.update_apply] at hn
    split at hn
    · next hs =>
      subst hs
      rw [Function.update_apply] at hn
      split at hn
      · cases hn
      · next hne => exact ⟨hn, fun hand => hne hand.2⟩
    · next hne => exact ⟨hn, fun hand => hne hand.1⟩
  refine ⟨h.allocated, h.inRange, h.mapped, fun hp hf => ?_, fun hp hp' hf hf' => ?_,
    fun hs => h.occupied (hslots hs), fun hs hs' => h.apart (hslots hs) (hslots hs'),
    fun hp hs => ?_, fun hn => ?_, fun hn hn' => h.alone (hpageOf hn).1 (hpageOf hn').1, h.region⟩
  · obtain ⟨p', hp', hframe, -⟩ := hother hp
    exact h.listed hp' (hframe ▸ hf)
  · obtain ⟨q, hq, hframe, -⟩ := hother hp
    obtain ⟨q', hq', hframe', -⟩ := hother hp'
    exact h.single hq hq' (hframe ▸ hf) (hframe' ▸ hf')
  · obtain ⟨p', hp', -, hcontents⟩ := hother hp
    exact h.file hp' (hcontents ▸ hs)
  · obtain ⟨hbefore, hne⟩ := hpageOf hn
    have hkey : _ ≠ key := fun he => hne (h.alone (he ▸ hbefore) hplace)
    simp only [View.setPlace, View.setPage, Function.update_of_ne hkey]
    exact h.placed hbefore

theorem forgotten (h : Firm v) (start : VirtualAddress) : Firm (v.setRegion s start none) where
  allocated := h.allocated
  inRange := h.inRange
  mapped := h.mapped
  listed := h.listed
  single := h.single
  occupied := h.occupied
  apart := h.apart
  file := h.file
  placed := h.placed
  alone := h.alone
  region hr := by
    simp only [View.setRegion, Function.update_apply] at hr
    split at hr
    · next hs =>
      subst hs
      rw [Function.update_apply] at hr
      split at hr
      · cases hr
      · exact h.region hr
    · exact h.region hr

end Firm

theorem WrittenBack.file_ne_none {slice : FileSlice} {bytes : PageBytes} {dirty : Bool} {v v' : View}
    (h : WrittenBack slice bytes dirty v v') {f : Key File} (hf : v.file f ≠ none) :
    v'.file f ≠ none := by
  cases h with
  | clean => exact hf
  | dirty hfile hback =>
      simp only [View.setFile, Function.update_apply]
      split
      · exact Option.some_ne_none _
      · exact hf

section

variable {m m' : Machine} {key : Key Page} {page : Page} {f : FrameNumber}
  {stop : Panic → Machine → Prop}

/-! ### Releasing a page -/

theorem eq_of_mapM_frameBytes {frame : Option FrameNumber} {buffer : Option PageBytes}
    (h : Returns (frame.mapM frameBytes) m buffer m') : m' = m := by
  cases frame with
  | none => exact (returns_pure.1 (by rwa [Option.mapM_none] at h)).2
  | some f =>
      simp only [Option.mapM_some, map_eq_pure_bind, returns_bind, returns_pure] at h
      obtain ⟨_, _, hbytes, -, rfl⟩ := h
      exact (returns_frameBytes hbytes).2

/-- Giving up contents frees their slot and writes to files that are there. -/
theorem returns_giveUp {contents left : Contents} {frame : Option FrameNumber} {dirty : Bool}
    (h : Returns (giveUp contents frame dirty) m left m') :
    left.slot? = none ∧ left.slice? = contents.slice? ∧
      (∃ file, m'.view = { m.view.vacate contents.slot? with file } ∧
        ∀ g, m.view.file g ≠ none → file g ≠ none) ∧
      ∃ swap files events, m' = { m with swap, files, events } := by
  have hsame : m.view = { m.view.vacate none with file := m.view.file } := by rw [vacate_none]
  simp only [giveUp, returns_bind] at h
  obtain ⟨buffer, m₀, hbuffer, h⟩ := h
  obtain rfl := eq_of_mapM_frameBytes hbuffer
  cases contents with
  | pending source =>
      obtain ⟨rfl, rfl⟩ := returns_pure.1 h
      exact ⟨rfl, rfl, ⟨_, hsame, fun _ => id⟩, _, _, _, rfl⟩
  | anonymous slot =>
      cases slot with
      | none =>
          simp only [discardAnonymous, returns_bind, returns_pure] at h
          obtain ⟨_, _, ⟨rfl, rfl⟩, rfl, rfl⟩ := h
          exact ⟨rfl, rfl, ⟨_, hsame, fun _ => id⟩, _, _, _, rfl⟩
      | some slot =>
          simp only [discardAnonymous, returns_bind, returns_pure] at h
          obtain ⟨_, _, ⟨_, _, hfree, rfl, rfl⟩, rfl, rfl⟩ := h
          obtain ⟨hview, swap, rfl⟩ := returns_freeSwapSlot hfree
          exact ⟨rfl, rfl, ⟨_, hview, fun _ => id⟩, swap, _, _, rfl⟩
  | file slice =>
      cases buffer with
      | none =>
          obtain ⟨rfl, rfl⟩ := returns_pure.1 h
          exact ⟨rfl, rfl, ⟨_, hsame, fun _ => id⟩, _, _, _, rfl⟩
      | some buffer =>
          simp only [returns_bind, returns_pure] at h
          obtain ⟨_, m₁, hevict, rfl, rfl⟩ := h
          obtain ⟨hback, hkept⟩ := returns_evictToSlice hevict
          refine ⟨rfl, rfl, ⟨m'.view.file, ?_, fun g hg => ?_⟩, _, hkept⟩
          · obtain ⟨file, hview⟩ := hback.exists_eq
            rw [show Contents.slot? (.file slice) = none from rfl, vacate_none, hview]
          · exact hback.file_ne_none hg

theorem panicsOnly_giveUp {contents : Contents} {frame : Option FrameNumber} {dirty : Bool}
    (hframe : ∀ f, frame = some f → m.HasFrame f)
    (hslot : ∀ slot, contents.slot? = some slot → m.view.isOccupied slot = true)
    (hfile : ∀ slice, contents.slice? = some slice → m.view.file slice.handle.file ≠ none) :
    PanicsOnly stop (giveUp contents frame dirty) m := by
  unfold giveUp
  refine .bind ?_ fun buffer m₁ hbuffer => ?_
  · cases frame with
    | none => exact .pure _
    | some f =>
        simp only [Option.mapM_some, map_eq_pure_bind]
        exact .bind (panicsOnly_frameBytes (hframe f rfl)) fun _ _ _ => .pure _
  obtain rfl := eq_of_mapM_frameBytes hbuffer
  cases contents with
  | pending source => exact .pure _
  | anonymous slot =>
      cases slot with
      | none => exact .pure _
      | some slot =>
          exact .bind (.bind (panicsOnly_freeSwapSlot (hslot slot rfl)) fun _ _ _ => .pure _)
            fun _ _ _ => .pure _
  | file slice =>
      cases buffer with
      | none => exact .pure _
      | some buffer =>
          exact .bind (panicsOnly_evictToSlice (hfile slice rfl) buffer dirty) fun _ _ _ => .pure _

theorem panicsOnly_removeSlot {index : Nat} {slot : FrameSlot}
    (hslot : m.listed[index]? = some slot) (h : m.view.isAllocated slot.frame = some true) :
    PanicsOnly stop (removeSlot index) m :=
  .step (returns_getSlot.2 ⟨hslot, rfl⟩) (.get_bind (.modify_bind (.modify_bind
    (panicsOnly_releaseFrame h))))

theorem Firm.hasFrame (h : Firm m.view) {entry : Option Owner} (hf : m.view.owner f = some entry) :
    m.HasFrame f := by
  have hallocated : m.view.isAllocated f ≠ none := by
    rw [h.allocated hf]
    exact Option.some_ne_none _
  exact ⟨hallocated, h.inRange hallocated⟩

/-- The page is in no frame and the frame has no owner: what is left to do is to give up the contents
and the frame. -/
theorem completes_letGo (h : m.Solid) (hpage : m.pages.get? key = some page)
    (hframe : page.frame = some f) {index : Nat} {owner : Option Owner}
    (hslot : m.listed[index]? = some ⟨f, owner⟩) {directories : Arena Directory}
    (hdirectories : ∀ d, (directories.get? d).isSome = (m.directories.get? d).isSome)
    {dirty : Bool} {m₁ : Machine}
    (hm₁ : m₁ = { m with
      pages := m.pages.modify key fun page => { page with frame := none }
      listed := m.listed.modify index fun slot => { slot with owner := none }
      directories }) :
    Completes (do
      let contents ← giveUp page.contents (some f) dirty
      updatePage key fun page => { page with contents }
      removeSlot index) m₁ fun _ m' => m'.Solid ∧ m'.spaces = m.spaces ∧
        ∃ left, m'.pages.get? key = some left := by
  have howned : m.view.owner f = some owner := ownerIn_of_getElem? h.tidy.nodup hslot
  have howner₁ : m₁.view.owner = Function.update m.view.owner f (some none) := by
    rw [hm₁]
    exact ownerIn_modify h.tidy.nodup hslot none
  have hpage₁ : m₁.pages.get? key = some { page with frame := none } := by
    rw [hm₁, Arena.get?_modify, if_pos rfl, hpage]
    rfl
  have hfit : PanicsOnly (fun _ _ => False) (giveUp page.contents (some f) dirty) m₁ := by
    refine panicsOnly_giveUp (fun g hg => ?_) (fun slot hs => ?_) fun slice hs => ?_
    · cases hg
      obtain ⟨hin, hrange⟩ := h.firm.hasFrame howned
      exact ⟨by rw [hm₁]; exact hin, hrange⟩
    · rw [hm₁]
      exact h.firm.occupied ((View.slotOf_eq (v := m.view) hpage).trans hs)
    · rw [hm₁]
      exact h.firm.file hpage hs
  refine Ends.bind hfit fun contents m₂ hgive _ => Ends.modify_bind ?_
  obtain ⟨hnoslot, hslice, ⟨file, hview₂, hfiles⟩, swap, files, events, hm₂⟩ := returns_giveUp hgive
  generalize hm₃ : ({ m₂ with pages := m₂.pages.modify key fun page => { page with contents } } :
    Machine) = m₃
  have hview₃ : m₃.view = m₂.view.setPage key (some { page with frame := none, contents }) := by
    rw [← hm₃, view_modifyPage, show m₂.pages = m₁.pages by rw [hm₂], hpage₁]
    rfl
  have hslot₃ : m₃.listed[index]? = some ⟨f, none⟩ := by
    rw [← hm₃, hm₂, hm₁]
    simp [hslot]
  have htidy₃ : m₃.Tidy := h.tidy.congr (by rw [← hm₃, hm₂, hm₁]; exact ⟨rfl, fun _ => rfl⟩)
    (by rw [← hm₃, hm₂, hm₁]; exact map_frame_modify _ _ _)
  have hallocated₃ : m₃.view.isAllocated = m.view.isAllocated := by rw [← hm₃, hm₂, hm₁]; rfl
  have hremove : PanicsOnly (fun _ _ => False) (removeSlot index) m₃ :=
    panicsOnly_removeSlot hslot₃ (by rw [hallocated₃]; exact h.firm.allocated howned)
  refine Ends.mono hremove (fun _ m' hrun _ => ?_) fun _ _ => id
  obtain ⟨hview', htidy', hand, pool, events', hm'⟩ := returns_removeSlot htidy₃ hslot₃ hrun
  have hpages : m'.view.page = Function.update m.view.page key
      (some { page with frame := none, contents }) := by
    rw [hview', hview₃, hview₂, hm₁]
    change Function.update (m.pages.modify key _).get? key _ = _
    rw [Arena.get?_modify_eq_update, Function.update_idem]
    rfl
  have hmaps : m'.view.hasDirectory = m.view.hasDirectory := by
    rw [hview', hview₃, hview₂, hm₁]
    exact funext hdirectories
  refine ⟨⟨htidy', ?_⟩, by rw [hm', ← hm₃, hm₂, hm₁], _, congrFun hpages key |>.trans
    (Function.update_self _ _ _)⟩
  refine h.firm.released hpage rfl hnoslot hslice (fun g entry hg => ?_) (fun g hg hlisted => ?_)
    (fun g hg => ?_) hpages ?_ (fun g hg => ?_) hmaps ?_ ?_
  · rw [hview', hview₃, hview₂] at hg ⊢
    simp only [View.setAllocated, View.setOwner, View.setPage, View.vacate, howner₁,
      Function.update_apply] at hg ⊢
    by_cases hgf : g = f
    · rw [if_pos hgf] at hg
      cases hg
    · rw [if_neg hgf, if_neg hgf] at hg
      rw [if_neg hgf, hm₁]
      exact ⟨hg, rfl⟩
  · have hgf : g ≠ f := fun he => hg (he ▸ hframe)
    rw [hview', hview₃, hview₂]
    simp only [View.setAllocated, View.setOwner, View.setPage, View.vacate, howner₁,
      Function.update_of_ne hgf]
    exact hlisted
  · by_cases hgf : g = f
    · rw [hgf, h.firm.allocated howned]
      exact Option.some_ne_none _
    · rw [hview'] at hg
      simp only [View.setAllocated, View.setOwner, Function.update_of_ne hgf, hallocated₃] at hg
      exact hg
  · rw [hview', hview₃, hview₂, hm₁]
    rfl
  · rw [hview', hview₃, hview₂]
    exact hfiles g (by rw [hm₁]; exact hg)
  · rw [hview', hview₃, hview₂, hm₁]
    rfl
  · rw [hview', hview₃, hview₂, hm₁]
    rfl

theorem completes_release (h : m.Solid) (hpage : m.pages.get? key = some page) :
    Completes (release key) m fun _ m' => m'.Solid ∧ m'.spaces = m.spaces ∧
      ∃ left, m'.pages.get? key = some left := by
  unfold release
  refine Ends.step (returns_getPage.2 ⟨hpage, rfl⟩) (Ends.modify_bind (Ends.get_bind ?_))
  cases hframe : page.frame with
  | none =>
      simp only [Option.bind_none]
      refine Ends.step (returns_pure.2 ⟨rfl, rfl⟩) ?_
      generalize hm₁ : ({ m with pages := m.pages.modify key fun page =>
        { page with frame := none } } : Machine) = m₁
      have hpage₁ : m₁.pages.get? key = some { page with frame := none } := by
        rw [← hm₁, Arena.get?_modify, if_pos rfl, hpage]
        rfl
      have hfit : PanicsOnly (fun _ _ => False) (giveUp page.contents none false) m₁ := by
        refine panicsOnly_giveUp (fun g hg => by cases hg) (fun slot hs => ?_) fun slice hs => ?_
        · rw [← hm₁]
          exact h.firm.occupied ((View.slotOf_eq (v := m.view) hpage).trans hs)
        · rw [← hm₁]
          exact h.firm.file hpage hs
      refine Ends.bind hfit fun contents m₂ hgive _ => Ends.modify_bind (Ends.pure ?_)
      obtain ⟨hnoslot, hslice, ⟨file, hview₂, hfiles⟩, swap, files, events, hm₂⟩ :=
        returns_giveUp hgive
      generalize hm₃ : ({ m₂ with pages := m₂.pages.modify key fun page => { page with contents } } :
        Machine) = m₃
      have hview₁ : m₁.view = m.view.setPage key (some { page with frame := none }) := by
        rw [← hm₁, view_modifyPage, hpage]
        rfl
      have hview₃ : m₃.view = m₂.view.setPage key (some { page with frame := none, contents }) := by
        rw [← hm₃, view_modifyPage, show m₂.pages = m₁.pages by rw [hm₂], hpage₁]
        rfl
      have hpages : m₃.view.page =
          Function.update m.view.page key (some { page with frame := none, contents }) := by
        rw [hview₃, hview₂, hview₁]
        exact Function.update_idem ..
      refine ⟨⟨h.tidy.of_eq (by rw [← hm₃, hm₂, ← hm₁]) (by rw [← hm₃, hm₂, ← hm₁]), ?_⟩,
        by rw [← hm₃, hm₂, ← hm₁], _, congrFun hpages key |>.trans (Function.update_self _ _ _)⟩
      -- the list, the pool, the directories and the maps are as they were
      refine h.firm.released hpage rfl hnoslot hslice (fun g entry hg => ?_) (fun g _ hlisted => ?_)
        (fun g hg => ?_) hpages ?_ (fun g hg => ?_) ?_ ?_ ?_
      · rw [hview₃, hview₂, hview₁] at hg ⊢
        exact ⟨hg, rfl⟩
      · rw [hview₃, hview₂, hview₁]
        exact hlisted
      · rw [hview₃, hview₂, hview₁] at hg
        exact hg
      · rw [hview₃, hview₂, hview₁]
        rfl
      · rw [hview₃, hview₂]
        exact hfiles g (by rw [hview₁]; exact hg)
      all_goals
        rw [hview₃, hview₂, hview₁]
        rfl
  | some f =>
      have howner := h.firm.listed hpage hframe
      cases hposition : m.position? f with
      | none => exact absurd (position?_eq_none hposition) howner
      | some index =>
      obtain ⟨owner, hslot⟩ := getElem?_of_position hposition
      have hposition' : position? { m with
        pages := m.pages.modify key fun p => { p with frame := none } } f = some index := hposition
      simp only [Option.bind_some, hposition', hslot]
      refine Ends.modify_bind ?_
      cases owner with
      | none =>
          exact Ends.step (returns_pure.2 ⟨rfl, rfl⟩)
            (completes_letGo h hpage hframe hslot (fun _ => rfl) rfl)
      | some o =>
          have hmapped := h.firm.mapped (ownerIn_of_getElem? h.tidy.nodup hslot)
          refine Ends.bind (panicsOnly_unmapOwner hmapped) fun dirty m₁ hunmap _ => ?_
          obtain ⟨-, hview, directories, hm₁⟩ := returns_unmapOwner hunmap
          refine completes_letGo h hpage hframe hslot (fun d => ?_) hm₁
          have hkept := congrArg (fun v => v.hasDirectory d) hview
          rwa [hm₁] at hkept

/-! ### Ending an address space -/

variable {s : Key AddressSpace} {n : PageNumber}

theorem exists_space_modify {spaces : Arena AddressSpace} {space : AddressSpace}
    (hspace : spaces.get? s = some space) (change : AddressSpace → AddressSpace) :
    ∃ space, (spaces.modify s change).get? s = some space :=
  ⟨change space, by rw [Arena.get?_modify, if_pos rfl, hspace, Option.map_some]⟩

theorem completes_releaseHeld (h : m.Solid) (hplace : m.view.pageOf s n = some key) :
    Completes (releaseHeld key) m fun _ m' =>
      m'.Tidy ∧ m'.spaces = m.spaces ∧ Firm (m'.view.setPlace s n none) := by
  obtain ⟨page, hpage⟩ := Option.ne_none_iff_exists'.1 (h.firm.placed hplace)
  unfold releaseHeld
  refine Ends.bind (completes_release h hpage) fun _ m₁ _ ⟨h₁, hspaces, left, hleft⟩ => ?_
  have hplace₁ : m₁.view.pageOf s n = some key := by rw [view_pageOf_congr hspaces, hplace]
  unfold dropPage
  refine Ends.step (returns_getPage.2 ⟨hleft, rfl⟩) ?_
  split
  · refine Ends.modify ⟨h₁.tidy.of_eq rfl rfl, hspaces, ?_⟩
    rw [view_erasePage]
    exact h₁.firm.dropped hplace₁ fun _ he => by cases he
  · refine Ends.modify ⟨h₁.tidy.of_eq rfl rfl, hspaces, ?_⟩
    rw [view_modifyPage, hleft]
    refine h₁.firm.dropped hplace₁ fun _ he => ?_
    cases he
    exact ⟨left, hleft, rfl, rfl⟩

theorem completes_removePage (h : m.Solid) (hspace : ∃ space, m.spaces.get? s = some space) :
    Completes (removePage s n) m fun _ m' =>
      m'.Solid ∧ ∃ space, m'.spaces.get? s = some space := by
  obtain ⟨space, hspace⟩ := hspace
  unfold removePage
  refine Ends.step (returns_getSpace.2 ⟨hspace, rfl⟩) ?_
  cases hkey : space.pages[n]? with
  | none =>
      simp only [removeFromMap, hkey]
      exact Ends.step (returns_pure.2 ⟨rfl, rfl⟩) (Ends.pure ⟨h, space, hspace⟩)
  | some key =>
      have hplace : m.view.pageOf s n = some key := by rw [view_pageOf_eq hspace, hkey]
      simp only [removeFromMap, hkey, bind_assoc, pure_bind]
      refine Ends.bind (completes_releaseHeld h hplace) ?_
      rintro _ m₁ _ ⟨htidy, hspaces, hfirm⟩
      refine Ends.modify_bind (Ends.pure ?_)
      rw [← hspaces] at hspace
      refine ⟨⟨htidy.of_eq rfl rfl, ?_⟩, exists_space_modify hspace _⟩
      rw [view_setPlace hspace n none fun n' => getElem?_erase_eq_ite ..]
      exact hfirm

theorem completes_removePages {numbers : List PageNumber} (h : m.Solid)
    (hspace : ∃ space, m.spaces.get? s = some space) :
    Completes (removePages s numbers) m fun _ m' =>
      m'.Solid ∧ ∃ space, m'.spaces.get? s = some space := by
  induction numbers generalizing m with
  | nil => exact Ends.pure ⟨h, hspace⟩
  | cons number rest ih =>
      exact Ends.bind (completes_removePage h hspace) fun _ m₁ _ ⟨h₁, hspace₁⟩ => ih h₁ hspace₁

theorem Region.InRange.exists_regionPages {region : Region} (h : region.InRange) :
    ∃ numbers, regionPages region = .ok numbers :=
  exists_mapM_eq_ok fun index hindex => h index (List.mem_range.1 hindex)

theorem completes_unmapFile {start : VirtualAddress} (h : m.Solid)
    (hspace : ∃ space, m.spaces.get? s = some space) :
    Completes (unmapFile s start) m fun _ m' =>
      m'.Solid ∧ ∃ space, m'.spaces.get? s = some space := by
  obtain ⟨space, hspace⟩ := hspace
  unfold unmapFile
  refine Ends.step (returns_getSpace.2 ⟨hspace, rfl⟩)
    (Ends.step (returns_getSpace.2 ⟨hspace, rfl⟩) ?_)
  cases hregion : space.regions[start]? with
  | none =>
      exact Ends.modify ⟨⟨h.tidy.of_eq rfl rfl, h.firm⟩, space, hspace⟩
  | some region =>
      have hrange : region.InRange := h.firm.region (by rw [view_regionOf_eq hspace, hregion])
      obtain ⟨numbers, hnumbers⟩ := hrange.exists_regionPages
      refine Ends.step (returns_liftM.2 ⟨hnumbers, rfl⟩) (Ends.bind (completes_removePages h
        ⟨space, hspace⟩) fun _ m₁ _ ⟨h₁, space₁, hspace₁⟩ => Ends.modify_bind (Ends.modify
          ⟨⟨h₁.tidy.of_eq rfl rfl, ?_⟩, exists_space_modify hspace₁ _⟩))
      change Firm ({ m₁ with spaces := m₁.spaces.modify s _ } : Machine).view
      rw [view_setRegion hspace₁ start none rfl rfl fun va => getElem?_erase_eq_ite ..]
      exact h₁.firm.forgotten start

theorem completes_unmapFiles {starts : List VirtualAddress} (h : m.Solid)
    (hspace : ∃ space, m.spaces.get? s = some space) :
    Completes (unmapFiles s starts) m fun _ m' =>
      m'.Solid ∧ ∃ space, m'.spaces.get? s = some space := by
  induction starts generalizing m with
  | nil => exact Ends.pure ⟨h, hspace⟩
  | cons start rest ih =>
      exact Ends.bind (completes_unmapFile h hspace) fun _ m₁ _ ⟨h₁, hspace₁⟩ => ih h₁ hspace₁

/-- An address space can always be ended. -/
theorem completes_drop (h : m.Solid) (hspace : ∃ space, m.spaces.get? s = some space) :
    Completes (drop s) m fun _ _ => True := by
  obtain ⟨space, hspace⟩ := hspace
  unfold drop tearDown
  have htear : Completes (do
      unmapFiles s (← getSpace s).regions.keys
      removePages s (← getSpace s).pages.keys) m fun _ _ => True := by
    refine Ends.step (returns_getSpace.2 ⟨hspace, rfl⟩) (Ends.bind
      (completes_unmapFiles h ⟨space, hspace⟩) fun _ m₁ _ ⟨h₁, space₁, hspace₁⟩ =>
        Ends.step (returns_getSpace.2 ⟨hspace₁, rfl⟩) ?_)
    exact (completes_removePages h₁ ⟨space₁, hspace₁⟩).mono (fun _ _ _ _ => trivial) fun _ _ => id
  exact Ends.bind htear fun _ _ _ _ => Ends.modify trivial

end

end DemandPaging
