import DemandPaging.Proofs.Exposure
import DemandPaging.Proofs.FirstReading

/-!
What a page has while it is stained.

A page that was written to and not yet written back is in a frame, and stays there as long as it is
stained: to leave the frame is to be written back. So it has what it had, until something is stored
into it. A file has it when the page is stained no more, if no other page was; after that it is what
any page over the same window shows.
-/

namespace DemandPaging

open Machine Space

def View.PageHas (v : View) (key : Key Page) (i : Nat) (byte : UInt8) : Prop :=
  ∃ page, v.page key = some page ∧ (v.bytesOf page)[i]? = some byte

section

variable {effects rest : List Effect} {x x' : Option FrameNumber} {v v₁ v' : View}
  {key : Key Page} {page : Page} {f : Key File} {p i : Nat} {byte : UInt8} {memory : Memory}

/-- A page that is stained, though nothing was stored into it, did not leave its frame. -/
theorem Step.pageHas_of_stained (h : Step effects x v x' v') (hcoherent : Coherent x v)
    (hunstored : ∀ offset data, .stored key offset data ∉ effects) (hstained : v'.Stained key) :
    v.Stained key ∧ ∀ {i byte}, v.PageHas key i byte → v'.PageHas key i byte := by
  have hbefore := (h.stained_old hcoherent hstained).resolve_right fun ⟨offset, data, he⟩ =>
    hunstored offset data he
  refine ⟨hbefore, fun {i byte} ⟨page, hpage, hbyte⟩ => ?_⟩
  have hpresent : page.frame ≠ none := fun habsent => hcoherent.not_stained_of_absent hpage habsent hbefore
  cases h.fate hcoherent key with
  | absent hnone => cases hpage.symm.trans hnone
  | kept hold hnew _ hbytes =>
      cases hpage.symm.trans hold
      obtain ⟨f, hframe⟩ := Option.ne_none_iff_exists'.1 hpresent
      refine ⟨page, hnew, ?_⟩
      rw [← hbyte]
      simp only [View.bytesOf, hframe, hbytes f hframe]
  | stored => exact absurd (List.mem_singleton_self _) (hunstored _ _)
  | evicted _ _ _ _ _ hnew =>
      exact absurd hstained ((h.coherent hcoherent).not_stained_of_absent hnew rfl)
  | broughtIn hold habsent =>
      cases hpage.symm.trans hold
      exact absurd habsent hpresent
  | added _ hnone => cases hpage.symm.trans hnone
  | copied _ hnone => cases hpage.symm.trans hnone
  | removedAbsent _ _ hgone =>
      obtain ⟨f, o, howner, rfl, -⟩ := hstained
      obtain ⟨_, -, hpage', -⟩ := (h.coherent hcoherent).residency.linked howner
      cases hgone.symm.trans hpage'
  | removedPresent _ _ _ _ _ hgone =>
      obtain ⟨f, o, howner, rfl, -⟩ := hstained
      obtain ⟨_, -, hpage', -⟩ := (h.coherent hcoherent).residency.linked howner
      cases hgone.symm.trans hpage'

theorem Steps.pageHas_of_stained (h : Steps effects x v x' v') (hcoherent : Coherent x v)
    (hunstored : ∀ offset data, .stored key offset data ∉ effects) (hstained : v'.Stained key) :
    v.Stained key ∧ ∀ {i byte}, v.PageHas key i byte → v'.PageHas key i byte := by
  induction h with
  | nil => exact ⟨hstained, id⟩
  | cons head tail ih =>
      obtain ⟨hstained₁, hkept⟩ := ih (head.coherent hcoherent)
        (fun offset data he => hunstored offset data (List.mem_append_right _ he)) hstained
      obtain ⟨hbefore, hkept₁⟩ := head.pageHas_of_stained hcoherent
        (fun offset data he => hunstored offset data (List.mem_append_left _ he)) hstained₁
      exact ⟨hbefore, fun hhas => hkept (hkept₁ hhas)⟩

theorem Step.stored_of_label (h : Step effects x v x' v') (hcoherent : Coherent x v) {offset : Nat}
    {data : Array UInt8} (he : .stored key offset data ∈ effects) :
    effects = [.stored key offset data] ∧ v'.Stained key ∧ ∃ page, ∃ bytes : PageBytes,
      v.page key = some page ∧ v'.page key = some page ∧
        v'.bytesOf page = bytes.overlay offset data := by
  cases h.fate hcoherent key with
  | absent _ _ hunset | kept _ _ hunset => exact absurd rfl (hunset _ he)
  | stored hold hnew hframe _ hbytes' hstained =>
      cases List.mem_singleton.1 he
      exact ⟨rfl, hstained, _, _, hold, hnew, View.bytesOf_of_frame hframe hbytes'⟩
  | evicted => cases he
  | _ => cases List.mem_singleton.1 he

/-- What is stored into a page is in it at the end, if the page is stained then. -/
theorem Steps.pageHas_of_stored {offset : Nat} {data : Array UInt8}
    (h : Steps [.stored key offset data] x v x' v') (hcoherent : Coherent x v)
    (hstained : v'.Stained key) (hlt : i < data.size) (hfits : offset + i < pageSize) :
    v'.PageHas key (offset + i) data[i] := by
  generalize hlabels : [Effect.stored key offset data] = labels at h
  induction h with
  | nil => cases hlabels
  | @cons effects rest x x₁ x' v v₁ v' head tail ih =>
      have hcoherent₁ := head.coherent hcoherent
      rcases List.append_eq_singleton_iff.1 hlabels.symm with ⟨rfl, rfl⟩ | ⟨rfl, rfl⟩
      · exact ih hcoherent₁ hstained rfl
      refine (tail.pageHas_of_stained hcoherent₁ (fun _ _ he => by cases he) hstained).2 ?_
      obtain ⟨-, -, page, bytes, -, hnew, hbytes⟩ :=
        head.stored_of_label hcoherent (List.mem_singleton_self _)
      refine ⟨page, hnew, ?_⟩
      rw [hbytes, Vector.getElem?_eq_getElem hfits, Bytes.getElem_overlay,
        if_pos (Nat.le_add_right _ _), Nat.add_sub_cancel_left, Array.getElem?_eq_getElem hlt,
        Option.getD_some]

/-- A byte of a page that covers a position is followed, if the file has it or the page is stained. -/
theorem View.PageHas.followed (h : v.PageHas key i byte) (hcovers : v.Covers key f p i)
    (hclean : ¬v.Stained key → v.byteAt? f p = some byte) :
    ∃ memory, (memory key)[i]? = some byte ∧ Followed memory v key f p i := by
  obtain ⟨page, hpage, hshown⟩ := h
  exact ⟨fun _ => v.bytesOf page, hshown, .mapped hshown hcovers hpage hshown hclean⟩

end

/-! ### Stained places -/

def View.StainedAt (v : View) (s : Key AddressSpace) (n : PageNumber) : Prop :=
  ∃ key, v.pageOf s n = some key ∧ v.Stained key

/-- The page at an address is stained, and has a byte there. -/
def View.Holds (v : View) (s : Key AddressSpace) (a : VirtualAddress) (byte : UInt8) : Prop :=
  ∃ key, v.pageOf s a.number = some key ∧ v.Stained key ∧ v.PageHas key a.pageOffset byte

section

variable {α : Type} {m m' : Machine} {s s' : Key AddressSpace} {request : Request α} {answer : α}
  {key : Key Page} {n : PageNumber} {i : Nat} {byte b : UInt8} {effects : List Effect} {a : VirtualAddress}
  {page : Page} {slice : FileSlice} {f : Key File} {p : Nat}

theorem Space.Stored.pos_of_stored {at_ offset : Nat} {data stored : Array UInt8}
    (h : Stored s at_ data effects m m') (he : .stored key offset stored ∈ effects) :
    0 < stored.size := by
  induction h with
  | passed h => cases h.passing _ he
  | store hpassed _ _ hsome _ _ _ ih =>
      rcases List.mem_append.1 he with he | he
      · cases hpassed.passing _ he
      rcases List.mem_cons.1 he with he | he
      · cases he
        exact hsome
      · exact ih he

theorem Outcome.not_sets (h : Outcome s' m m' request answer effects) (hsound : Sound none m)
    (hwrites : ¬request.Writes) (hpage : m.view.page key = some page) :
    ∀ e ∈ effects, ¬Effect.Sets key e := fun _ he hsets =>
  hwrites (h.writes_of_sets he hsets (hsound.coherent.placement.created hpage))

/-- Nothing is stored into a page but by a write of its address space. -/
theorem Outcome.not_stored (h : Outcome s' m m' request answer effects) (hsound : Sound none m)
    (hplace : m.view.pageOf s n = some key) (hwrites : s' = s → ¬request.Writes) (offset : Nat)
    (data : Array UInt8) : .stored key offset data ∉ effects := by
  intro he
  cases h.labels he with
  | stored hwrites' =>
      cases h with
      | stored _ _ _ hstored =>
          obtain ⟨hs, -⟩ := hstored.hits hsound hplace he
            ⟨rfl, Nat.le_refl _, Nat.lt_add_of_pos_right (hstored.pos_of_stored he)⟩
          exact hwrites hs hwrites'
      | passed _ hpassed => cases hpassed.passing _ he
      | _ => cases hwrites'

/-- A place that is stained after a request that does not write to it was stained before, and has the bytes
that it had. -/
theorem Outcome.pageHas_of_stainedAt (h : Outcome s' m m' request answer effects) (hsound : Sound none m)
    (hwrites : s' = s → ¬request.Writes) (hplace : m.view.pageOf s n = some key)
    (hstained : m'.view.StainedAt s n) : m'.view.pageOf s n = some key ∧ m'.view.Stained key ∧
      m.view.Stained key ∧ ∀ {i byte}, m.view.PageHas key i byte → m'.view.PageHas key i byte := by
  obtain ⟨key', hplace', hstained⟩ := hstained
  cases (h.pageOf_eq hsound hplace (by rw [hplace']; exact Option.some_ne_none _)).symm.trans hplace'
  exact ⟨hplace', hstained, h.course.steps.pageHas_of_stained hsound.coherent
    (h.not_stored hsound hplace hwrites) hstained⟩

/-- What a stained page has it has as long as it is stained and nothing is written. -/
theorem Outcome.holds (h : Outcome s' m m' request answer effects) (hsound : Sound none m)
    (hwrites : s' = s → ¬request.Writes) (hholds : m.view.Holds s a byte)
    (hstained : m'.view.StainedAt s a.number) : m'.view.Holds s a byte := by
  obtain ⟨key, hplace, -, hhas⟩ := hholds
  obtain ⟨hplace', hstained', -, hkept⟩ := h.pageHas_of_stainedAt hsound hwrites hplace hstained
  exact ⟨key, hplace', hstained', hkept hhas⟩

theorem Space.Stored.passed_of_empty {at_ : Nat} {data : Array UInt8} (h : Stored s at_ data effects m m')
    (hempty : data.size = 0) : Passed s effects m m' := by
  cases h with
  | passed h => exact h
  | store _ _ _ hsome =>
      rw [Array.size_append] at hempty
      omega

/-- A byte that was stored is in its page as long as the page is stained. -/
theorem Space.Stored.holds (h : Stored s a.toNat #[byte] effects m m') (hsound : Sound none m)
    (hstained : m'.view.StainedAt s a.number) : m'.view.Holds s a byte := by
  generalize hdata : #[byte] = data at h
  generalize hposition : a.toNat = position at h
  cases h with
  | passed => cases hdata
  | @store n offset key data more _ _ _ m₁ m₂ _ hpassed hplace₁ hfits hsome hspaces hcourse hrest =>
      have hsizes := congrArg Array.size hdata
      rw [Array.size_append, List.size_toArray, List.length_singleton] at hsizes
      obtain rfl : more = #[] := Array.eq_empty_of_size_eq_zero (by omega)
      rw [Array.append_empty] at hdata
      subst hdata
      obtain ⟨rfl, rfl⟩ := Address.eq_of_position hposition hfits
      have hsound₁ := hpassed.sound hsound
      have hlater : Outcome s m₂ m' (.readUser a 0) (#[], .ok ()) _ :=
        .passed trivial (hrest.passed_of_empty rfl)
      rw [← view_pageOf_congr hspaces] at hplace₁
      obtain ⟨hplace, hstained', hstained₂, hkept⟩ :=
        hlater.pageHas_of_stainedAt (hcourse.sound hsound₁) (fun _ => id) hplace₁ hstained
      exact ⟨key, hplace, hstained',
        hkept (hcourse.steps.pageHas_of_stored hsound₁.coherent hstained₂ Nat.one_pos hfits)⟩

theorem Request.holds_of_writeUser
    (hrun : Returns ((Request.writeUser a #[byte]).perform? s) m (some (.ok ())) m')
    (hsound : Sound none m) (hstained : m'.view.StainedAt s a.number) : m'.view.Holds s a byte := by
  obtain ⟨_, stored, -, -, hok, hstored⟩ := answers_writeUser hsound (Request.returns_perform?.1 hrun).2
  rw [hok rfl, Array.extract_size] at hstored
  exact hstored.holds hsound hstained

/-- A byte that is seen in a page that is stained is the one that the page had. -/
theorem Space.Seen.eq_of_stained (h : Seen s a.toNat b m m') (hsound : Sound none m)
    (hholds : m.view.Holds s a byte) (hstained : m'.view.StainedAt s a.number) : b = byte := by
  obtain ⟨key, hplace, -, hhas⟩ := hholds
  obtain ⟨m₁, _, _, page, hbefore, hafter, hpage, -, hshown⟩ := h.exists_page hsound hplace
  have hearlier : Outcome s m m₁ (.readUser a 0) (#[], .ok ()) _ := .passed trivial hbefore
  have hlater : Outcome s m₁ m' (.readUser a 0) (#[], .ok ()) _ := .passed trivial hafter
  obtain ⟨page₀, hpage₀, -⟩ := hsound.coherent.placement.placed hplace
  have hplace₁ := (hbefore.page_kept hsound hpage₀).2 _ _ hplace
  obtain ⟨-, -, hstained₁, -⟩ :=
    hlater.pageHas_of_stainedAt (hbefore.sound hsound) (fun _ => id) hplace₁ hstained
  obtain ⟨-, -, -, hkept⟩ := hearlier.pageHas_of_stainedAt hsound (fun _ => id) hplace
    ⟨key, hplace₁, hstained₁⟩
  obtain ⟨_, hpage', hhas'⟩ := hkept hhas
  cases hpage.symm.trans hpage'
  exact Option.some.inj (hshown.symm.trans hhas')

/-- A byte of a mapped page is in the file when no page is stained any more, if no other page was. -/
theorem Outcome.byteAt?_of_holds (h : Outcome s' m m' request answer effects) (hsound : Sound none m)
    (hforks : ¬request.Forks) (hwrites : ¬request.Writes) (hmaps : ¬request.MapsFile f answer)
    (hholds : m.view.Holds s a byte) (hplace : m.view.pageOf s a.number = some key)
    (hcovers : m.view.Covers key f p a.pageOffset) (hreaches : m.view.Reaches f p)
    (honly : ∀ {key'}, m.view.Stained key' → key' = key) (hclean : ∀ key, ¬m'.view.Stained key) :
    m'.view.byteAt? f p = some byte := by
  obtain ⟨_, hplace', hstained, hhas⟩ := hholds
  cases hplace.symm.trans hplace'
  have ⟨page, hpage, _⟩ := hhas
  obtain ⟨memory, hbyte, hfollowed⟩ := hhas.followed hcovers fun hnot => absurd hstained hnot
  have hundisturbed : Undisturbed (some key) m.view f p effects := by
    refine ⟨fun he => h.not_added hmaps _ _ _ he, fun he => ?_, fun he => ?_⟩
    · cases h.labels he with
      | copied hforks' => exact absurd hforks' hforks
    · cases h.labels he with
      | stored hwrites' => exact absurd hwrites' hwrites
  have hlater := h.course.steps.followed hsound.coherent hreaches
    (fun _ _ _ hstained => congrArg some (honly hstained).symm) hundisturbed hfollowed
  have hsame : memory.after effects key = memory key :=
    Memory.after_of_unset (h.not_sets hsound hwrites hpage)
  cases hlater with
  | mapped hbyte' _ _ _ hfile => rw [hfile (hclean key), ← hbyte', hsame, hbyte]
  | gone hbyte' _ _ hfile => rw [hfile, ← hbyte', hsame, hbyte]

/-- A byte past the part of a file that is seen in a page that was evicted is zero. -/
theorem Space.Seen.eq_zero (h : Seen s a.toNat b m m') (hsound : Sound none m)
    (hplace : m.view.pageOf s a.number = some key) (hpage : m.view.page key = some page)
    (habsent : page.frame = none) (hwindow : page.contents.window? = some slice)
    (hpast : slice.readBytes ≤ a.pageOffset) : b = 0 := by
  obtain ⟨m₁, effects, _, page₁, hbefore, -, hpage₁, -, hshown⟩ := h.exists_page hsound hplace
  have hsteps := hbefore.course.steps
  have htail : TailAt (fun _ => .zeros pageSize) key m.view := by
    refine ⟨fun {page' own i byte} hpage' hwindow' hi hbyte => .inl ?_⟩
    cases hpage.symm.trans hpage'
    exact View.eq_zero_of_absent habsent hwindow' hi hbyte
  have hearlier : Outcome s m m₁ (.readUser a 0) (#[], .ok ()) effects := .passed trivial hbefore
  have hzero := (hsteps.tailAt hsound.coherent (fun _ he => by cases hbefore.passing _ he) htail).bytes hpage₁
    ((hsteps.window?_eq hsound.coherent hpage hpage₁).trans hwindow) hpast hshown
  rw [Memory.after_of_unset (hearlier.not_sets hsound id hpage),
    Vector.getElem?_eq_getElem a.pageOffset_lt, Bytes.getElem_zeros] at hzero
  exact hzero.elim id fun he => (Option.some.inj he).symm

/-- A byte that is seen in a page over a position is the one that is followed. -/
theorem Space.Seen.eq_of_followed (h : Seen s a.toNat b m m') (hsound : Sound none m)
    (hplace : m.view.pageOf s a.number = some key) (hreaches : m.view.Reaches f p)
    (hquiet : Quiet (some key) m.view f p) {memory : Memory}
    (hmemory : (memory key)[a.pageOffset]? = some byte)
    (hfollowed : Followed memory m.view key f p a.pageOffset) : b = byte := by
  obtain ⟨m₁, effects, _, page₁, hbefore, -, hpage₁, -, hshown⟩ := h.exists_page hsound hplace
  obtain ⟨page, hpage, -⟩ := hsound.coherent.placement.placed hplace
  have hearlier : Outcome s m m₁ (.readUser a 0) (#[], .ok ()) effects := .passed trivial hbefore
  have hundisturbed : Undisturbed (some key) m.view f p effects := by
    refine ⟨fun he => ?_, fun he => ?_, fun he => ?_⟩ <;> cases hbefore.passing _ he
  cases hbefore.course.steps.followed hsound.coherent hreaches hquiet hundisturbed hfollowed with
  | mapped hbyte' _ hpage' hshown' =>
      cases hpage₁.symm.trans hpage'
      rw [Memory.after_of_unset (hearlier.not_sets hsound id hpage), hmemory] at hbyte'
      exact Option.some.inj (hshown.symm.trans (hshown'.trans hbyte'.symm))
  | gone _ hgone => cases hpage₁.symm.trans hgone

/-- A byte of the part of a file that is seen in a page that was evicted is the one of the file. -/
theorem Space.Seen.eq_of_byteAt? (h : Seen s a.toNat b m m') (hsound : Sound none m)
    (hplace : m.view.pageOf s a.number = some key) (hpage : m.view.page key = some page)
    (habsent : page.frame = none) (hcovers : m.view.Covers key f p a.pageOffset)
    (hreaches : m.view.Reaches f p) (hclean : ∀ key, ¬m.view.Stained key)
    (hbyte : m.view.byteAt? f p = some byte) : b = byte := by
  have hhas : m.view.PageHas key a.pageOffset byte := by
    obtain ⟨_, slice, hpage', hwindow, rfl, hp, hi⟩ := hcovers
    cases hpage.symm.trans hpage'
    refine ⟨page, hpage, ?_⟩
    rw [View.bytesOf_of_absent habsent, View.contentsBytes_of_window hwindow]
    exact View.getElem?_shown hp hi hbyte
  obtain ⟨memory, hmemory, hfollowed⟩ := hhas.followed hcovers fun _ => hbyte
  exact h.eq_of_followed hsound hplace hreaches (fun _ _ _ hstained => absurd hstained (hclean _))
    hmemory hfollowed

end

section

variable {start m : Machine} {history : List Done} {s : Key AddressSpace} {n : PageNumber}
  {key : Key Page} {f : Key File} {p : Nat}

/-- A position of a file that can be reached at the start can be reached all along. -/
theorem Run.reaches_file (h : Run start history m) (hreaches : start.view.Reaches f p) :
    m.view.Reaches f p := by
  obtain ⟨_, hcourse⟩ := h.reaches.course h.fresh.sound
  exact hreaches.of_since hcourse.steps.filesSince

/-- Whether the page in a place of an address space is in a frame and was written to since it came
there. -/
def Machine.isStained (m : Machine) (s : Key AddressSpace) (n : PageNumber) : Bool :=
  m.listed.any fun slot => slot.owner.any fun o =>
    m.view.pageOf s n == some o.page && m.view.isDirty o.directory o.va

theorem Machine.stainedAt_of_isStained (h : m.isStained s n = true) (hsound : Sound none m) :
    m.view.StainedAt s n := by
  simp only [isStained, List.any_eq_true, Option.any_eq_true, Bool.and_eq_true, beq_iff_eq] at h
  obtain ⟨slot, hslot, o, howner, hplace, hdirty⟩ := h
  refine ⟨o.page, hplace, slot.frame, o, (ownerIn_eq_some hsound.tidy.nodup).2 ?_, rfl, hdirty⟩
  rwa [← howner]

theorem Machine.isStained_of_stained (hsound : Sound none m) (hplace : m.view.pageOf s n = some key)
    (hstained : m.view.Stained key) : m.isStained s n = true := by
  obtain ⟨f, o, howner, rfl, hdirty⟩ := hstained
  simp only [isStained, List.any_eq_true, Option.any_eq_true, Bool.and_eq_true, beq_iff_eq]
  exact ⟨_, (ownerIn_eq_some hsound.tidy.nodup).1 howner, o, rfl, hplace, hdirty⟩

theorem Machine.exists_slot_of_stained (h : m.view.Stained key) :
    ∃ slot ∈ m.listed, ∃ o, slot.owner = some o ∧ o.page = key := by
  obtain ⟨f, o, howner, hkey, -⟩ := h
  obtain ⟨slot, hslot, he⟩ := Option.map_eq_some_iff.1 howner
  exact ⟨slot, List.mem_of_find?_eq_some hslot, o, he, hkey⟩

/-- If only the page in one place owns a frame, it is the only one that may be stained. -/
theorem Machine.eq_of_stained (h : ∀ slot ∈ m.listed, ∀ o, slot.owner = some o →
    m.view.pageOf s n = some o.page) (hplace : m.view.pageOf s n = some key) {key' : Key Page}
    (hstained : m.view.Stained key') : key' = key := by
  obtain ⟨slot, hslot, o, howner, rfl⟩ := exists_slot_of_stained hstained
  exact Option.some.inj ((h slot hslot o howner).symm.trans hplace)

theorem Machine.not_stained (h : ∀ slot ∈ m.listed, slot.owner = none) (key : Key Page) :
    ¬m.view.Stained key := by
  intro hstained
  obtain ⟨slot, hslot, _, howner, -⟩ := exists_slot_of_stained hstained
  cases (h slot hslot).symm.trans howner

end

end DemandPaging
