import DemandPaging.Proofs.AnonymousMemory
import DemandPaging.Proofs.MappedFile
import DemandPaging.Proofs.Space.RegionPages

/-!
An address space that keeps its files to itself.

What a process finds in its memory may come from a file, and the file may be changed behind its back:
by another address space that maps it, by a copy of the address space, or through a second mapping. If
nothing of that kind happens, the pages show what the process stored there last, wherever they are,
and a file shows it as soon as its page is written back. There is one exception. The last page of a
mapping may reach past the part of the file that it shows; what is stored there belongs to no file, and
is zero again when the page was evicted.

All this is said of the pages of one address space, and kept request by request. Two kinds of files
matter: its own, which nobody else maps, and those of its segments, which nobody maps at all.
-/

namespace DemandPaging

open Machine Space

/-! ### Pages of one address space -/

namespace Request

variable {α : Type}

def MapsFile (f : Key File) (request : Request α) (answer : α) : Prop :=
  ∃ start length offset, request.Maps f start length offset answer

def Makes (s : Key AddressSpace) : Request α → α → Prop
  | .fork _, .ok child => child = s
  | _, _ => False

end Request

section

variable {α : Type} {m m' : Machine} {s s' : Key AddressSpace} {request : Request α} {answer : α}
  {effects : List Effect} {n : PageNumber} {key : Key Page}

/-- A request to another address space leaves pages and regions in their places. -/
theorem Outcome.elsewhere (h : Outcome s' m m' request answer effects) (hs : s ≠ s')
    (hmakes : ¬request.Makes s answer) :
    m'.view.pageOf s = m.view.pageOf s ∧ m'.view.regionOf s = m.view.regionOf s := by
  have honly : PagesOnly s' m m' →
      m'.view.pageOf s = m.view.pageOf s ∧ m'.view.regionOf s = m.view.regionOf s :=
    fun honly => ⟨honly.elsewhere s hs, congrFun honly.regionOf s⟩
  have hmapped : ∀ {f offset start length writable},
      FileMapped s' f offset start length writable effects m m' →
        m'.view.pageOf s = m.view.pageOf s ∧ m'.view.regionOf s = m.view.regionOf s := by
    intro f offset start length writable hmapped
    obtain ⟨handle, -, hregionOf⟩ := hmapped.regionOf_eq
    obtain ⟨_, _, _, _, _, -, -, -, hinserted, -, -, hview⟩ := hmapped.made
    refine ⟨?_, by rw [hregionOf, Function.update_of_ne hs]⟩
    rw [hview]
    exact hinserted.pagesOnly.elsewhere s hs
  cases h with
  | passed _ h => exact honly h.pagesOnly
  | stored _ _ _ h => exact honly h.pagesOnly
  | loaded h =>
      obtain ⟨_, _, _, _, _, _, _, hinserted⟩ := h.made
      exact honly hinserted.pagesOnly
  | mapped h => exact hmapped h
  | descriptorMapped _ h => exact hmapped h
  | unmapped _ h => exact ⟨h.elsewhere s hs, by rw [h.regionOf, Function.update_of_ne hs]⟩
  | nothingUnmapped _ h => exact honly h.pagesOnly
  | exited h => exact ⟨(h.elsewhere s hs).1, (h.elsewhere s hs).2.1⟩
  | dropped h => exact ⟨(h.elsewhere s hs).1, (h.elsewhere s hs).2.1⟩
  | forked h =>
      have hchild := h.elsewhere s fun he => hmakes he.symm
      exact ⟨hchild.1, hchild.2.1⟩
  | forkFailed h => exact ⟨by rw [h.pageOf], by rw [h.regionOf]⟩

/-- A page of an address space that is no copy and is not copied was there before, or it was added at
its own request. -/
theorem Outcome.place_old_or (h : Outcome s' m m' request answer effects) (hsound : Sound none m)
    (hforks : s' = s → ¬request.Forks) (hmakes : ¬request.Makes s answer)
    (hplace : m'.view.pageOf s n = some key) :
    (∀ source, .copied source key ∉ effects) ∧
      (m.view.pageOf s n = some key ∨ s' = s ∧ m.view.page key = none) := by
  have hold : m.view.page key ≠ none → m.view.pageOf s n = some key := fun hsome => by
    obtain ⟨page, hpage⟩ := Option.ne_none_iff_exists'.1 hsome
    exact (h.course.steps.page_old (hsound.coherent.placement.created hpage)).2 s n hplace
  have hthere : m.view.pageOf s n = some key → ∀ source, .copied source key ∉ effects := by
    intro hbefore source he
    obtain ⟨page, hpage, -⟩ := hsound.coherent.placement.placed hbefore
    cases h.labels he with
    | copied _ _ hnew => exact Nat.not_lt.2 hnew (hsound.coherent.placement.created hpage)
  by_cases hs : s' = s
  · refine ⟨fun source he => ?_, ?_⟩
    · cases h.labels he with
      | copied hforked => exact hforks hs hforked
    · by_cases hnone : m.view.page key = none
      · exact .inr ⟨hs, hnone⟩
      · exact .inl (hold hnone)
  · rw [(h.elsewhere (Ne.symm hs) hmakes).1] at hplace
    exact ⟨hthere hplace, .inl hplace⟩

/-- A page with a window had it before, or the file was mapped just now. -/
theorem Outcome.window_old_or (h : Outcome s' m m' request answer effects) (hsound : Sound none m)
    (hforks : s' = s → ¬request.Forks) (hmakes : ¬request.Makes s answer)
    (hplace : m'.view.pageOf s n = some key) {page' : Page} (hpage' : m'.view.page key = some page')
    {slice : FileSlice} (hwindow : page'.contents.window? = some slice) :
    (m.view.pageOf s n = some key ∧ ∃ page, m.view.page key = some page ∧
        page.contents.window? = some slice) ∨
      s' = s ∧ request.MapsFile slice.handle.file answer := by
  have hsteps := h.course.steps
  obtain ⟨hcopied, hbefore | ⟨hs, hnone⟩⟩ := h.place_old_or hsound hforks hmakes hplace
  · obtain ⟨page, hpage, -⟩ := hsound.coherent.placement.placed hbefore
    exact .inl ⟨hbefore, page, hpage, (hsteps.window?_eq hsound.coherent hpage hpage').symm.trans hwindow⟩
  rcases hsteps.page_old_or hsound.coherent hpage' with hsome | ⟨source, bytes, he, hpart⟩ | ⟨source, he⟩
  · exact absurd hnone hsome
  · have hpart' : page'.contents.part? = some (slice.handle.file, slice.offset) := by
      rw [Contents.part?, hwindow, Option.map_some]
    obtain ⟨other, hother | hother, hfile, -⟩ := Contents.part?_eq_some.1 (hpart.symm.trans hpart')
    · cases hother
      cases h.labels he with
      | added _ _ hmaps => exact .inr ⟨hs, hfile ▸ hmaps other rfl⟩
    · cases hother
  · exact absurd he (hcopied source)

end

section

variable {effects : List Effect} {x x' : Option FrameNumber} {v v' : View} {key : Key Page}
  {page page' : Page} {slice : FileSlice}

/-- A page that waits for its segment did so before, or was added for it. -/
theorem Step.segment?_old_or (h : Step effects x v x' v') (hcoherent : Coherent x v)
    (hcopied : ∀ source, .copied source key ∉ effects) (hpage' : v'.page key = some page')
    (hslice : page'.contents.segment? = some slice) :
    (∃ page, v.page key = some page ∧ page.contents.segment? = some slice) ∨
      ∃ bytes, .added key (.loader (.segment slice)) bytes ∈ effects := by
  by_cases hnone : v.page key = none
  · cases h.fate hcoherent key with
    | added _ _ hadded hcontents =>
        cases hpage'.symm.trans hadded
        rw [hcontents] at hslice
        obtain rfl := Contents.eq_of_segment? hslice
        exact .inr ⟨_, List.mem_singleton_self _⟩
    | copied => exact absurd (List.mem_singleton_self _) (hcopied _)
    | absent _ hnone' => cases hpage'.symm.trans hnone'
    | kept hold => cases hnone.symm.trans hold
    | stored hold => cases hnone.symm.trans hold
    | evicted hold => cases hnone.symm.trans hold
    | broughtIn hold => cases hnone.symm.trans hold
    | removedAbsent hold => cases hnone.symm.trans hold
    | removedPresent hold => cases hnone.symm.trans hold
  · obtain ⟨page, hpage⟩ := Option.ne_none_iff_exists'.1 hnone
    exact .inl ⟨page, hpage, h.segment?_eq hcoherent hpage hpage' hslice⟩

theorem Steps.segment?_old_or (h : Steps effects x v x' v') (hcoherent : Coherent x v)
    (hcopied : ∀ source, .copied source key ∉ effects) (hpage' : v'.page key = some page')
    (hslice : page'.contents.segment? = some slice) :
    (∃ page, v.page key = some page ∧ page.contents.segment? = some slice) ∨
      ∃ bytes, .added key (.loader (.segment slice)) bytes ∈ effects := by
  induction h with
  | nil => exact .inl ⟨page', hpage', hslice⟩
  | cons head tail ih =>
      rcases ih (head.coherent hcoherent) (fun source he => hcopied source (List.mem_append_right _ he))
        hpage' with ⟨page₁, hpage₁, hslice₁⟩ | ⟨bytes, he⟩
      · exact (head.segment?_old_or hcoherent
          (fun source he => hcopied source (List.mem_append_left _ he)) hpage₁ hslice₁).imp_right
            fun ⟨bytes, he⟩ => ⟨bytes, List.mem_append_left _ he⟩
      · exact .inr ⟨bytes, List.mem_append_right _ he⟩

/-! ### Past the part of a file -/

/-- Past the part of the file that it shows a page has the bytes of memory, or zeros again. -/
structure TailAt (memory : Memory) (key : Key Page) (v : View) : Prop where
  bytes : ∀ {page own i byte}, v.page key = some page → page.contents.window? = some own →
    own.readBytes ≤ i → (v.bytesOf page)[i]? = some byte →
      byte = 0 ∨ (memory key)[i]? = some byte

variable {memory : Memory} {own : FileSlice} {i : Nat} {byte : UInt8}

theorem View.eq_zero_of_absent (hframe : page.frame = none) (hwindow : page.contents.window? = some own)
    (hi : own.readBytes ≤ i) (hbyte : (v.bytesOf page)[i]? = some byte) : byte = 0 := by
  rw [View.bytesOf_of_absent hframe, View.contentsBytes_of_window hwindow] at hbyte
  obtain ⟨hlt, rfl⟩ := Vector.getElem?_eq_some_iff.1 hbyte
  unfold View.shown
  cases v.file own.handle.file with
  | none => exact Bytes.getElem_zeros hlt
  | some file => exact (FileSlice.getElem_bytesIn own file hlt).trans (if_neg (Nat.not_lt.2 hi))

theorem Step.tailAt (h : Step effects x v x' v') (hcoherent : Coherent x v)
    (hcopied : ∀ source, .copied source key ∉ effects) (htail : TailAt memory key v) :
    TailAt (memory.after effects) key v' := by
  refine ⟨fun {page' own i byte} hpage' hwindow hi hbyte => ?_⟩
  by_cases habsent : page'.frame = none
  · exact .inl (View.eq_zero_of_absent habsent hwindow hi hbyte)
  cases h.fate hcoherent key with
  | absent _ hnone => cases hpage'.symm.trans hnone
  | kept hold hnew hunset hbytes =>
      cases hpage'.symm.trans hnew
      rw [Memory.after_of_unset hunset]
      refine htail.bytes hold hwindow hi ?_
      obtain ⟨f, hframe⟩ := Option.ne_none_iff_exists'.1 habsent
      rw [← hbyte]
      simp only [View.bytesOf, hframe, hbytes f hframe]
  | @stored _ f bytes offset data hold hnew hframe hbytes hbytes' =>
      cases hpage'.symm.trans hnew
      rw [View.bytesOf_of_frame hframe hbytes'] at hbyte
      obtain ⟨hlt, rfl⟩ := Vector.getElem?_eq_some_iff.1 hbyte
      rw [show memory.after [.stored key offset data] key = (memory key).overlay offset data from
        Function.update_self _ _ _, Vector.getElem?_eq_getElem hlt, Bytes.getElem_overlay,
        Bytes.getElem_overlay]
      have hbefore : bytes[i] = 0 ∨ (memory key)[i]? = some bytes[i] := htail.bytes hold hwindow hi
        (by rw [View.bytesOf_of_frame hframe hbytes, Vector.getElem?_eq_getElem hlt])
      rw [Vector.getElem?_eq_getElem hlt, Option.some.injEq] at hbefore
      split
      · cases data[i - offset]? with
        | none => exact hbefore.imp_right (congrArg some)
        | some stored => exact .inr rfl
      · exact hbefore.imp_right (congrArg some)
  | evicted _ _ _ _ _ hnew =>
      cases hpage'.symm.trans hnew
      exact absurd rfl habsent
  | broughtIn hold hframe hnew hbytes' =>
      cases hpage'.symm.trans hnew
      rw [View.bytesOf_of_frame rfl hbytes', ← View.bytesOf_of_absent hframe] at hbyte
      exact .inl (View.eq_zero_of_absent hframe ((Contents.window?_settled _).symm.trans hwindow) hi
        hbyte)
  | added _ _ hadded _ hframe =>
      cases hpage'.symm.trans hadded
      exact absurd hframe habsent
  | copied => exact absurd (List.mem_singleton_self _) (hcopied _)
  | removedAbsent _ _ hnone => cases hpage'.symm.trans hnone
  | removedPresent _ _ _ _ _ hnone => cases hpage'.symm.trans hnone

theorem Steps.tailAt (h : Steps effects x v x' v') (hcoherent : Coherent x v)
    (hcopied : ∀ source, .copied source key ∉ effects) (htail : TailAt memory key v) :
    TailAt (memory.after effects) key v' := by
  induction h generalizing memory with
  | nil => exact htail
  | cons head tail ih =>
      rw [Memory.after_append]
      exact ih (head.coherent hcoherent) (fun source he => hcopied source (List.mem_append_right _ he))
        (head.tailAt hcoherent (fun source he => hcopied source (List.mem_append_left _ he)) htail)

end

/-! ### What the pages show -/

/-- The pages of an address space show memory. Of the files, some are its own and some are mapped by
nobody. -/
structure Mirrors (s : Key AddressSpace) (own still : Key File → Prop) (memory : Memory)
    (v : View) : Prop where
  uncovered : ∀ {key f p i}, v.Covers key f p i → ¬still f
  owned : ∀ {n key page slice}, v.pageOf s n = some key → v.page key = some page →
    page.contents.window? = some slice → own slice.handle.file
  followed : ∀ {key f p i}, own f → v.Covers key f p i →
    v.Reaches f p ∧ (∃ n, v.pageOf s n = some key) ∧ Followed memory v key f p i
  sole : ∀ {key key' f p i i'}, own f → v.Covers key f p i → v.Covers key' f p i' → key = key'
  tail : ∀ {n key}, v.pageOf s n = some key → TailAt memory key v
  anonymous : ∀ {n key page}, v.pageOf s n = some key → v.page key = some page →
    page.contents.settled.kind = .anonymous → v.bytesOf page = memory key
  segments : ∀ {n key page slice}, v.pageOf s n = some key → v.page key = some page →
    page.contents.segment? = some slice → still slice.handle.file

/-- The request leaves the files of an address space to it: nobody else maps its own files, nobody
maps one that is mapped already, and nobody maps those of its segments. It is no fork of the address
space either. -/
structure Request.Respects {α : Type} (s : Key AddressSpace) (own still : Key File → Prop)
    (m : Machine) (s' : Key AddressSpace) (request : Request α) (answer : α) : Prop where
  forks : s' = s → ¬request.Forks
  makes : ¬request.Makes s answer
  sole : ∀ {f}, own f → request.MapsFile f answer → s' = s ∧
    (∀ key p i, ¬m.view.Covers key f p i) ∧
      ∃ file, m.view.file f = some file ∧ file.reachLimit = none ∧ file.reportedLength = none
  unmapped : ∀ {f}, still f → ¬request.MapsFile f answer
  owns : s' = s → ∀ {f}, request.MapsFile f answer → own f
  loads : s' = s → ∀ {f}, request.Loads f answer → still f

theorem View.Covers.offset_eq {v : View} {key : Key Page} {f : Key File} {p i i' : Nat}
    (h : v.Covers key f p i) (h' : v.Covers key f p i') : i = i' := by
  obtain ⟨page, slice, hpage, hslice, -, hp, -⟩ := h
  obtain ⟨_, _, hpage', hslice', -, hp', -⟩ := h'
  cases hpage.symm.trans hpage'
  cases hslice.symm.trans hslice'
  exact Nat.add_left_cancel (hp.trans hp'.symm)

namespace Mirrors

variable {s : Key AddressSpace} {own still : Key File → Prop} {memory : Memory} {v v' : View}
  {effects : List Effect} {x x' : Option FrameNumber} {f : Key File} {p i : Nat} {key : Key Page}

/-- A position of a file of one's own is followed through the page that covers it. -/
theorem undisturbed (h : Mirrors s own still memory v) (hown : own f)
    (hadded : ∀ key slice bytes, .added key (.file slice) bytes ∈ effects → slice.handle.file ≠ f)
    (hcopied : ∀ source copy n, .copied source copy ∈ effects → v.pageOf s n ≠ some source)
    (only : Option (Key Page)) (hsole : ∀ {key i}, v.Covers key f p i → only = some key) :
    Undisturbed only v f p effects ∧ Quiet only v f p := by
  refine ⟨⟨fun he => hadded _ _ _ he, fun he hcovers => ?_, fun _ => hsole⟩,
    fun _ _ hcovers _ => hsole hcovers⟩
  obtain ⟨-, ⟨n, hplace⟩, -⟩ := h.followed hown hcovers
  exact hcopied _ _ n he hplace

theorem covers_of_steps (h : Mirrors s own still memory v) (hsteps : Steps effects x v x' v')
    (hcoherent : Coherent x v) (hown : own f)
    (hadded : ∀ key slice bytes, .added key (.file slice) bytes ∈ effects → slice.handle.file ≠ f)
    (hcopied : ∀ source copy n, .copied source copy ∈ effects → v.pageOf s n ≠ some source)
    (hcovers : v'.Covers key f p i) : v.Covers key f p i := by
  by_cases hsome : ∃ only i, v.Covers only f p i
  · obtain ⟨only, i', honly⟩ := hsome
    exact hsteps.covers_of_undisturbed hcoherent (h.undisturbed hown hadded hcopied
      (some only) fun hcovers => congrArg some (h.sole hown honly hcovers)).1 hcovers
  · exact hsteps.covers_of_undisturbed hcoherent (h.undisturbed hown hadded hcopied
      none fun hcovers => absurd ⟨_, _, hcovers⟩ hsome).1 hcovers

theorem followed_of_covers (h : Mirrors s own still memory v) (hsteps : Steps effects x v x' v')
    (hcoherent : Coherent x v) (hown : own f)
    (hadded : ∀ key slice bytes, .added key (.file slice) bytes ∈ effects → slice.handle.file ≠ f)
    (hcopied : ∀ source copy n, .copied source copy ∈ effects → v.pageOf s n ≠ some source)
    (hcovers : v.Covers key f p i) : Followed (memory.after effects) v' key f p i := by
  obtain ⟨hreaches, -, hfollowed⟩ := h.followed hown hcovers
  obtain ⟨hundisturbed, hquiet⟩ := h.undisturbed hown hadded hcopied (some key)
    fun hcovers' => congrArg some (h.sole hown hcovers hcovers')
  exact hsteps.followed hcoherent hreaches hquiet hundisturbed hfollowed

end Mirrors

section

variable {α : Type} {m m' : Machine} {s s' : Key AddressSpace} {request : Request α} {answer : α}
  {effects : List Effect} {own still : Key File → Prop} {memory : Memory} {kept : SwapSlot → Bool}
  {f : Key File}

theorem Request.Respects.not_copied (h : request.Respects s own still m s' answer)
    (houtcome : Outcome s' m m' request answer effects) (hsound : Sound none m)
    (source copy : Key Page) (n : PageNumber) (he : .copied source copy ∈ effects) :
    m.view.pageOf s n ≠ some source := by
  intro hplace
  cases houtcome.labels he with
  | copied hforks hplace' =>
      exact h.forks (hsound.coherent.placement.alone hplace' hplace) hforks

theorem Outcome.not_added (h : Outcome s' m m' request answer effects)
    (hmaps : ¬request.MapsFile f answer) (key : Key Page) (slice : FileSlice) (bytes : PageBytes)
    (he : .added key (.file slice) bytes ∈ effects) : slice.handle.file ≠ f := by
  rintro rfl
  cases h.labels he with
  | added _ _ hfile => exact hmaps (hfile slice rfl)

/-- A position of a file of one's own is covered by one page, through which it is followed. -/
theorem Mirrors.followed_after (h : Mirrors s own still memory m.view)
    (houtcome : Outcome s' m m' request answer effects) (hsound : Sound none m)
    (hrespects : request.Respects s own still m s' answer) (hown : own f) {key : Key Page}
    {p i : Nat} (hcovers : m'.view.Covers key f p i) :
    (m'.view.Reaches f p ∧ (∃ n, m'.view.pageOf s n = some key) ∧
        Followed (memory.after effects) m'.view key f p i) ∧
      ∀ {key' i'}, m'.view.Covers key' f p i' → key = key' := by
  by_cases hmaps : request.MapsFile f answer
  · obtain ⟨rfl, huncovered, file, hfile, hreach, hlength⟩ := hrespects.sole hown hmaps
    obtain ⟨start, length, offset, hmaps⟩ := hmaps
    obtain ⟨writable, hmapped⟩ := houtcome.fileMapped hmaps
    have hlive := hmapped.live hsound hfile hreach hlength huncovered memory
    obtain ⟨k, hk, rfl, hplace⟩ := hlive.covers hcovers
    obtain ⟨_, hplace', hfollowed, -⟩ := hlive.followed k hk
    cases hplace.symm.trans hplace'
    have hat : Window.inPage (.ofMapping s' f file start offset length) k = i := by
      cases hfollowed with
      | mapped _ hcovers' => exact hcovers'.offset_eq hcovers
      | gone _ hnone =>
          obtain ⟨_, _, hpage, -⟩ := hcovers
          cases hpage.symm.trans hnone
    refine ⟨⟨⟨file, by rw [hmapped.file_eq, hfile], hreach, ?_⟩, ⟨_, hplace⟩, hat ▸ hfollowed⟩, ?_⟩
    · simp only [Window.ofMapping] at hk ⊢
      omega
    · intro key' i' hcovers'
      obtain ⟨k', -, he, hplace'⟩ := hlive.covers hcovers'
      obtain rfl : k = k' := Nat.add_left_cancel he
      exact Option.some.inj (hplace.symm.trans hplace')
  · have hsteps := houtcome.course.steps
    have hold := fun {key i} (hcovers : m'.view.Covers key f p i) =>
      h.covers_of_steps hsteps hsound.coherent hown (houtcome.not_added hmaps)
        (hrespects.not_copied houtcome hsound) hcovers
    have hbefore := hold hcovers
    have hfollowed := h.followed_of_covers hsteps hsound.coherent hown (houtcome.not_added hmaps)
      (hrespects.not_copied houtcome hsound) hbefore
    obtain ⟨hreaches, ⟨n, hplace⟩, -⟩ := h.followed hown hbefore
    obtain ⟨page', _, hpage', -⟩ := hcovers
    obtain ⟨page, hpage, -⟩ := hsound.coherent.placement.placed hplace
    -- a page that is still there is still in its place
    obtain ⟨s'', hplace'⟩ := (hsteps.coherent hsound.coherent).placement.held hpage'
    obtain rfl := hsound.coherent.placement.alone
      ((hsteps.page_old (hsound.coherent.placement.created hpage)).2 _ _ hplace') hplace
    exact ⟨⟨hreaches.of_since hsteps.filesSince, ⟨_, hplace'⟩, hfollowed⟩,
      fun hcovers' => h.sole hown hbefore (hold hcovers')⟩

/-- A page that shows a window of a file shows one of the address space's own. -/
theorem Mirrors.owned_after (h : Mirrors s own still memory m.view)
    (houtcome : Outcome s' m m' request answer effects) (hsound : Sound none m)
    (hrespects : request.Respects s own still m s' answer) {n : PageNumber} {key : Key Page}
    {page' : Page} {slice : FileSlice} (hplace : m'.view.pageOf s n = some key)
    (hpage' : m'.view.page key = some page') (hwindow : page'.contents.window? = some slice) :
    own slice.handle.file := by
  rcases houtcome.window_old_or hsound hrespects.forks hrespects.makes hplace hpage' hwindow with
    ⟨hbefore, page, hpage, hwindow⟩ | ⟨hs, hmaps⟩
  · exact h.owned hbefore hpage hwindow
  · exact hrespects.owns hs hmaps

/-- A page that is added for a segment is one of a file that nobody maps. -/
theorem Request.Respects.still_of_added (h : request.Respects s own still m s' answer)
    (houtcome : Outcome s' m m' request answer effects) (hsound : Sound none m) {n : PageNumber}
    {key : Key Page} {slice : FileSlice} {bytes : PageBytes} (hplace : m'.view.pageOf s n = some key)
    (he : .added key (.loader (.segment slice)) bytes ∈ effects) : still slice.handle.file := by
  obtain ⟨-, hbefore⟩ := houtcome.place_old_or hsound h.forks h.makes hplace
  cases houtcome.labels he with
  | added hnew hloads =>
      rcases hbefore with hbefore | ⟨hs, -⟩
      · obtain ⟨page, hpage, -⟩ := hsound.coherent.placement.placed hbefore
        exact absurd (hsound.coherent.placement.created hpage) (Nat.not_lt.2 hnew)
      · exact h.loads hs (hloads slice rfl)

/-- Every request that leaves the files alone keeps what the pages show. -/
theorem Outcome.mirrors (houtcome : Outcome s' m m' request answer effects) (hsound : Sound none m)
    (hbooks : SlotBooks kept m.view.isOccupied m.view.slotOf)
    (hrespects : request.Respects s own still m s' answer)
    (h : Mirrors s own still memory m.view) :
    Mirrors s own still (memory.after effects) m'.view := by
  have hsteps := houtcome.course.steps
  have hcoherent := hsound.coherent
  have hstill : ∀ {f}, still f → m'.view.file f = m.view.file f ∧
      ∀ key p i, ¬m'.view.Covers key f p i := fun hf =>
    hsteps.file_eq_of_uncovered hcoherent (fun _ _ _ hcovers => h.uncovered hcovers hf)
      (houtcome.not_added (hrespects.unmapped hf))
  refine ⟨fun hcovers hf => (hstill hf).2 _ _ _ hcovers, h.owned_after houtcome hsound hrespects,
    fun hown hcovers => (h.followed_after houtcome hsound hrespects hown hcovers).1,
    fun hown hcovers hcovers' => (h.followed_after houtcome hsound hrespects hown hcovers).2 hcovers',
    fun {n key} hplace => ?_, fun {n key page'} hplace hpage' hkind => ?_,
    fun {n key page' slice} hplace hpage' hslice => ?_⟩ <;>
    obtain ⟨hcopied, hbefore⟩ :=
      houtcome.place_old_or hsound hrespects.forks hrespects.makes hplace
  · refine hsteps.tailAt hcoherent hcopied ?_
    rcases hbefore with hbefore | ⟨-, hnone⟩
    · exact h.tail hbefore
    · exact ⟨fun hpage => by cases hnone.symm.trans hpage⟩
  · -- a page that is new is added with what its source shows
    refine (hsteps.faithfulAt hcoherent hbooks (View.FilesSince.of_eq rfl) (fun slice bytes he =>
      (hstill (hrespects.still_of_added houtcome hsound hplace he)).1.symm) hcopied ?_).bytes hpage' hkind
    rcases hbefore with hbefore | ⟨-, hnone⟩
    · exact ⟨fun hpage hslice => (hstill (h.segments hbefore hpage hslice)).1.symm,
        fun hpage => h.anonymous hbefore hpage⟩
    · exact ⟨fun hpage => (by cases hnone.symm.trans hpage),
        fun hpage => (by cases hnone.symm.trans hpage)⟩
  · rcases hsteps.segment?_old_or hcoherent hcopied hpage' hslice with
      ⟨page, hpage, hslice⟩ | ⟨bytes, he⟩
    · rcases hbefore with hbefore | ⟨-, hnone⟩
      · exact h.segments hbefore hpage hslice
      · cases hnone.symm.trans hpage
    · exact hrespects.still_of_added houtcome hsound hplace he

theorem Space.Created.mirrors (hcreated : Created s' m m') (hsound : Sound none m)
    (hbooks : SlotBooks kept m.view.isOccupied m.view.slotOf)
    (h : Mirrors s own still memory m.view) : Mirrors s own still memory m'.view := by
  have hsteps := hcreated.course.steps
  have hcoherent := hsound.coherent
  have hnew : ∀ {e : Effect}, e ∈ [Effect.opened s'] → e = .opened s' := List.mem_singleton.1
  have hcopied : ∀ {key : Key Page} source, .copied source key ∉ [Effect.opened s'] :=
    fun _ he => by cases hnew he
  have hstill : ∀ {f}, still f → m'.view.file f = m.view.file f ∧
      ∀ key p i, ¬m'.view.Covers key f p i := fun hf =>
    hsteps.file_eq_of_uncovered hcoherent (fun _ _ _ hcovers => h.uncovered hcovers hf)
      fun _ _ _ he => by cases hnew he
  have hold := fun {key f p i} (hown : own f) (hcovers : m'.view.Covers key f p i) =>
    h.covers_of_steps hsteps hcoherent hown (fun _ _ _ he => by cases hnew he)
      (fun _ _ _ he => by cases hnew he) hcovers
  have hpage : ∀ {n key}, m'.view.pageOf s n = some key → m.view.pageOf s n = some key ∧
      ∃ page, m.view.page key = some page := fun hplace => by
    rw [hcreated.pageOf] at hplace
    obtain ⟨page, hpage, -⟩ := hcoherent.placement.placed hplace
    exact ⟨hplace, page, hpage⟩
  refine ⟨fun hcovers hf => (hstill hf).2 _ _ _ hcovers, fun hplace hpage' hwindow => ?_,
    fun hown hcovers => ?_, fun hown hcovers hcovers' => ?_, fun hplace => ?_,
    fun hplace hpage' hkind => ?_, fun hplace hpage' hslice => ?_⟩
  · obtain ⟨hplace, page, hpage⟩ := hpage hplace
    rw [hsteps.window?_eq hcoherent hpage hpage'] at hwindow
    exact h.owned hplace hpage hwindow
  · have hbefore := hold hown hcovers
    have hfollowed := h.followed_of_covers hsteps hcoherent hown (fun _ _ _ he => by cases hnew he)
      (fun _ _ _ he => by cases hnew he) hbefore
    obtain ⟨hreaches, ⟨n, hplace⟩, -⟩ := h.followed hown hbefore
    exact ⟨hreaches.of_since hsteps.filesSince, ⟨n, by rwa [hcreated.pageOf]⟩, hfollowed⟩
  · exact h.sole hown (hold hown hcovers) (hold hown hcovers')
  · exact hsteps.tailAt hcoherent hcopied (h.tail (hpage hplace).1)
  · have hplace := (hpage hplace).1
    exact (hsteps.faithfulAt hcoherent hbooks (View.FilesSince.of_eq rfl)
      (fun _ _ he => by cases hnew he) hcopied
      ⟨fun hpage hslice => (hstill (h.segments hplace hpage hslice)).1.symm,
        fun hpage => h.anonymous hplace hpage⟩).bytes hpage' hkind
  · have hplace := (hpage hplace).1
    rcases hsteps.segment?_old_or hcoherent hcopied hpage' hslice with ⟨_, hpage, hslice⟩ | ⟨_, he⟩
    · exact h.segments hplace hpage hslice
    · cases hnew he

end

/-! ### Histories -/

def Owns (history : List Done) (s : Key AddressSpace) (f : Key File) : Prop :=
  ∃ d ∈ history, d.space = s ∧ d.request.MapsFile f d.answer

def NeverMapped (history : List Done) (f : Key File) : Prop :=
  ∀ d ∈ history, ¬d.request.MapsFile f d.answer

/-- An address space that is neither forked nor made by a fork, and maps no file that it has mapped
already. -/
structure MapsOnce (s : Key AddressSpace) (history : List Done) : Prop where
  unforked : ∀ d ∈ history, (d.space = s → ¬d.request.Forks) ∧ ¬d.request.Makes s d.answer
  once : ∀ d ∈ history, d.space = s → ∀ {f}, d.request.MapsFile f d.answer →
    ∀ va region, d.before.view.regionOf s va = some region → region.handle.file ≠ f

/-- An address space that shares no file: nobody else maps a file that it maps, and nobody at all maps
the files of its segments. Its files can be reached in full and report their own lengths. -/
structure Secluded (start : Machine) (s : Key AddressSpace) (history : List Done) : Prop
    extends MapsOnce s history where
  alone : ∀ {f}, Owns history s f → ∀ d ∈ history, d.request.MapsFile f d.answer → d.space = s
  segments : ∀ d ∈ history, d.space = s → ∀ {f}, d.request.Loads f d.answer → NeverMapped history f
  plain : ∀ {f file}, Owns history s f → start.files.get? f = some file →
    file.reachLimit = none ∧ file.reportedLength = none

section

variable {α : Type} {request : Request α} {answer : α} {m m' : Machine} {s s' : Key AddressSpace}
  {history : List Done}

theorem MapsOnce.nil : MapsOnce s [] := ⟨fun _ hd => (List.not_mem_nil hd).elim,
  fun _ hd => (List.not_mem_nil hd).elim⟩

/-- One more request, that is no fork and maps nothing in the address space that is mapped. -/
theorem MapsOnce.cons (h : MapsOnce s history) (hforks : ¬request.Forks)
    (honce : s' = s → ∀ {f}, request.MapsFile f answer →
      ∀ va region, m.view.regionOf s va = some region → region.handle.file ≠ f) :
    MapsOnce s (⟨s', request, answer, m, m'⟩ :: history) where
  unforked d hd := by
    rcases List.mem_cons.1 hd with rfl | hd
    · refine ⟨fun _ => hforks, fun hmakes => hforks ?_⟩
      cases request with
      | fork => trivial
      | _ => exact hmakes
    · exact h.unforked d hd
  once d hd hs := by
    rcases List.mem_cons.1 hd with rfl | hd
    · exact honce hs
    · exact h.once d hd hs

theorem MapsOnce.step (h : MapsOnce s history) (hforks : ¬request.Forks)
    (hmaps : ∀ {f start length offset}, ¬request.Maps f start length offset answer) :
    MapsOnce s (⟨s', request, answer, m, m'⟩ :: history) := by
  refine h.cons hforks fun _ f hmapsFile => ?_
  obtain ⟨_, _, _, hmapsAt⟩ := hmapsFile
  exact absurd hmapsAt hmaps

end

section

variable {start m m₁ : Machine} {history all : List Done} {s : Key AddressSpace} {memory : Memory}
  {f : Key File} {d : Done}

theorem View.FilesSince.exists_earlier {v v' : View} (h : v.FilesSince v') {file' : File}
    (hfile' : v'.file f = some file') : ∃ file, v.file f = some file ∧ file.Since file' := by
  have hsince := h f
  rw [hfile'] at hsince
  generalize v.file f = before at *
  cases hsince with
  | some hsince => exact ⟨_, rfl, hsince⟩

/-- The files of the address space can be reached in full and report their own lengths all along. -/
theorem Secluded.file_plain (h : Secluded start s all) (hrun : Run start history m)
    (hown : Owns all s f) {file : File} (hfile : m.view.file f = some file) :
    file.reachLimit = none ∧ file.reportedLength = none := by
  obtain ⟨_, hcourse⟩ := hrun.reaches.course hrun.fresh.sound
  obtain ⟨_, hfirst, hsince⟩ := hcourse.steps.filesSince.exists_earlier hfile
  obtain ⟨first, hstart, rfl⟩ := Option.map_eq_some_iff.1 hfirst
  obtain ⟨hreach, hlength⟩ := h.plain hown hstart
  exact ⟨hsince.reachLimit.trans hreach, hsince.reportedLength.trans hlength⟩

/-- An address space that shares no file is respected by every request. -/
theorem Secluded.respects (h : Secluded start s all) (hd : d ∈ all)
    (hbefore : Run start history d.before)
    (hrun : Returns (d.request.perform? d.space) d.before (some d.answer) d.after)
    (hmirrors : Mirrors s (Owns all s) (NeverMapped all) memory d.before.view) :
    d.request.Respects s (Owns all s) (NeverMapped all) d.before d.space d.answer where
  forks := (h.unforked d hd).1
  makes := (h.unforked d hd).2
  sole {f} hown hmaps := by
    have hs := h.alone hown d hd hmaps
    refine ⟨hs, fun key p i hcovers => ?_, ?_⟩
    · -- a page that shows the file would be in a region of it
      obtain ⟨-, ⟨n, hplace⟩, -⟩ := hmirrors.followed hown hcovers
      obtain ⟨page, slice, hpage, hslice, hf, -⟩ := hcovers
      have hpart : page.contents.part? = some (slice.handle.file, slice.offset) := by
        rw [Contents.part?, hslice, Option.map_some]
      obtain ⟨va, region, hregion, hhas⟩ := hbefore.regionsPaged.covered hplace hpage
        (by rw [hpart]; exact Option.some_ne_none _)
      have hshown := (hbefore.regionsPaged.shown hregion hhas hplace hpage).part
      rw [hpart, Option.some.injEq, Prod.mk.injEq] at hshown
      exact h.once d hd hs hmaps va region hregion (hshown.1.symm.trans hf)
    · obtain ⟨effects, houtcome⟩ := Reaches.exists_outcome hbefore.sound hrun
      obtain ⟨_, _, _, hmaps⟩ := hmaps
      obtain ⟨_, hmapped⟩ := houtcome.fileMapped hmaps
      obtain ⟨current, _, _, _, _, hcurrent, -⟩ := hmapped.made
      have hfile : d.before.view.file f = some current.unissued := by
        rw [view]
        simp only [hcurrent, Option.map_some]
      exact ⟨_, hfile, h.file_plain hbefore hown hfile⟩
  unmapped hnever hmaps := hnever d hd hmaps
  owns hs _ hmaps := ⟨d, hd, hs, hmaps⟩
  loads hs _ hloads := h.segments d hd hs hloads

/-- In a run the pages of an address space that shares no file show what the history left in flat
memory. -/
theorem Run.exists_mirrors (h : Run start history m) (hsecluded : Secluded start s all)
    (hall : ∀ d ∈ history, d ∈ all) : ∃ memory, Agrees (remembered history) memory m.view ∧
      Mirrors s (Owns all s) (NeverMapped all) memory m.view := by
  obtain ⟨hfresh, hreaches⟩ := h
  induction hreaches with
  | refl =>
      have hnone : ∀ key, start.view.page key = none := hfresh.pages
      have hplace : ∀ n, start.view.pageOf s n = none := fun n => by simp [view, hfresh.spaces]
      refine ⟨_, agrees_fresh hfresh, ?_⟩
      constructor <;> simp [View.Covers, hnone, hplace]
  | create hreaches hrun ih =>
      obtain ⟨memory, hagrees, hmirrors⟩ := ih hall
      have hrun' := Run.mk hfresh hreaches
      have hcreated := returns_create hrun'.sound hrun
      exact ⟨memory, hagrees.created hrun'.sound hcreated,
        hcreated.mirrors hrun'.sound hrun'.slotBooks hmirrors⟩
  | clients hreaches handles ih => exact ih hall
  | request hreaches hrun ih =>
      obtain ⟨memory, hagrees, hmirrors⟩ := ih fun d hd => hall d (List.mem_cons_of_mem _ hd)
      have hrun' := Run.mk hfresh hreaches
      obtain ⟨effects, houtcome⟩ := Request.exists_outcome hrun'.sound (Request.returns_perform?.1 hrun).2
      exact ⟨_, houtcome.agrees hrun'.sound hagrees, houtcome.mirrors hrun'.sound hrun'.slotBooks
        (hsecluded.respects (hall _ List.mem_cons_self) hrun' hrun hmirrors) hmirrors⟩

end

/-! ### Reading -/

/-- The window of a file that a page of an address space shows, whichever handle it is over. -/
def View.windowAt (v : View) (s : Key AddressSpace) (n : PageNumber) : Option FileSlice :=
  ((v.pageOf s n).bind v.page).bind fun page => page.contents.window?.map (·.reopened 0)

/-- The address lies in a page over a file, past the part of the file that the page shows. -/
def Machine.PastPart (m : Machine) (s : Key AddressSpace) (a : Nat) : Prop :=
  ∃ slice, m.view.windowAt s ⟨a / pageSize⟩ = some slice ∧ slice.readBytes ≤ a % pageSize

section

variable {v : View} {start m m' : Machine} {history all : List Done} {s : Key AddressSpace}
  {n : PageNumber} {key : Key Page} {page : Page} {slice : FileSlice} {va : VirtualAddress}
  {length : Nat} {own still : Key File → Prop}

theorem View.windowAt_eq (hplace : v.pageOf s n = some key) (hpage : v.page key = some page) :
    v.windowAt s n = page.contents.window?.map (·.reopened 0) := by
  rw [windowAt, hplace, Option.bind_some, hpage, Option.bind_some]

theorem Contents.anonymous_or_window (contents : Contents) :
    contents.settled.kind = .anonymous ∨ ∃ slice, contents.window? = some slice := by
  cases contents with
  | pending source =>
      cases source with
      | zeros => exact .inl rfl
      | loader loader => exact .inl rfl
      | file slice => exact .inr ⟨slice, rfl⟩
  | anonymous slot => exact .inl rfl
  | file slice => exact .inr ⟨slice, rfl⟩

theorem Request.respects_readUser (s' : Key AddressSpace)
    (answer : Array UInt8 × Except Rejection Unit) :
    (Request.readUser va length).Respects s own still m s' answer where
  forks _ := id
  makes := id
  sole _ := fun ⟨_, _, _, hmaps⟩ => hmaps.elim
  unmapped _ := fun ⟨_, _, _, hmaps⟩ => hmaps
  owns _ _ := fun ⟨_, _, _, hmaps⟩ => hmaps.elim
  loads _ _ hloads := hloads.elim

/-- A byte of a page is the one of memory, or zero past the part of a file. -/
theorem Mirrors.byte_eq {memory : Memory} (h : Mirrors s own still memory v)
    (hplace : v.pageOf s n = some key) (hpage : v.page key = some page) {i : Nat} {byte : UInt8}
    (hbyte : (v.bytesOf page)[i]? = some byte) : (memory key)[i]? = some byte ∨
      byte = 0 ∧ ∃ slice, page.contents.window? = some slice ∧ slice.readBytes ≤ i := by
  rcases page.contents.anonymous_or_window with hkind | ⟨slice, hslice⟩
  · rw [← h.anonymous hplace hpage hkind]
    exact .inl hbyte
  by_cases hi : i < slice.readBytes
  · obtain ⟨-, -, hfollowed⟩ := h.followed (h.owned hplace hpage hslice)
      ⟨page, slice, hpage, hslice, rfl, rfl, hi⟩
    cases hfollowed with
    | mapped hmemory _ hpage' hshown =>
        cases hpage.symm.trans hpage'
        exact .inl (hmemory.trans (hshown.symm.trans hbyte))
    | gone _ hnone => cases hpage.symm.trans hnone
  · have hle := Nat.not_lt.1 hi
    rcases (h.tail hplace).bytes hpage hslice hle hbyte with hzero | hmemory
    · exact .inr ⟨hzero, slice, hslice, hle⟩
    · exact .inl hmemory

/-- What a process reads is what the history left in flat memory, or zero past the part of a file. -/
theorem Run.reads_remembered (h : Run start history m) (hsecluded : Secluded start s all)
    (hall : ∀ d ∈ history, d ∈ all) {bytes : Array UInt8} {result : Except Rejection Unit}
    (hread : Returns (readUser s va length) m (bytes, result) m') {i : Nat} {byte : UInt8}
    (hbyte : bytes[i]? = some byte) :
    byte = remembered history s (va.toNat + i) ∨ byte = 0 ∧ m.PastPart s (va.toNat + i) := by
  obtain ⟨memory, hagrees, hmirrors⟩ := h.exists_mirrors hsecluded hall
  obtain ⟨_, -, -, hseen⟩ := returns_readUser h.sound hread
  obtain ⟨m₁, before, _, hpassed, -, n, offset, key, page, ha, hplace, hpage, -, hshown⟩ :=
    hseen i byte hbyte
  obtain ⟨hoffset, -⟩ := Vector.getElem?_eq_some_iff.1 hshown
  -- what comes before the byte is seen is itself like a reading
  have houtcome : Outcome s m m₁ (.readUser va length) (bytes, result) before :=
    .passed trivial hpassed
  have hmirrors₁ := houtcome.mirrors h.sound h.slotBooks (Request.respects_readUser s _) hmirrors
  rcases hmirrors₁.byte_eq hplace hpage hshown with hmemory | ⟨rfl, slice, hslice, hle⟩
  · rw [Vector.getElem?_eq_getElem hoffset, Option.some.injEq] at hmemory
    rw [ha, ← hmemory]
    exact .inl ((houtcome.agrees h.sound hagrees).placed hplace hoffset)
  · obtain ⟨hplace, page₀, hpage₀, hwindow⟩ := (houtcome.window_old_or h.sound (fun _ => id) id hplace
      hpage hslice).resolve_right fun hmaps => by
        obtain ⟨-, _, _, _, hmaps⟩ := hmaps
        exact hmaps
    have hnumber : (va.toNat + i) / pageSize = n.toNat ∧ (va.toNat + i) % pageSize = offset := by
      simp only [pageSize] at hoffset ha ⊢
      omega
    refine .inr ⟨rfl, slice.reopened 0, ?_, hnumber.2 ▸ hle⟩
    rw [hnumber.1, View.windowAt_eq hplace hpage₀, hwindow, Option.map_some]

end

end DemandPaging
