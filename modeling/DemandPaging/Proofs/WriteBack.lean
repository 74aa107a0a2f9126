import DemandPaging.Proofs.Fate

/-!
A page over a file and the byte behind it.

A page over a file keeps its bytes in two places, in its frame while it is resident, and in the
file. The frame is ahead of the file exactly while the page is stained, and a page that leaves its
frame stained is written to the file on the way. So a byte of the file is followed through one page
that covers it: it is the byte of the page, and unless the page is stained it is in the file as well.
No step breaks this as long as no other page that covers the byte is stained, and once the page is
gone the byte stays in the file.
-/

namespace DemandPaging

/-! ### Windows -/

/-- The window of a mapped file that a page shows. -/
def Contents.window? : Contents → Option FileSlice
  | .pending (.file slice) => some slice
  | .file slice => some slice
  | _ => none

theorem Contents.window?_settled (contents : Contents) :
    contents.settled.window? = contents.window? := by
  cases contents with
  | pending source =>
      cases source with
      | loader loader => rfl
      | _ => rfl
  | _ => rfl

theorem Contents.exists_of_window? {contents : Contents} {slice : FileSlice}
    (h : contents.window? = some slice) :
    contents = .pending (.file slice) ∨ contents = .file slice := by
  unfold window? at h
  split at h
  · cases h
    exact .inl rfl
  · cases h
    exact .inr rfl
  · cases h

theorem Stowed.window?_eq {bytes : PageBytes} {dirty : Bool} {contents contents' : Contents}
    {v v' : View} (h : Stowed bytes dirty contents v contents' v') :
    contents'.window? = contents.window? := by
  cases h <;> rfl

theorem Contents.Copied.window?_eq {contents contents' : Contents}
    (h : Contents.Copied contents contents') {slice' : FileSlice}
    (hslice : contents'.window? = some slice') :
    ∃ slice, contents.window? = some slice ∧ slice'.handle.file = slice.handle.file ∧
      slice'.offset = slice.offset ∧ slice'.readBytes = slice.readBytes := by
  cases h with
  | pending h =>
      cases h with
      | file =>
          cases hslice
          exact ⟨_, rfl, rfl, rfl, rfl⟩
      | _ => cases hslice
  | anonymous => cases hslice
  | file =>
      cases hslice
      exact ⟨_, rfl, rfl, rfl, rfl⟩

/-- The file that a page shows, and where the part that it shows begins. -/
def Contents.part? (contents : Contents) : Option (Key File × Nat) :=
  contents.window?.map fun slice => (slice.handle.file, slice.offset)

theorem Contents.part?_eq_some {contents : Contents} {f : Key File} {p : Nat} :
    contents.part? = some (f, p) ↔ ∃ slice,
      (contents = .pending (.file slice) ∨ contents = .file slice) ∧ slice.handle.file = f ∧
        slice.offset = p := by
  simp only [part?, Option.map_eq_some_iff, Prod.mk.injEq]
  constructor
  · rintro ⟨slice, hslice, hat⟩
    exact ⟨slice, exists_of_window? hslice, hat⟩
  · rintro ⟨slice, rfl | rfl, hat⟩ <;> exact ⟨slice, rfl, hat⟩

theorem Contents.part?_settled (contents : Contents) :
    contents.settled.part? = contents.part? := by
  rw [part?, part?, window?_settled]

theorem Stowed.part?_eq {bytes : PageBytes} {dirty : Bool} {contents contents' : Contents}
    {v v' : View} (h : Stowed bytes dirty contents v contents' v') :
    contents'.part? = contents.part? := by
  rw [Contents.part?, Contents.part?, h.window?_eq]

theorem Contents.Copied.part?_eq {contents contents' : Contents}
    (h : Contents.Copied contents contents') : contents'.part? = contents.part? := by
  cases h with
  | pending h => cases h <;> rfl
  | anonymous => rfl
  | file => rfl

namespace View

def Covers (v : View) (key : Key Page) (f : Key File) (p i : Nat) : Prop :=
  ∃ page slice, v.page key = some page ∧ page.contents.window? = some slice ∧
    slice.handle.file = f ∧ slice.offset + i = p ∧ i < slice.readBytes

def byteAt? (v : View) (f : Key File) (p : Nat) : Option UInt8 :=
  (v.file f).bind (·.data[p]?)

def Reaches (v : View) (f : Key File) (p : Nat) : Prop :=
  ∃ file, v.file f = some file ∧ file.reachLimit = none ∧ p < file.data.size

end View

section

variable {effects rest : List Effect} {x x' : Option FrameNumber} {v v₁ v' : View}
  {key : Key Page} {page : Page} {f : Key File} {p i : Nat}

theorem View.Reaches.of_since (h : v.Reaches f p) (hsince : v.FilesSince v') : v'.Reaches f p := by
  obtain ⟨file, hfile, hreach, hlt⟩ := h
  obtain ⟨file', hfile', hsince⟩ := hsince.exists_file hfile
  exact ⟨file', hfile', hsince.reachLimit.trans hreach, by rwa [hsince.size_data]⟩

theorem View.contentsBytes_of_window {contents : Contents} {slice : FileSlice}
    (h : contents.window? = some slice) : v.contentsBytes contents = v.shown slice := by
  obtain rfl | rfl := Contents.exists_of_window? h <;> rfl

theorem View.getElem?_shown {slice : FileSlice} (hp : slice.offset + i = p)
    (hi : i < slice.readBytes) {byte : UInt8} (hbyte : v.byteAt? slice.handle.file p = some byte) :
    (v.shown slice)[i]? = some byte := by
  have hlt := Nat.lt_of_lt_of_le hi slice.readBytes_le
  obtain ⟨file, hfile, hdata⟩ := Option.bind_eq_some_iff.1 hbyte
  rw [Vector.getElem?_eq_getElem hlt, View.shown, hfile]
  simp only [Option.elim_some, FileSlice.getElem_bytesIn, if_pos hi, hp, hdata, Option.getD_some]

theorem View.byteAt?_congr (h : v'.file = v.file) (f : Key File) (p : Nat) :
    v'.byteAt? f p = v.byteAt? f p := by
  rw [byteAt?, byteAt?, h]

theorem WrittenBack.byteAt?_eq {slice : FileSlice} {bytes : PageBytes} {dirty : Bool}
    (h : WrittenBack slice bytes dirty v v') (hreaches : v.Reaches f p) :
    v'.byteAt? f p =
      if dirty = true ∧ slice.handle.file = f ∧ slice.offset ≤ p ∧
        p < slice.offset + slice.readBytes then bytes[p - slice.offset]?
      else v.byteAt? f p := by
  cases h with
  | clean => rw [if_neg fun hand => by cases hand.1]
  | @dirty _ file file' written hfile hback =>
      by_cases hf : slice.handle.file = f
      · subst hf
        obtain ⟨_, hsame, hreach, hlt⟩ := hreaches
        cases hfile.symm.trans hsame
        rw [View.byteAt?, View.byteAt?, show (v.setFile slice.handle.file file').file
          slice.handle.file = some file' from Function.update_self _ _ _, hfile,
          Option.bind_some, Option.bind_some, FileSlice.getElem?_data_writeBack hback hreach]
        simp only [true_and, hlt, and_true]
      · rw [if_neg fun hand => hf hand.2.1, View.byteAt?, View.byteAt?,
          show (v.setFile slice.handle.file file').file f = v.file f from
            Function.update_of_ne (Ne.symm hf) _ _]

/-! ### Stained pages -/

theorem Coherent.not_stained_of_absent (h : Coherent x v) (hpage : v.page key = some page)
    (hframe : page.frame = none) : ¬v.Stained key := by
  rintro ⟨g, o, howner, rfl, -⟩
  obtain ⟨p, -, hp, hp', -⟩ := h.residency.linked howner
  cases hpage.symm.trans hp
  cases hframe.symm.trans hp'

theorem Step.stained_old (h : Step effects x v x' v') (hcoherent : Coherent x v)
    (hstained : v'.Stained key) :
    v.Stained key ∨ ∃ offset data, .stored key offset data ∈ effects := by
  obtain ⟨g, o, howner, rfl, hdirty⟩ := hstained
  have hlisted : ∀ {f' : FrameNumber} {entry : Option (Option Owner)},
      (∀ o', entry ≠ some (some o')) → Function.update v.owner f' entry g = some (some o) →
      v.owner g = some (some o) := by
    intro f' entry hentry howner
    by_cases hg : g = f'
    · rw [hg, Function.update_self] at howner
      exact absurd howner (hentry o)
    · rwa [Function.update_of_ne hg] at howner
  -- where a page is mapped or unmapped its entry is clean
  have hpassed : ∀ {f' : FrameNumber} {entry : Option (Option Owner)} {d : Key Directory}
      {n : PageNumber}, (∀ o', entry = some (some o') → o'.directory = d ∧ o'.va.number = n) →
      Function.update v.owner f' entry g = some (some o) →
      (v.setGrant d n none).isDirty o.directory o.va = true → v.Stained o.page := by
    intro f' entry d n hentry howner hdirty
    have hne : ¬(o.directory = d ∧ o.va.number = n) := fun hand => by
      rw [show (v.setGrant d n none).isDirty o.directory o.va = false from if_pos hand] at hdirty
      cases hdirty
    rw [show (v.setGrant d n none).isDirty o.directory o.va = v.isDirty o.directory o.va from
      if_neg hne] at hdirty
    by_cases hg : g = f'
    · rw [hg, Function.update_self] at howner
      exact absurd (hentry o howner) hne
    · rw [Function.update_of_ne hg] at howner
      exact ⟨g, o, howner, rfl, hdirty⟩
  cases h with
  | scribble | openSpace | closeSpace | register | add | copyAside | removeAbsent =>
      exact .inl ⟨g, o, howner, rfl, hdirty⟩
  | take => exact .inl ⟨g, o, hlisted (fun _ he => by cases he) howner, rfl, hdirty⟩
  | giveBack => exact .inl ⟨g, o, hlisted (fun _ he => by cases he) howner, rfl, hdirty⟩
  | evict _ _ _ hstowed =>
      obtain ⟨isOccupied, pageIn, file, rfl⟩ := hstowed.exists_eq
      exact .inl (hpassed (fun _ he => by cases he) howner hdirty)
  | bringIn =>
      exact .inl (hpassed (fun _ he => by cases he; exact ⟨rfl, rfl⟩) howner hdirty)
  | copyIn =>
      exact .inl (hpassed (fun _ he => by cases he; exact ⟨rfl, rfl⟩) howner hdirty)
  | removePresent _ _ _ _ hgiven =>
      obtain ⟨file, rfl⟩ := hgiven.exists_eq
      exact .inl (hpassed (fun _ he => by cases he) howner hdirty)
  | @store _ f' o' page bytes offset data howner' =>
      by_cases hplace : o.directory = o'.directory ∧ o.va.number = o'.va.number
      · obtain rfl := hcoherent.residency.owner_injective howner' howner hplace.1 hplace.2
        cases howner.symm.trans howner'
        exact .inr ⟨offset, data, List.mem_singleton_self _⟩
      · exact .inl ⟨g, o, howner, rfl, (if_neg hplace).symm.trans hdirty⟩

/-! ### Who covers a position -/

theorem Step.covers_old (h : Step effects x v x' v') (hcoherent : Coherent x v)
    (hcovers : v'.Covers key f p i) : v.Covers key f p i ∨
      (∃ slice bytes, .added key (.file slice) bytes ∈ effects ∧ slice.handle.file = f) ∨
        ∃ source, .copied source key ∈ effects ∧ v.Covers source f p i := by
  obtain ⟨page', slice, hpage', hslice, rfl, rfl, hi⟩ := hcovers
  cases h.fate hcoherent key with
  | absent _ hnone => cases hpage'.symm.trans hnone
  | kept hpage hnew =>
      cases hpage'.symm.trans hnew
      exact .inl ⟨page', slice, hpage, hslice, rfl, rfl, hi⟩
  | stored hpage hnew =>
      cases hpage'.symm.trans hnew
      exact .inl ⟨page', slice, hpage, hslice, rfl, rfl, hi⟩
  | @evicted _ page _ _ _ _ hpage hframe hbytes hdirty hstowed hnew =>
      cases hpage'.symm.trans hnew
      exact .inl ⟨page, slice, hpage, hstowed.window?_eq.symm.trans hslice, rfl, rfl, hi⟩
  | @broughtIn page _ hpage hframe hnew =>
      cases hpage'.symm.trans hnew
      exact .inl ⟨page, slice, hpage, page.contents.window?_settled.symm.trans hslice, rfl, rfl, hi⟩
  | @added _ source hnew hpage hadded hcontents =>
      cases hpage'.symm.trans hadded
      rw [hcontents] at hslice
      obtain he | he := Contents.exists_of_window? hslice
      · cases he
        exact .inr (.inl ⟨slice, _, List.mem_singleton_self _, rfl⟩)
      · cases he
  | @copied source page _ _ hnew hpage hsource hcopied hcopy =>
      cases hpage'.symm.trans hcopy
      obtain ⟨original, horiginal, hfile, hoffset, hbytes⟩ := hcopied.window?_eq hslice
      exact .inr (.inr ⟨source, List.mem_singleton_self _, page, original, hsource, horiginal,
        hfile.symm, by rw [hoffset], by rwa [← hbytes]⟩)
  | removedAbsent _ _ hnone => cases hpage'.symm.trans hnone
  | removedPresent _ _ _ _ _ hnone => cases hpage'.symm.trans hnone

/-- Only a stained page changes a file, and only what it covers. -/
theorem Step.byteAt?_eq_or (h : Step effects x v x' v') (hcoherent : Coherent x v)
    (hreaches : v.Reaches f p) : v'.byteAt? f p = v.byteAt? f p ∨
      ∃ key page i, v.Covers key f p i ∧ v.Stained key ∧ v.page key = some page ∧
        v'.byteAt? f p = (v.bytesOf page)[i]? := by
  have hback : ∀ {f' o page slice bytes v₁}, v.owner f' = some (some o) →
      v.page o.page = some page → page.contents = .file slice → v.bytes f' = some bytes →
      WrittenBack slice bytes (v.isDirty o.directory o.va) v v₁ → v'.file = v₁.file →
      v'.byteAt? f p = v.byteAt? f p ∨ ∃ key page i, v.Covers key f p i ∧ v.Stained key ∧
        v.page key = some page ∧ v'.byteAt? f p = (v.bytesOf page)[i]? := by
    intro f' o page slice bytes v₁ howner hpage hcontents hbytes hback hafter
    rw [View.byteAt?_congr hafter, hback.byteAt?_eq hreaches]
    split
    · next hand =>
      obtain ⟨hdirty, hfile, hle, hlt⟩ := hand
      obtain ⟨_, -, hp, hframe, -⟩ := hcoherent.residency.linked howner
      cases hpage.symm.trans hp
      exact .inr ⟨o.page, page, p - slice.offset,
        ⟨page, slice, hpage, by rw [hcontents]; rfl, hfile, by omega, by omega⟩,
        ⟨f', o, howner, rfl, hdirty⟩, hpage, by rw [View.bytesOf_of_frame hframe hbytes]⟩
    · exact .inl rfl
  cases h with
  | @evict _ v₁ f' o page bytes contents howner hpage hbytes hstowed =>
      generalize hcontents : page.contents = before at hstowed
      cases hstowed with
      | slot hfree => exact .inl rfl
      | file hwritten => exact hback howner hpage hcontents hbytes hwritten rfl
  | @removePresent _ v₁ s f' o page bytes hplace howner hpage hbytes hgiven =>
      generalize hcontents : page.contents = before at hgiven
      cases hgiven with
      | anonymous => exact .inl rfl
      | file hwritten => exact hback howner hpage hcontents hbytes hwritten rfl
  | _ => exact .inl rfl

theorem Step.window?_eq (h : Step effects x v x' v') (hcoherent : Coherent x v) {page' : Page}
    (hpage : v.page key = some page) (hpage' : v'.page key = some page') :
    page'.contents.window? = page.contents.window? := by
  cases h.fate hcoherent key with
  | absent hnone => cases hpage.symm.trans hnone
  | kept hold hnew =>
      cases hpage.symm.trans hold
      cases hpage'.symm.trans hnew
      rfl
  | stored hold hnew =>
      cases hpage.symm.trans hold
      cases hpage'.symm.trans hnew
      rfl
  | evicted hold hframe hbytes hdirty hstowed hnew =>
      cases hpage.symm.trans hold
      cases hpage'.symm.trans hnew
      exact hstowed.window?_eq
  | broughtIn hold hframe hnew =>
      cases hpage.symm.trans hold
      cases hpage'.symm.trans hnew
      exact page.contents.window?_settled
  | added _ hnone => cases hpage.symm.trans hnone
  | copied _ hnone => cases hpage.symm.trans hnone
  | removedAbsent _ _ hnone => cases hpage'.symm.trans hnone
  | removedPresent _ _ _ _ _ hnone => cases hpage'.symm.trans hnone

theorem Steps.window?_eq (h : Steps effects x v x' v') (hcoherent : Coherent x v) {page' : Page}
    (hpage : v.page key = some page) (hpage' : v'.page key = some page') :
    page'.contents.window? = page.contents.window? := by
  induction h generalizing page with
  | nil =>
      cases hpage.symm.trans hpage'
      rfl
  | cons head tail ih =>
      -- the page is old, so it was there all the time
      have hold := Nat.lt_of_lt_of_le (hcoherent.placement.created hpage) head.created_le
      obtain ⟨page₁, hpage₁⟩ := Option.ne_none_iff_exists'.1 ((tail.page_old hold).1 (by
        rw [hpage']
        exact Option.some_ne_none _))
      exact (ih (head.coherent hcoherent) hpage₁ hpage').trans (head.window?_eq hcoherent hpage hpage₁)

theorem WrittenBack.file_eq {slice : FileSlice} {bytes : PageBytes} {dirty : Bool}
    (h : WrittenBack slice bytes dirty v v') (hempty : slice.handle.file = f → slice.readBytes = 0) :
    v'.file f = v.file f := by
  cases h with
  | clean => rfl
  | @dirty _ file file' written hfile hback =>
      by_cases hf : slice.handle.file = f
      · cases (FileSlice.writeBack_of_empty (hempty hf) file bytes).symm.trans hback
        subst hf
        exact (Function.update_self _ _ _).trans hfile.symm
      · exact Function.update_of_ne (Ne.symm hf) _ _

theorem Step.file_eq_of_uncovered (h : Step effects x v x' v')
    (huncovered : ∀ key p i, ¬v.Covers key f p i) : v'.file f = v.file f := by
  have hempty : ∀ {key page slice}, v.page key = some page → page.contents = .file slice →
      slice.handle.file = f → slice.readBytes = 0 := by
    intro key page slice hpage hcontents hf
    by_contra hne
    exact huncovered key slice.offset 0
      ⟨page, slice, hpage, by rw [hcontents]; rfl, hf, rfl, Nat.pos_of_ne_zero hne⟩
  cases h with
  | @evict _ v₁ f' o page bytes contents howner hpage hbytes hstowed =>
      generalize hcontents : page.contents = before at hstowed
      cases hstowed with
      | slot hfree => rfl
      | file hback => exact hback.file_eq (hempty hpage hcontents)
  | @removePresent _ v₁ s f' o page bytes hplace howner hpage hbytes hgiven =>
      generalize hcontents : page.contents = before at hgiven
      cases hgiven with
      | anonymous => rfl
      | file hback => exact hback.file_eq (hempty hpage hcontents)
  | _ => rfl

/-- A file that no page covers, and that no page comes to show, is left alone. -/
theorem Steps.file_eq_of_uncovered (h : Steps effects x v x' v') (hcoherent : Coherent x v)
    (huncovered : ∀ key p i, ¬v.Covers key f p i)
    (hadded : ∀ key slice bytes, .added key (.file slice) bytes ∈ effects → slice.handle.file ≠ f) :
    v'.file f = v.file f ∧ ∀ key p i, ¬v'.Covers key f p i := by
  induction h with
  | nil => exact ⟨rfl, huncovered⟩
  | cons head tail ih =>
      have huncovered₁ : ∀ key p i, ¬View.Covers _ key f p i := fun key p i hcovers => by
        rcases head.covers_old hcoherent hcovers with hold | ⟨slice, bytes, he, hf⟩ | ⟨source, -, hold⟩
        · exact huncovered _ _ _ hold
        · exact hadded _ _ _ (List.mem_append_left _ he) hf
        · exact huncovered _ _ _ hold
      obtain ⟨hsame, huncovered'⟩ := ih (head.coherent hcoherent) huncovered₁
        fun key slice bytes he => hadded key slice bytes (List.mem_append_right _ he)
      exact ⟨hsame.trans (head.file_eq_of_uncovered huncovered), huncovered'⟩

/-! ### One position -/

/-- No page that covers the position is stained, or only the given one. -/
def Quiet (own : Option (Key Page)) (v : View) (f : Key File) (p : Nat) : Prop :=
  ∀ key i, v.Covers key f p i → v.Stained key → own = some key

/-- The labels of a chain in which no page comes to cover the position, and at most the given one of
those that cover it is written to. -/
structure Undisturbed (own : Option (Key Page)) (v : View) (f : Key File) (p : Nat)
    (effects : List Effect) : Prop where
  added : ∀ {key slice bytes}, .added key (.file slice) bytes ∈ effects → slice.handle.file ≠ f
  copied : ∀ {source copy i}, .copied source copy ∈ effects → ¬v.Covers source f p i
  stored : ∀ {key offset data i}, .stored key offset data ∈ effects → v.Covers key f p i →
    own = some key

variable {own : Option (Key Page)} {memory : Memory}

theorem Step.covers_of_undisturbed (h : Step effects x v x' v') (hcoherent : Coherent x v)
    (hundisturbed : Undisturbed own v f p effects) (hcovers : v'.Covers key f p i) :
    v.Covers key f p i := by
  rcases h.covers_old hcoherent hcovers with hold | ⟨slice, bytes, hadded, hfile⟩ |
    ⟨source, hcopied, hsource⟩
  · exact hold
  · exact absurd hfile (hundisturbed.added hadded)
  · exact absurd hsource (hundisturbed.copied hcopied)

namespace Undisturbed

theorem head (h : Undisturbed own v f p (effects ++ rest)) : Undisturbed own v f p effects where
  added he := h.added (List.mem_append_left _ he)
  copied he := h.copied (List.mem_append_left _ he)
  stored he := h.stored (List.mem_append_left _ he)

theorem tail (h : Undisturbed own v f p (effects ++ rest)) (hcoherent : Coherent x v)
    (hstep : Step effects x v x' v') : Undisturbed own v' f p rest where
  added he := h.added (List.mem_append_right _ he)
  copied he hcovers := h.copied (List.mem_append_right _ he)
    (hstep.covers_of_undisturbed hcoherent h.head hcovers)
  stored he hcovers := h.stored (List.mem_append_right _ he)
    (hstep.covers_of_undisturbed hcoherent h.head hcovers)

end Undisturbed

theorem Steps.covers_of_undisturbed (h : Steps effects x v x' v') (hcoherent : Coherent x v)
    (hundisturbed : Undisturbed own v f p effects) (hcovers : v'.Covers key f p i) :
    v.Covers key f p i := by
  induction h with
  | nil => exact hcovers
  | cons head tail ih =>
      exact head.covers_of_undisturbed hcoherent hundisturbed.head
        (ih (head.coherent hcoherent) (hundisturbed.tail hcoherent head) hcovers)

theorem Step.quiet (h : Step effects x v x' v') (hcoherent : Coherent x v)
    (hundisturbed : Undisturbed own v f p effects) (hquiet : Quiet own v f p) :
    Quiet own v' f p := by
  intro key i hcovers hstained
  have hold := h.covers_of_undisturbed hcoherent hundisturbed hcovers
  rcases h.stained_old hcoherent hstained with hstained | ⟨offset, data, hstored⟩
  · exact hquiet key i hold hstained
  · exact hundisturbed.stored hstored hold

theorem Steps.quiet (h : Steps effects x v x' v') (hcoherent : Coherent x v)
    (hundisturbed : Undisturbed own v f p effects) (hquiet : Quiet own v f p) :
    Quiet own v' f p := by
  induction h with
  | nil => exact hquiet
  | cons head tail ih =>
      exact ih (head.coherent hcoherent) (hundisturbed.tail hcoherent head)
        (head.quiet hcoherent hundisturbed.head hquiet)

/-- A position that no stained page covers stays as it is. -/
theorem Steps.byteAt?_eq (h : Steps effects x v x' v') (hcoherent : Coherent x v)
    (hreaches : v.Reaches f p) (hundisturbed : Undisturbed none v f p effects)
    (hquiet : Quiet none v f p) : v'.byteAt? f p = v.byteAt? f p := by
  induction h with
  | nil => rfl
  | cons head tail ih =>
      rw [ih (head.coherent hcoherent) (hreaches.of_since head.filesSince)
        (hundisturbed.tail hcoherent head) (head.quiet hcoherent hundisturbed.head hquiet)]
      rcases head.byteAt?_eq_or hcoherent hreaches with hsame | ⟨key, _, i, hcovers, hstained, -⟩
      · exact hsame
      · cases hquiet key i hcovers hstained

/-- The byte of a file at a position, followed through the page that covers it. -/
inductive Followed (memory : Memory) (v : View) (key : Key Page) (f : Key File) (p i : Nat) :
    Prop where
  | mapped {byte : UInt8} {page : Page} (hbyte : (memory key)[i]? = some byte)
      (hcovers : v.Covers key f p i) (hpage : v.page key = some page)
      (hshown : (v.bytesOf page)[i]? = some byte)
      (hclean : ¬v.Stained key → v.byteAt? f p = some byte) : Followed memory v key f p i
  | gone {byte : UInt8} (hbyte : (memory key)[i]? = some byte) (hpage : v.page key = none)
      (hold : key.index < v.created) (hfile : v.byteAt? f p = some byte) :
      Followed memory v key f p i

theorem Step.gone (h : Step effects x v x' v') (hcoherent : Coherent x v)
    (hpage : v.page key = none) (hold : key.index < v.created) :
    v'.page key = none ∧ ∀ e ∈ effects, ¬Effect.Sets key e := by
  have hnew : key ≠ ⟨v.created⟩ := by
    rintro rfl
    exact Nat.lt_irrefl _ hold
  cases h.fate hcoherent key with
  | absent _ hnone hunset => exact ⟨hnone, hunset⟩
  | kept hsome => cases hpage.symm.trans hsome
  | stored hsome => cases hpage.symm.trans hsome
  | evicted hsome => cases hpage.symm.trans hsome
  | broughtIn hsome => cases hpage.symm.trans hsome
  | added he => exact absurd he hnew
  | copied he => exact absurd he hnew
  | removedAbsent hsome => cases hpage.symm.trans hsome
  | removedPresent hsome => cases hpage.symm.trans hsome

theorem Step.followed (h : Step effects x v x' v') (hcoherent : Coherent x v)
    (hreaches : v.Reaches f p) (hquiet : Quiet (some key) v f p)
    (hfollowed : Followed memory v key f p i) :
    Followed (memory.after effects) v' key f p i := by
  cases hfollowed with
  | @gone byte hbyte hpage hold hfile =>
      obtain ⟨hgone, hunset⟩ := h.gone hcoherent hpage hold
      refine .gone (by rwa [Memory.after_of_unset hunset]) hgone
        (Nat.lt_of_lt_of_le hold h.created_le) ?_
      rcases h.byteAt?_eq_or hcoherent hreaches with hsame | ⟨key', _, i', hcovers, hstained, -⟩
      · rw [hsame, hfile]
      · cases hquiet key' i' hcovers hstained
        obtain ⟨_, _, hsome, -⟩ := hcovers
        cases hpage.symm.trans hsome
  | @mapped byte page hbyte hcovers hpage hshown hclean =>
      have hlt := hcoherent.placement.created hpage
      obtain ⟨_, slice, hfound, hslice, rfl, rfl, hi⟩ := hcovers
      cases hpage.symm.trans hfound
      -- a page that is not stained does not change, so neither does the file
      have hfile : ¬v.Stained key → v'.byteAt? slice.handle.file (slice.offset + i) = some byte := by
        intro hnot
        rcases h.byteAt?_eq_or hcoherent hreaches with hsame | ⟨key', _, i', hcovers, hstained, -⟩
        · rw [hsame, hclean hnot]
        · cases hquiet key' i' hcovers hstained
          exact absurd hstained hnot
      have hwritten : ∀ {bytes dirty v₁}, (v.bytesOf page = bytes) →
          (v.Stained key → dirty = true) → WrittenBack slice bytes dirty v v₁ →
          v'.file = v₁.file → v'.byteAt? slice.handle.file (slice.offset + i) = some byte := by
        intro bytes dirty v₁ hbytes hdirty hback hafter
        cases dirty with
        | false => exact hfile fun hstained => by cases hdirty hstained
        | true =>
            rw [View.byteAt?_congr hafter, hback.byteAt?_eq hreaches,
              if_pos ⟨rfl, rfl, Nat.le_add_right _ _, Nat.add_lt_add_left hi _⟩,
              Nat.add_sub_cancel_left, ← hbytes, hshown]
      cases h.fate hcoherent key with
      | absent hnone => cases hpage.symm.trans hnone
      | kept hold hnew hunset hbytes hstained =>
          cases hpage.symm.trans hold
          refine .mapped (by rwa [Memory.after_of_unset hunset])
            ⟨page, slice, hnew, hslice, rfl, rfl, hi⟩ hnew ?_
            fun hnot => hfile fun hstained' => hnot (hstained hstained')
          cases hframe : page.frame with
          | some g =>
              rw [View.bytesOf, hframe] at hshown ⊢
              simp only [hbytes g hframe] at hshown ⊢
              exact hshown
          | none =>
              rw [View.bytesOf_of_absent hframe, View.contentsBytes_of_window hslice]
              exact View.getElem?_shown rfl hi
                (hfile (hcoherent.not_stained_of_absent hpage hframe))
      | @stored _ g bytes offset data hold hnew hframe hbytes hbytes' hstained =>
          cases hpage.symm.trans hold
          have hsize := Nat.lt_of_lt_of_le hi slice.readBytes_le
          rw [View.bytesOf_of_frame hframe hbytes, Vector.getElem?_eq_getElem hsize] at hshown
          rw [Vector.getElem?_eq_getElem hsize] at hbyte
          have hafter : (memory.after [.stored key offset data] key)[i]? =
              some (bytes.overlay offset data)[i] := by
            rw [show memory.after [.stored key offset data] key = (memory key).overlay offset data
              from Function.update_self _ _ _, Vector.getElem?_eq_getElem hsize,
              Bytes.getElem_overlay, Bytes.getElem_overlay, Option.some.inj hbyte,
              Option.some.inj hshown]
          refine .mapped hafter ⟨page, slice, hnew, hslice, rfl, rfl, hi⟩ hnew ?_
            fun hnot => absurd hstained hnot
          rw [View.bytesOf_of_frame hframe hbytes', Vector.getElem?_eq_getElem hsize]
      | evicted hold hframe hbytes hdirty hstowed hnew hpageIn hafter =>
          cases hpage.symm.trans hold
          have hwindow := hstowed.window?_eq.trans hslice
          have hback : v'.byteAt? slice.handle.file (slice.offset + i) = some byte := by
            generalize page.contents = before at hstowed hslice
            cases hstowed with
            | slot => cases hslice
            | file hback =>
                cases hslice
                exact hwritten (View.bytesOf_of_frame hframe hbytes) hdirty hback hafter
          refine .mapped hbyte ⟨_, slice, hnew, hwindow, rfl, rfl, hi⟩ hnew ?_ fun _ => hback
          rw [View.bytesOf_of_absent rfl, View.contentsBytes_of_window hwindow]
          exact View.getElem?_shown rfl hi hback
      | broughtIn hold hframe hnew hbytes' =>
          cases hpage.symm.trans hold
          refine .mapped hbyte
            ⟨_, slice, hnew, page.contents.window?_settled.trans hslice, rfl, rfl, hi⟩ hnew ?_
            fun _ => hfile (hcoherent.not_stained_of_absent hpage hframe)
          rw [View.bytesOf_of_frame rfl hbytes', ← View.bytesOf_of_absent hframe, hshown]
      | added _ hnone => cases hpage.symm.trans hnone
      | copied _ hnone => cases hpage.symm.trans hnone
      | removedAbsent hold hframe hgone =>
          cases hpage.symm.trans hold
          exact .gone hbyte hgone (Nat.lt_of_lt_of_le hlt h.created_le)
            (hfile (hcoherent.not_stained_of_absent hpage hframe))
      | removedPresent hold hframe hbytes hdirty hgiven hgone hafter =>
          cases hpage.symm.trans hold
          refine .gone hbyte hgone (Nat.lt_of_lt_of_le hlt h.created_le) ?_
          generalize page.contents = before at hgiven hslice
          cases hgiven with
          | anonymous => cases hslice
          | file hback =>
              cases hslice
              exact hwritten (View.bytesOf_of_frame hframe hbytes) hdirty hback hafter

theorem Steps.followed (h : Steps effects x v x' v') (hcoherent : Coherent x v)
    (hreaches : v.Reaches f p) (hquiet : Quiet (some key) v f p)
    (hundisturbed : Undisturbed (some key) v f p effects)
    (hfollowed : Followed memory v key f p i) :
    Followed (memory.after effects) v' key f p i := by
  induction h generalizing memory with
  | nil => exact hfollowed
  | cons head tail ih =>
      rw [Memory.after_append]
      exact ih (head.coherent hcoherent) (hreaches.of_since head.filesSince)
        (head.quiet hcoherent hundisturbed.head hquiet) (hundisturbed.tail hcoherent head)
        (head.followed hcoherent hreaches hquiet hfollowed)

end

end DemandPaging
