import DemandPaging.Proofs.Effects

/-!
What a step does to a single page.

A step names the page it is about, and everything else follows from that page being the only one in
its frame and the only one with its slot. Told from the side of a page, there are seven things that
may happen to it, and a property of the bytes of pages is proved by cases on them. Apart from that
only a page that leaves its frame reaches the files, and only one that goes to a free slot reaches
the swap area.
-/

namespace DemandPaging

variable {effects : List Effect} {x x' : Option FrameNumber} {v v' : View} {key : Key Page}

/-- The page is in a frame and was written to since it came there. -/
def View.Stained (v : View) (key : Key Page) : Prop :=
  ∃ f o, v.owner f = some (some o) ∧ o.page = key ∧ v.isDirty o.directory o.va = true

/-- What a step does to a page, by its label. -/
inductive Fate (key : Key Page) (v v' : View) : List Effect → Prop where
  | absent {effects : List Effect} (hpage : v.page key = none) (hpage' : v'.page key = none)
      (hunset : ∀ e ∈ effects, ¬Effect.Sets key e) : Fate key v v' effects
  | kept {effects : List Effect} {page : Page} (hpage : v.page key = some page)
      (hpage' : v'.page key = some page) (hunset : ∀ e ∈ effects, ¬Effect.Sets key e)
      (hbytes : ∀ f, page.frame = some f → v'.bytes f = v.bytes f)
      (hstained : v.Stained key → v'.Stained key) : Fate key v v' effects
  | stored {page : Page} {f : FrameNumber} {bytes : PageBytes} {offset : Nat} {data : Array UInt8}
      (hpage : v.page key = some page) (hpage' : v'.page key = some page)
      (hframe : page.frame = some f) (hbytes : v.bytes f = some bytes)
      (hbytes' : v'.bytes f = some (bytes.overlay offset data)) (hstained : v'.Stained key) :
      Fate key v v' [.stored key offset data]
  | evicted {v₁ : View} {page : Page} {f : FrameNumber} {bytes : PageBytes} {dirty : Bool}
      {contents : Contents} (hpage : v.page key = some page) (hframe : page.frame = some f)
      (hbytes : v.bytes f = some bytes) (hdirty : v.Stained key → dirty = true)
      (hstowed : Stowed bytes dirty page.contents v contents v₁)
      (hpage' : v'.page key = some { page with contents, frame := none })
      (hpageIn : v'.pageIn = v₁.pageIn) (hfile : v'.file = v₁.file) : Fate key v v' []
  | broughtIn {page : Page} {f : FrameNumber} (hpage : v.page key = some page)
      (hframe : page.frame = none)
      (hpage' : v'.page key = some { page with contents := page.contents.settled, frame := some f })
      (hbytes' : v'.bytes f = some (v.contentsBytes page.contents)) : Fate key v v' [.broughtIn key]
  | added {page : Page} {source : Pending} (hnew : key = ⟨v.created⟩) (hpage : v.page key = none)
      (hpage' : v'.page key = some page) (hcontents : page.contents = .pending source)
      (hframe : page.frame = none) : Fate key v v' [.added key source (v.pendingBytes source)]
  | copied {source : Key Page} {page : Page} {contents : Contents} {frame : Option FrameNumber}
      (hnew : key = ⟨v.created⟩) (hpage : v.page key = none) (hsource : v.page source = some page)
      (hcopied : Contents.Copied page.contents contents)
      (hpage' : v'.page key = some { page with contents, frame, holders := 1 })
      (hbytes' : ∀ f, frame = some f → v'.bytes f = some (v.bytesOf page))
      (haside : frame = none → page.frame = none ∧ contents.kind ≠ .anonymous) :
      Fate key v v' [.copied source key]
  | removedAbsent {page : Page} (hpage : v.page key = some page) (hframe : page.frame = none)
      (hpage' : v'.page key = none) : Fate key v v' [.removed key]
  | removedPresent {v₁ : View} {page : Page} {f : FrameNumber} {bytes : PageBytes} {dirty : Bool}
      (hpage : v.page key = some page) (hframe : page.frame = some f)
      (hbytes : v.bytes f = some bytes) (hdirty : v.Stained key → dirty = true)
      (hgiven : GivenUp bytes dirty page.contents v v₁) (hpage' : v'.page key = none)
      (hfile : v'.file = v₁.file) : Fate key v v' [.removed key]

/-! ### Frames of other pages -/

namespace Coherent

variable {f g : FrameNumber} {page : Page} {o : Owner}

theorem ne_of_owner (h : Coherent x v) (howner : v.owner f = some (some o))
    (hpage : v.page key = some page) (hframe : page.frame = some g) (hkey : key ≠ o.page) :
    g ≠ f := by
  rintro rfl
  obtain ⟨o', howner', rfl⟩ := h.residency.listed hpage hframe
  cases howner.symm.trans howner'
  exact hkey rfl

theorem stained_of_grant (h : v.Stained key) {d : Key Directory} {n : PageNumber}
    (howner : ∀ g o, v.owner g = some (some o) → o.page = key →
      v'.owner g = some (some o) ∧ (o.directory = d → o.va.number ≠ n))
    (hdirty : v'.isDirty = (v.setGrant d n none).isDirty) : v'.Stained key := by
  obtain ⟨g, o, hg, hkey, hstained⟩ := h
  obtain ⟨hg', hne⟩ := howner g o hg hkey
  refine ⟨g, o, hg', hkey, ?_⟩
  rw [hdirty, ← hstained]
  exact if_neg fun hand => hne hand.1 hand.2

theorem isDirty_of_stained (h : Coherent x v) (howner : v.owner f = some (some o))
    (hstained : v.Stained o.page) : v.isDirty o.directory o.va = true := by
  obtain ⟨g, o', hg, hkey, hdirty⟩ := hstained
  obtain ⟨p, -, hp, hframe, -⟩ := h.residency.linked howner
  obtain ⟨p', -, hp', hframe', -⟩ := h.residency.linked hg
  rw [hkey, hp] at hp'
  cases hp'
  cases hframe.symm.trans hframe'
  cases howner.symm.trans hg
  exact hdirty

/-- When a page leaves its frame, the others stay as stained as they were. -/
theorem stained_of_unlink (h : Coherent x v) (howner : v.owner f = some (some o))
    (hkey : key ≠ o.page) (hstained : v.Stained key)
    (howner' : v'.owner = Function.update v.owner f (some none))
    (hdirty : v'.isDirty = (v.setGrant o.directory o.va.number none).isDirty) :
    v'.Stained key := by
  refine stained_of_grant hstained (fun g o' hg hkey' => ?_) hdirty
  have hne : g ≠ f := by
    rintro rfl
    cases howner.symm.trans hg
    exact hkey hkey'.symm
  rw [howner', Function.update_of_ne hne]
  exact ⟨hg, fun hd hn => hne (h.residency.owner_injective howner hg hd hn)⟩

/-- When a page gets the frame without owner, the others stay as stained as they were. -/
theorem stained_of_link (h : Coherent (some f) v) {d : Key Directory} {n : PageNumber}
    (hunmapped : ∀ g o, v.owner g = some (some o) → o.directory = d → o.va.number ≠ n)
    (hstained : v.Stained key) {entry : Option (Option Owner)}
    (howner' : v'.owner = Function.update v.owner f entry)
    (hdirty : v'.isDirty = (v.setGrant d n none).isDirty) : v'.Stained key := by
  refine stained_of_grant hstained (fun g o' hg _ => ?_) hdirty
  have hne : g ≠ f := by
    rintro rfl
    rw [h.residency.unowned.2 rfl] at hg
    cases hg
  rw [howner', Function.update_of_ne hne]
  exact ⟨hg, hunmapped g o' hg⟩

end Coherent

/-- What a step does to a page is one of the things that may happen to a page. -/
theorem Step.fate (h : Step effects x v x' v') (hcoherent : Coherent x v) (key : Key Page) :
    Fate key v v' effects := by
  have hsame : v'.page key = v.page key → (∀ e ∈ effects, ¬Effect.Sets key e) →
      (∀ page f, v.page key = some page → page.frame = some f → v'.bytes f = v.bytes f) →
      (v.Stained key → v'.Stained key) → Fate key v v' effects := by
    intro hpage hunset hbytes hstained
    cases hold : v.page key with
    | none => exact .absent hold (hpage.trans hold) hunset
    | some page => exact .kept hold (hpage.trans hold) hunset (fun f => hbytes page f hold) hstained
  have hunlabelled : ∀ {e : Effect}, ¬Effect.Sets key e → ∀ e' ∈ [e], ¬Effect.Sets key e' := by
    intro e hunset e' he'
    rwa [List.mem_singleton.1 he']
  have hcreated := hcoherent.page_created
  cases h with
  | @scribble _ f bytes =>
      exact hsame rfl (fun e he => by cases he) (fun page g hpage hframe =>
        Function.update_of_ne (hcoherent.ne_of_unowned hpage hframe) _ _) id
  | @take _ f hfree =>
      refine hsame rfl (fun e he => by cases he) (fun _ _ _ _ => rfl) fun hstained => ?_
      obtain ⟨g, o, hg, hkey, hdirty⟩ := hstained
      have hne : g ≠ f := by
        rintro rfl
        rw [hcoherent.residency.owner_eq_none hfree] at hg
        cases hg
      exact ⟨g, o, (Function.update_of_ne hne _ _).trans hg, hkey, hdirty⟩
  | @giveBack _ f =>
      refine hsame rfl (fun e he => by cases he) (fun _ _ _ _ => rfl) fun hstained => ?_
      obtain ⟨g, o, hg, hkey, hdirty⟩ := hstained
      have hne : g ≠ f := by
        rintro rfl
        rw [hcoherent.residency.unowned.2 rfl] at hg
        cases hg
      exact ⟨g, o, (Function.update_of_ne hne _ _).trans hg, hkey, hdirty⟩
  | @evict _ v₁ f o page bytes contents howner hpage hbytes hstowed =>
      by_cases hkey : key = o.page
      · subst hkey
        obtain ⟨p, -, hp, hframe, -⟩ := hcoherent.residency.linked howner
        cases hpage.symm.trans hp
        exact .evicted hpage hframe hbytes (hcoherent.isDirty_of_stained howner) hstowed
          (Function.update_self _ _ _) rfl rfl
      · obtain ⟨isOccupied, pageIn, file, rfl⟩ := hstowed.exists_eq
        exact hsame (Function.update_of_ne hkey _ _) (fun e he => by cases he) (fun _ _ _ _ => rfl)
          fun hstained => hcoherent.stained_of_unlink howner hkey hstained rfl rfl
  | @bringIn _ f brought page s d pa hpage hframe hplace hdirectory hstart hbytes =>
      by_cases hkey : key = brought
      · subst hkey
        exact .broughtIn hpage hframe (Function.update_self _ _ _) hbytes
      · exact hsame (Function.update_of_ne hkey _ _) (hunlabelled id) (fun _ _ _ _ => rfl)
          fun hstained => hcoherent.stained_of_link
            (hcoherent.unmapped_of_absent hpage hframe hplace hdirectory) hstained rfl rfl
  | @store _ f o page bytes offset data howner hpage hwritable hbytes hfits =>
      by_cases hkey : key = o.page
      · subst hkey
        obtain ⟨p, -, hp, hframe, -⟩ := hcoherent.residency.linked howner
        cases hpage.symm.trans hp
        exact .stored hpage hpage hframe hbytes (Function.update_self _ _ _)
          ⟨f, o, howner, rfl, if_pos ⟨rfl, rfl⟩⟩
      · refine hsame rfl (hunlabelled (Ne.symm hkey)) (fun p g hp hframe =>
          Function.update_of_ne (hcoherent.ne_of_owner howner hp hframe hkey) _ _) fun hstained => ?_
        obtain ⟨g, o', hg, hkey', hdirty⟩ := hstained
        exact ⟨g, o', hg, hkey', ite_eq_left_iff.2 fun _ => hdirty⟩
  | @add _ s d page source hdirectory hplace hcontents hframe hholders =>
      by_cases hkey : key = ⟨v.created⟩
      · subst hkey
        exact .added rfl hcreated (Function.update_self _ _ _) hcontents hframe
      · exact hsame (Function.update_of_ne hkey _ _) (hunlabelled (Ne.symm hkey))
          (fun _ _ _ _ => rfl) id
  | @copyAside _ s d source page contents hpage hframe hcopied hkind hdirectory hplace =>
      by_cases hkey : key = ⟨v.created⟩
      · subst hkey
        have hcopy : Function.update v.page ⟨v.created⟩ _ ⟨v.created⟩ =
            some { page with contents, frame := page.frame, holders := 1 } :=
          Function.update_self _ _ _
        refine .copied rfl hcreated hpage hcopied hcopy (fun g hg => ?_) fun _ => ⟨hframe, hkind⟩
        rw [hframe] at hg
        cases hg
      · exact hsame (Function.update_of_ne hkey _ _) (hunlabelled (Ne.symm hkey))
          (fun _ _ _ _ => rfl) id
  | @copyIn _ f s d source page contents pa hpage hcopied hkind hdirectory hplace hstart hbytes =>
      by_cases hkey : key = ⟨v.created⟩
      · subst hkey
        have hcopy : Function.update v.page ⟨v.created⟩ _ ⟨v.created⟩ =
            some { page with contents, frame := some f, holders := 1 } :=
          Function.update_self _ _ _
        refine .copied rfl hcreated hpage hcopied hcopy (fun g hg => ?_) fun hnone => by cases hnone
        cases hg
        exact hbytes
      · exact hsame (Function.update_of_ne hkey _ _) (hunlabelled (Ne.symm hkey))
          (fun _ _ _ _ => rfl) fun hstained => hcoherent.stained_of_link
            (hcoherent.unmapped_of_free hdirectory hplace) hstained rfl rfl
  | @removeAbsent _ s removed page hplace hpage hframe =>
      by_cases hkey : key = removed
      · subst hkey
        exact .removedAbsent hpage hframe (Function.update_self _ _ _)
      · exact hsame (Function.update_of_ne hkey _ _) (hunlabelled id) (fun _ _ _ _ => rfl) id
  | @removePresent _ v₁ s f o page bytes hplace howner hpage hbytes hgiven =>
      by_cases hkey : key = o.page
      · subst hkey
        obtain ⟨p, -, hp, hframe, -⟩ := hcoherent.residency.linked howner
        cases hpage.symm.trans hp
        exact .removedPresent hpage hframe hbytes (hcoherent.isDirty_of_stained howner) hgiven
          (Function.update_self _ _ _) rfl
      · obtain ⟨file, rfl⟩ := hgiven.exists_eq
        exact hsame (Function.update_of_ne hkey _ _) (hunlabelled id) (fun _ _ _ _ => rfl)
          fun hstained => hcoherent.stained_of_unlink howner hkey hstained rfl rfl
  | openSpace | closeSpace | register =>
      exact hsame rfl (hunlabelled id) (fun _ _ _ _ => rfl) id

/-! ### Files and slots -/

/-- One file is the other at a later time. What was written to it in between was counted. -/
structure File.Since (before after : File) : Prop where
  writes_le : before.writes ≤ after.writes
  eq_of_writes : after.writes = before.writes → after = before
  size_data : after.data.size = before.data.size
  reachLimit : after.reachLimit = before.reachLimit
  reportedLength : after.reportedLength = before.reportedLength

theorem File.Since.refl (file : File) : file.Since file := ⟨Nat.le_refl _, fun _ => rfl, rfl, rfl, rfl⟩

theorem File.Since.trans {file₁ file₂ file₃ : File} (h : file₁.Since file₂) (h' : file₂.Since file₃) :
    file₁.Since file₃ where
  writes_le := Nat.le_trans h.writes_le h'.writes_le
  eq_of_writes hsame := by
    have hfirst := h.writes_le
    have hsecond := h'.writes_le
    rw [h'.eq_of_writes (by omega), h.eq_of_writes (by omega)]
  size_data := h'.size_data.trans h.size_data
  reachLimit := h'.reachLimit.trans h.reachLimit
  reportedLength := h'.reportedLength.trans h.reportedLength

theorem FileSlice.since_of_writeBack {slice : FileSlice} {file file' : File} {bytes : PageBytes}
    {written : Nat} (h : slice.writeBack file bytes = .ok (written, file')) : file.Since file' := by
  rcases FileSlice.writeBack_eq_ok h with ⟨rfl, -⟩ | rfl
  · exact .refl _
  · exact ⟨Nat.le_succ _, fun he => absurd he (Nat.succ_ne_self _), File.size_data_write _ _ _, rfl,
      rfl⟩

theorem File.Since.rel_refl : (file? : Option File) → Option.Rel File.Since file? file?
  | none => .none
  | some file => .some (.refl file)

def View.FilesSince (v v' : View) : Prop := ∀ f, Option.Rel File.Since (v.file f) (v'.file f)

namespace View.FilesSince

variable {v₁ : View} {f : Key File}

theorem of_eq (h : v'.file = v.file) : v.FilesSince v' := by
  intro f
  rw [h]
  exact File.Since.rel_refl _

theorem trans (h : v.FilesSince v₁) (h' : v₁.FilesSince v') : v.FilesSince v' := by
  intro f
  have hfirst := h f
  have hsecond := h' f
  generalize v.file f = before at *
  generalize v₁.file f = between at *
  generalize v'.file f = after at *
  cases hfirst with
  | none => exact hsecond
  | some hfirst =>
      cases hsecond with
      | some hsecond => exact .some (hfirst.trans hsecond)

theorem exists_file (h : v.FilesSince v') {file : File} (hfile : v.file f = some file) :
    ∃ file', v'.file f = some file' ∧ file.Since file' := by
  have hsince := h f
  rw [hfile] at hsince
  generalize v'.file f = after at *
  cases hsince with
  | some hsince => exact ⟨_, rfl, hsince⟩

/-- A file to which nothing was written is the same file. -/
theorem file_eq (h : v.FilesSince v')
    (hwrites : (v'.file f).map (·.writes) = (v.file f).map (·.writes)) : v'.file f = v.file f := by
  have hsince := h f
  generalize v.file f = before at *
  generalize v'.file f = after at *
  cases hsince with
  | none => rfl
  | some hsince => rw [hsince.eq_of_writes (Option.some.inj hwrites)]

/-- A file that is the same at the end was the same in between. -/
theorem file_eq_between (h : v.FilesSince v₁) (h' : v₁.FilesSince v')
    (hsame : v'.file f = v.file f) : v₁.file f = v.file f := by
  have hfirst := h f
  have hsecond := h' f
  rw [hsame] at hsecond
  generalize v.file f = before at *
  generalize v₁.file f = between at *
  cases hfirst with
  | none => rfl
  | some hfirst =>
      cases hsecond with
      | some hsecond =>
          rw [hfirst.eq_of_writes (Nat.le_antisymm hsecond.writes_le hfirst.writes_le)]

end View.FilesSince

theorem WrittenBack.filesSince {slice : FileSlice} {bytes : PageBytes} {dirty : Bool}
    (h : WrittenBack slice bytes dirty v v') : v.FilesSince v' := by
  cases h with
  | clean => exact .of_eq rfl
  | @dirty _ file file' written hfile hback =>
      intro f
      by_cases hf : f = slice.handle.file
      · rw [hf, hfile, show (v.setFile slice.handle.file file').file slice.handle.file = some file'
          from Function.update_self _ _ _]
        exact .some (FileSlice.since_of_writeBack hback)
      · rw [show (v.setFile slice.handle.file file').file f = v.file f from
          Function.update_of_ne hf _ _]
        exact File.Since.rel_refl _

theorem Step.filesSince (h : Step effects x v x' v') : v.FilesSince v' := by
  cases h with
  | @evict _ v₁ f o page bytes contents howner hpage hbytes hstowed =>
      generalize page.contents = before at hstowed
      cases hstowed with
      | slot hfree => exact .of_eq rfl
      | file hback => exact hback.filesSince.trans (.of_eq rfl)
  | @removePresent _ v₁ s f o page bytes hplace howner hpage hbytes hgiven =>
      generalize page.contents = before at hgiven
      cases hgiven with
      | anonymous => exact .of_eq rfl
      | file hback => exact hback.filesSince.trans (.of_eq rfl)
  | _ => exact .of_eq rfl

theorem Steps.filesSince (h : Steps effects x v x' v') : v.FilesSince v' := by
  induction h with
  | nil => exact .of_eq rfl
  | cons head tail ih => exact head.filesSince.trans ih

theorem Step.pageIn_of_occupied (h : Step effects x v x' v') {slot : SwapSlot}
    (hoccupied : v.isOccupied slot = true) : v'.pageIn slot = v.pageIn slot := by
  cases h with
  | evict _ _ _ hstowed => exact (hstowed.keeps hoccupied).2
  | removePresent _ _ _ _ hgiven =>
      obtain ⟨file, rfl⟩ := hgiven.exists_eq
      rfl
  | _ => rfl

/-! ### Pages that wait -/

def View.HasAll (v : View) (slice : FileSlice) : Prop :=
  ∃ file, v.file slice.handle.file = some file ∧
    (file.read slice.offset slice.readBytes).size = slice.readBytes

instance (v : View) (slice : FileSlice) : Decidable (v.HasAll slice) :=
  decidable_of_iff (((v.file slice.handle.file).any fun file =>
      (file.read slice.offset slice.readBytes).size == slice.readBytes) = true)
    (by simp only [Option.any_eq_true, beq_iff_eq, View.HasAll])

/-- How long a file is and how far it can be reached does not change. -/
theorem View.FilesSince.hasAll_iff {v v' : View} (h : v.FilesSince v') {slice : FileSlice} :
    v'.HasAll slice ↔ v.HasAll slice := by
  have hsize : ∀ {file file' : File}, file.Since file' →
      (file'.read slice.offset slice.readBytes).size =
        (file.read slice.offset slice.readBytes).size := fun hsince => by
    simp only [File.read, File.reach, Array.size_extract, hsince.reachLimit, hsince.size_data]
  have hsince := h slice.handle.file
  simp only [HasAll]
  generalize v.file slice.handle.file = before at *
  generalize v'.file slice.handle.file = after at *
  cases hsince with
  | none => exact Iff.rfl
  | some hsince => simp only [Option.some.injEq, exists_eq_left', hsize hsince]

/-- A page that is in no frame and lacks bytes: its file does not have all of the part behind it. -/
def View.Lacks (v : View) (page : Page) : Prop :=
  page.frame = none ∧ ∃ slice, page.contents.slice? = some slice ∧ ¬v.HasAll slice

theorem View.Lacks.of_since {page : Page} (h : v.Lacks page) (hsince : v.FilesSince v') :
    v'.Lacks page := by
  obtain ⟨hframe, slice, hslice, hlacks⟩ := h
  exact ⟨hframe, slice, hslice, fun hall => hlacks (hsince.hasAll_iff.1 hall)⟩

/-- A page that is in no frame stays what it is until it is brought in or removed. -/
theorem Step.page_absent (h : Step effects x v x' v') (hcoherent : Coherent x v) {page : Page}
    (hpage : v.page key = some page) (hframe : page.frame = none)
    (hbrought : .broughtIn key ∉ effects) (hremoved : .removed key ∉ effects) :
    v'.page key = some page := by
  cases h.fate hcoherent key with
  | absent hnone => cases hpage.symm.trans hnone
  | kept hold hnew => rwa [← hpage, hold]
  | stored hold _ hresident =>
      cases hpage.symm.trans hold
      cases hframe.symm.trans hresident
  | evicted hold hresident =>
      cases hpage.symm.trans hold
      cases hframe.symm.trans hresident
  | broughtIn => exact absurd (List.mem_singleton_self _) hbrought
  | added _ hnone => cases hpage.symm.trans hnone
  | copied _ hnone => cases hpage.symm.trans hnone
  | removedAbsent => exact absurd (List.mem_singleton_self _) hremoved
  | removedPresent => exact absurd (List.mem_singleton_self _) hremoved

theorem Steps.page_absent (h : Steps effects x v x' v') (hcoherent : Coherent x v) {page : Page}
    (hpage : v.page key = some page) (hframe : page.frame = none)
    (hbrought : .broughtIn key ∉ effects) (hremoved : .removed key ∉ effects) :
    v'.page key = some page := by
  induction h with
  | nil => exact hpage
  | cons head tail ih =>
      rw [List.mem_append, not_or] at hbrought hremoved
      exact ih (head.coherent hcoherent)
        (head.page_absent hcoherent hpage hframe hbrought.1 hremoved.1) hbrought.2 hremoved.2

end DemandPaging
