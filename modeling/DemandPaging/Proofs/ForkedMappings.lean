import DemandPaging.Proofs.Fork
import DemandPaging.Proofs.SoleWriter

/-!
Mapped files after a fork.

A fork makes new pages over old positions of files, and these are clean. Where the page of the parent is
clean as well the file has what it shows, and so the copy shows it from then on, whatever is evicted.
What one of the two stores afterwards is kept, in its memory as long as it has the mapping and then in
the file, unless the other one stores into its own page over the position.

Of the copy of a dirty page nothing is said: it is clean, but the file does not have what it shows.
-/

namespace DemandPaging

open Machine Space

/-! ### Copies -/

section

variable {effects : List Effect} {x x' : Option FrameNumber} {v v' : View} {key copy : Key Page}
  {f : Key File} {p i : Nat} {memory : Memory}

theorem Contents.Copied.exists_window {contents contents' : Contents}
    (h : Contents.Copied contents contents') {slice : FileSlice}
    (hslice : contents.window? = some slice) :
    ∃ slice', contents'.window? = some slice' ∧ slice'.handle.file = slice.handle.file ∧
      slice'.offset = slice.offset ∧ slice'.readBytes = slice.readBytes := by
  have hpart := h.part?_eq
  rw [part?, part?, hslice, Option.map_some, Option.map_eq_some_iff] at hpart
  obtain ⟨slice', hslice', -⟩ := hpart
  obtain ⟨_, hslice₁, hat⟩ := h.window?_eq hslice'
  cases hslice.symm.trans hslice₁
  exact ⟨slice', hslice', hat⟩

theorem Step.copied_of_label (h : Step effects x v x' v') (hcoherent : Coherent x v)
    (he : .copied key copy ∈ effects) : effects = [.copied key copy] ∧
      ∃ page contents frame, v.page key = some page ∧ Contents.Copied page.contents contents ∧
        v'.page copy = some { page with contents, frame, holders := 1 } ∧
          ∀ g, frame = some g → v'.bytes g = some (v.bytesOf page) := by
  cases h.fate hcoherent copy with
  | absent _ _ hunset | kept _ _ hunset => exact absurd rfl (hunset _ he)
  | copied _ _ hsource hcopied hmade hbytes =>
      cases List.mem_singleton.1 he
      exact ⟨rfl, _, _, _, hsource, hcopied, hmade, hbytes⟩
  | evicted => cases he
  | _ => cases List.mem_singleton.1 he

theorem Step.covers_copy (h : Step effects x v x' v') (hcoherent : Coherent x v)
    (he : .copied key copy ∈ effects) (hcovers : v.Covers key f p i) : v'.Covers copy f p i := by
  obtain ⟨-, _, _, _, hsource, hcopied, hmade, -⟩ := h.copied_of_label hcoherent he
  obtain ⟨page, slice, hpage, hslice, rfl, rfl, hi⟩ := hcovers
  cases hpage.symm.trans hsource
  obtain ⟨slice', hslice', hfile, hoffset, hbytes⟩ := hcopied.exists_window hslice
  exact ⟨_, slice', hmade, hslice', hfile, by rw [hoffset], by rwa [hbytes]⟩

/-- A copy is followed where its source was, if the file has what the source shows. -/
theorem Step.followed_copy (h : Step effects x v x' v') (hcoherent : Coherent x v)
    (hreaches : v.Reaches f p) (he : .copied key copy ∈ effects) (hquiet : Quiet none v f p)
    (hfollowed : Followed memory v key f p i) : Followed (memory.after effects) v' copy f p i := by
  obtain ⟨rfl, source, contents, frame, hsource, -, hmade, hbytes⟩ := h.copied_of_label hcoherent he
  cases hfollowed with
  | gone _ hgone => cases hgone.symm.trans hsource
  | @mapped byte page hbyte hcovers hpage hshown hclean =>
      cases hpage.symm.trans hsource
      have hfile : v'.byteAt? f p = some byte := by
        rw [h.byteAt?_of_quiet hcoherent hreaches hquiet]
        exact hclean fun hstained => by cases hquiet key i hcovers hstained
      have hcovers' := h.covers_copy hcoherent he hcovers
      have hbyte' : (memory.after [.copied key copy] copy)[i]? = some byte := by
        rwa [show memory.after [.copied key copy] copy = memory key from Function.update_self _ _ _]
      refine .mapped hbyte' hcovers' hmade ?_ fun _ => hfile
      obtain ⟨_, slice, hpage', hslice, rfl, hp, hi⟩ := hcovers'
      cases hpage'.symm.trans hmade
      cases frame with
      | some g => rwa [View.bytesOf_of_frame rfl (hbytes g rfl)]
      | none =>
          rw [View.bytesOf_of_absent rfl, View.contentsBytes_of_window hslice]
          exact View.getElem?_shown hp hi hfile

theorem Steps.covers_copy (h : Steps effects x v x' v') (hcoherent : Coherent x v)
    (he : .copied key copy ∈ effects) (hcovers : v.Covers key f p i)
    (hthere : v'.page copy ≠ none) : v'.Covers copy f p i := by
  obtain ⟨before, labels, behind, x₁, x₂, v₁, v₂, rfl, he, hbefore, hstep, hbehind⟩ := h.exists_step he
  have hcoherent₁ := hbefore.coherent hcoherent
  obtain ⟨-, page, _, _, hsource, -⟩ := hstep.copied_of_label hcoherent₁ he
  have hcovers₁ := hbefore.covers_of_there hcoherent hcovers (hsource ▸ Option.some_ne_none _)
  exact hbehind.covers_of_there (hstep.coherent hcoherent₁) (hstep.covers_copy hcoherent₁ he hcovers₁)
    hthere

theorem Steps.followed_copy (h : Steps effects x v x' v') (hcoherent : Coherent x v)
    (hreaches : v.Reaches f p) (he : .copied key copy ∈ effects) (hnothing : StoresNothing effects)
    (hquiet : Quiet none v f p) (hfollowed : Followed memory v key f p i) :
    Followed (memory.after effects) v' copy f p i := by
  obtain ⟨before, labels, behind, x₁, x₂, v₁, v₂, rfl, he, hbefore, hstep, hbehind⟩ := h.exists_step he
  have hcoherent₁ := hbefore.coherent hcoherent
  have hreaches₁ := hreaches.of_since hbefore.filesSince
  have hquiet₁ := hbefore.quiet_of_storesNothing hcoherent hnothing.head hquiet
  have hquiet₂ := hstep.quiet_of_storesNothing hcoherent₁ hnothing.tail.head hquiet₁
  rw [Memory.after_append, Memory.after_append]
  refine hbehind.followed_of_storesNothing (hstep.coherent hcoherent₁)
    (hreaches₁.of_since hstep.filesSince) hnothing.tail.tail hquiet₂.of_none ?_
  refine hstep.followed_copy hcoherent₁ hreaches₁ he hquiet₁ ?_
  exact hbefore.followed_of_storesNothing hcoherent hreaches hnothing.head hquiet.of_none hfollowed

end

/-! ### Forks -/

section

variable {s t : Key AddressSpace} {a : VirtualAddress} {key : Key Page} {f : Key File} {p k : Nat}
  {byte? : Option UInt8} {m m' : Machine} {effects : List Effect} {memory : Memory} {window : Window}
  {bytes : Nat → UInt8} {before : Array UInt8}

theorem Space.Forked.storesNothing (h : Forked s t effects m m') (hsound : Sound none m) :
    StoresNothing effects := fun _ _ _ he => h.copies hsound _ he

theorem Tracked.forked (h : Tracked s a key f p byte? memory m.view) (hsound : Sound none m)
    (hreaches : m.view.Reaches f p) (hforked : Forked s t effects m m') :
    Tracked s a key f p byte? (memory.after effects) m'.view := by
  obtain ⟨page, hpage, -⟩ := hsound.coherent.placement.placed h.place
  have hs : s ≠ t := by
    rintro rfl
    obtain ⟨d, hopened⟩ := hsound.coherent.placement.opened h.place
    cases hforked.fresh.symm.trans hopened
  refine h.of_storesNothing hforked.course hsound hreaches (hforked.storesNothing hsound)
    ((congrFun (hforked.elsewhere s hs).1 _).trans h.place) ?_
  exact Memory.after_of_unset fun e he hsets =>
    (hforked.course.steps.spares_of_copies (hforked.copies hsound)
      (hsound.coherent.placement.created hpage) e he).1 hsets

theorem Tracked.copy (h : Tracked s a key f p byte? memory m.view) (hsound : Sound none m)
    (hreaches : m.view.Reaches f p) (hforked : Forked s t effects m m')
    (hclean : ¬m.view.Stained key) :
    ∃ copy, Tracked t a copy f p byte? (memory.after effects) m'.view := by
  have hquiet : Quiet none m.view f p := fun key' i hcovers hstained => by
    cases h.quiet key' i hcovers hstained
    exact absurd hstained hclean
  obtain ⟨page, hpage, -⟩ := hsound.coherent.placement.placed h.place
  obtain ⟨copy, page', he, hcopy, hpage', -⟩ := hforked.exists_page hsound h.place hpage
  have hmemory : memory.after effects copy = memory key := by
    obtain ⟨_, hcopy', -, hmemory⟩ := hforked.copied.place _ _ h.place
    cases hcopy.symm.trans hcopy'
    exact hmemory memory
  have hsteps := hforked.course.steps
  have hnothing := hforked.storesNothing hsound
  refine ⟨copy, hcopy, hsteps.covers_copy hsound.coherent he h.covers (hpage' ▸ Option.some_ne_none _),
    (hsteps.quiet_of_storesNothing hsound.coherent hnothing hquiet).of_none, fun byte hbyte => ?_⟩
  obtain ⟨hold, hfollowed⟩ := h.followed byte hbyte
  exact ⟨hmemory ▸ hold,
    hsteps.followed_copy hsound.coherent hreaches he hnothing hquiet hfollowed⟩

theorem Window.Live.tracked (h : window.Live bytes before memory m.view) (hsound : Sound none m)
    (hk : k < window.length) (ha : a.toNat = window.start.toNat + k) :
    ∃ key, Tracked window.space a key window.file (window.offset + k) (some (bytes k)) memory m.view := by
  obtain ⟨key, hplace, hfollowed, hbyte⟩ := h.followed k hk
  have hnumber : window.page k = a.number := by
    rw [Window.page, ← ha]
    rfl
  have hinPage : window.inPage k = a.pageOffset := by
    rw [Window.inPage, ← ha]
    rfl
  have honly : ∀ {key' i}, m.view.Covers key' window.file (window.offset + k) i → some key = some key' :=
    h.eq_of_covers hplace
  rw [hnumber] at hplace
  rw [hinPage] at hfollowed hbyte
  refine ⟨key, hplace, ?_, fun _ _ hcovers _ => honly hcovers, fun byte he => ?_⟩
  · cases hfollowed with
    | mapped _ hcovers => exact hcovers
    | gone _ hgone =>
        obtain ⟨page, hpage, -⟩ := hsound.coherent.placement.placed hplace
        cases hgone.symm.trans hpage
  · cases he
    exact ⟨hbyte, hfollowed⟩

end

/-! ### Runs -/

section

variable {start m₀ m₁ m m' m'' : Machine} {earlier history later : List Done}
  {s t w : Key AddressSpace} {a va : VirtualAddress} {f : Key File} {k length offset : Nat}
  {name : String} {α : Type} {request : Request α} {answer : α} {file : File}

theorem lastStored_of_not_writes (h : ∀ d ∈ later, ¬d.request.Writes) (a : Nat) :
    lastStored later s a = none :=
  List.findSome?_eq_none_iff.2 fun d hd => by
    rw [Done.stores?, Request.stores?_of_not_writes (h d hd), ite_self]

-- A file is mapped once, and then the process forks.
variable (h : Run start earlier m₀) (hmap : Returns (request.perform? s) m₀ (some answer) m₁)
  (hmaps : request.Maps f va length offset answer) (hfile : m₀.files.get? f = some file)
  (hreach : file.reachLimit = none) (hlength : file.reportedLength = none)
  (hunmapped : ∀ key page slice, m₀.pages.get? key = some page →
    page.contents.window? = some slice → slice.handle.file ≠ f)
  (hhistory : Reaches m₁ history m)
  (hspared : ∀ d ∈ history, (Window.ofMapping s f file va offset length).Spared d)
  (hk : k < length) (hin : offset + k < file.data.size) (ha : a.toNat = va.toNat + k)
  (hfork : Returns ((Request.fork name).perform? s) m (some (.ok t)) m')

include h hmap hmaps hfile hreach hlength hunmapped hhistory hspared hk hin ha hfork

/-- What the parent showed at the fork and what is stored by one of the two since then it keeps, unless
somebody stores into another page over the position. For the copy to keep it the parent's page must not
have been dirty at the fork. -/
theorem Run.keepsByte_of_fork (hw : w = s ∨ w = t ∧ m.isStained s a.number = false) :
    ∃ own, m'.view.pageOf w a.number = some own ∧ ∀ {later m''}, Reaches m' later m'' →
      (∀ d ∈ later, d.StoresOnlyIn (some own) f (offset + k)) →
        (∀ d ∈ later, d.space = w → ¬d.request.Takes w d.before a.number) →
          m''.KeepsByte w a f (offset + k) ((lastStored later w a.toNat).getD
            ((lastStored history s a.toNat).getD (file.data[offset + k]?.getD 0))) := by
  obtain ⟨hsound, flat, memory, -, hagrees, hlive⟩ :=
    h.live hmap hmaps hfile hreach hlength hunmapped hhistory hspared
  obtain ⟨child, effects, ⟨⟨_, he⟩, -⟩ | ⟨he, hforked⟩⟩ :=
    answers_fork hsound (Request.returns_perform?.1 hfork).2
  · cases he
  cases he
  have hlt : k < (Window.ofMapping s f file va offset length).length := by
    simp only [Window.ofMapping]
    omega
  have hreaches : m.view.Reaches f (offset + k) := by
    obtain ⟨found, hfound, hreach, hsize⟩ := hlive.file
    exact ⟨found, hfound, hreach, hsize ▸ hin⟩
  obtain ⟨key, htracked⟩ := hlive.tracked hsound hlt ha
  rw [← ha] at htracked
  obtain ⟨own, htracked⟩ : ∃ own, Tracked w a own f (offset + k)
      (some ((lastStored history s a.toNat).getD (file.data[offset + k]?.getD 0)))
        (memory.after effects) m'.view := by
    rcases hw with rfl | ⟨rfl, hclean⟩
    · exact ⟨key, htracked.forked hsound hreaches hforked⟩
    · refine htracked.copy hsound hreaches hforked fun hstained => ?_
      cases (isStained_of_stained hsound htracked.place hstained).symm.trans hclean
  refine ⟨own, htracked.place, fun hlater honly hkept => ?_⟩
  exact htracked.keepsByte_of_reaches (hforked.course.sound hsound) (hagrees.forked hsound hforked)
    (hreaches.of_since hforked.course.steps.filesSince) hlater honly hkept Option.or_some

/-- Where the parent's page was not dirty the copy is a snapshot. As long as nothing is stored the two show
what the parent showed at the fork, whatever is evicted. -/
theorem Run.snapshot (hclean : m.isStained s a.number = false) (hlater : Reaches m' later m'')
    (hnothing : ∀ d ∈ later, ¬d.request.Writes)
    (hkept : ∀ d ∈ later, ¬d.request.Takes d.space d.before a.number) (hw : w = s ∨ w = t) :
    m''.KeepsByte w a f (offset + k)
      ((lastStored history s a.toNat).getD (file.data[offset + k]?.getD 0)) := by
  obtain ⟨own, -, hkeeps⟩ := h.keepsByte_of_fork hmap hmaps hfile hreach hlength hunmapped hhistory
    hspared hk hin ha hfork (hw.imp_right fun ht => ⟨ht, hclean⟩)
  have hbyte := hkeeps hlater (fun d hd => Request.storesOnlyIn_of_not_writes (hnothing d hd))
    fun d hd hs => hs ▸ hkept d hd
  rwa [lastStored_of_not_writes hnothing, Option.getD_none] at hbyte

end

def writtenToCopy : Option (Except VmError VirtualAddress) × Bool ×
    Option (Except VmError Space.Id) × Option (Except Rejection Unit) → Bool
  | (some (.ok _), false, some (.ok ⟨1⟩), some (.ok ())) => true
  | _ => false

/-- The copy of a mapping of two bytes keeps the byte that is stored into it, and the one beside it, which
was not in memory at the fork. -/
theorem keepsByte_of_writtenToCopy : ∃ s t m₁ m₂ m₃, s ≠ t ∧
    Returns ((Request.fork "child").perform? s) m₁ (some (.ok t)) m₂ ∧
      Returns ((Request.writeUser ⟨0x10000000, by decide⟩ #[65]).perform? t) m₂ (some (.ok ())) m₃ ∧
        m₃.KeepsByte t ⟨0x10000000, by decide⟩ ⟨0⟩ 0 65 ∧
          m₃.KeepsByte t ⟨0x10000001, by decide⟩ ⟨0⟩ 1 2 := by
  have hpieces : pieces 0x10000000 0 1 = [⟨0, 1⟩] := pieces_of_le (by decide) (by decide)
  have htest : returnsWith (do
        let s ← Space.create "init"
        let mapped ← (Request.mapFile ⟨0x10000000, by decide⟩ 2 true ⟨⟨0⟩, 0⟩ 0).perform? s
        let before ← get
        let forked ← (Request.fork "child").perform? s
        return (mapped, before.isStained s ⟨0x10000⟩, forked,
          ← (Request.writeUser ⟨0x10000000, by decide⟩ #[65]).perform? ⟨1⟩))
      (bare 1 0 (Arena.empty.add (.ofData #[1, 2] none))) (fun answers _ =>
        writtenToCopy answers) = true := by
    simp only [Request.perform?, Request.perform, writeUser, List.size_toArray,
      List.length_singleton, hpieces]
    decide +kernel
  obtain ⟨answers, m₃, hrun, htest⟩ := exists_returns htest
  simp only [returns_bind, returns_pure] at hrun
  obtain ⟨s, m₀, hcreate, mapped, _, hmap, _, m₁, hget, forked, m₂, hfork, wrote, _, hwrite, rfl,
    rfl⟩ := hrun
  obtain ⟨hsame, hsame'⟩ := returns_get.1 hget
  subst hsame hsame'
  unfold writtenToCopy at htest
  split at htest
  swap
  · cases htest
  next va he =>
  simp only [Prod.mk.injEq] at he
  obtain ⟨rfl, hclean, rfl, rfl⟩ := he
  obtain ⟨rfl, hfiles, hpages⟩ := bare_of_create hcreate
  have hreached : Run (bare 1 0 (Arena.empty.add (.ofData #[1, 2] none))) [] m₀ :=
    ⟨fresh_bare _ _ _, .create .refl hcreate⟩
  have hfile : m₀.files.get? ⟨0⟩ = some (.ofData #[1, 2] none) := by
    rw [hfiles]
    rfl
  have hunmapped : ∀ key page slice, m₀.pages.get? key = some page →
      page.contents.window? = some slice → slice.handle.file ≠ ⟨0⟩ := fun key page slice hpage => by
    cases (hpages key).symm.trans hpage
  have hkeeps : ∀ {k byte} {a : VirtualAddress}, k < 2 → a.toNat = 0x10000000 + k →
      (lastStored [⟨⟨1⟩, .writeUser ⟨0x10000000, by decide⟩ #[65], .ok (), m₂, m₃⟩] ⟨1⟩ a.toNat).getD
        ((#[1, 2] : Array UInt8)[0 + k]?.getD 0) = byte → m₃.KeepsByte ⟨1⟩ a ⟨0⟩ (0 + k) byte := by
    rintro k _ a hk ha rfl
    have hnumber : a.number = ⟨0x10000⟩ := Number.ext (by
      rw [Address.toNat_number, ha]
      simp only [pageSize]
      omega)
    obtain ⟨own, hplace, hkept⟩ := hreached.keepsByte_of_fork hmap ⟨rfl, rfl, rfl, rfl⟩ hfile rfl rfl
      hunmapped .refl (fun _ hd => (List.not_mem_nil hd).elim) hk (by rwa [Nat.zero_add]) ha hfork
      (.inr ⟨rfl, hnumber ▸ hclean⟩)
    refine hkept (.request .refl hwrite) (fun d hd => ?_) fun d hd _ => ?_
    · cases List.mem_singleton.1 hd
      exact Request.storesOnlyIn_of_within hplace (by rw [hnumber]; decide) (by rw [hnumber]; decide)
    · cases List.mem_singleton.1 hd
      rintro ⟨_, hends, -⟩
      exact hends
  refine ⟨⟨0⟩, ⟨1⟩, m₁, m₂, m₃, by decide, hfork, hwrite, hkeeps Nat.two_pos rfl ?_,
    hkeeps Nat.one_lt_two rfl ?_⟩
  · simp [lastStored, Done.stores?, Request.stores?]
  · simp [lastStored, Done.stores?, Request.stores?]

end DemandPaging
