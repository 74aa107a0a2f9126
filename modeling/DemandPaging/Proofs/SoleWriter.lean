import DemandPaging.Proofs.Stains

/-!
One position of a file under several pages.

Two mappings of a file, and a mapping and its copy in a fork, show one part of the file through pages
with frames of their own. A page that was written to is written back as a whole when it leaves its
frame. So what one process stored may be undone by another one that stored next to it. But a page that
was not written to is not written back, and so the file and a page go together, as if there were no
other one over the position, as long as of all these pages only that one is written to. What is stored
through it last is kept then: the process reads it as long as it has the page, and the file has it
afterwards.
-/

namespace DemandPaging

open Machine Space

/-! ### Chains that store nothing -/

def StoresNothing (effects : List Effect) : Prop :=
  ∀ key offset data, .stored key offset data ∉ effects

section

variable {effects rest : List Effect} {x x' : Option FrameNumber} {v v' : View}
  {key : Key Page} {f : Key File} {p i : Nat} {own : Option (Key Page)} {memory : Memory}

theorem StoresNothing.head (h : StoresNothing (effects ++ rest)) : StoresNothing effects :=
  fun key offset data he => h key offset data (List.mem_append_left _ he)

theorem StoresNothing.tail (h : StoresNothing (effects ++ rest)) : StoresNothing rest :=
  fun key offset data he => h key offset data (List.mem_append_right _ he)

theorem Quiet.of_none (h : Quiet none v f p) : Quiet own v f p := fun key i hcovers hstained => by
  cases h key i hcovers hstained

theorem Steps.covers_of_there (h : Steps effects x v x' v') (hcoherent : Coherent x v)
    (hcovers : v.Covers key f p i) (hthere : v'.page key ≠ none) : v'.Covers key f p i := by
  obtain ⟨page, slice, hpage, hslice, hat⟩ := hcovers
  obtain ⟨page', hpage'⟩ := Option.ne_none_iff_exists'.1 hthere
  exact ⟨page', slice, hpage', (h.window?_eq hcoherent hpage hpage').trans hslice, hat⟩

/-- Nothing gets dirty if nothing is stored, whatever pages are made. -/
theorem Step.quiet_of_storesNothing (h : Step effects x v x' v') (hcoherent : Coherent x v)
    (hnothing : StoresNothing effects) (hquiet : Quiet own v f p) : Quiet own v' f p := by
  intro key i ⟨page', slice, hpage', hslice, hat⟩ hstained
  have hbefore := (h.stained_old hcoherent hstained).resolve_right fun ⟨offset, data, he⟩ =>
    hnothing key offset data he
  -- a page that was dirty was there, and covered what it covers now
  obtain ⟨g, o, howner, rfl, -⟩ := id hbefore
  obtain ⟨page, -, hpage, -⟩ := hcoherent.residency.linked howner
  exact hquiet _ i ⟨page, slice, hpage, (h.window?_eq hcoherent hpage hpage').symm.trans hslice, hat⟩
    hbefore

theorem Steps.quiet_of_storesNothing (h : Steps effects x v x' v') (hcoherent : Coherent x v)
    (hnothing : StoresNothing effects) (hquiet : Quiet own v f p) : Quiet own v' f p := by
  induction h with
  | nil => exact hquiet
  | cons head tail ih =>
      exact ih (head.coherent hcoherent) hnothing.tail
        (head.quiet_of_storesNothing hcoherent hnothing.head hquiet)

theorem Steps.followed_of_storesNothing (h : Steps effects x v x' v') (hcoherent : Coherent x v)
    (hreaches : v.Reaches f p) (hnothing : StoresNothing effects) (hquiet : Quiet (some key) v f p)
    (hfollowed : Followed memory v key f p i) : Followed (memory.after effects) v' key f p i := by
  induction h generalizing memory with
  | nil => exact hfollowed
  | cons head tail ih =>
      rw [Memory.after_append]
      exact ih (head.coherent hcoherent) (hreaches.of_since head.filesSince) hnothing.tail
        (head.quiet_of_storesNothing hcoherent hnothing.head hquiet)
        (head.followed hcoherent hreaches hquiet hfollowed)

theorem Step.byteAt?_of_quiet (h : Step effects x v x' v') (hcoherent : Coherent x v)
    (hreaches : v.Reaches f p) (hquiet : Quiet none v f p) : v'.byteAt? f p = v.byteAt? f p := by
  rcases h.byteAt?_eq_or hcoherent hreaches with hsame | ⟨key, _, i, hcovers, hstained, -⟩
  · exact hsame
  · cases hquiet key i hcovers hstained

theorem Steps.byteAt?_of_storesNothing (h : Steps effects x v x' v') (hcoherent : Coherent x v)
    (hreaches : v.Reaches f p) (hnothing : StoresNothing effects) (hquiet : Quiet none v f p) :
    v'.byteAt? f p = v.byteAt? f p := by
  induction h with
  | nil => rfl
  | cons head tail ih =>
      exact (ih (head.coherent hcoherent) (hreaches.of_since head.filesSince) hnothing.tail
        (head.quiet_of_storesNothing hcoherent hnothing.head hquiet)).trans
          (head.byteAt?_of_quiet hcoherent hreaches hquiet)

theorem Steps.exists_step (h : Steps effects x v x' v') {e : Effect} (he : e ∈ effects) :
    ∃ (before labels behind : List Effect) (x₁ x₂ : Option FrameNumber) (v₁ v₂ : View),
      effects = before ++ (labels ++ behind) ∧ e ∈ labels ∧ Steps before x v x₁ v₁ ∧
        Step labels x₁ v₁ x₂ v₂ ∧ Steps behind x₂ v₂ x' v' := by
  induction h with
  | nil => cases he
  | @cons effects rest x x₁ x' v v₁ v' head tail ih =>
      rcases List.mem_append.1 he with he | he
      · exact ⟨[], effects, rest, x, x₁, v, v₁, rfl, he, .nil, head, tail⟩
      · obtain ⟨before, labels, behind, x₂, x₃, v₂, v₃, rfl, he, hbefore, hstep, hbehind⟩ := ih he
        exact ⟨effects ++ before, labels, behind, x₂, x₃, v₂, v₃, (List.append_assoc ..).symm, he,
          .cons head hbefore, hstep, hbehind⟩

end

/-! ### Requests -/

/-- Of the pages over a position the request stores into the given one at most. -/
def Request.StoresOnlyIn {α : Type} (own : Option (Key Page)) (f : Key File) (p : Nat)
    (s : Key AddressSpace) (m : Machine) (request : Request α) (answer : α) : Prop :=
  ∀ (n : PageNumber) key i offset, m.view.pageOf s n = some key → m.view.Covers key f p i →
    offset < pageSize → request.stores? s m (n.toNat * pageSize + offset) answer ≠ none →
      own = some key

def Done.StoresOnlyIn (own : Option (Key Page)) (f : Key File) (p : Nat) (d : Done) : Prop :=
  d.request.StoresOnlyIn own f p d.space d.before d.answer

section

variable {α : Type} {request : Request α} {answer : α} {m m₁ m' : Machine} {s : Key AddressSpace}
  {n : PageNumber} {key : Key Page} {a i p : Nat} {data : Array UInt8} {f : Key File}
  {effects : List Effect} {own : Option (Key Page)} {memory : Memory} {later : List Done}

theorem Request.storesOnlyIn_of_not_writes (h : ¬request.Writes) :
    request.StoresOnlyIn own f p s m answer :=
  fun _ _ _ _ _ _ _ hstores => absurd (Request.stores?_of_not_writes h _ _ _) hstores

theorem Request.range_of_stores {va : VirtualAddress} {answer : Except Rejection Unit}
    (h : (Request.writeUser va data).stores? s m a answer ≠ none) :
    va.toNat ≤ a ∧ a < va.toNat + data.size := by
  have hsome : va.toNat ≤ a ∧ data[a - va.toNat]? ≠ none := by
    cases answer <;> rw [Request.stores?] at h <;> split at h
    · next hrange => exact ⟨hrange.1, h⟩
    · exact absurd rfl h
    · next hrange => exact ⟨hrange.1, h⟩
    · exact absurd rfl h
  have hlt := mt Array.getElem?_eq_none hsome.2
  omega

theorem Request.storesOnlyIn_of_within {va : VirtualAddress} {answer : Except Rejection Unit}
    (hplace : m.view.pageOf s n = some key) (hle : n.toNat * pageSize ≤ va.toNat)
    (hlt : va.toNat + data.size ≤ (n.toNat + 1) * pageSize) :
    (Request.writeUser va data).StoresOnlyIn (some key) f p s m answer := by
  intro n' key' i offset hplace' _ hoffset hstores
  have hrange := Request.range_of_stores hstores
  obtain rfl : n' = n := Number.ext (by
    simp only [pageSize] at hle hlt hoffset hrange
    omega)
  exact hplace.symm.trans hplace'

theorem Outcome.storesNothing (h : Outcome s m m' request answer effects)
    (hwrites : ¬request.Writes) : StoresNothing effects := fun _ _ _ he => by
  cases h.labels he with
  | stored hwrites' => exact hwrites hwrites'

theorem Space.Stored.fits_of_stored {offset : Nat} {stored : Array UInt8}
    (h : Stored s a data effects m m') (he : .stored key offset stored ∈ effects) :
    offset < pageSize := by
  induction h with
  | passed h => cases h.passing _ he
  | store hpassed _ hfits hsome _ _ _ ih =>
      rcases List.mem_append.1 he with he | he
      · cases hpassed.passing _ he
      rcases List.mem_cons.1 he with he | he
      · cases he
        omega
      · exact ih he

/-- A write that stores at the address of a byte of a page reaches the byte. -/
theorem Space.Stored.exists_hits (h : Stored s a data effects m m') (hsound : Sound none m)
    (hplace : m.view.pageOf s n = some key) (hi : i < pageSize)
    (hle : a ≤ n.toNat * pageSize + i) (hlt : n.toNat * pageSize + i < a + data.size) :
    ∃ e ∈ effects, e.Hits key i := by
  induction h with
  | passed => exact absurd hlt (Nat.not_lt.2 hle)
  | @store n₁ offset key₁ data more effects rest m m₁ m₂ m' hpassed hplace₁ hfits _ hspaces hcourse _ ih =>
      obtain ⟨page, hpage, -⟩ := hsound.coherent.placement.placed hplace
      have hplace' := (hpassed.page_kept hsound hpage).2 s n hplace
      rw [Array.size_append, ← Nat.add_assoc] at hlt
      by_cases hfirst : n.toNat * pageSize + i < n₁.toNat * pageSize + offset + data.size
      · obtain rfl : n = n₁ := Number.ext (by
          simp only [pageSize] at hi hle hfirst hfits
          omega)
        cases hplace₁.symm.trans hplace'
        exact ⟨_, List.mem_append_right _ List.mem_cons_self, rfl, by omega, by omega⟩
      · rw [← view_pageOf_congr hspaces] at hplace'
        obtain ⟨e, he, hits⟩ := ih (hcourse.sound (hpassed.sound hsound)) hplace'
          (Nat.not_lt.1 hfirst) hlt
        exact ⟨e, List.mem_append_right _ (List.mem_cons_of_mem _ he), hits⟩

/-- A request that stores at the address of a byte of a page reaches the byte. -/
theorem Outcome.exists_hits (h : Outcome s m m' request answer effects) (hsound : Sound none m)
    (hplace : m.view.pageOf s n = some key) (hi : i < pageSize)
    (hstores : request.stores? s m (n.toNat * pageSize + i) answer ≠ none) :
    ∃ e ∈ effects, e.Hits key i := by
  cases h with
  | @stored va data answer _ length hlength hle hok hstored =>
      have hsize : (data.extract 0 length).size = length := by
        rw [Array.size_extract, Nat.sub_zero, Nat.min_eq_left hle]
      have hrange : va.toNat ≤ n.toNat * pageSize + i ∧ n.toNat * pageSize + i < va.toNat + length := by
        by_contra hout
        rw [Request.stores?_writeUser hlength hok, if_neg hout] at hstores
        exact hstores rfl
      exact hstored.exists_hits hsound hplace hi hrange.1 (by rw [hsize]; exact hrange.2)
  | passed hquiet =>
      cases request with
      | writeUser => cases hquiet
      | _ => exact absurd rfl hstores
  | _ => exact absurd rfl hstores

theorem Outcome.undisturbed (h : Outcome s m m' request answer effects) (hsound : Sound none m)
    (hwrites : request.Writes) (honly : request.StoresOnlyIn own f p s m answer) :
    Undisturbed own m.view f p effects where
  added he := by
    cases h.labels he with
    | added _ _ hmaps =>
        obtain ⟨_, _, _, hmaps⟩ := hmaps _ rfl
        cases request with
        | writeUser => cases hmaps
        | _ => cases hwrites
  copied he := by
    cases h.labels he with
    | copied hforks =>
        cases request with
        | writeUser => cases hforks
        | _ => cases hwrites
  stored {key offset data i} he hcovers := by
    obtain ⟨page, _, hpage, -⟩ := id hcovers
    obtain ⟨s', hplace⟩ := hsound.coherent.placement.held hpage
    cases h with
    | stored _ _ _ hstored =>
        have hlt := hstored.fits_of_stored he
        obtain ⟨rfl, hstores⟩ := Outcome.stores_of_hits (.stored ‹_› ‹_› ‹_› hstored) hsound hplace he
          ⟨rfl, Nat.le_refl _, Nat.lt_add_of_pos_right (hstored.pos_of_stored he)⟩
        exact honly _ _ _ _ hplace hcovers hlt hstores
    | passed _ hpassed => cases hpassed.passing _ he
    | _ => cases hwrites

theorem Outcome.quiet (h : Outcome s m m' request answer effects) (hsound : Sound none m)
    (honly : request.StoresOnlyIn own f p s m answer) (hquiet : Quiet own m.view f p) :
    Quiet own m'.view f p := by
  by_cases hwrites : request.Writes
  · exact h.course.steps.quiet hsound.coherent (h.undisturbed hsound hwrites honly) hquiet
  · exact h.course.steps.quiet_of_storesNothing hsound.coherent (h.storesNothing hwrites) hquiet

theorem Outcome.byteAt?_eq (h : Outcome s m m' request answer effects) (hsound : Sound none m)
    (hreaches : m.view.Reaches f p) (honly : request.StoresOnlyIn none f p s m answer)
    (hquiet : Quiet none m.view f p) : m'.view.byteAt? f p = m.view.byteAt? f p := by
  have hsteps := h.course.steps
  by_cases hwrites : request.Writes
  · exact hsteps.byteAt?_eq hsound.coherent hreaches (h.undisturbed hsound hwrites honly) hquiet
  · exact hsteps.byteAt?_of_storesNothing hsound.coherent hreaches (h.storesNothing hwrites) hquiet

/-- A position that no dirty page covers is left alone as long as nobody stores into a page over it. -/
theorem Reaches.byteAt?_eq (h : Reaches m₁ later m) (hsound : Sound none m₁)
    (hreaches : m₁.view.Reaches f p) (honly : ∀ d ∈ later, d.StoresOnlyIn none f p)
    (hquiet : Quiet none m₁.view f p) :
    m.view.byteAt? f p = m₁.view.byteAt? f p ∧ Quiet none m.view f p := by
  induction h with
  | refl => exact ⟨rfl, hquiet⟩
  | @create _ _ _ _ s hreached hrun ih =>
      obtain ⟨hsame, hquiet'⟩ := ih honly
      have hsound' := hreached.sound hsound
      obtain ⟨_, hcourse⟩ := hreached.course hsound
      have hsteps := (returns_create hsound' hrun).course.steps
      have hnothing : StoresNothing [.opened s] := fun _ _ _ he => by cases List.mem_singleton.1 he
      exact ⟨(hsteps.byteAt?_of_storesNothing hsound'.coherent
        (hreaches.of_since hcourse.steps.filesSince) hnothing hquiet').trans hsame,
        hsteps.quiet_of_storesNothing hsound'.coherent hnothing hquiet'⟩
  | clients _ _ ih => exact ih honly
  | request hreached hrun ih =>
      obtain ⟨hsame, hquiet'⟩ := ih fun d hd => honly d (List.mem_cons_of_mem _ hd)
      have hsound' := hreached.sound hsound
      obtain ⟨_, hcourse⟩ := hreached.course hsound
      obtain ⟨effects, houtcome⟩ :=
        Request.exists_outcome hsound' (Request.returns_perform?.1 hrun).2
      have hnow := honly _ List.mem_cons_self
      exact ⟨(houtcome.byteAt?_eq hsound' (hreaches.of_since hcourse.steps.filesSince) hnow
        hquiet').trans hsame, houtcome.quiet hsound' hnow hquiet'⟩

end

/-! ### The page that is written to -/

section

variable {effects rest : List Effect} {x x' : Option FrameNumber} {v v' : View} {key : Key Page}
  {f : Key File} {p i : Nat} {own : Option (Key Page)} {memory : Memory}

theorem Undisturbed.behind (h : Undisturbed own v f p (effects ++ rest)) (hcoherent : Coherent x v)
    (hsteps : Steps effects x v x' v') : Undisturbed own v' f p rest where
  added he := h.added (List.mem_append_right _ he)
  copied he hcovers := h.copied (List.mem_append_right _ he)
    (hsteps.covers_of_undisturbed hcoherent h.head hcovers)
  stored he hcovers := h.stored (List.mem_append_right _ he)
    (hsteps.covers_of_undisturbed hcoherent h.head hcovers)

/-- From the store on a byte is followed, whatever the file had before. -/
theorem Step.followed_of_hit (h : Step effects x v x' v') (hcoherent : Coherent x v)
    (hcovers : v.Covers key f p i) {offset : Nat} {data : Array UInt8}
    (he : .stored key offset data ∈ effects) (hits : (Effect.stored key offset data).Hits key i) :
    Followed (memory.after effects) v' key f p i := by
  obtain ⟨rfl, hstained, page, bytes, -, hnew, hshown⟩ := h.stored_of_label hcoherent he
  have hcovers' := (Steps.single h).covers_of_there hcoherent hcovers (hnew ▸ Option.some_ne_none _)
  obtain ⟨_, slice, -, -, -, -, hi⟩ := hcovers
  obtain ⟨-, hle, hsize⟩ := hits
  have hbyte : ∀ bytes : PageBytes, (bytes.overlay offset data)[i]? = some data[i - offset] := by
    intro bytes
    rw [Vector.getElem?_eq_getElem (Nat.lt_of_lt_of_le hi slice.readBytes_le), Bytes.getElem_overlay,
      if_pos hle, Array.getElem?_eq_getElem (by omega), Option.getD_some]
  have hmemory : (memory.after [.stored key offset data] key)[i]? = some data[i - offset] := by
    rw [show memory.after [.stored key offset data] key = (memory key).overlay offset data from
      Function.update_self _ _ _]
    exact hbyte _
  exact .mapped hmemory hcovers' hnew (hshown ▸ hbyte bytes) fun hnot => absurd hstained hnot

theorem Steps.followed_of_hit (h : Steps effects x v x' v') (hcoherent : Coherent x v)
    (hreaches : v.Reaches f p) (hquiet : Quiet (some key) v f p)
    (hundisturbed : Undisturbed (some key) v f p effects) (hcovers : v.Covers key f p i)
    {e : Effect} (he : e ∈ effects) (hits : e.Hits key i) :
    Followed (memory.after effects) v' key f p i := by
  obtain ⟨offset, data, rfl⟩ : ∃ offset data, e = .stored key offset data := by
    cases e with
    | stored =>
        obtain ⟨rfl, -⟩ := hits
        exact ⟨_, _, rfl⟩
    | _ => cases hits
  obtain ⟨before, labels, behind, x₁, x₂, v₁, v₂, rfl, he, hbefore, hstep, hbehind⟩ := h.exists_step he
  have hcoherent₁ := hbefore.coherent hcoherent
  have hundisturbed₁ := hundisturbed.behind hcoherent hbefore
  have hquiet₁ := hbefore.quiet hcoherent hundisturbed.head hquiet
  obtain ⟨-, -, page, -, hpage, -⟩ := hstep.stored_of_label hcoherent₁ he
  have hcovers₁ := hbefore.covers_of_there hcoherent hcovers (hpage ▸ Option.some_ne_none _)
  rw [Memory.after_append, Memory.after_append]
  exact hbehind.followed (hstep.coherent hcoherent₁)
    ((hreaches.of_since hbefore.filesSince).of_since hstep.filesSince)
    (hstep.quiet hcoherent₁ hundisturbed₁.head hquiet₁) (hundisturbed₁.tail hcoherent₁ hstep)
    (hstep.followed_of_hit hcoherent₁ hcovers₁ he hits)

end

/-- A page over a position at an address, the only one over it that may be dirty. If the byte there is
known, it is followed. -/
structure Tracked (s : Key AddressSpace) (a : VirtualAddress) (key : Key Page) (f : Key File) (p : Nat)
    (byte? : Option UInt8) (memory : Memory) (v : View) : Prop where
  place : v.pageOf s a.number = some key
  covers : v.Covers key f p a.pageOffset
  quiet : Quiet (some key) v f p
  followed : ∀ byte, byte? = some byte →
    (memory key)[a.pageOffset]? = some byte ∧ Followed memory v key f p a.pageOffset

section

variable {α : Type} {request : Request α} {answer : α} {m m₁ m' : Machine} {s s' : Key AddressSpace}
  {a : VirtualAddress} {key : Key Page} {f : Key File} {p : Nat} {byte? : Option UInt8} {byte : UInt8}
  {effects : List Effect} {memory : Memory} {flat : Flat} {later : List Done}

theorem Tracked.of_storesNothing (h : Tracked s a key f p byte? memory m.view)
    (hcourse : Course effects none m none m') (hsound : Sound none m) (hreaches : m.view.Reaches f p)
    (hnothing : StoresNothing effects) (hplace : m'.view.pageOf s a.number = some key)
    (hsame : memory.after effects key = memory key) :
    Tracked s a key f p byte? (memory.after effects) m'.view := by
  have hsteps := hcourse.steps
  have hcoherent := hsound.coherent
  obtain ⟨page, hpage, -⟩ := (hsteps.coherent hcoherent).placement.placed hplace
  refine ⟨hplace, hsteps.covers_of_there hcoherent h.covers (hpage ▸ Option.some_ne_none _),
    hsteps.quiet_of_storesNothing hcoherent hnothing h.quiet, fun byte hbyte => ?_⟩
  obtain ⟨hmemory, hfollowed⟩ := h.followed byte hbyte
  exact ⟨hsame ▸ hmemory,
    hsteps.followed_of_storesNothing hcoherent hreaches hnothing h.quiet hfollowed⟩

/-- A request changes the byte by what it stores there only, if it stores into no other page over the
position. -/
theorem Outcome.tracked (h : Outcome s' m m' request answer effects) (hsound : Sound none m)
    (hagrees : Agrees flat memory m.view) (hreaches : m.view.Reaches f p)
    (htracked : Tracked s a key f p byte? memory m.view)
    (honly : request.StoresOnlyIn (some key) f p s' m answer)
    (hkept : s = s' → ¬request.Takes s' m a.number) :
    Tracked s a key f p ((if s' = s then request.stores? s m a.toNat answer else none).or byte?)
      (memory.after effects) m'.view := by
  have hplace := htracked.place
  have hplace' := (h.pageOf_kept hsound hplace).resolve_right fun hand => hkept hand.1 hand.2
  obtain ⟨page, hpage, -⟩ := hsound.coherent.placement.placed hplace
  by_cases hwrites : request.Writes
  swap
  · rw [Request.stores?_of_not_writes hwrites, ite_self, Option.none_or]
    exact htracked.of_storesNothing h.course hsound hreaches (h.storesNothing hwrites) hplace'
      (Memory.after_of_unset (h.not_sets hsound hwrites hpage))
  have hsteps := h.course.steps
  obtain ⟨page', hpage', -⟩ := (hsteps.coherent hsound.coherent).placement.placed hplace'
  have hundisturbed := h.undisturbed hsound hwrites honly
  refine ⟨hplace', hsteps.covers_of_there hsound.coherent htracked.covers
    (hpage' ▸ Option.some_ne_none _), hsteps.quiet hsound.coherent hundisturbed htracked.quiet,
    fun byte hbyte => ?_⟩
  have hafter := h.getElem?_after hsound hagrees hplace hplace' a.pageOffset_lt
  rw [Address.number_mul_add_pageOffset] at hafter
  cases hstores : (if s' = s then request.stores? s m a.toNat answer else none) with
  | some stored =>
      rw [hstores] at hbyte hafter
      cases hbyte
      refine ⟨hafter, ?_⟩
      split at hstores
      · next hs =>
        subst hs
        rw [← Address.number_mul_add_pageOffset] at hstores
        obtain ⟨e, he, hits⟩ := h.exists_hits hsound hplace a.pageOffset_lt
          (hstores ▸ Option.some_ne_none _)
        exact hsteps.followed_of_hit hsound.coherent hreaches htracked.quiet hundisturbed
          htracked.covers he hits
      · cases hstores
  | none =>
      rw [hstores] at hbyte hafter
      obtain ⟨hmemory, hfollowed⟩ := htracked.followed byte hbyte
      rw [Vector.getElem?_eq_getElem a.pageOffset_lt] at hmemory
      cases hmemory
      exact ⟨hafter, hsteps.followed hsound.coherent hreaches htracked.quiet hundisturbed hfollowed⟩

/-- Along a history the byte is the one stored last, if nothing is stored into another page over the
position. -/
theorem Reaches.tracked (h : Reaches m₁ later m) (hsound : Sound none m₁)
    (hagrees : Agrees flat memory m₁.view) (hreaches : m₁.view.Reaches f p)
    (htracked : Tracked s a key f p byte? memory m₁.view)
    (honly : ∀ d ∈ later, d.StoresOnlyIn (some key) f p)
    (hkept : ∀ d ∈ later, d.space = s → ¬d.request.Takes s d.before a.number) :
    ∃ flat memory, Agrees flat memory m.view ∧
      Tracked s a key f p ((lastStored later s a.toNat).or byte?) memory m.view := by
  induction h with
  | refl => exact ⟨flat, memory, hagrees, htracked⟩
  | @create _ _ _ _ s' hreached hrun ih =>
      obtain ⟨flat, memory, hagrees, htracked⟩ := ih honly hkept
      have hsound := hreached.sound hsound
      obtain ⟨_, hcourse⟩ := hreached.course ‹_›
      have hcreated := returns_create hsound hrun
      refine ⟨flat, memory, hagrees.created hsound hcreated, ?_⟩
      exact htracked.of_storesNothing hcreated.course hsound
        (hreaches.of_since hcourse.steps.filesSince) (fun _ _ _ he => by cases List.mem_singleton.1 he)
        (by rw [hcreated.pageOf]; exact htracked.place) rfl
  | clients _ _ ih => exact ih honly hkept
  | @request _ _ _ s' _ _ _ hreached hrun ih =>
      obtain ⟨flat, memory, hagrees, htracked⟩ := ih (fun d hd => honly d (List.mem_cons_of_mem _ hd))
        fun d hd => hkept d (List.mem_cons_of_mem _ hd)
      obtain ⟨_, hcourse⟩ := hreached.course hsound
      have hsound := hreached.sound hsound
      obtain ⟨effects, houtcome⟩ :=
        Request.exists_outcome hsound (Request.returns_perform?.1 hrun).2
      refine ⟨_, _, houtcome.agrees hsound hagrees, ?_⟩
      have hlater := houtcome.tracked hsound hagrees (hreaches.of_since hcourse.steps.filesSince)
        htracked (honly _ List.mem_cons_self) fun hs => hs ▸ hkept _ List.mem_cons_self hs.symm
      rw [lastStored_cons, Option.or_assoc]
      exact hlater

end

/-! ### Bytes that are kept -/

/-- A process that has a byte of a file at an address keeps it. -/
structure Machine.KeepsByte (m : Machine) (s : Key AddressSpace) (a : VirtualAddress) (f : Key File)
    (p : Nat) (byte : UInt8) : Prop where
  /-- It reads the byte. -/
  reads : ∀ {va length data result m'},
    Returns ((Request.readUser va length).perform? s) m (some (data, result)) m' →
      ∀ {j b}, va.toNat + j = a.toNat → data[j]? = some b → b = byte
  /-- When its page is taken away the byte is in the file, and stays there as long as nobody stores
  into another page over the position. -/
  left : ∀ {α : Type} {request : Request α} {answer : α} {m' later m''},
    request.Takes s m a.number → Returns (request.perform? s) m (some answer) m' →
      Reaches m' later m'' → (∀ d ∈ later, d.StoresOnlyIn none f p) →
        ∃ file, m''.files.get? f = some file ∧ file.data[p]? = some byte

section

variable {α : Type} {request : Request α} {answer : α} {m m' : Machine} {s : Key AddressSpace}
  {a : VirtualAddress} {key : Key Page} {f : Key File} {p : Nat} {byte : UInt8} {memory : Memory}
  {effects : List Effect}

/-- What is taken away was no fork and no write, and left nothing dirty over the position. -/
theorem Tracked.taken (h : Tracked s a key f p (some byte) memory m.view) (hsound : Sound none m)
    (hreaches : m.view.Reaches f p) (houtcome : Outcome s m m' request answer effects)
    (htakes : request.Takes s m a.number) :
    m'.view.byteAt? f p = some byte ∧ Quiet none m'.view f p := by
  have hwrites : ¬request.Writes := by
    obtain ⟨_, hends, -⟩ := htakes
    cases request with
    | writeUser => cases hends
    | _ => exact id
  have hsteps := houtcome.course.steps
  have hplacement := hsound.coherent.placement
  obtain ⟨page, hpage, hnumber⟩ := hplacement.placed h.place
  have hgone : m'.view.page key = none := by
    by_contra hthere
    obtain ⟨page', hpage'⟩ := Option.ne_none_iff_exists'.1 hthere
    obtain ⟨s', hplace'⟩ := (hsteps.coherent hsound.coherent).placement.held hpage'
    -- the page would still be in its place
    have hplaced := (hsteps.page_old (hplacement.created hpage)).2 _ _ hplace'
    obtain rfl := hplacement.alone h.place hplaced
    rw [← hplacement.number_eq hplaced hpage, hnumber, houtcome.pageOf_of_takes htakes] at hplace'
    cases hplace'
  obtain ⟨hmemory, hfollowed⟩ := h.followed byte rfl
  have hnothing := houtcome.storesNothing hwrites
  refine ⟨?_, fun key' i hcovers hstained => ?_⟩
  · cases hsteps.followed_of_storesNothing hsound.coherent hreaches hnothing h.quiet hfollowed with
    | mapped _ _ hpage' => cases hgone.symm.trans hpage'
    | gone hbyte _ _ hfile =>
        rw [Memory.after_of_unset (houtcome.not_sets hsound hwrites hpage), hmemory] at hbyte
        exact hfile.trans hbyte.symm
  · cases hsteps.quiet_of_storesNothing hsound.coherent hnothing h.quiet key' i hcovers hstained
    obtain ⟨_, _, hpage', -⟩ := hcovers
    cases hgone.symm.trans hpage'

theorem Tracked.keepsByte (h : Tracked s a key f p (some byte) memory m.view) (hsound : Sound none m)
    (hreaches : m.view.Reaches f p) : m.KeepsByte s a f p byte where
  reads {va length data result m'} hread j b ha hbyte := by
    obtain ⟨_, -, -, hseen⟩ := returns_readUser hsound (Request.returns_perform?.1 hread).2
    have hseen := hseen j b hbyte
    rw [ha] at hseen
    obtain ⟨hmemory, hfollowed⟩ := h.followed byte rfl
    exact hseen.eq_of_followed hsound h.place hreaches h.quiet hmemory hfollowed
  left htakes hrun hlater honly := by
    obtain ⟨effects, houtcome⟩ := Request.exists_outcome hsound (Request.returns_perform?.1 hrun).2
    obtain ⟨hbyte, hquiet⟩ := h.taken hsound hreaches houtcome htakes
    obtain ⟨hsame, -⟩ := hlater.byteAt?_eq (houtcome.course.sound hsound)
      (hreaches.of_since houtcome.course.steps.filesSince) honly hquiet
    obtain ⟨file, hfile, hat⟩ := Option.bind_eq_some_iff.1 (hsame.trans hbyte)
    obtain ⟨final, hfinal, rfl⟩ := Option.map_eq_some_iff.1 hfile
    exact ⟨final, hfinal, hat⟩

end

/-! ### Runs -/

section

variable {start m m' : Machine} {earlier later : List Done} {s : Key AddressSpace} {a : VirtualAddress}
  {key : Key Page} {f : Key File} {p : Nat} {byte? : Option UInt8} {byte : UInt8} {flat : Flat}
  {memory : Memory}

/-- What is known of a page at first and what is stored later is kept. -/
theorem Tracked.keepsByte_of_reaches (h : Tracked s a key f p byte? memory m.view)
    (hsound : Sound none m) (hagrees : Agrees flat memory m.view) (hreaches : m.view.Reaches f p)
    (hlater : Reaches m later m') (honly : ∀ d ∈ later, d.StoresOnlyIn (some key) f p)
    (hkept : ∀ d ∈ later, d.space = s → ¬d.request.Takes s d.before a.number)
    (hbyte : (lastStored later s a.toNat).or byte? = some byte) : m'.KeepsByte s a f p byte := by
  obtain ⟨_, _, -, htracked⟩ := hlater.tracked hsound hagrees hreaches h honly hkept
  rw [hbyte] at htracked
  obtain ⟨_, hcourse⟩ := hlater.course hsound
  exact htracked.keepsByte (hlater.sound hsound) (hreaches.of_since hcourse.steps.filesSince)

/-- Whatever the run, what is stored last through a page is kept, if it is the only page over the
position that is or gets dirty. -/
theorem Run.keepsByte (h : Run start earlier m) (hplace : m.view.pageOf s a.number = some key)
    (hcovers : m.view.Covers key f p a.pageOffset) (hreaches : m.view.Reaches f p)
    (hquiet : Quiet (some key) m.view f p) (hlater : Reaches m later m')
    (honly : ∀ d ∈ later, d.StoresOnlyIn (some key) f p)
    (hkept : ∀ d ∈ later, d.space = s → ¬d.request.Takes s d.before a.number)
    (hstored : lastStored later s a.toNat = some byte) : m'.KeepsByte s a f p byte := by
  obtain ⟨flat, memory, hagrees⟩ := h.exists_agrees
  have htracked : Tracked s a key f p none memory m.view := ⟨hplace, hcovers, hquiet, nofun⟩
  exact htracked.keepsByte_of_reaches h.sound hagrees hreaches hlater honly hkept
    (by rw [hstored, Option.some_or])

end

end DemandPaging
