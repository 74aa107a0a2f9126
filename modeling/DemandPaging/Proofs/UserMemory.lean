import DemandPaging.Proofs.Panics
import DemandPaging.Proofs.Space.Places

/-!
User accesses are confined to user memory.

Every request that puts a page into a place keeps to user memory, so whatever was asked for before,
no page is at address zero and none belongs to the kernel. A page directory maps nothing but pages,
and an access reads and stores nothing but bytes of pages. So an access that asks for any other byte
is rejected when it comes to that byte, if it was not rejected before.
-/

namespace DemandPaging

open Machine Space

def IsUserByte (a : Nat) : Prop := pageSize ≤ a ∧ a < kernelBase

/-- The access asks for a byte of the page at address zero or one that belongs to the kernel, or it
runs past the lower half of the canonical addresses. -/
def LeavesUser (va : VirtualAddress) (length : Nat) : Prop :=
  (∃ i < length, va.toNat + i < pageSize ∨ kernelBase ≤ va.toNat + i) ∨
    0 < length ∧ 2 ^ (maxVirtualBits - 1) < va.toNat + length

theorem LeavesUser.exists_byte {va : VirtualAddress} {length : Nat} (h : LeavesUser va length) :
    ∃ i < length, ¬IsUserByte (va.toNat + i) := by
  rcases h with ⟨i, hi, hout⟩ | ⟨hpositive, hpast⟩
  · exact ⟨i, hi, fun huser => by have := huser.1; have := huser.2; omega⟩
  · refine ⟨length - 1, by omega, fun huser => ?_⟩
    have hbelow := huser.2
    simp only [kernelBase] at hbelow
    simp only [maxVirtualBits] at hpast
    omega

theorem InUserMemory.isUserByte {n : PageNumber} (h : InUserMemory n) {offset : Nat}
    (hoffset : offset < pageSize) : IsUserByte (n.toNat * pageSize + offset) := by
  obtain ⟨hle, hlt⟩ := h
  simp only [IsUserByte, pageSize, kernelBase] at *
  omega

variable {start m m' : Machine} {history : List Done} {s s' : Id} {n : PageNumber}

theorem Run.inUserMemory (h : Run start history m) (hplace : m.view.pageOf s n ≠ none) :
    InUserMemory n := by
  obtain ⟨hfresh, hreaches⟩ := h
  induction hreaches generalizing s with
  | refl =>
      simp only [view, hfresh.spaces, Option.bind_none] at hplace
      exact absurd rfl hplace
  | create hreaches hrun ih =>
      rw [(returns_create (hreaches.sound hfresh.sound) hrun).pageOf] at hplace
      exact ih hplace
  | clients _ _ ih => exact ih hplace
  | request hreaches hrun ih =>
      obtain ⟨⟨space, hspace⟩, hrun⟩ := Request.returns_perform?.1 hrun
      rcases Request.places (hreaches.sound hfresh.sound) hspace hrun hplace with hplace | hplaces
      · exact ih hplace
      · cases hplaces with
        | filled _ _ _ huser => exact huser
        | copied _ _ hplace => exact ih hplace

/-! ### Accesses -/

theorem exists_error_of_ne_ok {ε : Type} {answer : Except ε Unit} (h : answer ≠ .ok ()) :
    ∃ cause, answer = .error cause := by
  cases answer with
  | error cause => exact ⟨cause, rfl⟩
  | ok u => exact absurd rfl h

def View.HasByte (v : View) (s : Id) (a : Nat) : Prop :=
  ∃ (n : PageNumber) (offset : Nat),
    a = n.toNat * pageSize + offset ∧ offset < pageSize ∧ v.pageOf s n ≠ none

theorem Run.isUserByte {a : Nat} (h : Run start history m) (hbyte : m.view.HasByte s a) :
    IsUserByte a := by
  obtain ⟨n, offset, rfl, hoffset, hplace⟩ := hbyte
  exact (h.inUserMemory hplace).isUserByte hoffset

theorem Space.Seen.hasByte {a : Nat} {byte : UInt8} (h : Seen s a byte m m')
    (hsound : Sound none m) : m'.view.HasByte s a := by
  obtain ⟨m₁, effects, rest, hbefore, hafter, n, offset, key, page, ha, hplace, hpage, -, hbyte⟩ := h
  refine ⟨n, offset, ha, (Vector.getElem?_eq_some_iff.1 hbyte).1, ?_⟩
  rw [(hafter.page_kept (hbefore.sound hsound) hpage).2 s n hplace]
  exact Option.some_ne_none _

theorem Space.Stored.pageOf_kept {a : Nat} {data : Array UInt8} {effects : List Effect}
    (h : Stored s a data effects m m') (hsound : Sound none m) {key : Key Page}
    (hplace : m.view.pageOf s' n = some key) : m'.view.pageOf s' n = some key := by
  obtain ⟨page, hpage, -⟩ := hsound.coherent.placement.placed hplace
  refine (h.course.steps.page_kept hsound.coherent hpage fun hremoved => ?_).2 s' n hplace
  rcases h.labels _ hremoved with hpassing | ⟨_, _, _, he⟩
  · cases hpassing with
    | removed hnew => exact Nat.not_lt.2 hnew (hsound.coherent.placement.created hpage)
  · cases he

theorem Space.Stored.hasByte {a : Nat} {data : Array UInt8} {effects : List Effect}
    (h : Stored s a data effects m m') (hsound : Sound none m) {i : Nat} (hi : i < data.size) :
    m'.view.HasByte s (a + i) := by
  induction h generalizing i with
  | passed => exact absurd hi (Nat.not_lt_zero i)
  | @store n offset key data more effects rest m m₁ m₂ m' hpassed hplace hfits hsome hspaces hcourse
      hrest ih =>
      have hsound₂ := hcourse.sound (hpassed.sound hsound)
      by_cases hfirst : i < data.size
      · refine ⟨n, offset + i, Nat.add_assoc _ offset i, by omega, ?_⟩
        rw [← view_pageOf_congr hspaces] at hplace
        rw [hrest.pageOf_kept hsound₂ hplace]
        exact Option.some_ne_none _
      · rw [Array.size_append] at hi
        obtain ⟨n', offset', ha, hlt, hplace'⟩ := ih hsound₂ (i := i - data.size) (by omega)
        refine ⟨n', offset', ?_, hlt, hplace'⟩
        rw [← ha, Nat.add_assoc _ data.size, Nat.add_sub_of_le (Nat.not_lt.1 hfirst)]

/-! ### Confinement -/

/-- The one panic that is meant: in a state that the access came to from `m` the pool was empty, and
swap did not take the anonymous page that the clock chose. There is no other if physical addresses can
tell the frames of the pool apart. -/
def StopsStuck (start m : Machine) (panic : Panic) (m' : Machine) : Prop :=
  start.pool.capacity ≤ maxFrames → StopCause (fun _ => False) m panic m'

/-- What a state says about user memory, and what happens to accesses that leave it. -/
structure Confined (start m : Machine) : Prop where
  pages : ∀ {s space} {n : PageNumber} {key}, m.spaces.get? s = some space →
    space.pages[n]? = some key → ∃ page, m.pages.get? key = some page ∧ page.va.number = n ∧
      pageSize ≤ page.va.toNat ∧ page.va.toNat ≤ kernelBase - pageSize
  directories : ∀ {d directory} {va : VirtualAddress}, m.directories.get? d = some directory →
    ¬IsUserByte va.toNat → directory.locate va = none
  reads : ∀ {s va length}, m.spaces.get? s ≠ none → LeavesUser va length →
    Ends ((Request.readUser va length).perform s) m
      (fun (bytes, result) _ => (∃ cause, result = .error cause) ∧
        ∀ i < bytes.size, IsUserByte (va.toNat + i))
      (StopsStuck start m)
  writes : ∀ {s va data}, m.spaces.get? s ≠ none → LeavesUser va data.size →
    Ends ((Request.writeUser va data).perform s) m
      (fun answer m' => (∃ cause, answer = .error cause) ∧ ∃ effects, ∃ stored ≤ data.size,
        Stored s va.toNat (data.extract 0 stored) effects m m' ∧
          ∀ i < stored, IsUserByte (va.toNat + i))
      (StopsStuck start m)

theorem Run.stopsStuck {α : Type} {action : Action α} (h : Run start history m)
    (hspace : m.spaces.get? s ≠ none)
    (hends : m.Serves s → PanicsOnly (Stopped (fun _ => False) m) action m) {panic : Panic}
    (hpanic : Panics action m panic m') : StopsStuck start m panic m' := by
  intro hcapacity
  obtain ⟨space, hspace⟩ := Option.ne_none_iff_exists'.1 hspace
  exact ((hends (h.serves hcapacity hspace)).panicked hpanic).cause

theorem Run.exists_userPage {space : AddressSpace} {key : Key Page} (h : Run start history m)
    (hspace : m.spaces.get? s = some space) (hplace : space.pages[n]? = some key) :
    ∃ page, m.pages.get? key = some page ∧ page.va.number = n ∧
      pageSize ≤ page.va.toNat ∧ page.va.toNat ≤ kernelBase - pageSize := by
  rw [← view_pageOf_eq hspace] at hplace
  obtain ⟨page, hpage, hn⟩ := h.sound.coherent.placement.placed hplace
  obtain ⟨hle, hlt⟩ := h.inUserMemory (hplace ▸ Option.some_ne_none _)
  rw [← hn, Address.number_mul_pageSize page.aligned] at hle hlt
  exact ⟨page, hpage, hn, hle, hlt⟩

theorem Run.locate_eq_none {d : Key Directory} {directory : Directory} {va : VirtualAddress}
    (h : Run start history m) (hdirectory : m.directories.get? d = some directory)
    (hout : ¬IsUserByte va.toNat) : directory.locate va = none := by
  have hcoherent := h.sound.coherent
  cases hfind : directory.find? va with
  | none => rw [Directory.locate, hfind, Option.map_none]
  | some entry =>
      have hgrant : m.view.grant d va = some entry.grant := by
        simp only [view, hdirectory, Option.bind_some, Directory.grant?, hfind, Option.map_some]
      obtain ⟨f, o, howner, -, hva⟩ := hcoherent.residency.granted hgrant
      obtain ⟨page, -, hpage, -, hova, -⟩ := hcoherent.residency.linked howner
      obtain ⟨s, hplace⟩ := hcoherent.placement.held hpage
      rw [← hova, hva] at hplace
      refine absurd (h.isUserByte ⟨va.number, va.pageOffset, ?_, va.pageOffset_lt,
        hplace ▸ Option.some_ne_none _⟩) hout
      rw [Address.toNat_number, Address.pageOffset, Nat.div_add_mod']

/-- Whatever the run, user accesses are confined to user memory. -/
theorem Run.confined (h : Run start history m) : Confined start m := by
  -- an access ends in a state of a run, so the pages that it met there are in user memory
  have hends : ∀ {s} {α : Type} {request : Request α} {answer m'}, m.spaces.get? s ≠ none →
      Returns (request.perform s) m answer m' → ∃ history', Run start history' m' :=
    fun hspace hrun => ⟨_, h.fresh, h.reaches.request
      (Request.returns_perform?.2 ⟨Option.ne_none_iff_exists'.1 hspace, hrun⟩)⟩
  refine ⟨h.exists_userPage, h.locate_eq_none,
    fun {s va length} hspace hleaves => .intro (fun (bytes, result) m' hrun => ?_)
      fun _ _ => h.stopsStuck hspace fun hserves => panicsOnly_readUser hserves va length,
    fun {s va data} hspace hleaves => .intro (fun answer m' hrun => ?_)
      fun _ _ => h.stopsStuck hspace fun hserves => panicsOnly_writeUser hserves va data⟩
  · obtain ⟨history', h'⟩ := hends hspace hrun
    obtain ⟨effects, -, hsize, hseen⟩ := returns_readUser h.sound hrun
    have huser : ∀ i < bytes.size, IsUserByte (va.toNat + i) := fun i hi =>
      h'.isUserByte ((hseen i _ (Array.getElem?_eq_getElem hi)).hasByte h.sound)
    refine ⟨exists_error_of_ne_ok fun hok => ?_, huser⟩
    obtain ⟨i, hi, hout⟩ := hleaves.exists_byte
    exact hout (huser i (by rwa [hsize hok]))
  · obtain ⟨history', h'⟩ := hends hspace hrun
    obtain ⟨effects, stored, hle, -, hall, hstored⟩ := answers_writeUser h.sound hrun
    have huser : ∀ i < stored, IsUserByte (va.toNat + i) := fun i hi =>
      h'.isUserByte (hstored.hasByte h.sound (by rw [Array.size_extract]; omega))
    refine ⟨exists_error_of_ne_ok fun hok => ?_, effects, stored, hle, hstored, huser⟩
    obtain ⟨i, hi, hout⟩ := hleaves.exists_byte
    exact hout (huser i (by rwa [hall hok]))

def readNothing : Array UInt8 × Except Rejection Unit → Bool
  | (bytes, .error .unmapped) => bytes.isEmpty
  | _ => false

theorem eq_of_readNothing {bytes : Array UInt8} {result : Except Rejection Unit}
    (h : readNothing (bytes, result) = true) : bytes = #[] ∧ result = .error .unmapped := by
  unfold readNothing at h
  split at h
  · next he =>
    cases he
    exact ⟨Array.isEmpty_iff.1 h, rfl⟩
  · cases h

theorem pieces_across : pieces (pageSize - 4) 0 8 = [⟨0, 4⟩, ⟨4, 4⟩] := by
  rw [pieces, dif_neg (by decide)]
  exact congrArg (List.cons _) (pieces_of_le (by decide) (by decide))

/-- A file is mapped to the first page of user memory, and a reading begins just below it. -/
theorem confined_of_firstPage : ∃ s history m m',
    Run (bare 1 0 (Arena.empty.add (.ofData #[1, 2] none))) history m ∧
      m.view.pageOf s ⟨1⟩ ≠ none ∧ LeavesUser ⟨pageSize - 4, by decide⟩ 8 ∧
        Returns ((Request.readUser ⟨pageSize - 4, by decide⟩ 8).perform? s) m
          (some (#[], .error .unmapped)) m' ∧
            Confined (bare 1 0 (Arena.empty.add (.ofData #[1, 2] none))) m := by
  have htest : returnsWith (do
        let s ← Space.create "init"
        let _ ← (Request.mapFile ⟨pageSize, by decide⟩ 2 false ⟨⟨0⟩, 0⟩ 0).perform? s
        let before ← get
        return (s, before, ← (Request.readUser ⟨pageSize - 4, by decide⟩ 8).perform? s))
      (bare 1 0 (Arena.empty.add (.ofData #[1, 2] none)))
      (fun (s, before, answer) _ =>
        (before.view.pageOf s ⟨1⟩).isSome && answer.any readNothing) = true := by
    simp only [Request.perform?, Request.perform, readUser, pieces_across]
    decide +kernel
  obtain ⟨⟨s, before, answer⟩, m', hrun, htest⟩ := exists_returns htest
  simp only [returns_bind, returns_pure] at hrun
  obtain ⟨_, m₁, hcreate, _, m, hmap, _, _, hget, _, _, hread, he, rfl⟩ := hrun
  obtain ⟨rfl, rfl⟩ := returns_get.1 hget
  cases he
  rw [Bool.and_eq_true, Option.any_eq_true, Option.isSome_iff_ne_none] at htest
  obtain ⟨hplace, ⟨bytes, result⟩, rfl, htest⟩ := htest
  obtain ⟨history, hreached⟩ := (Reaches.refl.create hcreate).perform? hmap
  have hrun : Run (bare 1 0 (Arena.empty.add (.ofData #[1, 2] none))) history _ :=
    ⟨fresh_bare _ _ _, hreached⟩
  obtain ⟨rfl, rfl⟩ := eq_of_readNothing htest
  exact ⟨_, history, _, _, hrun, hplace, .inl ⟨0, by decide, .inl (by decide)⟩, hread,
    hrun.confined⟩

end DemandPaging
