import DemandPaging.Proofs.Stains
import DemandPaging.Proofs.Twins

/-!
What an eviction changes, and what it does not.

Runs from one state in which an address space asks for the same stay twins, whatever else is asked for
in either of them in between. An eviction is such a thing. So the same is read in both, except past
the part of a file that a page shows. There a byte may be stored, but no file has it, and a page that
was evicted shows zero.

The address space must share none of its files. An eviction writes to a file, and the order in which two
pages are written back tells what it has in the end; a segment that is loaded after an eviction
shows what the file has then.
-/

namespace DemandPaging

open Machine Space

/-! ### Histories -/

/-- Histories in which an address space asks for the same and has the same answers, apart from
requests that do nothing to its memory. The answer to a write that is rejected on the way does not tell
how far the write came; that the same part of its bytes was stored counts as part of the answer
here. -/
inductive Alike (s : Key AddressSpace) : List Done → List Done → Prop where
  | nil : Alike s [] []
  | left {later₁ later₂ : List Done} {d : Done} (h : Alike s later₁ later₂) (hidle : d.Idle s) :
      Alike s (d :: later₁) later₂
  | right {later₁ later₂ : List Done} {d : Done} (h : Alike s later₁ later₂) (hidle : d.Idle s) :
      Alike s later₁ (d :: later₂)
  | both {later₁ later₂ : List Done} {α : Type} {request : Request α} {answer : α}
      {before₁ before₂ after₁ after₂ : Machine} (h : Alike s later₁ later₂)
      (hstored : ∀ a, request.stores? s before₁ a answer = request.stores? s before₂ a answer) :
      Alike s (⟨s, request, answer, before₁, after₁⟩ :: later₁)
        (⟨s, request, answer, before₂, after₂⟩ :: later₂)

/-- A request that does nothing to the memory of the address space may come first. -/
theorem Alike.idle_first {s : Key AddressSpace} {later₁ later₂ : List Done} {d : Done}
    (h : Alike s later₁ later₂) (hidle : d.Idle s) : Alike s later₁ (later₂ ++ [d]) := by
  induction h with
  | nil => exact .right .nil hidle
  | left _ hidle' ih => exact ih.left hidle'
  | right _ hidle' ih => exact ih.right hidle'
  | both _ hstored ih => exact ih.both hstored

section

variable {start m m' m₁ m₂ : Machine} {history later later₁ later₂ all all₁ all₂ : List Done}
  {s : Key AddressSpace} {d : Done}

/-- The last request of a history, and what came before and after it. -/
theorem Reaches.cons_inv (h : Reaches m (d :: history) m') : Reaches m history d.before ∧
    Returns (d.request.perform? d.space) d.before (some d.answer) d.after ∧ Reaches d.after [] m' := by
  generalize hlist : d :: history = list at h
  induction h with
  | refl => cases hlist
  | create _ hrun ih =>
      obtain ⟨hbefore, hreturns, hafter⟩ := ih hlist
      exact ⟨hbefore, hreturns, hafter.create hrun⟩
  | clients _ handles ih =>
      obtain ⟨hbefore, hreturns, hafter⟩ := ih hlist
      exact ⟨hbefore, hreturns, hafter.clients handles⟩
  | request h hrun =>
      cases hlist
      exact ⟨h, hrun, .refl⟩

theorem Reaches.twins_of_nil {own : Key File → Prop} (h : Reaches m [] m') (hsound : Sound none m) :
    Twins s own m.view m'.view := by
  generalize hlist : ([] : List Done) = list at h
  induction h with
  | refl => exact .refl s own m.view
  | @create _ m₁ m₂ _ _ h hrun ih =>
      have hsound₁ := h.sound hsound
      have hcreated := returns_create hsound₁ hrun
      refine (ih hlist).trans ⟨fun n => ?_, fun va => by rw [hcreated.regionOf], fun _ _ => ?_⟩
      · cases hplace : m₁.view.pageOf s n with
        | some key =>
            exact (hcreated.course.steps.windowAt_eq hsound₁.coherent hplace
              (by rwa [hcreated.pageOf])).symm
        | none =>
            rw [View.windowAt_of_free hplace, View.windowAt_of_free (by rwa [hcreated.pageOf])]
      · exact (View.byteAt?_congr (by simp only [view, hcreated.files]) _ _).symm
  | clients _ handles ih => exact ih hlist
  | request => cases hlist

theorem Run.regionOf_of_nil (h : Run start [] m) (va : VirtualAddress) :
    m.view.regionOf s va = none := by
  have htwins : Twins s (fun _ => False) start.view m.view := h.reaches.twins_of_nil h.fresh.sound
  have hregions := htwins.regions va
  rw [show start.view.regionOf s va = none by simp [view, h.fresh.spaces], Option.map_none] at hregions
  exact Option.map_eq_none_iff.1 hregions.symm

/-- The first thing that is asked for maps nothing that is mapped already. -/
theorem Run.mapsOnce_first {α : Type} {request : Request α} {answer : α} {s' : Key AddressSpace}
    (h : Run start [] m) (hforks : ¬request.Forks) : MapsOnce s [⟨s', request, answer, m, m'⟩] :=
  .cons .nil hforks fun _ _ _ va _ hregion => by cases (h.regionOf_of_nil va).symm.trans hregion

/-- The last request after a run in which an address space shares no file. -/
theorem Reaches.secludedRequest (h : Reaches m (d :: later) m') (hrun : Run start history m)
    (hsecluded : Secluded start s all) (hall : ∀ d' ∈ d :: later ++ history, d' ∈ all) :
    SecludedRequest start s all (later ++ history) d where
  secluded := hsecluded
  run := ⟨hrun.fresh, hrun.reaches.trans h.cons_inv.1⟩
  returns := h.cons_inv.2.1
  now := hall d List.mem_cons_self
  earlier d' hd' := hall d' (List.mem_cons_of_mem _ hd')

theorem SecludedRequest.twins_later {own : Key File → Prop}
    (h : SecludedRequest start s all history d) (hafter : Reaches d.after [] m) :
    Twins s own d.after.view m.view := by
  obtain ⟨_, _, houtcome, -⟩ := h.respects
  exact hafter.twins_of_nil (houtcome.course.sound h.run.sound)

/-- Runs from one state with histories that are alike end in twins with the same flat memory. -/
theorem Alike.twins (h : Alike s later₁ later₂) (hrun : Run start history m)
    (hsecluded₁ : Secluded start s all₁) (hsecluded₂ : Secluded start s all₂)
    (hreaches₁ : Reaches m later₁ m₁) (hreaches₂ : Reaches m later₂ m₂)
    (hall₁ : ∀ d ∈ later₁ ++ history, d ∈ all₁) (hall₂ : ∀ d ∈ later₂ ++ history, d ∈ all₂) :
    Twins s (fun f => Owns all₁ s f ∧ Owns all₂ s f) m₁.view m₂.view ∧
      remembered (later₁ ++ history) s = remembered (later₂ ++ history) s := by
  induction h generalizing m₁ m₂ with
  | nil =>
      exact ⟨(hreaches₁.twins_of_nil hrun.sound).symm.trans (hreaches₂.twins_of_nil hrun.sound), rfl⟩
  | left _ hidle ih =>
      have hnow := hreaches₁.secludedRequest hrun hsecluded₁ hall₁
      obtain ⟨hbefore, -, hafter⟩ := hreaches₁.cons_inv
      obtain ⟨htwins, hflat⟩ := ih hbefore hreaches₂ hnow.earlier hall₂
      exact ⟨((hnow.twins_of_idle hidle And.left).trans (hnow.twins_later hafter)).symm.trans htwins,
        (Flat.after_of_idle hidle (hsecluded₁.unforked _ hnow.now).2).trans hflat⟩
  | right _ hidle ih =>
      have hnow := hreaches₂.secludedRequest hrun hsecluded₂ hall₂
      obtain ⟨hbefore, -, hafter⟩ := hreaches₂.cons_inv
      obtain ⟨htwins, hflat⟩ := ih hreaches₁ hbefore hall₁ hnow.earlier
      exact ⟨htwins.trans ((hnow.twins_of_idle hidle And.right).trans (hnow.twins_later hafter)),
        hflat.trans (Flat.after_of_idle hidle (hsecluded₂.unforked _ hnow.now).2).symm⟩
  | both _ hstored ih =>
      have hnow₁ := hreaches₁.secludedRequest hrun hsecluded₁ hall₁
      have hnow₂ := hreaches₂.secludedRequest hrun hsecluded₂ hall₂
      obtain ⟨hbefore₁, -, hafter₁⟩ := hreaches₁.cons_inv
      obtain ⟨hbefore₂, -, hafter₂⟩ := hreaches₂.cons_inv
      obtain ⟨htwins, hflat⟩ := ih hbefore₁ hbefore₂ hnow₁.earlier hnow₂.earlier
      exact ⟨((hnow₁.twins_later hafter₁).symm.trans (htwins.after hnow₁ hnow₂ id hflat)).trans
          (hnow₂.twins_later hafter₂),
        htwins.flat_after hnow₁ hnow₂ And.intro hflat hstored⟩

/-! ### Evictions -/

/-- Wherever both states can be read the readings are the same, but past the part of a file that a
page shows one of them may be zero. -/
def ReadsSame (s : Key AddressSpace) (m₁ m₂ : Machine) : Prop :=
  ∀ ⦃va length bytes₁ bytes₂ m₁' m₂'⦄,
    Returns ((Request.readUser va length).perform? s) m₁ (some (bytes₁, .ok ())) m₁' →
      Returns ((Request.readUser va length).perform? s) m₂ (some (bytes₂, .ok ())) m₂' →
        bytes₁.size = length ∧ bytes₂.size = length ∧ ∀ i < length, bytes₁[i]? = bytes₂[i]? ∨
          m₁.PastPart s (va.toNat + i) ∧ (bytes₁[i]? = some 0 ∨ bytes₂[i]? = some 0)

theorem Twins.readsSame {own : Key File → Prop} (h : Twins s own m₁.view m₂.view)
    (hrun₁ : Run start later₁ m₁) (hrun₂ : Run start later₂ m₂) (hsecluded₁ : Secluded start s later₁)
    (hsecluded₂ : Secluded start s later₂) (hflat : remembered later₁ s = remembered later₂ s) :
    ReadsSame s m₁ m₂ := by
  intro va length bytes₁ bytes₂ m₁' m₂' hread₁ hread₂
  have hread₁ := (Request.returns_perform?.1 hread₁).2
  have hread₂ := (Request.returns_perform?.1 hread₂).2
  obtain ⟨_, -, hsize₁, -⟩ := returns_readUser hrun₁.sound hread₁
  obtain ⟨_, -, hsize₂, -⟩ := returns_readUser hrun₂.sound hread₂
  refine ⟨hsize₁ rfl, hsize₂ rfl, fun i hi => ?_⟩
  have hbyte₁ := Array.getElem?_eq_getElem (hi.trans_eq (hsize₁ rfl).symm)
  have hbyte₂ := Array.getElem?_eq_getElem (hi.trans_eq (hsize₂ rfl).symm)
  rw [hbyte₁, hbyte₂]
  rcases hrun₁.reads_remembered hsecluded₁ (fun _ => id) hread₁ hbyte₁ with hsame₁ | ⟨hzero, hpast⟩
  swap
  · exact .inr ⟨hpast, .inl (congrArg some hzero)⟩
  rcases hrun₂.reads_remembered hsecluded₂ (fun _ => id) hread₂ hbyte₂ with hsame₂ | ⟨hzero, hpast⟩
  · exact .inl (congrArg some (hsame₁.trans ((congrFun hflat _).trans hsame₂.symm)))
  · obtain ⟨w, hwindow, hle⟩ := hpast
    exact .inr ⟨⟨w, (h.windows _).trans hwindow, hle⟩, .inr (congrArg some hzero)⟩

def wasRead : Option (Array UInt8 × Except Rejection Unit) → Bool
  | some (_, .ok ()) => true
  | _ => false

theorem exists_of_wasRead {read : Option (Array UInt8 × Except Rejection Unit)}
    (h : wasRead read = true) : ∃ bytes, read = some (bytes, .ok ()) := by
  unfold wasRead at h
  split at h
  · exact ⟨_, rfl⟩
  · cases h

/-- An eviction makes no difference to what an address space that shares no file reads later, as long
as it asks for the same and has the same answers, in the sense of `Alike`. -/
theorem Run.evictionUnseen (h : Run start history m) {va : VirtualAddress} {out : Bool}
    {m₀ : Machine} (hout : Returns ((Request.pageOut va).perform? s) m (some out) m₀)
    (hlater₁ : Reaches m later₁ m₁) (hlater₂ : Reaches m₀ later₂ m₂) (halike : Alike s later₁ later₂)
    (hsecluded₁ : Secluded start s (later₁ ++ history))
    (hsecluded₂ : Secluded start s (later₂ ++ ⟨s, .pageOut va, out, m, m₀⟩ :: history)) :
    ReadsSame s m₁ m₂ := by
  have hlater := (Reaches.request .refl hout).trans hlater₂
  have hidle : Done.Idle ⟨s, .pageOut va, out, m, m₀⟩ s := .inr trivial
  rw [List.append_cons] at hsecluded₂
  obtain ⟨htwins, hflat⟩ := (halike.idle_first hidle).twins h hsecluded₁ hsecluded₂ hlater₁ hlater
    (fun _ => id) fun _ => id
  exact htwins.readsSame ⟨h.fresh, h.reaches.trans hlater₁⟩ ⟨h.fresh, h.reaches.trans hlater⟩
    hsecluded₁ hsecluded₂ hflat

/-- A page of two bytes is written to twice, and evicted between the two. -/
theorem evictionUnseen_between_writes : ∃ s m m₀ m₁ m₂ m₁' m₂' bytes,
    Returns ((Request.pageOut ⟨0x10000000, by decide⟩).perform? s) m (some true) m₀ ∧
      Returns ((Request.writeUser ⟨0x10000001, by decide⟩ #[66]).perform? s) m (some (.ok ())) m₁ ∧
        Returns ((Request.writeUser ⟨0x10000001, by decide⟩ #[66]).perform? s) m₀ (some (.ok ())) m₂ ∧
          bytes.size = 2 ∧
            Returns ((Request.readUser ⟨0x10000000, by decide⟩ 2).perform? s) m₁
              (some (bytes, .ok ())) m₁' ∧
            Returns ((Request.readUser ⟨0x10000000, by decide⟩ 2).perform? s) m₂
              (some (bytes, .ok ())) m₂' := by
  let va : VirtualAddress := ⟨0x10000000, by decide⟩
  let a : VirtualAddress := ⟨0x10000001, by decide⟩
  have hpieces : pieces 0x10000000 0 1 = [⟨0, 1⟩] := pieces_of_le (by decide) (by decide)
  have hpieces' : pieces 0x10000001 0 1 = [⟨0, 1⟩] := pieces_of_le (by decide) (by decide)
  have hpieces₂ : pieces 0x10000000 0 2 = [⟨0, 2⟩] := pieces_of_le (by decide) (by decide)
  have htest : returnsWith (do
        let s ← Space.create "init"
        let mapped ← (Request.mapFile va 2 true ⟨⟨0⟩, 0⟩ 0).perform? s
        let wrote ← (Request.writeUser va #[65]).perform? s
        let m ← get
        let wrote₁ ← (Request.writeUser a #[66]).perform? s
        let m₁ ← get
        let read ← (Request.readUser va 2).perform? s
        modify fun _ => m
        let out ← (Request.pageOut va).perform? s
        let wrote₂ ← (Request.writeUser a #[66]).perform? s
        let again ← (Request.readUser va 2).perform? s
        return mapped == some (.ok va) && wrote == some (.ok ()) && wrote₁ == some (.ok ()) &&
          wasRead read && out == some true && wrote₂ == some (.ok ()) && wasRead again &&
          m₁.pages.values.all fun page => page.contents.window?.all (·.readBytes == 2))
      (bare 1 0 (Arena.empty.add (.ofData #[1, 2] none))) (fun passed _ => passed) = true := by
    simp only [Request.perform?, Request.perform, writeUser, readUser, List.size_toArray,
      List.length_singleton, va, a, hpieces, hpieces', hpieces₂, Space.pageOut, Machine.pageOut, evict,
      moveOut, evictToSlice, writeSliceBack, FileSlice.writeBack, File.write, Bytes.slice,
      Array.size_extract, Vector.size_toArray]
    decide +kernel
  obtain ⟨_, m₂', hrun, htest⟩ := exists_returns htest
  simp only [returns_bind, returns_pure, returns_modify] at hrun
  obtain ⟨s, mₛ, hcreate, _, mₘ, hmap, _, _, hwrite, _, m, hget, hrun⟩ := hrun
  obtain ⟨_, _, hwrite₁, _, m₁, hget₁, _, m₁', hread, _, _, ⟨-, rfl⟩, hrun⟩ := hrun
  obtain ⟨_, m₀, hout, _, m₂, hwrite₂, _, _, hagain, rfl, rfl⟩ := hrun
  obtain ⟨rfl, rfl⟩ := returns_get.1 hget
  obtain ⟨rfl, rfl⟩ := returns_get.1 hget₁
  simp only [Bool.and_eq_true, beq_iff_eq, List.all_eq_true, Option.all_eq_true] at htest
  obtain ⟨⟨⟨⟨⟨⟨⟨rfl, rfl⟩, rfl⟩, hread'⟩, rfl⟩, rfl⟩, hagain'⟩, hwhole⟩ := htest
  obtain ⟨bytes, rfl⟩ := exists_of_wasRead hread'
  obtain ⟨bytes', rfl⟩ := exists_of_wasRead hagain'
  have hmade : Run _ [] mₛ := ⟨fresh_bare 1 0 _, Reaches.refl.create hcreate⟩
  have hrun : Run _ [⟨s, .writeUser va #[65], .ok (), mₘ, m⟩,
      ⟨s, .mapFile va 2 true ⟨⟨0⟩, 0⟩ 0, .ok va, mₛ, mₘ⟩] m :=
    ⟨hmade.fresh, (hmade.reaches.request hmap).request hwrite⟩
  have honce : MapsOnce s [⟨s, .writeUser va #[65], .ok (), mₘ, m⟩,
      ⟨s, .mapFile va 2 true ⟨⟨0⟩, 0⟩ 0, .ok va, mₛ, mₘ⟩] :=
    (hmade.mapsOnce_first id).step id id
  have hevicted : MapsOnce s (⟨s, .pageOut va, true, m, m₀⟩ :: _) := honce.step id id
  have hplain : ∀ file ∈ (bare 1 0 (Arena.empty.add (.ofData #[1, 2] none))).files.values,
      file.reachLimit = none ∧ file.reportedLength = none := by decide
  have hsecluded : ∀ {history : List Done}, MapsOnce s history →
      (∀ d ∈ history, d.space = s ∧ ∀ f, ¬d.request.Loads f d.answer) →
        Secluded (bare 1 0 (Arena.empty.add (.ofData #[1, 2] none))) s history := fun honce hown =>
    { honce with
      alone := fun _ d hd _ => (hown d hd).1
      segments := fun d hd _ _ hloads => absurd hloads ((hown d hd).2 _)
      plain := fun _ hfile => hplain _ ((Arena.mem_values_iff _ _).2 ⟨_, hfile⟩) }
  have hsame : ReadsSame s m₁ m₂ := hrun.evictionUnseen hout (.request .refl hwrite₁)
    (.request .refl hwrite₂) (.both .nil fun _ => rfl)
    (hsecluded (honce.step id id) (by simp [Request.Loads]))
    (hsecluded (hevicted.step id id) (by simp [Request.Loads]))
  obtain ⟨hsize, hsize', hbytes⟩ := hsame hread hagain
  have hpast : ∀ i < 2, ¬m₁.PastPart s (va.toNat + i) := by
    rintro i hi ⟨w, hwindow, hle⟩
    obtain ⟨key, page, slice, -, hpage, hslice, rfl⟩ := View.windowAt_eq_some.1 hwindow
    have hreadBytes := hwhole page ((Arena.mem_values_iff _ _).2 ⟨key, hpage⟩) slice hslice
    simp only [FileSlice.reopened, hreadBytes, va, pageSize] at hle
    omega
  obtain rfl : bytes = bytes' := Array.ext_getElem? fun i => by
    by_cases hi : i < 2
    · exact (hbytes i hi).resolve_right fun hpart => hpast i hi hpart.1
    · rw [Array.getElem?_eq_none (by omega), Array.getElem?_eq_none (by omega)]
  exact ⟨s, m, m₀, m₁, m₂, m₁', m₂', bytes, hout, hwrite₁, hwrite₂, hsize, hread, hagain⟩

end

/-! ### Evictions that are seen -/

inductive Done.Same : Done → Done → Prop where
  | mk {s : Key AddressSpace} {α : Type} {request : Request α} {answer : α}
      {before₁ before₂ after₁ after₂ : Machine} :
      Done.Same ⟨s, request, answer, before₁, after₁⟩ ⟨s, request, answer, before₂, after₂⟩

/-- Two runs that differ only in the eviction of a resident page lead to readings of different bytes,
though the address space is not forked and maps a file once at a time. -/
def EvictionSeen (start : Machine) (kept evicted : UInt8) : Prop :=
  kept ≠ evicted ∧ ∃ s history m va m₀ later₁ m₁ later₂ m₂ a m₁' m₂', Run start history m ∧
    Returns ((Request.pageOut va).perform? s) m (some true) m₀ ∧
      Reaches m later₁ m₁ ∧ Reaches m₀ later₂ m₂ ∧ List.Forall₂ Done.Same later₁ later₂ ∧
        MapsOnce s (later₁ ++ history) ∧
          MapsOnce s (later₂ ++ ⟨s, .pageOut va, true, m, m₀⟩ :: history) ∧
            Returns ((Request.readUser a 1).perform? s) m₁ (some (#[kept], .ok ())) m₁' ∧
              Returns ((Request.readUser a 1).perform? s) m₂ (some (#[evicted], .ok ())) m₂'

theorem Space.eq_singleton_of_readUser {m m' : Machine} {s : Key AddressSpace} {a : VirtualAddress}
    {bytes : Array UInt8} {byte : UInt8}
    (hread : Returns ((Request.readUser a 1).perform? s) m (some (bytes, .ok ())) m')
    (hsound : Sound none m) (hbyte : ∀ {b}, Seen s a.toNat b m m' → b = byte) : bytes = #[byte] := by
  obtain ⟨_, -, hsize, hseen⟩ := returns_readUser hsound (Request.returns_perform?.1 hread).2
  refine Array.ext (hsize rfl) fun i hi hi' => ?_
  obtain rfl : i = 0 := Nat.lt_one_iff.1 hi'
  exact hbyte (hseen 0 bytes[0] (Array.getElem?_eq_getElem hi))

def showsFirst (slice : FileSlice) : Bool :=
  slice.handle.file == ⟨0⟩ && slice.offset == 0 && slice.readBytes == 1

theorem showsFirst_iff {slice : FileSlice} : showsFirst slice = true ↔
    slice.handle.file = ⟨0⟩ ∧ slice.offset = 0 ∧ slice.readBytes = 1 := by
  simp only [showsFirst, Bool.and_eq_true, beq_iff_eq, and_assoc]

/-- A page that shows the only byte of the first file shows it at its first address. -/
theorem covers_of_showsFirst {m : Machine} {key : Key Page} {page : Page} {a : VirtualAddress}
    (hpage : m.view.page key = some page) (hshows : page.contents.window?.any showsFirst = true)
    (hstart : a.pageOffset = 0) : m.view.Covers key ⟨0⟩ 0 a.pageOffset := by
  obtain ⟨slice, hwindow, hshows⟩ := (Option.any_eq_true _ _).1 hshows
  obtain ⟨hfile, hoffset, hbytes⟩ := showsFirst_iff.1 hshows
  refine ⟨page, slice, hpage, hwindow, hfile, ?_, ?_⟩
  · rw [hoffset, hstart]
  · rw [hbytes, hstart]
    decide

/-- The page in a place waits for its segment, which is the only byte of the first file. -/
def Machine.waitsForFirst (m : Machine) (s : Key AddressSpace) (n : PageNumber) : Bool :=
  ((m.view.pageOf s n).bind m.pages.get?).any fun page =>
    page.frame == none && page.contents.segment?.any showsFirst

/-- A byte that is read from a page that waits for its segment is the one of the file. -/
theorem eq_singleton_of_waitsForFirst {start m m' : Machine} {history : List Done}
    {s : Key AddressSpace} {a : VirtualAddress} {bytes : Array UInt8} {byte : UInt8}
    (hrun : Run start history m)
    (hread : Returns ((Request.readUser a 1).perform? s) m (some (bytes, .ok ())) m')
    (hwaits : m.waitsForFirst s a.number = true) (hstart : a.pageOffset = 0)
    (hunwritten : m'.writesTo ⟨0⟩ = m.writesTo ⟨0⟩) (hbyte : m.view.byteAt? ⟨0⟩ 0 = some byte) :
    bytes = #[byte] := by
  obtain ⟨page, hpage, hwaits⟩ := (Option.any_eq_true _ _).1 hwaits
  obtain ⟨key, hplace, hpage⟩ := Option.bind_eq_some_iff.1 hpage
  obtain ⟨habsent, hshows⟩ := Bool.and_eq_true_iff.1 hwaits
  obtain ⟨slice, hslice, hshows⟩ := (Option.any_eq_true _ _).1 hshows
  obtain ⟨hfile, hoffset, hbytes⟩ := showsFirst_iff.1 hshows
  have hcontents := Contents.eq_pending_of_segment? hslice
  have hread := (Request.returns_perform?.1 hread).2
  obtain ⟨_, hpassed, hsize, -⟩ := returns_readUser hrun.sound hread
  simp only [writesTo_eq] at hunwritten
  have hsame := hpassed.course.steps.filesSince.file_eq hunwritten
  refine Array.ext (hsize rfl) fun i hi hi' => ?_
  obtain rfl : i = 0 := Nat.lt_one_iff.1 hi'
  have hbefore := bytesOf_of_readUser hrun.sound hrun.slotBooks hread hplace hpage
    (by rw [hcontents]; rfl) (fun slice' hslice' => by
      cases hslice.symm.trans hslice'
      rw [hfile, hsame]) (Array.getElem?_eq_getElem hi) rfl
  rw [View.bytesOf_of_absent (beq_iff_eq.1 habsent), hcontents] at hbefore
  have hshown : (m.view.shown slice)[a.pageOffset]? = some byte := by
    rw [hstart]
    exact View.getElem?_shown (by rw [hoffset]) (by rw [hbytes]; decide) (hfile ▸ hbyte)
  exact Option.some.inj (hbefore.symm.trans hshown)

/-- A byte that is stored past the end of the file is gone when its page was evicted. -/
theorem evictionSeen_pastPart :
    EvictionSeen (bare 1 0 (Arena.empty.add (.ofData #[1, 2] none))) 66 0 := by
  let va : VirtualAddress := ⟨0x10000000, by decide⟩
  let a : VirtualAddress := ⟨0x10000002, by decide⟩
  have hpieces : pieces 0x10000002 0 1 = [⟨0, 1⟩] := pieces_of_le (by decide) (by decide)
  have htest : returnsWith (do
        let s ← Space.create "init"
        let mapped ← (Request.mapFile va 2 true ⟨⟨0⟩, 0⟩ 0).perform? s
        let wrote ← (Request.writeUser a #[66]).perform? s
        let m ← get
        let read ← (Request.readUser a 1).perform? s
        let m₁ ← get
        modify fun _ => m
        let out ← (Request.pageOut va).perform? s
        let m₀ ← get
        let again ← (Request.readUser a 1).perform? s
        return mapped == some (.ok va) && wrote == some (.ok ()) && wasRead read && out == some true &&
          wasRead again && m.isStained s a.number && m₁.isStained s a.number &&
          m₀.pages.values.all fun page => page.frame == none &&
            page.contents.window?.any (·.readBytes == 2))
      (bare 1 0 (Arena.empty.add (.ofData #[1, 2] none))) (fun passed _ => passed) = true := by
    simp only [Request.perform?, Request.perform, writeUser, readUser, List.size_toArray,
      List.length_singleton, va, a, hpieces, Space.pageOut, Machine.pageOut, evict, moveOut,
      evictToSlice, writeSliceBack, FileSlice.writeBack, File.write, Bytes.slice,
      Array.size_extract, Vector.size_toArray]
    decide +kernel
  obtain ⟨_, m₂, hrun, htest⟩ := exists_returns htest
  simp only [returns_bind, returns_pure, returns_modify] at hrun
  obtain ⟨s, mₛ, hcreate, _, m', hmap, _, _, hwrite, _, m, hget, hrun⟩ := hrun
  obtain ⟨_, _, hread, _, m₁, hget₁, _, _, ⟨-, rfl⟩, hrun⟩ := hrun
  obtain ⟨_, _, hout, _, m₀, hget₀, _, _, hagain, rfl, rfl⟩ := hrun
  obtain ⟨rfl, rfl⟩ := returns_get.1 hget
  obtain ⟨rfl, rfl⟩ := returns_get.1 hget₁
  obtain ⟨rfl, rfl⟩ := returns_get.1 hget₀
  simp only [Bool.and_eq_true, beq_iff_eq, List.all_eq_true, Option.any_eq_true] at htest
  obtain ⟨⟨⟨⟨⟨⟨⟨rfl, rfl⟩, hread'⟩, rfl⟩, hagain'⟩, hstained⟩, hstained₁⟩, hpages⟩ := htest
  obtain ⟨bytes₁, rfl⟩ := exists_of_wasRead hread'
  obtain ⟨bytes₂, rfl⟩ := exists_of_wasRead hagain'
  have hmapped : Run _ _ m' := ⟨fresh_bare 1 0 _, (Reaches.refl.create hcreate).request hmap⟩
  have hrun : Run _ _ m := ⟨hmapped.fresh, hmapped.reaches.request hwrite⟩
  have hsound₁ : Sound none m₁ := Run.sound ⟨hrun.fresh, hrun.reaches.request hread⟩
  have hsound₀ : Sound none m₀ := Run.sound ⟨hrun.fresh, hrun.reaches.request hout⟩
  have hholds := Request.holds_of_writeUser hwrite hmapped.sound (stainedAt_of_isStained hstained hrun.sound)
  obtain rfl : bytes₁ = #[66] := eq_singleton_of_readUser hread hrun.sound fun hseen =>
    hseen.eq_of_stained hrun.sound hholds (stainedAt_of_isStained hstained₁ hsound₁)
  obtain ⟨key, hplace, -⟩ := hholds
  obtain ⟨_, hpage, -⟩ := hrun.sound.coherent.placement.placed hplace
  have hpassed := passed_pageOut hrun.sound (Request.returns_perform?.1 hout).2
  obtain ⟨⟨page, hpage, -⟩, hkept⟩ := hpassed.page_kept hrun.sound hpage
  obtain ⟨habsent, slice, hwindow, hbytes⟩ := hpages page ((Arena.mem_values_iff _ _).2 ⟨key, hpage⟩)
  obtain rfl : bytes₂ = #[0] := eq_singleton_of_readUser hagain hsound₀ fun hseen =>
    hseen.eq_zero hsound₀ (hkept s _ hplace) hpage habsent hwindow (by rw [hbytes]; decide)
  have hfirst : MapsOnce s [⟨s, .mapFile va 2 true ⟨⟨0⟩, 0⟩ 0, .ok va, mₛ, m'⟩] :=
    .cons .nil id fun _ _ _ va _ hregion => by
      cases (Run.regionOf_of_nil ⟨fresh_bare 1 0 _, Reaches.refl.create hcreate⟩ va).symm.trans hregion
  have honce : MapsOnce s (⟨s, .writeUser a #[66], .ok (), m', m⟩ ::
      [⟨s, .mapFile va 2 true ⟨⟨0⟩, 0⟩ 0, .ok va, mₛ, m'⟩]) :=
    hfirst.step id id
  have hevicted : MapsOnce s (⟨s, .pageOut va, true, m, m₀⟩ :: _) := honce.step id id
  exact ⟨by decide, s, _, m, va, m₀, [], m, [], m₀, a, _, _, hrun, hout, .refl, .refl, .nil, honce, hevicted,
    hread, hagain⟩

/-- A file shows what was written to it last, and another address space that maps it writes it back, too. -/
theorem evictionSeen_elsewhere :
    EvictionSeen (bare 2 0 (Arena.empty.add (.ofData #[1] none))) 65 66 := by
  let va : VirtualAddress := ⟨0x10000000, by decide⟩
  have hpieces : pieces 0x10000000 0 1 = [⟨0, 1⟩] := pieces_of_le (by decide) (by decide)
  have htest : returnsWith (do
        let s ← Space.create "first"
        let t ← Space.create "second"
        let mapped ← (Request.mapFile va 1 true ⟨⟨0⟩, 0⟩ 0).perform? s
        let mapped' ← (Request.mapFile va 1 true ⟨⟨0⟩, 0⟩ 0).perform? t
        let wrote' ← (Request.writeUser va #[66]).perform? t
        let m' ← get
        let wrote ← (Request.writeUser va #[65]).perform? s
        let m ← get
        let out' ← (Request.pageOut va).perform? t
        let m₁ ← get
        let read ← (Request.readUser va 1).perform? s
        let m₁' ← get
        modify fun _ => m
        let out ← (Request.pageOut va).perform? s
        let m₀ ← get
        let out₀ ← (Request.pageOut va).perform? t
        let m₂ ← get
        let again ← (Request.readUser va 1).perform? s
        return s != t && mapped == some (.ok va) && mapped' == some (.ok va) && wrote' == some (.ok ()) &&
          wrote == some (.ok ()) && out' == some true && wasRead read && out == some true &&
          out₀ == some true && wasRead again &&
          [m, m₁, m₁'].all (·.isStained s va.number) && [m', m, m₀].all (·.isStained t va.number) &&
          [m₀, m₂].all (·.pages.values.all fun page => page.contents.window?.any showsFirst) &&
          m₀.listed.all (fun slot => slot.owner.all fun o => m₀.view.pageOf t va.number == some o.page) &&
          m₂.listed.all (·.owner == none) && m₂.pages.values.all (·.frame == none))
      (bare 2 0 (Arena.empty.add (.ofData #[1] none))) (fun passed _ => passed) = true := by
    simp only [Request.perform?, Request.perform, writeUser, readUser, List.size_toArray,
      List.length_singleton, va, hpieces, Space.pageOut, Machine.pageOut, evict, moveOut,
      evictToSlice, writeSliceBack, FileSlice.writeBack, File.write, Bytes.slice,
      Array.size_extract, Vector.size_toArray]
    decide +kernel
  obtain ⟨_, m₂', hrun, htest⟩ := exists_returns htest
  simp only [returns_bind, returns_pure, returns_modify] at hrun
  obtain ⟨s, mₛ, hcreate, t, mₜ, hcreate', _, mₙ, hmap, _, mₘ, hmap', hrun⟩ := hrun
  obtain ⟨_, _, hwrite', _, m', hget', _, _, hwrite, _, m, hget, hrun⟩ := hrun
  obtain ⟨_, _, hout', _, m₁, hget₁, _, _, hread, _, m₁', hget₁', _, _, ⟨-, rfl⟩, hrun⟩ := hrun
  obtain ⟨_, _, hout, _, m₀, hget₀, _, _, hout₀, _, m₂, hget₂, _, _, hagain, rfl, rfl⟩ := hrun
  obtain ⟨rfl, rfl⟩ := returns_get.1 hget'
  obtain ⟨rfl, rfl⟩ := returns_get.1 hget
  obtain ⟨rfl, rfl⟩ := returns_get.1 hget₁
  obtain ⟨rfl, rfl⟩ := returns_get.1 hget₁'
  obtain ⟨rfl, rfl⟩ := returns_get.1 hget₀
  obtain ⟨rfl, rfl⟩ := returns_get.1 hget₂
  simp only [Bool.and_eq_true, beq_iff_eq, bne_iff_ne, List.all_eq_true, Option.all_eq_true,
    beq_iff_eq] at htest
  obtain ⟨⟨⟨⟨⟨⟨⟨⟨⟨⟨⟨⟨⟨⟨⟨hne, rfl⟩, rfl⟩, rfl⟩, rfl⟩, rfl⟩, hread'⟩, rfl⟩, rfl⟩, hagain'⟩, hstained⟩,
    hstained'⟩, hshows⟩, honly⟩, hempty⟩, habsent⟩ := htest
  obtain ⟨bytes₁, rfl⟩ := exists_of_wasRead hread'
  obtain ⟨bytes₂, rfl⟩ := exists_of_wasRead hagain'
  have hmade : Run _ [] mₜ := ⟨fresh_bare 2 0 _, (Reaches.refl.create hcreate).create hcreate'⟩
  have hmapped : Run _ _ mₘ := ⟨hmade.fresh, (hmade.reaches.request hmap).request hmap'⟩
  have hwrote : Run _ _ m' := ⟨hmade.fresh, hmapped.reaches.request hwrite'⟩
  have hrun : Run _ _ m := ⟨hmade.fresh, hwrote.reaches.request hwrite⟩
  have hrun₁ : Run _ _ m₁ := ⟨hmade.fresh, hrun.reaches.request hout'⟩
  have hrun₁' : Run _ _ m₁' := ⟨hmade.fresh, hrun₁.reaches.request hread⟩
  have hrun₀ : Run _ _ m₀ := ⟨hmade.fresh, hrun.reaches.request hout⟩
  have hrun₂ : Run _ _ m₂ := ⟨hmade.fresh, hrun₀.reaches.request hout₀⟩
  -- the page that is not evicted has the byte that was written to it
  have hholds := Request.holds_of_writeUser hwrite hwrote.sound
    (stainedAt_of_isStained (hstained m (by simp)) hrun.sound)
  obtain ⟨_, hother⟩ := Request.exists_outcome hrun.sound (Request.returns_perform?.1 hout').2
  obtain rfl : bytes₁ = #[65] := eq_singleton_of_readUser hread hrun₁.sound fun hseen =>
    hseen.eq_of_stained hrun₁.sound (hother.holds hrun.sound (fun _ => id) hholds
      (stainedAt_of_isStained (hstained m₁ (by simp)) hrun₁.sound))
        (stainedAt_of_isStained (hstained m₁' (by simp)) hrun₁'.sound)
  -- the other page has its own, and is written back after the one that is evicted
  have hholds' := Request.holds_of_writeUser hwrite' hmapped.sound
    (stainedAt_of_isStained (hstained' m' (by simp)) hwrote.sound)
  obtain ⟨_, hwritten⟩ := Request.exists_outcome hwrote.sound (Request.returns_perform?.1 hwrite).2
  have hholds' := hwritten.holds hwrote.sound (fun hs => absurd hs hne) hholds'
    (stainedAt_of_isStained (hstained' m (by simp)) hrun.sound)
  obtain ⟨_, houtcome⟩ := Request.exists_outcome hrun.sound (Request.returns_perform?.1 hout).2
  have hholds' := houtcome.holds hrun.sound (fun _ => id) hholds'
    (stainedAt_of_isStained (hstained' m₀ (by simp)) hrun₀.sound)
  obtain ⟨_, hlast⟩ := Request.exists_outcome hrun₀.sound (Request.returns_perform?.1 hout₀).2
  have hclean := Machine.not_stained hempty
  have hstart : va.pageOffset = 0 := by decide
  have hreaches : (bare 2 0 (Arena.empty.add (.ofData #[1] none))).view.Reaches ⟨0⟩ 0 :=
    ⟨_, rfl, rfl, by decide⟩
  have hbyte : m₂.view.byteAt? ⟨0⟩ 0 = some 66 := by
    obtain ⟨key, hplace, -⟩ := id hholds'
    obtain ⟨page, hpage, -⟩ := hrun₀.sound.coherent.placement.placed hplace
    exact hlast.byteAt?_of_holds hrun₀.sound id id (by rintro ⟨_, _, _, hmaps⟩; exact hmaps) hholds' hplace
      (covers_of_showsFirst hpage (hshows m₀ (by simp) page ((Arena.mem_values_iff _ _).2 ⟨key, hpage⟩))
        hstart) (hrun₀.reaches_file hreaches) (eq_of_stained honly hplace) hclean
  obtain ⟨key, hplace, -⟩ := hholds
  obtain ⟨_, hpage, -⟩ := hrun.sound.coherent.placement.placed hplace
  have hpassed := passed_pageOut hrun.sound (Request.returns_perform?.1 hout).2
  obtain ⟨⟨_, hpage, -⟩, hkept⟩ := hpassed.page_kept hrun.sound hpage
  have hplace := hkept s _ hplace
  have hpassed := passed_pageOut hrun₀.sound (Request.returns_perform?.1 hout₀).2
  obtain ⟨⟨page, hpage, -⟩, hkept⟩ := hpassed.page_kept hrun₀.sound hpage
  obtain rfl : bytes₂ = #[66] := eq_singleton_of_readUser hagain hrun₂.sound fun hseen =>
    hseen.eq_of_byteAt? hrun₂.sound (hkept s _ hplace) hpage
      (habsent page ((Arena.mem_values_iff _ _).2 ⟨key, hpage⟩))
        (covers_of_showsFirst hpage (hshows m₂ (by simp) page ((Arena.mem_values_iff _ _).2 ⟨key, hpage⟩))
          hstart) (hrun₂.reaches_file hreaches) hclean hbyte
  have hlater : ∀ {m m' : Machine} {history : List Done}, MapsOnce s history →
      MapsOnce s (⟨t, .pageOut va, true, m, m'⟩ :: history) := fun h =>
    h.cons id fun hs => absurd hs.symm hne
  have hfirst : MapsOnce s [⟨s, .mapFile va 1 true ⟨⟨0⟩, 0⟩ 0, .ok va, mₜ, mₙ⟩] :=
    .cons .nil id fun _ _ _ va _ hregion => by cases (hmade.regionOf_of_nil va).symm.trans hregion
  have honce : MapsOnce s (⟨s, .writeUser va #[65], .ok (), m', m⟩ ::
      ⟨t, .writeUser va #[66], .ok (), mₘ, m'⟩ ::
        ⟨t, .mapFile va 1 true ⟨⟨0⟩, 0⟩ 0, .ok va, mₙ, mₘ⟩ :: _) :=
    ((hfirst.cons id fun hs => absurd hs.symm hne).cons id fun hs => absurd hs.symm hne).cons id
      (by rintro _ _ ⟨_, _, _, hmaps⟩; exact hmaps.elim)
  have hevicted : MapsOnce s (⟨s, .pageOut va, true, m, m₀⟩ :: _) := honce.step id id
  exact ⟨by decide, s, _, m, va, m₀, _, m₁, _, m₂, va, _, _, hrun, hout, .request .refl hout',
    .request .refl hout₀, .cons .mk .nil, hlater honce, hlater hevicted, hread, hagain⟩

/-- A segment shows what its file has when it is first touched, and an eviction writes to the file. -/
theorem evictionSeen_inSegment :
    EvictionSeen (bare 2 0 (Arena.empty.add (.ofData #[1] none))) 1 65 := by
  let va : VirtualAddress := ⟨0x10000000, by decide⟩
  let a : VirtualAddress := ⟨0x20000000, by decide⟩
  have hpieces : pieces 0x10000000 0 1 = [⟨0, 1⟩] := pieces_of_le (by decide) (by decide)
  have hpieces' : pieces 0x20000000 0 1 = [⟨0, 1⟩] := pieces_of_le (by decide) (by decide)
  have htest : returnsWith (do
        let s ← Space.create "init"
        let mapped ← (Request.mapFile va 1 true ⟨⟨0⟩, 0⟩ 0).perform? s
        let loaded ← (Request.loadSegment ⟨⟨0⟩, 0⟩ 0 a 1 4095 true).perform? s
        let wrote ← (Request.writeUser va #[65]).perform? s
        let m ← get
        let read ← (Request.readUser a 1).perform? s
        let m₁ ← get
        modify fun _ => m
        let out ← (Request.pageOut va).perform? s
        let m₀ ← get
        let again ← (Request.readUser a 1).perform? s
        let m₂ ← get
        return mapped == some (.ok va) && loaded == some (.ok ()) && wrote == some (.ok ()) && wasRead read &&
          out == some true && wasRead again && m.isStained s va.number &&
          [m, m₀].all (·.waitsForFirst s a.number) && [m, m₁].all (·.writesTo ⟨0⟩ == some 0) &&
          [m₀, m₂].all (·.writesTo ⟨0⟩ == some 1) &&
          m.listed.all (fun slot => slot.owner.all fun o => m.view.pageOf s va.number == some o.page) &&
          m₀.listed.all (·.owner == none) &&
          ((m.view.pageOf s va.number).bind m.pages.get?).any fun page =>
            page.contents.window?.any showsFirst)
      (bare 2 0 (Arena.empty.add (.ofData #[1] none))) (fun passed _ => passed) = true := by
    simp only [Request.perform?, Request.perform, writeUser, readUser, List.size_toArray,
      List.length_singleton, va, a, hpieces, hpieces', Space.pageOut, Machine.pageOut, evict, moveOut,
      evictToSlice, writeSliceBack, FileSlice.writeBack, File.write, Bytes.slice,
      Array.size_extract, Vector.size_toArray]
    decide +kernel
  obtain ⟨_, m₂, hrun, htest⟩ := exists_returns htest
  simp only [returns_bind, returns_pure, returns_modify] at hrun
  obtain ⟨s, mₛ, hcreate, _, mₗ, hmap, _, m', hload, _, _, hwrite, _, m, hget, hrun⟩ := hrun
  obtain ⟨_, _, hread, _, m₁, hget₁, _, _, ⟨-, rfl⟩, hrun⟩ := hrun
  obtain ⟨_, _, hout, _, m₀, hget₀, _, _, hagain, _, _, hget₂, rfl, rfl⟩ := hrun
  obtain ⟨rfl, rfl⟩ := returns_get.1 hget
  obtain ⟨rfl, rfl⟩ := returns_get.1 hget₁
  obtain ⟨rfl, rfl⟩ := returns_get.1 hget₀
  obtain ⟨rfl, rfl⟩ := returns_get.1 hget₂
  simp only [Bool.and_eq_true, beq_iff_eq, List.all_eq_true, Option.all_eq_true] at htest
  obtain ⟨⟨⟨⟨⟨⟨⟨⟨⟨⟨⟨⟨rfl, rfl⟩, rfl⟩, hread'⟩, rfl⟩, hagain'⟩, hstained⟩, hwaits⟩, hunwritten⟩, hwritten⟩,
    honly⟩, hempty⟩, hshows⟩ := htest
  obtain ⟨bytes₁, rfl⟩ := exists_of_wasRead hread'
  obtain ⟨bytes₂, rfl⟩ := exists_of_wasRead hagain'
  have hmade : Run _ [] mₛ := ⟨fresh_bare 2 0 _, Reaches.refl.create hcreate⟩
  have hloaded : Run _ _ m' := ⟨hmade.fresh, (hmade.reaches.request hmap).request hload⟩
  have hrun : Run _ _ m := ⟨hmade.fresh, hloaded.reaches.request hwrite⟩
  have hrun₀ : Run _ _ m₀ := ⟨hmade.fresh, hrun.reaches.request hout⟩
  have hstart : a.pageOffset = 0 := by decide
  have hstart' : va.pageOffset = 0 := by decide
  have hunwritten₀ := hunwritten m (by simp)
  -- the file is what it was
  obtain ⟨_, hcourse⟩ := hrun.reaches.course hrun.fresh.sound
  have hbyte : m.view.byteAt? ⟨0⟩ 0 = some 1 := by
    rw [writesTo_eq] at hunwritten₀
    rw [View.byteAt?, hcourse.steps.filesSince.file_eq (hunwritten₀.trans rfl)]
    rfl
  obtain rfl := eq_singleton_of_waitsForFirst hrun hread (hwaits m (by simp)) hstart
    ((hunwritten m₁ (by simp)).trans hunwritten₀.symm) hbyte
  -- the file has what was written to the page that is evicted
  have hholds := Request.holds_of_writeUser hwrite hloaded.sound (stainedAt_of_isStained hstained hrun.sound)
  obtain ⟨_, houtcome⟩ := Request.exists_outcome hrun.sound (Request.returns_perform?.1 hout).2
  have hreaches : (bare 2 0 (Arena.empty.add (.ofData #[1] none))).view.Reaches ⟨0⟩ 0 :=
    ⟨_, rfl, rfl, by decide⟩
  obtain ⟨page, hpage, hshows⟩ := (Option.any_eq_true _ _).1 hshows
  obtain ⟨key, hplace, hpage⟩ := Option.bind_eq_some_iff.1 hpage
  have hbyte : m₀.view.byteAt? ⟨0⟩ 0 = some 65 :=
    houtcome.byteAt?_of_holds hrun.sound id id (by rintro ⟨_, _, _, hmaps⟩; exact hmaps) hholds hplace
      (covers_of_showsFirst hpage hshows hstart') (hrun.reaches_file hreaches)
        (eq_of_stained honly hplace) (Machine.not_stained hempty)
  obtain rfl := eq_singleton_of_waitsForFirst hrun₀ hagain (hwaits m₀ (by simp)) hstart
    ((hwritten m₂ (by simp)).trans (hwritten m₀ (by simp)).symm) hbyte
  have hfirst : MapsOnce s [⟨s, .mapFile va 1 true ⟨⟨0⟩, 0⟩ 0, .ok va, mₛ, mₗ⟩] :=
    .cons .nil id fun _ _ _ va _ hregion => by cases (hmade.regionOf_of_nil va).symm.trans hregion
  have honce : MapsOnce s (⟨s, .writeUser va #[65], .ok (), m', m⟩ ::
      ⟨s, .loadSegment ⟨⟨0⟩, 0⟩ 0 a 1 4095 true, .ok (), mₗ, m'⟩ :: _) :=
    (hfirst.step id id).step id id
  have hevicted : MapsOnce s (⟨s, .pageOut va, true, m, m₀⟩ :: _) := honce.step id id
  exact ⟨by decide, s, _, m, va, m₀, [], m, [], m₀, a, _, _, hrun, hout, .refl, .refl, .nil, honce, hevicted,
    hread, hagain⟩

/-- An eviction is seen past the part of a file that a page shows, in a file that another address space
maps, and in a segment of the file. -/
theorem evictionSeen : EvictionSeen (bare 1 0 (Arena.empty.add (.ofData #[1, 2] none))) 66 0 ∧
    EvictionSeen (bare 2 0 (Arena.empty.add (.ofData #[1] none))) 65 66 ∧
      EvictionSeen (bare 2 0 (Arena.empty.add (.ofData #[1] none))) 1 65 :=
  ⟨evictionSeen_pastPart, evictionSeen_elsewhere, evictionSeen_inSegment⟩

end DemandPaging
