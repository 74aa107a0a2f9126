import DemandPaging.Proofs.Exposure

/-!
States that an address space cannot tell apart.

A run of an address space is determined by what it asks for: its windows and regions follow from its
requests, and so do its flat memory and, where a file of its own is exposed, the bytes of the file.
None of this depends on which pages are resident. So the same request leaves twins where it finds
them, and a request that does nothing to the memory of the address space leaves a twin.
-/

namespace DemandPaging

open Machine Space

/-! ### Twins -/

/-- Two states that an address space with files of its own cannot tell apart, but for what its pages
hold. -/
structure Twins (s : Key AddressSpace) (own : Key File → Prop) (v₁ v₂ : View) : Prop where
  windows : ∀ n, v₁.windowAt s n = v₂.windowAt s n
  regions : ∀ va, (v₁.regionOf s va).map (·.pages) = (v₂.regionOf s va).map (·.pages)
  bytes : ∀ {f p}, own f → v₁.Exposed s f p → v₁.byteAt? f p = v₂.byteAt? f p

namespace Twins

variable {s : Key AddressSpace} {own : Key File → Prop} {v v₁ v₂ v₃ : View} {va : VirtualAddress}

theorem refl (s : Key AddressSpace) (own : Key File → Prop) (v : View) : Twins s own v v :=
  ⟨fun _ => rfl, fun _ => rfl, fun _ _ => rfl⟩

theorem symm (h : Twins s own v₁ v₂) : Twins s own v₂ v₁ where
  windows n := (h.windows n).symm
  regions va := (h.regions va).symm
  bytes hown hexposed := (h.bytes hown ((View.exposed_congr h.windows).2 hexposed)).symm

theorem trans (h : Twins s own v₁ v₂) (h' : Twins s own v₂ v₃) : Twins s own v₁ v₃ where
  windows n := (h.windows n).trans (h'.windows n)
  regions va := (h.regions va).trans (h'.regions va)
  bytes hown hexposed :=
    (h.bytes hown hexposed).trans (h'.bytes hown ((View.exposed_congr h.windows).1 hexposed))

theorem exists_region (h : Twins s own v₁ v₂) (hregions₁ : RegionsPlaced v₁)
    (hregions₂ : RegionsPlaced v₂) {region₁ : Region} (hregion₁ : v₁.regionOf s va = some region₁) :
    ∃ region₂, v₂.regionOf s va = some region₂ ∧ region₂.start = region₁.start ∧
      region₂.pages = region₁.pages := by
  have hpages := h.regions va
  rw [hregion₁, Option.map_some] at hpages
  obtain ⟨region₂, hregion₂, hpages⟩ := Option.map_eq_some_iff.1 hpages.symm
  exact ⟨region₂, hregion₂, (hregions₂.start hregion₂).trans (hregions₁.start hregion₁).symm, hpages⟩

end Twins

section

variable {α : Type} {request : Request α} {answer : α} {m m₁ m₂ : Machine} {s : Key AddressSpace}
  {own : Key File → Prop} {n : PageNumber} {va : VirtualAddress} {f : Key File} {length offset : Nat}

theorem Twins.takes (h : Twins s own m₁.view m₂.view) (hregions₁ : RegionsPlaced m₁.view)
    (hregions₂ : RegionsPlaced m₂.view) (htakes : request.Takes s m₁ n) : request.Takes s m₂ n := by
  obtain ⟨va, hends, hall | ⟨region₁, hregion₁, hhas⟩⟩ := htakes
  · exact ⟨va, hends, .inl hall⟩
  · obtain ⟨region₂, hregion₂, hstart, hpages⟩ := h.exists_region hregions₁ hregions₂ hregion₁
    exact ⟨va, hends, .inr ⟨region₂, hregion₂, by rwa [Region.Has, hstart, hpages]⟩⟩

theorem Request.IsQuiet.not_ends (h : request.IsQuiet answer) : ¬request.Ends va := by
  cases request with
  | unmapFile | exit | drop => cases h
  | _ => exact id

theorem Request.IsQuiet.not_maps (h : request.IsQuiet answer) :
    ¬request.Maps f va length offset answer := by
  cases request with
  | mapFile => cases answer with
    | ok start => exact absurd rfl (h start)
    | error => exact id
  | mapDescriptor => cases answer with
    | ok start => exact absurd rfl (h start)
    | error => exact id
  | _ => exact id

end

/-! ### Requests -/

structure SecludedRequest (start : Machine) (s : Key AddressSpace) (all history : List Done)
    (d : Done) : Prop where
  secluded : Secluded start s all
  run : Run start history d.before
  returns : Returns (d.request.perform? d.space) d.before (some d.answer) d.after
  now : d ∈ all
  earlier : ∀ d' ∈ history, d' ∈ all

def Done.Idle (d : Done) (s : Key AddressSpace) : Prop :=
  d.space ≠ s ∨ d.request.IsQuiet d.answer

theorem Run.fileLength_eq {start m : Machine} {history : List Done} (h : Run start history m)
    (f : Key File) : m.fileLength f = start.fileLength f := by
  obtain ⟨_, hcourse⟩ := h.reaches.course h.fresh.sound
  have hsince := hcourse.steps.filesSince f
  unfold fileLength
  generalize start.view.file f = before at *
  generalize m.view.file f = after at *
  cases hsince with
  | none => rfl
  | some hsince =>
      simp only [Option.map_some, Option.getD_some, File.length, hsince.reportedLength,
        hsince.size_data]

namespace SecludedRequest

variable {start : Machine} {s : Key AddressSpace} {all history : List Done} {d : Done}
  {f : Key File} {p i : Nat} {n : PageNumber} {w : FileSlice}

theorem respects (h : SecludedRequest start s all history d) : ∃ memory effects,
    Outcome d.space d.before d.after d.request d.answer effects ∧
      Agrees (remembered history) memory d.before.view ∧
        Mirrors s (Owns all s) (NeverMapped all) memory d.before.view ∧
          d.request.Respects s (Owns all s) (NeverMapped all) d.before d.space d.answer := by
  obtain ⟨memory, hagrees, hmirrors⟩ := h.run.exists_mirrors h.secluded h.earlier
  obtain ⟨effects, houtcome⟩ := Reaches.exists_outcome h.run.sound h.returns
  exact ⟨memory, effects, houtcome, hagrees, hmirrors,
    h.secluded.respects h.now h.run h.returns hmirrors⟩

theorem byteAt?_of_exposed (h : SecludedRequest start s all history d) (hown : Owns all s f)
    (hexposed : d.before.view.Exposed s f p) :
    d.after.view.byteAt? f p = d.before.view.byteAt? f p := by
  obtain ⟨_, _, houtcome, -, hmirrors, hrespects⟩ := h.respects
  exact houtcome.byteAt?_of_exposed h.run.sound hrespects hmirrors hown
    (fun hfile => (h.secluded.file_plain h.run hown hfile).1) hexposed

theorem byteAt?_of_window (h : SecludedRequest start s all history d) (hown : Owns all s w.handle.file)
    (hwindow : d.before.view.windowAt s n = some w) (hi : i < w.readBytes)
    (hexposed : d.after.view.Exposed s w.handle.file (w.offset + i)) :
    d.after.view.byteAt? w.handle.file (w.offset + i) =
      some (remembered history s (n.toNat * pageSize + i)) := by
  obtain ⟨_, _, houtcome, hagrees, hmirrors, hrespects⟩ := h.respects
  exact houtcome.byteAt?_of_window h.run.sound h.run.slotBooks hrespects hmirrors hagrees hown hwindow
    hi hexposed

theorem exposed_of_maps (h : SecludedRequest start s all history d) (hs : d.space = s)
    (hmaps : d.request.MapsFile f d.answer) (p : Nat) : d.before.view.Exposed s f p := by
  obtain ⟨_, _, -, -, -, hrespects⟩ := h.respects
  rintro n w hwindow rfl hle
  by_contra hlt
  obtain ⟨k, rfl⟩ := Nat.exists_eq_add_of_le hle
  obtain ⟨key, -, hcovers⟩ := View.exists_covers hwindow (i := k) (by omega)
  exact (hrespects.sole (hrespects.owns hs hmaps) hmaps).2.1 _ _ _ hcovers

theorem file_of_loads (h : SecludedRequest start s all history d) (hs : d.space = s)
    (hloads : d.request.Loads f d.answer) : d.before.view.file f = start.view.file f := by
  have hnever := h.secluded.segments d h.now hs hloads
  have huncovered : ∀ key p i, ¬start.view.Covers key f p i := fun key p i hcovers => by
    obtain ⟨_, _, hpage, -⟩ := hcovers
    cases (h.run.fresh.pages key).symm.trans hpage
  exact (h.run.reaches.file_eq_of_uncovered h.run.fresh.sound huncovered
    fun d' hd' va length offset hmaps => hnever d' (h.earlier d' hd') ⟨va, length, offset, hmaps⟩).1

/-- A request that does nothing to the memory of the address space leaves a twin. -/
theorem twins_of_idle {own : Key File → Prop} (h : SecludedRequest start s all history d)
    (hidle : d.Idle s) (hown : ∀ {f}, own f → Owns all s f) :
    Twins s own d.before.view d.after.view := by
  obtain ⟨_, _, houtcome, -, -, hrespects⟩ := h.respects
  have hquiet : d.space = s → d.request.IsQuiet d.answer := fun hs => hidle.resolve_left fun hne => hne hs
  refine ⟨fun n => ?_, fun va => ?_, fun hf hexposed => (h.byteAt?_of_exposed (hown hf) hexposed).symm⟩
  · refine (houtcome.windowAt_eq h.run.sound hrespects.forks hrespects.makes fun hs => ⟨?_, ?_⟩).symm
    · exact fun ⟨_, hends, _⟩ => (hquiet hs).not_ends hends
    · exact fun ⟨_, _, _, _, hmaps, _⟩ => (hquiet hs).not_maps hmaps
  · rw [houtcome.regionOf_eq hrespects.forks hrespects.makes fun hs =>
      ⟨(hquiet hs).not_ends, fun _ _ _ => (hquiet hs).not_maps⟩]

end SecludedRequest

/-! ### The same request -/

theorem Flat.lay_congr {flat₁ flat₂ : Flat} {s : Key AddressSpace} (h : flat₁ s = flat₂ s) {a length : Nat}
    {bytes₁ bytes₂ : Nat → UInt8} (hbytes : ∀ i < length, bytes₁ i = bytes₂ i) :
    flat₁.lay s a length bytes₁ s = flat₂.lay s a length bytes₂ s := by
  funext b
  rw [lay_self, lay_self, h]
  split
  · exact hbytes _ (by omega)
  · rfl

theorem Flat.layFile_congr {flat₁ flat₂ : Flat} {s : Key AddressSpace} {m₁ m₂ : Machine}
    (h : flat₁ s = flat₂ s) {start : VirtualAddress} {length offset : Nat} {f : Key File}
    (hlength : m₁.fileLength f = m₂.fileLength f) (hbytes : ∀ i, m₁.fileByte f i = m₂.fileByte f i) :
    flat₁.layFile s start length f offset m₁ s = flat₂.layFile s start length f offset m₂ s := by
  refine Flat.lay_congr h fun i _ => ?_
  rw [hlength, hbytes]

/-- A request to another address space leaves flat memory alone, unless it copies into it. -/
theorem Flat.after_of_ne {α : Type} {request : Request α} {answer : α} {flat : Flat} {m : Machine}
    {s s' : Key AddressSpace} (hs : s ≠ s') (hmakes : ¬request.Makes s answer) :
    flat.after s' m request answer s = flat s := by
  cases request with
  | writeUser | loadSegment =>
      rcases answer with cause | ⟨⟩ <;> simp only [after, lay_of_ne hs]
  | mapFile => cases answer <;> simp only [after, layFile, lay_of_ne hs]
  | mapDescriptor start length writable descriptor offset lookup =>
      cases answer <;> simp only [after]
      cases (mappableDescriptor? descriptor).bind lookup <;> simp only [layFile, lay_of_ne hs]
  | unmapFile start =>
      cases answer
      simp only [after]
      cases m.view.regionOf s' start <;> simp only [lay_of_ne hs]
  | fork =>
      cases answer with
      | ok child => exact Function.update_of_ne (Ne.symm hmakes) (flat s') flat
      | error => rfl
  | exit | drop => exact Function.update_of_ne hs _ _
  | _ => rfl

/-- A request that does nothing to the memory of an address space leaves its flat memory alone. -/
theorem Flat.after_of_idle {flat : Flat} {d : Done} {s : Key AddressSpace} (hidle : d.Idle s)
    (hmakes : ¬d.request.Makes s d.answer) :
    flat.after d.space d.before d.request d.answer s = flat s := by
  rcases hidle with hs | hquiet
  · exact Flat.after_of_ne (Ne.symm hs) hmakes
  · rw [Flat.after_of_quiet hquiet]

section

variable {start before₁ before₂ after₁ after₂ : Machine} {s : Key AddressSpace}
  {all₁ all₂ history₁ history₂ : List Done} {own : Key File → Prop} {α : Type} {request : Request α}
  {answer : α}

/-- The same request leaves twins, if it finds twins with the same flat memory. -/
theorem Twins.after (h : Twins s own before₁.view before₂.view)
    (h₁ : SecludedRequest start s all₁ history₁ ⟨s, request, answer, before₁, after₁⟩)
    (h₂ : SecludedRequest start s all₂ history₂ ⟨s, request, answer, before₂, after₂⟩)
    (hown : ∀ {f}, own f → Owns all₁ s f ∧ Owns all₂ s f)
    (hflat : remembered history₁ s = remembered history₂ s) :
    Twins s own after₁.view after₂.view := by
  obtain ⟨_, _, houtcome₁, -, -, hrespects₁⟩ := h₁.respects
  obtain ⟨_, _, houtcome₂, -, -, hrespects₂⟩ := h₂.respects
  have hregions₁ := h₁.run.regionsPlaced
  have hregions₂ := h₂.run.regionsPlaced
  have hwindows : ∀ n, after₁.view.windowAt s n = after₂.view.windowAt s n := by
    intro n
    by_cases htakes : request.Takes s before₁ n
    · rw [View.windowAt_of_free (houtcome₁.pageOf_of_takes htakes),
        View.windowAt_of_free (houtcome₂.pageOf_of_takes (h.takes hregions₁ hregions₂ htakes))]
    by_cases hmaps : request.MapsAt n answer
    · obtain ⟨f, va, length, offset, hmaps, hle, hlt⟩ := hmaps
      obtain ⟨_, hmapped₁⟩ := houtcome₁.fileMapped hmaps
      obtain ⟨_, hmapped₂⟩ := houtcome₂.fileMapped hmaps
      obtain ⟨⟨handle₁, offset₁, bytes₁, _⟩, hwindow₁, rfl, rfl, rfl⟩ := hmapped₁.exists_window hle hlt
      obtain ⟨⟨handle₂, offset₂, bytes₂, _⟩, hwindow₂, rfl, rfl, hbytes⟩ :=
        hmapped₂.exists_window hle hlt
      rw [hwindow₁, hwindow₂, Option.some.injEq, FileSlice.mk.injEq]
      refine ⟨rfl, rfl, ?_⟩
      rw [h₁.run.fileLength_eq, ← h₂.run.fileLength_eq]
      exact hbytes.symm
    · rw [houtcome₁.windowAt_eq h₁.run.sound hrespects₁.forks hrespects₁.makes
          fun _ => ⟨htakes, hmaps⟩,
        houtcome₂.windowAt_eq h₂.run.sound hrespects₂.forks hrespects₂.makes
          fun _ => ⟨fun htakes₂ => htakes (h.symm.takes hregions₂ hregions₁ htakes₂), hmaps⟩,
        h.windows n]
  refine ⟨hwindows, fun va => ?_, fun {f p} hf hexposed => ?_⟩
  · by_cases hends : request.Ends va
    · rw [houtcome₁.regionOf_of_ends hends, houtcome₂.regionOf_of_ends hends]
    by_cases hmaps : ∃ f length offset, request.Maps f va length offset answer
    · obtain ⟨f, length, offset, hmaps⟩ := hmaps
      obtain ⟨_, hmapped₁⟩ := houtcome₁.fileMapped hmaps
      obtain ⟨_, hmapped₂⟩ := houtcome₂.fileMapped hmaps
      obtain ⟨_, -, hregion₁⟩ := hmapped₁.exists_region
      obtain ⟨_, -, hregion₂⟩ := hmapped₂.exists_region
      rw [hregion₁, hregion₂, Option.map_some, Option.map_some]
    · simp only [not_exists] at hmaps
      rw [houtcome₁.regionOf_eq hrespects₁.forks hrespects₁.makes fun _ => ⟨hends, hmaps⟩,
        houtcome₂.regionOf_eq hrespects₂.forks hrespects₂.makes fun _ => ⟨hends, hmaps⟩, h.regions va]
  · by_cases hbefore : before₁.view.Exposed s f p
    · rw [h₁.byteAt?_of_exposed (hown hf).1 hbefore,
        h₂.byteAt?_of_exposed (hown hf).2 ((View.exposed_congr h.windows).1 hbefore), h.bytes hf hbefore]
    · obtain ⟨n, w, i, hwindow, rfl, rfl, hi⟩ := View.exists_of_not_exposed hbefore
      rw [h₁.byteAt?_of_window (hown hf).1 hwindow hi hexposed,
        h₂.byteAt?_of_window (hown hf).2 ((h.windows n).symm.trans hwindow) hi
          ((View.exposed_congr hwindows).1 hexposed), hflat]

theorem Twins.flat_after {flat₁ flat₂ : Flat} (h : Twins s own before₁.view before₂.view)
    (h₁ : SecludedRequest start s all₁ history₁ ⟨s, request, answer, before₁, after₁⟩)
    (h₂ : SecludedRequest start s all₂ history₂ ⟨s, request, answer, before₂, after₂⟩)
    (hown : ∀ {f}, Owns all₁ s f → Owns all₂ s f → own f) (hflat : flat₁ s = flat₂ s)
    (hstored : ∀ a, request.stores? s before₁ a answer = request.stores? s before₂ a answer) :
    flat₁.after s before₁ request answer s = flat₂.after s before₂ request answer s := by
  -- what is mapped now is exposed all over
  have hmapped : ∀ {f}, request.MapsFile f answer →
      ∀ i, before₁.fileByte f i = before₂.fileByte f i := fun {f} hmaps i => by
    have hbyte := h.bytes (hown ⟨_, h₁.now, rfl, hmaps⟩ ⟨_, h₂.now, rfl, hmaps⟩)
      (h₁.exposed_of_maps rfl hmaps i)
    exact congrArg (·.getD 0) hbyte
  have hlength : ∀ f, before₁.fileLength f = before₂.fileLength f := fun f =>
    (h₁.run.fileLength_eq f).trans (h₂.run.fileLength_eq f).symm
  cases request with
  | writeUser va data =>
      rcases answer with cause | ⟨⟩ <;> simp only [Flat.after]
      · obtain ⟨_, _, hle₁, rfl, -⟩ :=
          answers_writeUser h₁.run.sound (Request.returns_perform?.1 h₁.returns).2
        obtain ⟨_, _, hle₂, rfl, -⟩ :=
          answers_writeUser h₂.run.sound (Request.returns_perform?.1 h₂.returns).2
        funext a
        rw [Flat.lay_eq_getD _ _ _ _ hle₁, Flat.lay_eq_getD _ _ _ _ hle₂, hflat]
        exact congrArg (Option.getD · (flat₂ s a)) (hstored a)
      · exact Flat.lay_congr hflat fun _ _ => rfl
  | loadSegment file offset va readBytes zeroBytes writable =>
      rcases answer with cause | ⟨⟩
      · exact hflat
      · have hfile : before₁.view.file file.file = before₂.view.file file.file :=
          (h₁.file_of_loads rfl rfl).trans (h₂.file_of_loads rfl rfl).symm
        simp only [Flat.after]
        refine Flat.lay_congr hflat fun i _ => ?_
        rw [fileByte, fileByte, hfile]
  | mapFile va length writable file offset =>
      cases answer with
      | ok => exact Flat.layFile_congr hflat (hlength _) (hmapped ⟨va, length, offset, rfl, rfl, rfl, rfl⟩)
      | error cause => exact hflat
  | mapDescriptor va length writable descriptor offset lookup =>
      cases answer with
      | ok =>
          simp only [Flat.after]
          cases hfile : (mappableDescriptor? descriptor).bind lookup with
          | some file =>
              exact Flat.layFile_congr hflat (hlength _)
                (hmapped ⟨va, length, offset, ⟨file, hfile, rfl⟩, rfl, rfl, rfl⟩)
          | none => exact hflat
      | error cause => exact hflat
  | unmapFile va =>
      cases answer
      simp only [Flat.after]
      cases hregion₁ : before₁.view.regionOf s va with
      | some region₁ =>
          obtain ⟨region₂, hregion₂, hstart, hpages⟩ :=
            h.exists_region h₁.run.regionsPlaced h₂.run.regionsPlaced hregion₁
          rw [hregion₂]
          simp only [hstart, hpages]
          exact Flat.lay_congr hflat fun _ _ => rfl
      | none =>
          have hnone := h.regions va
          rw [hregion₁, Option.map_none] at hnone
          rw [Option.map_eq_none_iff.1 hnone.symm]
          exact hflat
  | fork name => exact absurd trivial ((h₁.secluded.unforked _ h₁.now).1 rfl)
  | exit | drop => simp only [Flat.after, Function.update_self]
  | _ => exact hflat

end

end DemandPaging
