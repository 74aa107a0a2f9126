import DemandPaging.Proofs.AnonymousMemory
import DemandPaging.Proofs.Availability
import DemandPaging.Proofs.MappedFile

/-!
One byte of a page.

A page may be backed by a slice of a file, for good or until its segment was read. As long as that
file has the same bytes at every step, it does not matter whether a byte of the page is asked for
while the page is in a frame, while it is in its slot or before it was ever touched: the byte is the
one that memory has. For a page over a mapped file this asks that nothing was stored into the byte,
since what is stored may not have reached the file; an anonymous page takes what is stored with it
wherever it goes.

All this is said for one byte, so that stores next to it do not matter.
-/

namespace DemandPaging

open Machine Space

/-! ### Stores that reach a byte -/

def Effect.Hits (key : Key Page) (i : Nat) : Effect → Prop
  | .stored target offset data => target = key ∧ offset ≤ i ∧ i < offset + data.size
  | _ => False

section

variable {memory : Memory} {effect : Effect} {effects : List Effect} {key : Key Page} {i : Nat}

theorem Memory.getElem?_apply_of_unhit (hhits : ¬effect.Hits key i)
    (hsets : effect.Sets key → ∃ offset data, effect = .stored key offset data) :
    (memory.apply effect key)[i]? = (memory key)[i]? := by
  by_cases hset : effect.Sets key
  · obtain ⟨offset, data, rfl⟩ := hsets hset
    rw [show memory.apply (.stored key offset data) key = (memory key).overlay offset data from
      Function.update_self _ _ _]
    by_cases hi : i < pageSize
    · have hout : offset ≤ i → data.size ≤ i - offset := fun hle =>
        Nat.le_sub_of_add_le' (Nat.not_lt.1 fun hlt => hhits ⟨rfl, hle, hlt⟩)
      rw [Vector.getElem?_eq_getElem hi, Vector.getElem?_eq_getElem hi, Bytes.getElem_overlay]
      split
      · next hle => rw [Array.getElem?_eq_none (hout hle), Option.getD_none]
      · rfl
    · rw [Vector.getElem?_eq_none (Nat.not_lt.1 hi), Vector.getElem?_eq_none (Nat.not_lt.1 hi)]
  · rw [Memory.apply_of_unset hset]

/-- Only a store that reaches a byte of a page that is there changes it. -/
theorem Memory.getElem?_after_of_unhit (hhits : ∀ e ∈ effects, ¬e.Hits key i)
    (hsets : ∀ e ∈ effects, e.Sets key → ∃ offset data, e = .stored key offset data) :
    (memory.after effects key)[i]? = (memory key)[i]? := by
  induction effects generalizing memory with
  | nil => rfl
  | cons effect effects ih =>
      rw [Memory.after_cons, ih (fun e he => hhits e (List.mem_cons_of_mem _ he))
        fun e he => hsets e (List.mem_cons_of_mem _ he)]
      exact getElem?_apply_of_unhit (hhits effect List.mem_cons_self) (hsets effect List.mem_cons_self)

end

section

variable {m m' : Machine} {s s' : Key AddressSpace} {n : PageNumber} {key : Key Page} {i a : Nat}
  {data : Array UInt8} {effects : List Effect} {e : Effect}

/-- A store that reaches a byte of a page is one that reaches its address. -/
theorem Space.Stored.hits (h : Stored s a data effects m m') (hsound : Sound none m)
    (hplace : m.view.pageOf s' n = some key) (he : e ∈ effects) (hits : e.Hits key i) :
    s = s' ∧ a ≤ n.toNat * pageSize + i ∧ n.toNat * pageSize + i < a + data.size := by
  induction h with
  | passed hpassed =>
      cases hpassed.passing e he with
      | _ => cases hits
  | @store n₁ offset key₁ data more effects rest m m₁ m₂ m' hpassed hplace₁ _ _ hspaces hcourse _ ih =>
      obtain ⟨page, hpage, -⟩ := hsound.coherent.placement.placed hplace
      have hkept := (hpassed.page_kept hsound hpage).2 s' n hplace
      have hsound₁ := hpassed.sound hsound
      rcases List.mem_append.1 he with he | he
      · cases hpassed.passing e he with
        | _ => cases hits
      rcases List.mem_cons.1 he with rfl | he
      · obtain ⟨rfl, hle, hlt⟩ : key₁ = key ∧ offset ≤ i ∧ i < offset + data.size := hits
        obtain rfl := hsound₁.coherent.placement.alone hkept hplace₁
        obtain ⟨page₁, hpage₁, hnumber⟩ := hsound₁.coherent.placement.placed hkept
        obtain rfl := hnumber.symm.trans (hsound₁.coherent.placement.number_eq hplace₁ hpage₁)
        rw [Array.size_append, Nat.add_assoc]
        exact ⟨rfl, Nat.add_le_add_left hle _, Nat.add_lt_add_left (by omega) _⟩
      · rw [← view_pageOf_congr hspaces] at hkept
        obtain ⟨hs, hle, hlt⟩ := ih (hcourse.sound hsound₁) hkept he
        rw [Array.size_append, ← Nat.add_assoc]
        exact ⟨hs, Nat.le_of_add_right_le hle, hlt⟩

variable {α : Type} {request : Request α} {answer : α}

/-- Only a request that stores a byte at the address of a byte of a page reaches it. -/
theorem Outcome.stores_of_hits (h : Outcome s m m' request answer effects) (hsound : Sound none m)
    (hplace : m.view.pageOf s' n = some key) (he : e ∈ effects) (hits : e.Hits key i) :
    s = s' ∧ request.stores? s' m (n.toNat * pageSize + i) answer ≠ none := by
  cases h.labels he with
  | @stored _ _ _ hwrites =>
      cases h with
      | @stored va data answer _ length hlength hle hok hstored =>
          obtain ⟨rfl, hlow, hhigh⟩ := hstored.hits hsound hplace he hits
          rw [Array.size_extract, Nat.sub_zero, Nat.min_eq_left hle] at hhigh
          rw [Request.stores?_writeUser hlength hok, if_pos ⟨hlow, hhigh⟩,
            Array.getElem?_eq_getElem (by omega)]
          exact ⟨rfl, Option.some_ne_none _⟩
      | passed hquiet =>
          cases request with
          | writeUser => cases hquiet
          | _ => cases hwrites
      | _ => cases hwrites
  | _ => cases hits

/-- A request that stores nothing at the address of a byte of a page leaves it as it was in memory. -/
theorem Outcome.getElem?_after_of_unstored (h : Outcome s m m' request answer effects)
    (hsound : Sound none m) (hplace : m.view.pageOf s' n = some key)
    (hstored : s = s' → request.stores? s' m (n.toNat * pageSize + i) answer = none)
    (memory : Memory) : (memory.after effects key)[i]? = (memory key)[i]? := by
  obtain ⟨page, hpage, -⟩ := hsound.coherent.placement.placed hplace
  have hold := hsound.coherent.placement.created hpage
  refine Memory.getElem?_after_of_unhit (fun e he hits => ?_) fun e he hsets => ?_
  · obtain ⟨hs, hnot⟩ := h.stores_of_hits hsound hplace he hits
    exact hnot (hstored hs)
  · cases h.labels he with
    | added hnew =>
        cases hsets
        exact absurd hold (Nat.not_lt.2 hnew)
    | copied _ _ hnew =>
        cases hsets
        exact absurd hold (Nat.not_lt.2 hnew)
    | stored =>
        cases hsets
        exact ⟨_, _, rfl⟩
    | _ => cases hsets

end

/-! ### Held bytes -/

/-- A byte of a page is the one in memory, wherever the page is. As long as the page is backed by a
slice, it is by the given one, which shows the byte as well. -/
structure Held (own : FileSlice) (memory : Memory) (key : Key Page) (i : Nat) (v : View) : Prop where
  page : ∃ page, v.page key = some page ∧ page.contents.loads = true ∧
    (v.bytesOf page)[i]? = (memory key)[i]? ∧ ∀ slice, page.contents.slice? = some slice →
      slice = own ∧ (v.shown own)[i]? = (memory key)[i]?

section

variable {own : FileSlice} {memory : Memory} {key : Key Page} {i : Nat} {v v' : View}
  {effects : List Effect} {x x' : Option FrameNumber} {kept : SwapSlot → Bool}

theorem Bytes.getElem?_overlay_congr {n i : Nat} {bytes bytes' : Bytes n} (offset : Nat)
    (data : Array UInt8) (h : bytes[i]? = bytes'[i]?) :
    (bytes.overlay offset data)[i]? = (bytes'.overlay offset data)[i]? := by
  by_cases hi : i < n
  · rw [Vector.getElem?_eq_getElem hi, Vector.getElem?_eq_getElem hi, Option.some.injEq] at h ⊢
    rw [getElem_overlay, getElem_overlay, h]
  · rw [Vector.getElem?_eq_none (Nat.not_lt.1 hi), Vector.getElem?_eq_none (Nat.not_lt.1 hi)]

/-- An anonymous page that is in a frame is backed by no slice. -/
theorem Coherent.slice?_ne_some {x : Option FrameNumber} {v : View} {key : Key Page} {page : Page}
    {f : FrameNumber} {slice : FileSlice} (h : Coherent x v) (hpage : v.page key = some page)
    (hframe : page.frame = some f) (hkind : page.contents.settled.kind = .anonymous) :
    page.contents.slice? ≠ some slice := by
  intro hslice
  have hfits := h.fits hpage
  rw [Contents.eq_pending_of_segment? (Contents.segment?_of_anonymous hkind hslice)] at hfits
  simp [Contents.Fits, Page.isResident, hframe] at hfits

/-- No step changes the byte, as long as the slice shows what it did and only an anonymous page has
anything stored into the byte. -/
theorem Step.held (h : Step effects x v x' v') (hcoherent : Coherent x v)
    (hbooks : SlotBooks kept v.isOccupied v.slotOf) (hshown : v'.shown own = v.shown own)
    (hremoved : .removed key ∉ effects)
    (hspared : ∀ e ∈ effects, e.Hits key i → ∃ page, v.page key = some page ∧
      page.contents.settled.kind = .anonymous)
    (hheld : Held own memory key i v) : Held own (memory.after effects) key i v' := by
  obtain ⟨page, hpage, hloads, hbyte, hslice⟩ := hheld.page
  cases h.fate hcoherent key with
  | absent hnone => cases hpage.symm.trans hnone
  | kept hold hnew hunset hbytes =>
      cases hpage.symm.trans hold
      refine ⟨page, hnew, hloads, ?_, fun slice hs => ?_⟩ <;> rw [Memory.after_of_unset hunset]
      · rw [← hbyte]
        cases hframe : page.frame with
        | some f => simp only [View.bytesOf, hframe, hbytes f hframe]
        | none =>
            rw [View.bytesOf_of_absent hframe, View.bytesOf_of_absent hframe]
            congr 1
            refine View.contentsBytes_eq (fun slice hs => ?_) fun slot hslot =>
              h.pageIn_of_occupied (hbooks.occupied_of_page hpage hslot)
            rw [(hslice slice hs).1, hshown]
      · rw [hshown]
        exact hslice slice hs
  | @stored _ f bytes offset data hold hnew hframe hbytes hbytes' =>
      cases hpage.symm.trans hold
      rw [View.bytesOf_of_frame hframe hbytes] at hbyte
      have hafter : memory.after [.stored key offset data] key = (memory key).overlay offset data :=
        Function.update_self _ _ _
      refine ⟨page, hnew, hloads, ?_, fun slice hs => ?_⟩
      · rw [View.bytesOf_of_frame hframe hbytes', hafter]
        exact Bytes.getElem?_overlay_congr offset data hbyte
      · obtain ⟨rfl, hsame⟩ := hslice slice hs
        refine ⟨rfl, ?_⟩
        rw [hshown, hsame]
        refine (Memory.getElem?_after_of_unhit (fun e he hits => ?_) fun e he _ => ?_).symm
        · obtain ⟨_, hagain, hkind⟩ := hspared e he hits
          cases hpage.symm.trans hagain
          exact hcoherent.slice?_ne_some hpage hframe hkind hs
        · exact ⟨_, _, List.mem_singleton.1 he⟩
  | @evicted _ _ f bytes dirty contents hold hframe hbytes hdirty hstowed hnew hpageIn hfile' =>
      cases hpage.symm.trans hold
      rw [View.bytesOf_of_frame hframe hbytes] at hbyte
      refine ⟨_, hnew, ?_⟩
      generalize page.contents = before at hstowed hslice hloads
      cases hstowed with
      | slot hfree =>
          refine ⟨rfl, ?_, fun slice hs => by cases hs⟩
          rw [View.bytesOf_of_absent rfl, View.contentsBytes, hpageIn]
          exact (congrArg (·[i]?) (Function.update_self _ _ _)).trans hbyte
      | @file slice _ _ hback =>
          obtain ⟨rfl, hsame⟩ := hslice slice rfl
          refine ⟨rfl, ?_, fun other hs => ?_⟩
          · rw [View.bytesOf_of_absent rfl, View.contentsBytes, hshown]
            exact hsame
          · cases hs
            exact ⟨rfl, by rw [hshown]; exact hsame⟩
  | @broughtIn _ f hold hframe hnew hbytes' =>
      cases hpage.symm.trans hold
      refine ⟨_, hnew, ?_, ?_, fun slice hs => ?_⟩
      · cases hcontents : page.contents with
        | pending source => cases source <;> rfl
        | anonymous slot => rfl
        | file slice => rfl
      · rw [View.bytesOf_of_frame rfl hbytes', ← View.bytesOf_of_absent hframe]
        exact hbyte
      · rw [hshown]
        exact hslice slice (Contents.slice?_of_settled hs)
  | added _ hnone => cases hpage.symm.trans hnone
  | copied _ hnone => cases hpage.symm.trans hnone
  | removedAbsent => exact absurd (List.mem_singleton_self _) hremoved
  | removedPresent => exact absurd (List.mem_singleton_self _) hremoved

theorem Steps.held (h : Steps effects x v x' v') (hcoherent : Coherent x v)
    (hbooks : SlotBooks kept v.isOccupied v.slotOf)
    (hshown : ∀ {front back : List Effect} {x₁ : Option FrameNumber} {v₁ : View},
      effects = front ++ back → Steps front x v x₁ v₁ → Steps back x₁ v₁ x' v' →
        v₁.shown own = v.shown own)
    (hremoved : .removed key ∉ effects)
    (hspared : ∀ e ∈ effects, e.Hits key i → ∃ page, v.page key = some page ∧
      page.contents.settled.kind = .anonymous)
    (hheld : Held own memory key i v) : Held own (memory.after effects) key i v' := by
  induction h generalizing memory with
  | nil => exact hheld
  | @cons effects rest x x₁ x' v v₁ v' head tail ih =>
      rw [List.mem_append, not_or] at hremoved
      have hfirst : v₁.shown own = v.shown own := hshown rfl (.single head) tail
      have hheld₁ := head.held hcoherent hbooks hfirst hremoved.1
        (fun e he => hspared e (List.mem_append_left _ he)) hheld
      rw [Memory.after_append]
      refine ih (head.coherent hcoherent) (head.slotBooks hcoherent hbooks)
        (fun hsplit hfront hback => ?_) hremoved.2 (fun e he hits => ?_) hheld₁
      · rw [hfirst]
        exact hshown (by rw [hsplit, List.append_assoc]) (.cons head hfront) hback
      obtain ⟨page, hpage, hkind⟩ := hspared e (List.mem_append_right _ he) hits
      obtain ⟨page₁, hpage₁, -⟩ := hheld₁.page
      exact ⟨page₁, hpage₁, (head.kindKept hcoherent hpage hpage₁).settled.trans hkind⟩

end

/-! ### Requests and runs -/

section

variable {α : Type} {request : Request α} {answer : α} {m m₁ m' : Machine} {s s' : Key AddressSpace}
  {n : PageNumber} {own : FileSlice} {memory : Memory} {key : Key Page} {page : Page} {i : Nat}
  {effects : List Effect} {kept : SwapSlot → Bool} {history : List Done} {a : VirtualAddress}

theorem Outcome.passed_of_quiet (h : Outcome s m m' request answer effects)
    (hquiet : request.IsQuiet answer) : Passed s effects m m' := by
  cases h with
  | passed _ h => exact h
  | loaded => exact absurd rfl hquiet
  | mapped => exact absurd rfl (hquiet _)
  | descriptorMapped => exact absurd rfl (hquiet _)
  | _ => exact hquiet.elim

/-- At every step that a request may have taken, a file has the contents that it had before. -/
def Request.LeavesFile (request : Request α) (answer : α) (f : Key File) (s : Key AddressSpace)
    (m m' : Machine) : Prop :=
  ∀ {front back : List Effect} {x : Option FrameNumber} {v : View},
    Outcome s m m' request answer (front ++ back) → Steps front none m.view x v →
      Steps back x v none m'.view → (v.file f).map (·.data) = (m.view.file f).map (·.data)

theorem Request.leavesFile_of_file_eq {f : Key File} (hfile : m'.view.file f = m.view.file f) :
    request.LeavesFile answer f s m m' := by
  intro front back x v _ hfront hback
  rw [hfront.filesSince.file_eq_between hback.filesSince hfile]

theorem Outcome.held (h : Outcome s m m' request answer effects) (hsound : Sound none m)
    (hbooks : SlotBooks kept m.view.isOccupied m.view.slotOf)
    (hplace : m.view.pageOf s' n = some key) (htakes : s' = s → ¬request.Takes s m n)
    (hleaves : request.LeavesFile answer own.handle.file s m m')
    (hspared : (s = s' → request.stores? s' m (n.toNat * pageSize + i) answer = none) ∨
      ∃ page, m.view.page key = some page ∧ page.contents.settled.kind = .anonymous)
    (hheld : Held own memory key i m.view) : Held own (memory.after effects) key i m'.view := by
  refine h.course.steps.held hsound.coherent hbooks (fun hsplit hfront hback => ?_)
    (h.not_removed hsound hplace htakes) (fun e he hits => ?_) hheld
  · exact View.shown_of_data (hleaves (hsplit ▸ h) hfront hback)
  refine hspared.resolve_left fun hnot => ?_
  obtain ⟨hs, hsome⟩ := h.stores_of_hits hsound hplace he hits
  exact hsome (hnot hs)

theorem Address.number_mul_add_pageOffset (a : VirtualAddress) :
    a.number.toNat * pageSize + a.pageOffset = a.toNat := Nat.div_add_mod' _ _

/-- Nothing was stored at an address, and its page was left where it is. -/
structure Unstored (history : List Done) (s : Key AddressSpace) (a : VirtualAddress) : Prop where
  stored : lastStored history s a.toNat = none
  kept : ∀ d ∈ history, d.space = s → ¬d.request.Takes s d.before a.number

theorem Unstored.of_quiet (h : ∀ d ∈ history, ¬d.request.Writes ∧ ∀ start, ¬d.request.Ends start) :
    Unstored history s a where
  stored := by
    refine List.findSome?_eq_none_iff.2 fun d hd => ?_
    rw [Done.stores?, Request.stores?_of_not_writes (h d hd).1, ite_self]
  kept d hd _ := fun ⟨start, hends, _⟩ => (h d hd).2 start hends

theorem Unstored.tail {d : Done} (h : Unstored (d :: history) s a) : Unstored history s a where
  stored := by
    have hstored := h.stored
    rw [lastStored_cons, Option.or_eq_none_iff] at hstored
    exact hstored.2
  kept d hd := h.kept d (List.mem_cons_of_mem _ hd)

theorem Unstored.head {d : Done} (h : Unstored (d :: history) s a) :
    (d.space = s → d.request.stores? s d.before (a.number.toNat * pageSize + a.pageOffset) d.answer =
      none) ∧ (s = d.space → ¬d.request.Takes d.space d.before a.number) := by
  have hstored := h.stored
  rw [Address.number_mul_add_pageOffset]
  rw [lastStored_cons, Option.or_eq_none_iff, Done.stores?] at hstored
  exact ⟨fun hs => by rw [← hstored.1, if_pos hs], fun hs => by
    have hkept := h.kept d List.mem_cons_self hs.symm
    rwa [hs] at hkept⟩

def LeavesFile (f : Key File) (history : List Done) : Prop :=
  ∀ d ∈ history, d.request.LeavesFile d.answer f d.space d.before d.after

theorem Reaches.leavesFile_of_file_eq {f : Key File} (h : Reaches m₁ history m)
    (hsound : Sound none m₁) (hfile : m.view.file f = m₁.view.file f) : LeavesFile f history := by
  induction h with
  | refl => exact List.forall_mem_nil _
  | create hreaches hrun ih =>
      obtain ⟨effects, hcourse⟩ := hreaches.course hsound
      have hsteps := (returns_create (hcourse.sound hsound) hrun).course.steps
      exact ih (hcourse.steps.filesSince.file_eq_between hsteps.filesSince hfile)
  | clients _ _ ih => exact ih hfile
  | request hreaches hrun ih =>
      obtain ⟨effects, hcourse⟩ := hreaches.course hsound
      obtain ⟨rest, houtcome⟩ :=
        Request.exists_outcome (hcourse.sound hsound) (Request.returns_perform?.1 hrun).2
      have hbetween :=
        hcourse.steps.filesSince.file_eq_between houtcome.course.steps.filesSince hfile
      exact List.forall_mem_cons.2
        ⟨Request.leavesFile_of_file_eq (hfile.trans hbetween.symm), ih hbetween⟩

theorem Reaches.held (h : Reaches m₁ history m) (hsound : Sound none m₁)
    (hbooks : SlotBooks kept m₁.view.isOccupied m₁.view.slotOf)
    (hplace : m₁.view.pageOf s a.number = some key)
    (hleaves : LeavesFile own.handle.file history) (hunstored : Unstored history s a)
    (hheld : Held own memory key a.pageOffset m₁.view) :
    m.view.pageOf s a.number = some key ∧ ∃ memory', Held own memory' key a.pageOffset m.view ∧
      (memory' key)[a.pageOffset]? = (memory key)[a.pageOffset]? := by
  induction h with
  | refl => exact ⟨hplace, memory, hheld, rfl⟩
  | @create _ m₁ m₂ _ _ hreaches hrun ih =>
      obtain ⟨effects, hcourse⟩ := hreaches.course hsound
      have hcreated := returns_create (hcourse.sound hsound) hrun
      have hfile : m₂.view.file = m₁.view.file := by simp only [view, hcreated.files]
      obtain ⟨hplace', memory', hheld', hsame⟩ := ih hleaves hunstored
      refine ⟨by rwa [hcreated.pageOf], memory', ?_, hsame⟩
      refine hcreated.course.steps.held (hcourse.sound hsound).coherent
        (hcourse.steps.slotBooks hsound.coherent hbooks) (fun _ hfront hback => ?_)
        (fun he => by cases List.mem_singleton.1 he)
        (fun e he hits => by cases List.mem_singleton.1 he; cases hits) hheld'
      exact View.shown_congr rfl rfl
        (hfront.filesSince.file_eq_between hback.filesSince (congrFun hfile _))
  | clients _ _ ih => exact ih hleaves hunstored
  | request hreaches hrun ih =>
      obtain ⟨effects, hcourse⟩ := hreaches.course hsound
      have hsound' := hcourse.sound hsound
      obtain ⟨rest, houtcome⟩ := Request.exists_outcome hsound' (Request.returns_perform?.1 hrun).2
      obtain ⟨hplace', memory', hheld', hsame⟩ :=
        ih (fun d hd => hleaves d (List.mem_cons_of_mem _ hd)) hunstored.tail
      obtain ⟨hstored, htakes⟩ := hunstored.head
      refine ⟨(houtcome.pageOf_kept hsound' hplace').resolve_right fun hand => htakes hand.1 hand.2,
        memory'.after rest, ?_, ?_⟩
      · exact houtcome.held hsound' (hcourse.steps.slotBooks hsound.coherent hbooks) hplace' htakes
          (hleaves _ List.mem_cons_self) (.inl hstored) hheld'
      · rw [houtcome.getElem?_after_of_unstored hsound' hplace' hstored, hsame]

/-! ### Pages that lack bytes -/

theorem Space.Stored.page_lacking {start : Nat} {data : Array UInt8} (h : Stored s start data effects m m')
    (hsound : Sound none m) (hpage : m.view.page key = some page) (hlacks : m.view.Lacks page) :
    m'.view.page key = some page := by
  induction h with
  | passed hpassed => exact hpassed.lacking hpage hlacks
  | store hpassed _ _ _ _ hcourse _ ih =>
      have hsound₁ := hpassed.sound hsound
      have hpage₁ := hpassed.lacking hpage hlacks
      have hlacks₁ := hlacks.of_since hpassed.course.steps.filesSince
      exact ih (hcourse.sound hsound₁)
        (hcourse.steps.page_absent hsound₁.coherent hpage₁ hlacks.1
          (fun he => by cases List.mem_singleton.1 he) fun he => by cases List.mem_singleton.1 he)
        (hlacks₁.of_since hcourse.steps.filesSince)

theorem Outcome.passes_or_stores (h : Outcome s m m' request answer effects)
    (he : .broughtIn key ∈ effects) :
    Passed s effects m m' ∨ ∃ a data, Stored s a data effects m m' := by
  cases h with
  | passed _ h => exact .inl h
  | stored _ _ _ h => exact .inr ⟨_, _, h⟩
  | loaded h =>
      obtain ⟨_, _, _, _, _, _, _, hinserted⟩ := h.made
      obtain ⟨_, _, _, hlabel, -⟩ := hinserted.labels _ he
      cases hlabel
  | mapped h | descriptorMapped _ h =>
      obtain ⟨_, _, _, _, _, -, -, -, hinserted, rfl, -⟩ := h.made
      rcases List.mem_append.1 he with he | he
      · obtain ⟨_, _, _, hlabel, -⟩ := hinserted.labels _ he
        cases hlabel
      · cases List.mem_singleton.1 he
  | unmapped _ h => rcases h.labels _ he with hlabel | ⟨_, _, _, hlabel, -⟩ <;> cases hlabel
  | nothingUnmapped => cases he
  | exited h | dropped h =>
      rcases h.labels _ he with ⟨_, hlabel⟩ | ⟨_, _, _, hlabel⟩ | hlabel <;> cases hlabel
  | forked h =>
      rcases h.labels _ he with hlabel | ⟨_, hlabel⟩ | ⟨_, _, _, _, hlabel, -⟩ <;> cases hlabel
  | forkFailed h =>
      rcases h.labels _ he with hlabel | ⟨_, hlabel⟩ | ⟨_, _, _, _, hlabel, -⟩ | ⟨_, hlabel, -⟩ | hlabel
        <;> cases hlabel

/-- A page whose file lacks bytes is not brought in by any request. -/
theorem Outcome.page_lacking (h : Outcome s m m' request answer effects) (hsound : Sound none m)
    (hpage : m.view.page key = some page) (hlacks : m.view.Lacks page)
    (hremoved : .removed key ∉ effects) : m'.view.page key = some page := by
  by_cases hbrought : .broughtIn key ∈ effects
  · rcases h.passes_or_stores hbrought with hpassed | ⟨a, data, hstored⟩
    · exact hpassed.lacking hpage hlacks
    · exact hstored.page_lacking hsound hpage hlacks
  · exact h.course.steps.page_absent hsound.coherent hpage hlacks.1 hbrought hremoved

/-- A page whose file lacks bytes stays as it is along a history that leaves it where it is. -/
theorem Reaches.page_lacking (h : Reaches m₁ history m) (hsound : Sound none m₁)
    (hplace : m₁.view.pageOf s a.number = some key) (hpage : m₁.view.page key = some page)
    (hlacks : m₁.view.Lacks page) (hunstored : Unstored history s a) :
    m.view.pageOf s a.number = some key ∧ m.view.page key = some page ∧ m.view.Lacks page := by
  induction h with
  | refl => exact ⟨hplace, hpage, hlacks⟩
  | create hreaches hrun ih =>
      obtain ⟨hplace', hpage', hlacks'⟩ := ih hunstored
      have hsound' := hreaches.sound hsound
      have hcreated := returns_create hsound' hrun
      have hsteps := hcreated.course.steps
      exact ⟨by rwa [hcreated.pageOf], hsteps.page_absent hsound'.coherent hpage' hlacks'.1
        (fun he => by cases List.mem_singleton.1 he) (fun he => by cases List.mem_singleton.1 he),
        hlacks'.of_since hsteps.filesSince⟩
  | clients _ _ ih => exact ih hunstored
  | request hreaches hrun ih =>
      obtain ⟨hplace', hpage', hlacks'⟩ := ih hunstored.tail
      have hsound' := hreaches.sound hsound
      obtain ⟨effects, houtcome⟩ := Request.exists_outcome hsound' (Request.returns_perform?.1 hrun).2
      have htakes := hunstored.head.2
      exact ⟨(houtcome.pageOf_kept hsound' hplace').resolve_right fun hand => htakes hand.1 hand.2,
        houtcome.page_lacking hsound' hpage' hlacks' (houtcome.not_removed hsound' hplace' htakes),
        hlacks'.of_since houtcome.course.steps.filesSince⟩

end

end DemandPaging
