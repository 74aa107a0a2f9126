import DemandPaging.Proofs.Run
import DemandPaging.Proofs.Space.Places

/-!
How far the stack grows.

The stack grows one page at a time, for a fault or in the course of an access, and the page that it
gets is the one that the address lies in. An address is let through up to and including the top of the
stack, so besides the pages below the top there is one more that may be created: the page that begins
at the top. Only an access to the very byte at the top creates it.
-/

namespace DemandPaging

open Machine Space

/-- The page is one by which the stack may grow: one below the top, or the one that begins there. -/
def InStack (n : PageNumber) : Prop :=
  stackLimit ≤ n.toNat * pageSize ∧ n.toNat * pageSize ≤ userStack

def Request.Touches (a : Nat) {α : Type} : Request α → Prop
  | .handleFault fault => fault.address.toNat = a
  | .readUser va length => va.toNat ≤ a ∧ a < va.toNat + length
  | .writeUser va data => va.toNat ≤ a ∧ a < va.toNat + data.size
  | _ => False

/-- The stack grew by a page: a fault or an access put it where there was none. -/
structure Done.Grew (d : Done) (n : PageNumber) : Prop where
  touched : ∃ a, d.request.Touches a
  free : d.before.view.pageOf d.space n = none
  placed : d.after.view.pageOf d.space n ≠ none

variable {start m m' : Machine} {history : List Done} {d : Done} {n : PageNumber} {α : Type}
  {request : Request α} {space : AddressSpace}

/-! ### One request -/

theorem inStack_of_isStackAccess {a : VirtualAddress} {stackPointer : Nat}
    (h : isStackAccess a stackPointer = true) :
    InStack a.number ∧ (a.number.toNat * pageSize = userStack → a.toNat = userStack) := by
  simp only [isStackAccess, decide_eq_true_eq, InStack, Address.toNat_number, stackLimit, userStack,
    maxStackSize, pageSize] at *
  omega

theorem IsFirstInPage.touches {va a : VirtualAddress} {length : Nat} (h : IsFirstInPage va length a) :
    va.toNat ≤ a.toNat ∧ a.toNat < va.toNat + length := by
  obtain ⟨rfl | ⟨hlt, -⟩, hend⟩ := h
  · exact ⟨Nat.le_refl _, hend⟩
  · exact ⟨hlt.le, hend⟩

/-- A page that a fault or an access creates is one of the stack, and the page at the top is created
for the byte at the top alone. -/
theorem Request.Fills.inStack (h : request.Fills space n) (htouched : ∃ a, request.Touches a) :
    InStack n ∧ (n.toNat * pageSize = userStack → request.Touches userStack) := by
  obtain ⟨_, htouched⟩ := htouched
  cases request with
  | handleFault fault =>
      obtain ⟨rfl, haccess⟩ := h
      exact inStack_of_isStackAccess haccess
  | readUser va length =>
      obtain ⟨a, hfirst, rfl, haccess⟩ := h
      obtain ⟨hstack, htop⟩ := inStack_of_isStackAccess haccess
      exact ⟨hstack, fun hn => htop hn ▸ hfirst.touches⟩
  | writeUser va data =>
      obtain ⟨a, hfirst, rfl, haccess⟩ := h
      obtain ⟨hstack, htop⟩ := inStack_of_isStackAccess haccess
      exact ⟨hstack, fun hn => htop hn ▸ hfirst.touches⟩
  | _ => exact htouched.elim

theorem Done.Grew.inStack (h : d.Grew n) (hsound : Sound none d.before)
    (hrun : Returns (d.request.perform? d.space) d.before (some d.answer) d.after) :
    InStack n ∧ (n.toNat * pageSize = userStack → d.request.Touches userStack) := by
  obtain ⟨⟨space, hspace⟩, hrun⟩ := Request.returns_perform?.1 hrun
  rcases Request.places hsound hspace hrun h.placed with hplace | hplaces
  · exact absurd h.free hplace
  · cases hplaces with
    | filled _ _ hfills => exact hfills.inStack h.touched
    | copied _ _ hplace => exact absurd h.free hplace

/-! ### A run -/

theorem Reaches.of_mem (h : Reaches m history m') (hsound : Sound none m) (hd : d ∈ history) :
    Sound none d.before ∧
      Returns (d.request.perform? d.space) d.before (some d.answer) d.after := by
  induction h with
  | refl => cases hd
  | create _ _ ih => exact ih hd
  | clients _ _ ih => exact ih hd
  | request hreaches hrun ih =>
      rcases List.mem_cons.1 hd with rfl | hd
      · exact ⟨hreaches.sound hsound, hrun⟩
      · exact ih hd

/-- In a run the stack grows by pages between its lower limit and its top, and by the page at its top
only for an access to the byte there. -/
theorem Run.inStack_of_grew (h : Run start history m) (hd : d ∈ history) (hgrew : d.Grew n) :
    InStack n ∧ (n.toNat * pageSize = userStack → d.request.Touches userStack) := by
  obtain ⟨hsound, hrun⟩ := h.reaches.of_mem h.fresh.sound hd
  exact hgrew.inStack hsound hrun

/-- There is one page more than the largest size of the stack makes room for. -/
theorem encard_inStack_le : {n | InStack n}.encard ≤ (maxStackSize / pageSize + 1 : Nat) := by
  have hinjective : Set.InjOn (fun n : PageNumber => n.toNat) {n | InStack n} :=
    fun _ _ _ _ h => Number.ext h
  refine (Set.encard_le_encard_of_injOn (t := ((Finset.Icc (stackLimit / pageSize)
    (userStack / pageSize) : Finset Nat) : Set Nat)) (fun n hn => ?_) hinjective).trans ?_
  · obtain ⟨hle, hlt⟩ := hn
    simp only [Finset.coe_Icc, Set.mem_Icc, stackLimit, userStack, maxStackSize, pageSize] at *
    omega
  · rw [Set.encard_coe_eq_coe_finsetCard, Nat.card_Icc]
    exact le_refl _

/-- In a run the stack of an address space never grows by more than those pages. -/
theorem Run.encard_grew_le (h : Run start history m) (s : Id) :
    {n | ∃ d ∈ history, d.space = s ∧ d.Grew n}.encard ≤ (maxStackSize / pageSize + 1 : Nat) := by
  have hsub : {n | ∃ d ∈ history, d.space = s ∧ d.Grew n} ⊆ {n | InStack n} := by
    rintro n ⟨d, hd, -, hgrew⟩
    exact (h.inStack_of_grew hd hgrew).1
  exact (Set.encard_le_encard hsub).trans encard_inStack_le

/-- A fault at the very top, with the stack pointer there, creates the page above it. -/
theorem grew_atTop : ∃ history m d, Run (bare 2 0 .empty) history m ∧ d ∈ history ∧
    d.Grew ⟨userStack / pageSize⟩ := by
  have htest : returnsWith (do
        let s ← Space.create "init"
        let before ← get
        let answer ← (Request.handleFault ⟨⟨userStack, by decide⟩, true, true, true,
          userStack⟩).perform? s
        return (s, before, answer)) (bare 2 0 .empty)
      (fun (s, before, answer) after => answer.isSome &&
        (before.view.pageOf s ⟨userStack / pageSize⟩ == none &&
          (after.view.pageOf s ⟨userStack / pageSize⟩).isSome)) = true := by
    decide +kernel
  obtain ⟨⟨s, before, answer⟩, m, hrun, htest⟩ := exists_returns htest
  simp only [returns_bind, returns_pure] at hrun
  obtain ⟨_, m₁, hcreate, _, _, hget, answer, _, hfault, he, rfl⟩ := hrun
  obtain ⟨rfl, rfl⟩ := returns_get.1 hget
  cases he
  simp only [Bool.and_eq_true, beq_iff_eq, Option.isSome_iff_ne_none] at htest
  obtain ⟨hanswer, hfree, hplaced⟩ := htest
  obtain ⟨answer, rfl⟩ := Option.ne_none_iff_exists'.1 hanswer
  exact ⟨_, m, _, ⟨fresh_bare 2 0 .empty, (Reaches.refl.create hcreate).request hfault⟩,
    List.mem_cons_self .., ⟨userStack, rfl⟩, hfree, hplaced⟩

end DemandPaging
