import DemandPaging.Proofs.Coherence

/-!
What the labels of a chain tell.

A chain of steps changes the places of pages and the directories of address spaces only where its
labels say so: a page that was not removed is where it was, with its address and its rights, and one
that was not added was there before. New pages get new keys, so the number of pages there ever were
tells old pages from new ones.

The labels also say what processes should find in their memory. Kept by page and by offset, that is
a memory without frames, slots or files: adding a page sets its bytes, a store changes them, a copy
takes over those of its source, and everything else leaves them alone.
-/

namespace DemandPaging

/-! ### Memory without paging -/

abbrev Memory := Key Page → PageBytes

namespace Memory

def apply (memory : Memory) : Effect → Memory
  | .added key _ bytes => Function.update memory key bytes
  | .copied source copy => Function.update memory copy (memory source)
  | .stored key offset data =>
      Function.update memory key ((memory key).overlay offset data)
  | _ => memory

def after (memory : Memory) (effects : List Effect) : Memory := effects.foldl apply memory

@[simp] theorem after_nil (memory : Memory) : memory.after [] = memory := rfl

theorem after_cons (memory : Memory) (effect : Effect) (effects : List Effect) :
    memory.after (effect :: effects) = (memory.apply effect).after effects := rfl

theorem after_append (memory : Memory) (effects rest : List Effect) :
    memory.after (effects ++ rest) = (memory.after effects).after rest := List.foldl_append

def BlankFrom (memory : Memory) (created : Nat) : Prop :=
  ∀ key : Key Page, created ≤ key.index → memory key = .zeros pageSize

theorem BlankFrom.mono {memory : Memory} {created created' : Nat} (h : memory.BlankFrom created)
    (hle : created ≤ created') : memory.BlankFrom created' :=
  fun key hkey => h key (Nat.le_trans hle hkey)

end Memory

/-- The labels after which a page may have other bytes. -/
def Effect.Sets (key : Key Page) : Effect → Prop
  | .added new _ _ => new = key
  | .copied _ new => new = key
  | .stored target _ _ => target = key
  | _ => False

theorem Memory.apply_of_unset {memory : Memory} {effect : Effect} {key : Key Page}
    (h : ¬effect.Sets key) : memory.apply effect key = memory key := by
  cases effect with
  | added new _ _ => exact Function.update_of_ne (Ne.symm h) _ _
  | copied _ new => exact Function.update_of_ne (Ne.symm h) _ _
  | stored target _ _ => exact Function.update_of_ne (Ne.symm h) _ _
  | _ => rfl

theorem Memory.after_of_unset {memory : Memory} {effects : List Effect} {key : Key Page}
    (h : ∀ e ∈ effects, ¬Effect.Sets key e) : memory.after effects key = memory key := by
  induction effects generalizing memory with
  | nil => rfl
  | cons effect effects ih =>
      rw [after_cons, ih fun e he => h e (List.mem_cons_of_mem _ he),
        apply_of_unset (h effect List.mem_cons_self)]

/-! ### Passing effects -/

/-- The effects of an operation that at most touches memory: pages are brought in, and pages of
zeros may be added or, if they were added just before, removed again. -/
inductive Effect.Passing (created : Nat) : Effect → Prop where
  | broughtIn {key : Key Page} : Passing created (.broughtIn key)
  | added {key : Key Page} (hnew : created ≤ key.index) :
      Passing created (.added key .zeros (.zeros pageSize))
  | removed {key : Key Page} (hnew : created ≤ key.index) : Passing created (.removed key)

theorem Effect.Passing.mono {created created' : Nat} {effect : Effect}
    (h : effect.Passing created') (hle : created ≤ created') : effect.Passing created := by
  cases h with
  | broughtIn => exact .broughtIn
  | added hnew => exact .added (Nat.le_trans hle hnew)
  | removed hnew => exact .removed (Nat.le_trans hle hnew)

theorem Memory.after_of_passing {memory : Memory} {created : Nat} {effects : List Effect}
    (hblank : memory.BlankFrom created) (h : ∀ e ∈ effects, Effect.Passing created e) :
    memory.after effects = memory := by
  induction effects with
  | nil => rfl
  | cons effect effects ih =>
      have hsame : memory.apply effect = memory := by
        cases h effect List.mem_cons_self with
        | broughtIn => rfl
        | removed => rfl
        | @added key hnew =>
            rw [apply, ← hblank key hnew]
            exact Function.update_eq_self _ _
      rw [after_cons, hsame]
      exact ih fun e he => h e (List.mem_cons_of_mem _ he)

/-! ### Keys -/

section

variable {effects : List Effect} {x x' : Option FrameNumber} {v v' : View}

theorem Step.created_le (h : Step effects x v x' v') : v.created ≤ v'.created := by
  cases h with
  | evict _ _ _ hstowed =>
      obtain ⟨isOccupied, pageIn, file, rfl⟩ := hstowed.exists_eq
      exact Nat.le_refl _
  | removePresent _ _ _ _ hgiven =>
      obtain ⟨file, rfl⟩ := hgiven.exists_eq
      exact Nat.le_refl _
  | add => exact Nat.le_succ _
  | copyAside => exact Nat.le_succ _
  | copyIn => exact Nat.le_succ _
  | _ => exact Nat.le_refl _

theorem Steps.created_le (h : Steps effects x v x' v') : v.created ≤ v'.created := by
  induction h with
  | nil => exact Nat.le_refl _
  | cons head tail ih => exact Nat.le_trans head.created_le ih

theorem Step.blankFrom (h : Step effects x v x' v') (hcoherent : Coherent x v) {memory : Memory}
    (hblank : memory.BlankFrom v.created) : (memory.after effects).BlankFrom v'.created := by
  intro key hkey
  have hold := hblank key (Nat.le_trans h.created_le hkey)
  rw [Memory.after_of_unset, hold]
  intro e he hsets
  cases h with
  | add | copyAside | copyIn =>
      rw [List.mem_singleton] at he
      subst he
      cases hsets
      exact Nat.not_succ_le_self _ hkey
  | store howner hpage =>
      rw [List.mem_singleton] at he
      subst he
      cases hsets
      exact absurd (hcoherent.placement.created hpage) (Nat.not_lt.2 hkey)
  | scribble | take | giveBack | evict => cases he
  | bringIn | removeAbsent | removePresent | openSpace | closeSpace | register =>
      rw [List.mem_singleton] at he
      subst he
      cases hsets

theorem Steps.blankFrom (h : Steps effects x v x' v') (hcoherent : Coherent x v) {memory : Memory}
    (hblank : memory.BlankFrom v.created) : (memory.after effects).BlankFrom v'.created := by
  induction h generalizing memory with
  | nil => exact hblank
  | cons head tail ih =>
      rw [Memory.after_append]
      exact ih (head.coherent hcoherent) (head.blankFrom hcoherent hblank)

/-! ### Places -/

/-- A page that is not removed keeps its address, its rights and its place. -/
theorem Step.page_kept (h : Step effects x v x' v') (hcoherent : Coherent x v) {key : Key Page}
    {page : Page} (hpage : v.page key = some page) (hkept : .removed key ∉ effects) :
    (∃ page', v'.page key = some page' ∧ page'.va = page.va ∧ page'.writable = page.writable) ∧
      ∀ s n, v.pageOf s n = some key → v'.pageOf s n = some key := by
  have hsame : (∃ page', v.page key = some page' ∧ page'.va = page.va ∧
      page'.writable = page.writable) ∧ ∀ s n, v.pageOf s n = some key → v.pageOf s n = some key :=
    ⟨⟨page, hpage, rfl, rfl⟩, fun _ _ hplace => hplace⟩
  have hold : key ≠ ⟨v.created⟩ := by
    rintro rfl
    rw [hcoherent.page_created] at hpage
    cases hpage
  -- a page is put where no page was
  have hadded : ∀ {s n key'} {s' : Key AddressSpace} {n' : PageNumber}, v.pageOf s n = none →
      v.pageOf s' n' = some key →
      Function.update v.pageOf s (Function.update (v.pageOf s) n key') s' n' = some key := by
    intro s n key' s' n' hfree hplace
    by_cases hs : s' = s
    · subst hs
      have hn : n' ≠ n := by
        rintro rfl
        rw [hfree] at hplace
        cases hplace
      rw [Function.update_self, Function.update_of_ne hn, hplace]
    · rw [Function.update_of_ne hs, hplace]
  have hremoved : ∀ {s n other} {s' : Key AddressSpace} {n' : PageNumber}, other ≠ key →
      v.pageOf s n = some other → v.pageOf s' n' = some key →
      Function.update v.pageOf s (Function.update (v.pageOf s) n none) s' n' = some key := by
    intro s n other s' n' hne hother hplace
    by_cases hs : s' = s
    · subst hs
      have hn : n' ≠ n := by
        rintro rfl
        rw [hother] at hplace
        cases hplace
        exact hne rfl
      rw [Function.update_self, Function.update_of_ne hn, hplace]
    · rw [Function.update_of_ne hs, hplace]
  cases h with
  | scribble | take | giveBack | store | openSpace | register => exact hsame
  | @evict _ _ f o evicted bytes contents howner hevicted hbytes hstowed =>
      obtain ⟨isOccupied, pageIn, file, rfl⟩ := hstowed.exists_eq
      refine ⟨?_, fun s n hplace => hplace⟩
      by_cases hkey : key = o.page
      · subst hkey
        rw [hpage] at hevicted
        cases hevicted
        exact ⟨_, Function.update_self _ _ _, rfl, rfl⟩
      · exact ⟨page, (Function.update_of_ne hkey _ _).trans hpage, rfl, rfl⟩
  | @bringIn _ f brought page' s d pa hbrought hframe hplace hdirectory hstart hbytes =>
      refine ⟨?_, fun s n hplace => hplace⟩
      by_cases hkey : key = brought
      · subst hkey
        rw [hpage] at hbrought
        cases hbrought
        exact ⟨_, Function.update_self _ _ _, rfl, rfl⟩
      · exact ⟨page, (Function.update_of_ne hkey _ _).trans hpage, rfl, rfl⟩
  | add hdirectory hplace hcontents hframe hholders =>
      exact ⟨⟨page, (Function.update_of_ne hold _ _).trans hpage, rfl, rfl⟩,
        fun s n => hadded hplace⟩
  | copyAside hsource hframe hcopied hkind hdirectory hplace =>
      exact ⟨⟨page, (Function.update_of_ne hold _ _).trans hpage, rfl, rfl⟩,
        fun s n => hadded hplace⟩
  | copyIn hsource hcopied hkind hdirectory hplace hstart hbytes =>
      exact ⟨⟨page, (Function.update_of_ne hold _ _).trans hpage, rfl, rfl⟩,
        fun s n => hadded hplace⟩
  | @removeAbsent _ s other gone hplace hgone hframe =>
      have hkey : other ≠ key := fun he => hkept (by rw [he]; exact List.mem_singleton_self _)
      exact ⟨⟨page, (Function.update_of_ne hkey.symm _ _).trans hpage, rfl, rfl⟩,
        fun s' n' => hremoved hkey hplace⟩
  | @removePresent _ _ s f o gone bytes hplace howner hgone hbytes hgiven =>
      obtain ⟨file, rfl⟩ := hgiven.exists_eq
      have hkey : o.page ≠ key := fun he => hkept (by rw [he]; exact List.mem_singleton_self _)
      exact ⟨⟨page, (Function.update_of_ne hkey.symm _ _).trans hpage, rfl, rfl⟩,
        fun s' n' => hremoved hkey hplace⟩
  | @closeSpace _ s hempty =>
      refine ⟨⟨page, hpage, rfl, rfl⟩, fun s' n hplace => ?_⟩
      have hs : s' ≠ s := by
        rintro rfl
        rw [hempty] at hplace
        cases hplace
      exact (congrFun (Function.update_of_ne hs _ _) n).trans hplace

theorem Steps.page_kept (h : Steps effects x v x' v') (hcoherent : Coherent x v) {key : Key Page}
    {page : Page} (hpage : v.page key = some page) (hkept : .removed key ∉ effects) :
    (∃ page', v'.page key = some page' ∧ page'.va = page.va ∧ page'.writable = page.writable) ∧
      ∀ s n, v.pageOf s n = some key → v'.pageOf s n = some key := by
  induction h generalizing page with
  | nil => exact ⟨⟨page, hpage, rfl, rfl⟩, fun _ _ hplace => hplace⟩
  | cons head tail ih =>
      rw [List.mem_append, not_or] at hkept
      obtain ⟨⟨page₁, hpage₁, hva₁, hwritable₁⟩, hplace₁⟩ := head.page_kept hcoherent hpage hkept.1
      obtain ⟨⟨page', hpage', hva', hwritable'⟩, hplace'⟩ :=
        ih (head.coherent hcoherent) hpage₁ hkept.2
      exact ⟨⟨page', hpage', hva'.trans hva₁, hwritable'.trans hwritable₁⟩,
        fun s n hplace => hplace' s n (hplace₁ s n hplace)⟩

/-- A page that is older than the chain was there before, in the same place. -/
theorem Step.page_old (h : Step effects x v x' v') {key : Key Page} (hold : key.index < v.created) :
    (v'.page key ≠ none → v.page key ≠ none) ∧
      ∀ s n, v'.pageOf s n = some key → v.pageOf s n = some key := by
  have hne : key ≠ ⟨v.created⟩ := by
    rintro rfl
    exact Nat.lt_irrefl _ hold
  have hadded : ∀ {s n} {s' : Key AddressSpace} {n' : PageNumber},
      Function.update v.pageOf s (Function.update (v.pageOf s) n (some ⟨v.created⟩)) s' n' =
        some key → v.pageOf s' n' = some key := by
    intro s n s' n' hplace
    by_cases hs : s' = s
    · subst hs
      rw [Function.update_self] at hplace
      by_cases hn : n' = n
      · rw [hn, Function.update_self] at hplace
        exact absurd (Option.some.inj hplace).symm hne
      · rwa [Function.update_of_ne hn] at hplace
    · rwa [Function.update_of_ne hs] at hplace
  have hremoved : ∀ {s n} {s' : Key AddressSpace} {n' : PageNumber},
      Function.update v.pageOf s (Function.update (v.pageOf s) n none) s' n' = some key →
        v.pageOf s' n' = some key := by
    intro s n s' n' hplace
    by_cases hs : s' = s
    · subst hs
      rw [Function.update_self] at hplace
      by_cases hn : n' = n
      · rw [hn, Function.update_self] at hplace
        cases hplace
      · rwa [Function.update_of_ne hn] at hplace
    · rwa [Function.update_of_ne hs] at hplace
  have hgone : ∀ {other}, Function.update v.page other none key ≠ none → v.page key ≠ none := by
    intro other hpage
    by_cases hkey : key = other
    · rw [hkey, Function.update_self] at hpage
      exact absurd rfl hpage
    · rwa [Function.update_of_ne hkey] at hpage
  cases h with
  | scribble | take | giveBack | store | openSpace | register =>
      exact ⟨fun hpage => hpage, fun _ _ hplace => hplace⟩
  | @evict _ _ f o evicted bytes contents howner hevicted hbytes hstowed =>
      obtain ⟨isOccupied, pageIn, file, rfl⟩ := hstowed.exists_eq
      refine ⟨fun hpage => ?_, fun _ _ hplace => hplace⟩
      by_cases hkey : key = o.page
      · rw [hkey, hevicted]
        exact Option.some_ne_none _
      · exact fun he => hpage ((Function.update_of_ne hkey _ _).trans he)
  | @bringIn _ f brought page' s d pa hbrought hframe hplace hdirectory hstart hbytes =>
      refine ⟨fun hpage => ?_, fun _ _ hplace => hplace⟩
      by_cases hkey : key = brought
      · rw [hkey, hbrought]
        exact Option.some_ne_none _
      · exact fun he => hpage ((Function.update_of_ne hkey _ _).trans he)
  | add | copyAside | copyIn =>
      exact ⟨fun hpage he => hpage ((Function.update_of_ne hne _ _).trans he), fun s n => hadded⟩
  | removeAbsent => exact ⟨hgone, fun s n => hremoved⟩
  | removePresent _ _ _ _ hgiven =>
      obtain ⟨file, rfl⟩ := hgiven.exists_eq
      exact ⟨hgone, fun s n => hremoved⟩
  | @closeSpace _ s hempty =>
      refine ⟨fun hpage => hpage, fun s' n hplace => ?_⟩
      by_cases hs : s' = s
      · simp [View.eraseSpace, hs] at hplace
      · exact (congrFun (Function.update_of_ne hs _ _) n).symm.trans hplace

theorem Steps.page_old (h : Steps effects x v x' v') {key : Key Page}
    (hold : key.index < v.created) :
    (v'.page key ≠ none → v.page key ≠ none) ∧
      ∀ s n, v'.pageOf s n = some key → v.pageOf s n = some key := by
  induction h with
  | nil => exact ⟨fun hpage => hpage, fun _ _ hplace => hplace⟩
  | cons head tail ih =>
      obtain ⟨hpage, hplace⟩ := head.page_old hold
      obtain ⟨hpage', hplace'⟩ := ih (Nat.lt_of_lt_of_le hold head.created_le)
      exact ⟨fun he => hpage (hpage' he), fun s n he => hplace s n (hplace' s n he)⟩

theorem Step.directoryOf_kept (h : Step effects x v x' v') {s : Key AddressSpace} {d : Key Directory}
    (hdirectory : v.directoryOf s = some d) (hkept : .closed s ∉ effects) :
    v'.directoryOf s = some d := by
  cases h with
  | evict _ _ _ hstowed =>
      obtain ⟨isOccupied, pageIn, file, rfl⟩ := hstowed.exists_eq
      exact hdirectory
  | removePresent _ _ _ _ hgiven =>
      obtain ⟨file, rfl⟩ := hgiven.exists_eq
      exact hdirectory
  | @openSpace _ s' d' hspace hfresh =>
      have hs : s ≠ s' := by
        rintro rfl
        rw [hspace] at hdirectory
        cases hdirectory
      exact (Function.update_of_ne hs _ _).trans hdirectory
  | @closeSpace _ s' hempty =>
      have hs : s ≠ s' := fun he => hkept (by rw [he]; exact List.mem_singleton_self _)
      exact (Function.update_of_ne hs _ _).trans hdirectory
  | _ => exact hdirectory

theorem Steps.directoryOf_kept (h : Steps effects x v x' v') {s : Key AddressSpace}
    {d : Key Directory} (hdirectory : v.directoryOf s = some d) (hkept : .closed s ∉ effects) :
    v'.directoryOf s = some d := by
  induction h with
  | nil => exact hdirectory
  | cons head tail ih =>
      rw [List.mem_append, not_or] at hkept
      exact ih (head.directoryOf_kept hdirectory hkept.1) hkept.2

end

end DemandPaging
