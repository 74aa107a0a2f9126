import DemandPaging.Proofs.Step

/-!
Who owns a frame, and where a page lives.

The frame list, the pages, the page directories and the page maps tell the same story four times.
`Residency` says that the first three agree on which page is in which frame, and `Placement` that
every page is in one place of one address space and every address space has a directory of its own.
What ties the two together is that a frame is mapped in the directory of the address space that its
page belongs to. Last, a page that was not brought in yet is in no frame, and the bytes of an
anonymous page are in a frame or in a slot.

All of it holds at every moment, also in the middle of an operation: a frame that changes hands is
the one exception, and it is named.
-/

namespace DemandPaging

/-- Frame list, pages and page directories agree on who is in which frame. -/
structure Residency (x : Option FrameNumber) (owner : FrameNumber → Option (Option Owner))
    (isAllocated : FrameNumber → Option Bool) (page : Key Page → Option Page)
    (grant : Key Directory → VirtualAddress → Option Grant) : Prop where
  allocated : ∀ {f entry}, owner f = some entry → isAllocated f = some true
  unowned : ∀ {f}, owner f = some none ↔ x = some f
  /-- The page of an owner is in the frame, and mapped to it with its rights. -/
  linked : ∀ {f o}, owner f = some (some o) → ∃ p pa, page o.page = some p ∧ p.frame = some f ∧
    o.va = p.va ∧ f.start = .ok pa ∧ grant o.directory p.va = some ⟨pa, true, p.writable⟩
  /-- The frame of a resident page has that page as its owner. -/
  listed : ∀ {key p f}, page key = some p → p.frame = some f →
    ∃ o, owner f = some (some o) ∧ o.page = key
  /-- Nothing else is mapped. -/
  granted : ∀ {d va grant?}, grant d va = some grant? →
    ∃ f o, owner f = some (some o) ∧ o.directory = d ∧ o.va.number = va.number

/-- Every page is in one place, and address spaces are apart. -/
structure Placement (page : Key Page → Option Page) (created : Nat)
    (pageOf : Key AddressSpace → PageNumber → Option (Key Page))
    (directoryOf : Key AddressSpace → Option (Key Directory))
    (hasDirectory : Key Directory → Bool) : Prop where
  placed : ∀ {s n key}, pageOf s n = some key → ∃ p, page key = some p ∧ p.va.number = n
  held : ∀ {key p}, page key = some p → ∃ s, pageOf s p.va.number = some key
  alone : ∀ {s s' n n' key}, pageOf s n = some key → pageOf s' n' = some key → s = s'
  holders : ∀ {key p}, page key = some p → p.holders = 1
  created : ∀ {key p}, page key = some p → key.index < created
  opened : ∀ {s n key}, pageOf s n = some key → ∃ d, directoryOf s = some d
  directories : ∀ {s d}, directoryOf s = some d → hasDirectory d = true
  separate : ∀ {s s' d}, directoryOf s = some d → directoryOf s' = some d → s = s'

def Contents.Fits : Contents → (resident : Bool) → Prop
  | .pending _, resident => resident = false
  | .anonymous slot, resident => slot.isNone = resident
  | .file _, _ => True

/-- A state in which everything fits together, up to a frame that changes hands. -/
structure Coherent (x : Option FrameNumber) (v : View) : Prop where
  residency : Residency x v.owner v.isAllocated v.page v.grant
  placement : Placement v.page v.created v.pageOf v.directoryOf v.hasDirectory
  /-- A frame is mapped where its page lives. -/
  home : ∀ {f o s n}, v.owner f = some (some o) → v.pageOf s n = some o.page →
    v.directoryOf s = some o.directory
  fits : ∀ {key p}, v.page key = some p → p.contents.Fits p.isResident

/-! ### Residency -/

namespace Residency

variable {x : Option FrameNumber} {owner : FrameNumber → Option (Option Owner)}
  {isAllocated : FrameNumber → Option Bool} {page : Key Page → Option Page}
  {grant : Key Directory → VirtualAddress → Option Grant} {f : FrameNumber}

theorem owner_eq_none (h : Residency x owner isAllocated page grant)
    (hfree : isAllocated f = some false) : owner f = none := by
  cases howner : owner f with
  | none => rfl
  | some entry =>
      have hallocated := h.allocated howner
      rw [hfree] at hallocated
      cases hallocated

theorem take (h : Residency none owner isAllocated page grant)
    (hfree : isAllocated f = some false) :
    Residency (some f) (Function.update owner f (some none))
      (Function.update isAllocated f (some true)) page grant := by
  have hnone := h.owner_eq_none hfree
  have hkept : ∀ {g o}, owner g = some (some o) →
      Function.update owner f (some none) g = some (some o) := by
    intro g o howner
    have hne : g ≠ f := by
      rintro rfl
      rw [hnone] at howner
      cases howner
    rw [Function.update_of_ne hne, howner]
  refine ⟨?_, ?_, ?_, ?_, ?_⟩
  · intro g entry hentry
    by_cases hg : g = f
    · rw [hg, Function.update_self]
    · rw [Function.update_of_ne hg] at hentry ⊢
      exact h.allocated hentry
  · intro g
    by_cases hg : g = f
    · simp [hg]
    · have hnot : ¬owner g = some none := fun he => by cases h.unowned.1 he
      simp [Function.update_of_ne hg, hnot, Ne.symm hg]
  · intro g o howner
    by_cases hg : g = f
    · rw [hg, Function.update_self] at howner
      cases howner
    · rw [Function.update_of_ne hg] at howner
      exact h.linked howner
  · intro key p g hpage hframe
    obtain ⟨o, howner, hkey⟩ := h.listed hpage hframe
    exact ⟨o, hkept howner, hkey⟩
  · intro d va g hgrant
    obtain ⟨g, o, howner, hplace⟩ := h.granted hgrant
    exact ⟨g, o, hkept howner, hplace⟩

theorem giveBack (h : Residency (some f) owner isAllocated page grant) :
    Residency none (Function.update owner f none) (Function.update isAllocated f (some false))
      page grant := by
  have hloose : owner f = some none := h.unowned.2 rfl
  have hkept : ∀ {g o}, owner g = some (some o) →
      Function.update owner f none g = some (some o) := by
    intro g o howner
    have hne : g ≠ f := by
      rintro rfl
      rw [hloose] at howner
      cases howner
    rw [Function.update_of_ne hne, howner]
  refine ⟨?_, ?_, ?_, ?_, ?_⟩
  · intro g entry hentry
    by_cases hg : g = f
    · rw [hg, Function.update_self] at hentry
      cases hentry
    · rw [Function.update_of_ne hg] at hentry ⊢
      exact h.allocated hentry
  · intro g
    by_cases hg : g = f
    · simp [hg]
    · have hnot : ¬owner g = some none := fun he => by
        cases h.unowned.1 he
        exact hg rfl
      simp [Function.update_of_ne hg, hnot]
  · intro g o howner
    by_cases hg : g = f
    · rw [hg, Function.update_self] at howner
      cases howner
    · rw [Function.update_of_ne hg] at howner
      exact h.linked howner
  · intro key p g hpage hframe
    obtain ⟨o, howner, hkey⟩ := h.listed hpage hframe
    exact ⟨o, hkept howner, hkey⟩
  · intro d va g hgrant
    obtain ⟨g, o, howner, hplace⟩ := h.granted hgrant
    exact ⟨g, o, hkept howner, hplace⟩

/-- Two owners with the same place in the same directory own the same frame. -/
theorem owner_injective (h : Residency x owner isAllocated page grant) {g : FrameNumber}
    {o o' : Owner} (howner : owner f = some (some o)) (howner' : owner g = some (some o'))
    (hdirectory : o'.directory = o.directory) (hva : o'.va.number = o.va.number) : g = f := by
  obtain ⟨p, pa, -, -, hp, hstart, hgrant⟩ := h.linked howner
  obtain ⟨p', pa', -, -, hp', hstart', hgrant'⟩ := h.linked howner'
  -- both pages start at the same address, so it is one grant
  have hsame : p'.va = p.va := Address.eq_of_number_eq p'.aligned p.aligned (by rw [← hp, ← hp', hva])
  rw [hdirectory, hsame, hgrant] at hgrant'
  have hpa : pa = pa' := congrArg Grant.address (Option.some.inj hgrant')
  exact Number.start_injective (hpa ▸ hstart') hstart

/-- A page leaves its frame, or is gone. -/
theorem unlink (h : Residency none owner isAllocated page grant) {o : Owner}
    (howner : owner f = some (some o)) (page? : Option Page)
    (habsent : ∀ p, page? = some p → p.frame = none) :
    Residency (some f) (Function.update owner f (some none)) isAllocated
      (Function.update page o.page page?)
      (fun d va => if d = o.directory ∧ va.number = o.va.number then none else grant d va) := by
  obtain ⟨p, pa, hp, hframe, -⟩ := h.linked howner
  refine ⟨?_, ?_, ?_, ?_, ?_⟩
  · intro g entry hentry
    by_cases hg : g = f
    · rw [hg]
      exact h.allocated howner
    · rw [Function.update_of_ne hg] at hentry
      exact h.allocated hentry
  · intro g
    by_cases hg : g = f
    · simp [hg]
    · have hnot : ¬owner g = some none := fun he => by cases h.unowned.1 he
      simp [Function.update_of_ne hg, hnot, Ne.symm hg]
  · intro g o' howner'
    by_cases hg : g = f
    · rw [hg, Function.update_self] at howner'
      cases howner'
    · rw [Function.update_of_ne hg] at howner'
      obtain ⟨p', pa', hp', hframe', hva', hstart', hgrant'⟩ := h.linked howner'
      have hkey : o'.page ≠ o.page := by
        intro he
        rw [he, hp] at hp'
        cases hp'
        rw [hframe] at hframe'
        exact hg (Option.some.inj hframe').symm
      refine ⟨p', pa', ?_, hframe', hva', hstart', ?_⟩
      · rw [Function.update_of_ne hkey, hp']
      · rw [if_neg, hgrant']
        rintro ⟨hd, hn⟩
        exact hg (h.owner_injective howner howner' hd (by rw [hva', hn]))
  · intro key p' g hpage hframe'
    by_cases hkey : key = o.page
    · rw [hkey, Function.update_self] at hpage
      rw [habsent p' hpage] at hframe'
      cases hframe'
    · rw [Function.update_of_ne hkey] at hpage
      obtain ⟨o', howner', ho'⟩ := h.listed hpage hframe'
      have hg : g ≠ f := by
        rintro rfl
        rw [howner] at howner'
        cases howner'
        exact hkey ho'.symm
      exact ⟨o', by rw [Function.update_of_ne hg, howner'], ho'⟩
  · intro d va g hgrant
    split at hgrant
    · cases hgrant
    · next hne =>
      obtain ⟨g, o', howner', hd, hn⟩ := h.granted hgrant
      have hg : g ≠ f := by
        rintro rfl
        rw [howner] at howner'
        cases howner'
        exact hne ⟨hd.symm, hn.symm⟩
      exact ⟨g, o', by rw [Function.update_of_ne hg, howner'], hd, hn⟩

/-- A page that is in no frame, or not there yet, gets the frame that has no owner. -/
theorem link (h : Residency (some f) owner isAllocated page grant) {key : Key Page} {p : Page}
    {d : Key Directory} {pa : PhysicalAddress}
    (habsent : ∀ p₀, page key = some p₀ → p₀.frame = none)
    (hunmapped : ∀ g o, owner g = some (some o) → o.directory = d → o.va.number ≠ p.va.number)
    (hstart : f.start = .ok pa) (hframe : p.frame = some f) :
    Residency none (Function.update owner f (some (some ⟨key, p.va, d⟩))) isAllocated
      (Function.update page key (some p))
      (fun d' va => if d' = d ∧ va.number = p.va.number then some ⟨pa, true, p.writable⟩
        else grant d' va) := by
  have hloose : owner f = some none := h.unowned.2 rfl
  have hkept : ∀ {g o}, owner g = some (some o) → g ≠ f := by
    rintro g o howner rfl
    rw [hloose] at howner
    cases howner
  refine ⟨?_, ?_, ?_, ?_, ?_⟩
  · intro g entry hentry
    by_cases hg : g = f
    · rw [hg]
      exact h.allocated hloose
    · rw [Function.update_of_ne hg] at hentry
      exact h.allocated hentry
  · intro g
    by_cases hg : g = f
    · simp [hg]
    · have hnot : ¬owner g = some none := fun he => by
        cases h.unowned.1 he
        exact hg rfl
      simp [Function.update_of_ne hg, hnot]
  · intro g o howner
    by_cases hg : g = f
    · rw [hg, Function.update_self] at howner
      cases howner
      refine ⟨p, pa, ?_, by rw [hframe, hg], rfl, by rw [hg, hstart], ?_⟩
      · rw [Function.update_self]
      · rw [if_pos ⟨rfl, rfl⟩]
    · rw [Function.update_of_ne hg] at howner
      obtain ⟨p', pa', hp', hframe', hva', hstart', hgrant'⟩ := h.linked howner
      have hkey : o.page ≠ key := by
        intro he
        rw [he] at hp'
        rw [habsent p' hp'] at hframe'
        cases hframe'
      refine ⟨p', pa', ?_, hframe', hva', hstart', ?_⟩
      · rw [Function.update_of_ne hkey, hp']
      · rw [if_neg, hgrant']
        rintro ⟨hd, hn⟩
        exact hunmapped g o howner hd (by rw [hva', hn])
  · intro key' p' g hpage hframe'
    by_cases hkey : key' = key
    · rw [hkey, Function.update_self] at hpage
      cases hpage
      rw [hframe] at hframe'
      cases hframe'
      exact ⟨⟨key, p.va, d⟩, by rw [Function.update_self], hkey.symm⟩
    · rw [Function.update_of_ne hkey] at hpage
      obtain ⟨o, howner, ho⟩ := h.listed hpage hframe'
      exact ⟨o, by rw [Function.update_of_ne (hkept howner), howner], ho⟩
  · intro d' va g hgrant
    split at hgrant
    · next hplace =>
      exact ⟨f, ⟨key, p.va, d⟩, by rw [Function.update_self], hplace.1.symm, hplace.2.symm⟩
    · obtain ⟨g, o, howner, hplace⟩ := h.granted hgrant
      exact ⟨g, o, by rw [Function.update_of_ne (hkept howner), howner], hplace⟩

theorem replace (h : Residency x owner isAllocated page grant) {key : Key Page}
    {page? : Option Page} (habsent : ∀ p, page key = some p → p.frame = none)
    (habsent' : ∀ p, page? = some p → p.frame = none) :
    Residency x owner isAllocated (Function.update page key page?) grant := by
  refine ⟨h.allocated, h.unowned, ?_, ?_, h.granted⟩
  · intro g o howner
    obtain ⟨p, pa, hp, hframe, hrest⟩ := h.linked howner
    have hkey : o.page ≠ key := by
      intro he
      rw [he] at hp
      rw [habsent p hp] at hframe
      cases hframe
    exact ⟨p, pa, by rw [Function.update_of_ne hkey, hp], hframe, hrest⟩
  · intro key' p g hpage hframe
    by_cases hkey : key' = key
    · rw [hkey, Function.update_self] at hpage
      rw [habsent' p hpage] at hframe
      cases hframe
    · rw [Function.update_of_ne hkey] at hpage
      exact h.listed hpage hframe

end Residency

/-! ### Placement -/

namespace Placement

variable {page : Key Page → Option Page} {created : Nat}
  {pageOf : Key AddressSpace → PageNumber → Option (Key Page)}
  {directoryOf : Key AddressSpace → Option (Key Directory)} {hasDirectory : Key Directory → Bool}

theorem number_eq (h : Placement page created pageOf directoryOf hasDirectory)
    {s : Key AddressSpace} {n : PageNumber} {key : Key Page} {p : Page}
    (hplace : pageOf s n = some key) (hpage : page key = some p) : p.va.number = n := by
  obtain ⟨p', hp', hn⟩ := h.placed hplace
  rw [hpage] at hp'
  cases hp'
  exact hn

theorem replace (h : Placement page created pageOf directoryOf hasDirectory) {key : Key Page}
    {p p' : Page} (hpage : page key = some p) (hva : p'.va = p.va)
    (hholders : p'.holders = p.holders) :
    Placement (Function.update page key (some p')) created pageOf directoryOf hasDirectory := by
  refine ⟨?_, ?_, h.alone, ?_, ?_, h.opened, h.directories, h.separate⟩
  · intro s n key' hplace
    obtain ⟨q, hq, hn⟩ := h.placed hplace
    by_cases hkey : key' = key
    · rw [hkey, hpage] at hq
      cases hq
      exact ⟨p', by rw [hkey, Function.update_self], by rw [hva, hn]⟩
    · exact ⟨q, by rw [Function.update_of_ne hkey, hq], hn⟩
  · intro key' q hq
    by_cases hkey : key' = key
    · rw [hkey, Function.update_self] at hq
      cases hq
      rw [hkey, hva]
      exact h.held hpage
    · rw [Function.update_of_ne hkey] at hq
      exact h.held hq
  · intro key' q hq
    by_cases hkey : key' = key
    · rw [hkey, Function.update_self] at hq
      cases hq
      rw [hholders]
      exact h.holders hpage
    · rw [Function.update_of_ne hkey] at hq
      exact h.holders hq
  · intro key' q hq
    by_cases hkey : key' = key
    · rw [hkey]
      exact h.created hpage
    · rw [Function.update_of_ne hkey] at hq
      exact h.created hq

theorem add (h : Placement page created pageOf directoryOf hasDirectory) {s : Key AddressSpace}
    {d : Key Directory} {p : Page} (hdirectory : directoryOf s = some d)
    (hplace : pageOf s p.va.number = none) (hholders : p.holders = 1) :
    Placement (Function.update page ⟨created⟩ (some p)) (created + 1)
      (Function.update pageOf s (Function.update (pageOf s) p.va.number (some ⟨created⟩)))
      directoryOf hasDirectory := by
  have hfresh : page ⟨created⟩ = none := by
    cases hp : page ⟨created⟩ with
    | none => rfl
    | some q => exact absurd (h.created hp) (Nat.lt_irrefl _)
  have hunheld : ∀ s' n, pageOf s' n ≠ some ⟨created⟩ := by
    intro s' n he
    obtain ⟨q, hq, -⟩ := h.placed he
    rw [hfresh] at hq
    cases hq
  -- where the page maps point after the page was put in its place
  have hpageOf : ∀ {s' n key}, Function.update pageOf s
      (Function.update (pageOf s) p.va.number (some ⟨created⟩)) s' n = some key ↔
      s' = s ∧ n = p.va.number ∧ key = ⟨created⟩ ∨
        key ≠ ⟨created⟩ ∧ pageOf s' n = some key := by
    intro s' n key
    by_cases hs : s' = s
    · subst hs
      rw [Function.update_self]
      by_cases hn : n = p.va.number
      · subst hn
        rw [Function.update_self, hplace, Option.some.injEq, eq_comm]
        simp
      · rw [Function.update_of_ne hn]
        constructor
        · intro he
          refine .inr ⟨?_, he⟩
          rintro rfl
          exact hunheld _ _ he
        · rintro (⟨-, he, -⟩ | ⟨-, he⟩)
          · exact absurd he hn
          · exact he
    · rw [Function.update_of_ne hs]
      constructor
      · intro he
        refine .inr ⟨?_, he⟩
        rintro rfl
        exact hunheld _ _ he
      · rintro (⟨he, -⟩ | ⟨-, he⟩)
        · exact absurd he hs
        · exact he
  refine ⟨?_, ?_, ?_, ?_, ?_, ?_, h.directories, h.separate⟩
  · intro s' n key hkey
    rcases hpageOf.1 hkey with ⟨-, rfl, rfl⟩ | ⟨hne, hold⟩
    · exact ⟨p, by rw [Function.update_self], rfl⟩
    · rw [Function.update_of_ne hne]
      exact h.placed hold
  · intro key q hq
    by_cases hkey : key = ⟨created⟩
    · subst hkey
      rw [Function.update_self] at hq
      cases hq
      exact ⟨s, hpageOf.2 (.inl ⟨rfl, rfl, rfl⟩)⟩
    · rw [Function.update_of_ne hkey] at hq
      obtain ⟨s', hs'⟩ := h.held hq
      exact ⟨s', hpageOf.2 (.inr ⟨hkey, hs'⟩)⟩
  · intro s' s'' n n' key hkey hkey'
    rcases hpageOf.1 hkey with ⟨rfl, -, rfl⟩ | ⟨hne, hold⟩
    · rcases hpageOf.1 hkey' with ⟨rfl, -⟩ | ⟨hne, -⟩
      · rfl
      · exact absurd rfl hne
    · rcases hpageOf.1 hkey' with ⟨-, -, rfl⟩ | ⟨-, hold'⟩
      · exact absurd rfl hne
      · exact h.alone hold hold'
  · intro key q hq
    by_cases hkey : key = ⟨created⟩
    · rw [hkey, Function.update_self] at hq
      cases hq
      exact hholders
    · rw [Function.update_of_ne hkey] at hq
      exact h.holders hq
  · intro key q hq
    by_cases hkey : key = ⟨created⟩
    · rw [hkey]
      exact Nat.lt_succ_self _
    · rw [Function.update_of_ne hkey] at hq
      exact Nat.lt_succ_of_lt (h.created hq)
  · intro s' n key hkey
    rcases hpageOf.1 hkey with ⟨rfl, -, -⟩ | ⟨-, hold⟩
    · exact ⟨d, hdirectory⟩
    · exact h.opened hold

theorem remove (h : Placement page created pageOf directoryOf hasDirectory) {s : Key AddressSpace}
    {key : Key Page} {p : Page} (hpage : page key = some p)
    (hplace : pageOf s p.va.number = some key) :
    Placement (Function.update page key none) created
      (Function.update pageOf s (Function.update (pageOf s) p.va.number none))
      directoryOf hasDirectory := by
  have hpageOf : ∀ {s' n key'}, Function.update pageOf s
      (Function.update (pageOf s) p.va.number none) s' n = some key' ↔
      key' ≠ key ∧ pageOf s' n = some key' := by
    intro s' n key'
    constructor
    · intro he
      by_cases hs : s' = s
      · subst hs
        rw [Function.update_self] at he
        by_cases hn : n = p.va.number
        · rw [hn, Function.update_self] at he
          cases he
        · rw [Function.update_of_ne hn] at he
          refine ⟨?_, he⟩
          rintro rfl
          exact hn (h.number_eq he hpage).symm
      · rw [Function.update_of_ne hs] at he
        refine ⟨?_, he⟩
        rintro rfl
        exact hs (h.alone he hplace)
    · rintro ⟨hne, he⟩
      by_cases hs : s' = s
      · subst hs
        rw [Function.update_self]
        by_cases hn : n = p.va.number
        · rw [hn, hplace] at he
          cases he
          exact absurd rfl hne
        · rw [Function.update_of_ne hn, he]
      · rw [Function.update_of_ne hs, he]
  have hother : ∀ {key' q}, Function.update page key none key' = some q →
      key' ≠ key ∧ page key' = some q := by
    intro key' q hq
    by_cases hkey : key' = key
    · rw [hkey, Function.update_self] at hq
      cases hq
    · rw [Function.update_of_ne hkey] at hq
      exact ⟨hkey, hq⟩
  refine ⟨?_, ?_, ?_, fun hq => h.holders (hother hq).2, fun hq => h.created (hother hq).2, ?_,
    h.directories, h.separate⟩
  · intro s' n key' hkey'
    obtain ⟨hne, hold⟩ := hpageOf.1 hkey'
    rw [Function.update_of_ne hne]
    exact h.placed hold
  · intro key' q hq
    obtain ⟨hne, hold⟩ := hother hq
    obtain ⟨s', hs'⟩ := h.held hold
    exact ⟨s', hpageOf.2 ⟨hne, hs'⟩⟩
  · intro s' s'' n n' key' hkey' hkey''
    exact h.alone (hpageOf.1 hkey').2 (hpageOf.1 hkey'').2
  · intro s' n key' hkey'
    exact h.opened (hpageOf.1 hkey').2

theorem openSpace (h : Placement page created pageOf directoryOf hasDirectory)
    {s : Key AddressSpace} {d : Key Directory} (hspace : directoryOf s = none)
    (hdirectory : hasDirectory d = false) :
    Placement page created pageOf (Function.update directoryOf s (some d))
      (Function.update hasDirectory d true) := by
  have hunused : ∀ s', directoryOf s' ≠ some d := by
    intro s' he
    rw [h.directories he] at hdirectory
    cases hdirectory
  refine ⟨h.placed, h.held, h.alone, h.holders, h.created, ?_, ?_, ?_⟩
  · intro s' n key hkey
    obtain ⟨d', hd'⟩ := h.opened hkey
    have hs : s' ≠ s := by
      rintro rfl
      rw [hspace] at hd'
      cases hd'
    exact ⟨d', by rw [Function.update_of_ne hs, hd']⟩
  · intro s' d' hd'
    by_cases hd : d' = d
    · rw [hd, Function.update_self]
    · rw [Function.update_of_ne hd]
      by_cases hs : s' = s
      · rw [hs, Function.update_self] at hd'
        cases hd'
        exact absurd rfl hd
      · rw [Function.update_of_ne hs] at hd'
        exact h.directories hd'
  · intro s' s'' d' hd' hd''
    by_cases hs : s' = s
    · by_cases hs' : s'' = s
      · rw [hs, hs']
      · rw [hs, Function.update_self] at hd'
        rw [Function.update_of_ne hs'] at hd''
        cases hd'
        exact absurd hd'' (hunused _)
    · rw [Function.update_of_ne hs] at hd'
      by_cases hs' : s'' = s
      · rw [hs', Function.update_self] at hd''
        cases hd''
        exact absurd hd' (hunused _)
      · rw [Function.update_of_ne hs'] at hd''
        exact h.separate hd' hd''

theorem closeSpace (h : Placement page created pageOf directoryOf hasDirectory)
    {s : Key AddressSpace} (hempty : ∀ n, pageOf s n = none) :
    Placement page created (Function.update pageOf s fun _ => none)
      (Function.update directoryOf s none) hasDirectory := by
  have hpageOf : Function.update pageOf s (fun _ => none) = pageOf := by
    funext s' n
    by_cases hs : s' = s
    · rw [hs, Function.update_self, hempty]
    · rw [Function.update_of_ne hs]
  have hother : ∀ {s' d}, Function.update directoryOf s none s' = some d →
      directoryOf s' = some d := by
    intro s' d hd
    by_cases hs : s' = s
    · rw [hs, Function.update_self] at hd
      cases hd
    · rwa [Function.update_of_ne hs] at hd
  rw [hpageOf]
  refine ⟨h.placed, h.held, h.alone, h.holders, h.created, ?_, fun hd => h.directories (hother hd),
    fun hd hd' => h.separate (hother hd) (hother hd')⟩
  intro s' n key hkey
  have hs : s' ≠ s := by
    rintro rfl
    rw [hempty] at hkey
    cases hkey
  obtain ⟨d, hd⟩ := h.opened hkey
  exact ⟨d, by rw [Function.update_of_ne hs, hd]⟩

end Placement

/-! ### Contents -/

theorem Contents.settled_fits (contents : Contents) : contents.settled.Fits true := by
  cases contents with
  | pending source => cases source <;> trivial
  | anonymous slot => rfl
  | file slice => trivial

theorem Contents.Copied.fits_of_kind {contents contents' : Contents}
    (h : Contents.Copied contents contents') :
    (contents'.kind ≠ .uninit → contents'.Fits true) ∧
      (contents'.kind ≠ .anonymous → contents'.Fits false) := by
  cases h with
  | pending _ => exact ⟨fun hkind => absurd rfl hkind, fun _ => rfl⟩
  | anonymous => exact ⟨fun _ => rfl, fun hkind => absurd rfl hkind⟩
  | file => exact ⟨fun _ => trivial, fun _ => trivial⟩

section

variable {slice : FileSlice} {bytes : PageBytes} {dirty : Bool} {contents contents' : Contents}
  {v v' : View}

theorem Stowed.fits (h : Stowed bytes dirty contents v contents' v') : contents'.Fits false := by
  cases h with
  | slot hfree => rfl
  | file hback => trivial

end

/-! ### Every step -/

namespace Coherent

variable {x : Option FrameNumber} {v : View} {f : FrameNumber} {key : Key Page} {page : Page}
  {s : Key AddressSpace} {d : Key Directory}

/-- What lives where a page belongs and is in a frame is that page. -/
theorem owner_eq_of_place (h : Coherent x v) {o : Owner} (howner : v.owner f = some (some o))
    (hplace : v.pageOf s o.va.number = some key) (hdirectory : v.directoryOf s = some o.directory) :
    o.page = key := by
  obtain ⟨p, -, hp, -, hva, -⟩ := h.residency.linked howner
  obtain ⟨s', hs'⟩ := h.placement.held hp
  have hsame : s' = s := h.placement.separate (h.home howner hs') hdirectory
  rw [hsame, ← hva, hplace] at hs'
  exact (Option.some.inj hs').symm

/-- A page in a frame is its owner, by the directory of the address space that it belongs to. -/
theorem owner_of_page (h : Coherent x v) {p : Page} (hpage : v.page key = some p)
    (hframe : p.frame = some f) {n : PageNumber} (hplace : v.pageOf s n = some key)
    (hdirectory : v.directoryOf s = some d) : v.owner f = some (some ⟨key, p.va, d⟩) := by
  obtain ⟨o, howner, rfl⟩ := h.residency.listed hpage hframe
  obtain ⟨_, _, hp, -, hva, -⟩ := h.residency.linked howner
  cases hpage.symm.trans hp
  cases hdirectory.symm.trans (h.home howner hplace)
  rw [howner, ← hva]

theorem ne_of_unowned (h : Coherent (some f) v) (hpage : v.page key = some page) {g : FrameNumber}
    (hframe : page.frame = some g) : g ≠ f := by
  rintro rfl
  obtain ⟨o, howner, -⟩ := h.residency.listed hpage hframe
  have hnone := h.residency.unowned.2 rfl
  rw [howner] at hnone
  cases hnone

theorem page_ne_of_absent (h : Coherent x v) (hpage : v.page key = some page)
    (habsent : page.frame = none) {o : Owner} (howner : v.owner f = some (some o)) :
    o.page ≠ key := by
  rintro rfl
  obtain ⟨_, _, hpage', hframe, -⟩ := h.residency.linked howner
  cases hpage.symm.trans hpage'
  rw [habsent] at hframe
  cases hframe

/-- What is written to a frame that changes hands is not seen in any page. -/
theorem bytesOf_setBytes (h : Coherent (some f) v) (hpage : v.page key = some page)
    (bytes : PageBytes) : (v.setBytes f bytes).bytesOf page = v.bytesOf page := by
  cases hframe : page.frame with
  | some g =>
      simp only [View.bytesOf, hframe, View.setBytes,
        Function.update_of_ne (h.ne_of_unowned hpage hframe)]
  | none =>
      rw [View.bytesOf_of_absent hframe, View.bytesOf_of_absent hframe]
      rfl

theorem page_created (h : Coherent x v) : v.page ⟨v.created⟩ = none := by
  cases hp : v.page ⟨v.created⟩ with
  | none => rfl
  | some q => exact absurd (h.placement.created hp) (Nat.lt_irrefl _)

theorem unmapped_of_free (h : Coherent x v) (hdirectory : v.directoryOf s = some d) {n : PageNumber}
    (hplace : v.pageOf s n = none) :
    ∀ g o, v.owner g = some (some o) → o.directory = d → o.va.number ≠ n := by
  rintro g o howner rfl rfl
  obtain ⟨p, -, hp, -, hva, -⟩ := h.residency.linked howner
  obtain ⟨s', hs'⟩ := h.placement.held hp
  have hsame : s' = s := h.placement.separate (h.home howner hs') hdirectory
  rw [hsame, ← hva, hplace] at hs'
  cases hs'

theorem unmapped_of_absent (h : Coherent x v) (hpage : v.page key = some page)
    (hframe : page.frame = none) (hplace : v.pageOf s page.va.number = some key)
    (hdirectory : v.directoryOf s = some d) :
    ∀ g o, v.owner g = some (some o) → o.directory = d → o.va.number ≠ page.va.number := by
  rintro g o howner rfl hn
  have hkey : o.page = key := h.owner_eq_of_place howner (by rw [hn, hplace]) hdirectory
  obtain ⟨p, -, hp, hresident, -⟩ := h.residency.linked howner
  rw [hkey, hpage] at hp
  cases hp
  rw [hframe] at hresident
  cases hresident

theorem absent_of_created (h : Coherent x v) :
    ∀ p, v.page ⟨v.created⟩ = some p → p.frame = none := by
  intro p hp
  rw [h.page_created] at hp
  cases hp

theorem fits_update (h : Coherent x v) {page? : Option Page}
    (hfits : ∀ p, page? = some p → p.contents.Fits p.isResident) {key' : Key Page} {p : Page}
    (hp : Function.update v.page key page? key' = some p) : p.contents.Fits p.isResident := by
  by_cases hkey : key' = key
  · rw [hkey, Function.update_self] at hp
    exact hfits p hp
  · rw [Function.update_of_ne hkey] at hp
    exact h.fits hp

/-- Putting a page where none was does not move the owner of any frame. -/
theorem home_add (h : Coherent x v) {n : PageNumber} {g : FrameNumber} {o : Owner}
    {s' : Key AddressSpace} {n' : PageNumber} (howner : v.owner g = some (some o))
    (hplace : Function.update v.pageOf s (Function.update (v.pageOf s) n (some ⟨v.created⟩)) s' n' =
      some o.page) : v.directoryOf s' = some o.directory := by
  obtain ⟨p, -, hp, -⟩ := h.residency.linked howner
  have hne : o.page ≠ ⟨v.created⟩ := by
    intro he
    rw [he, h.page_created] at hp
    cases hp
  by_cases hs : s' = s
  · subst hs
    rw [Function.update_self] at hplace
    by_cases hn : n' = n
    · rw [hn, Function.update_self] at hplace
      exact absurd (Option.some.inj hplace).symm hne
    · rw [Function.update_of_ne hn] at hplace
      exact h.home howner hplace
  · rw [Function.update_of_ne hs] at hplace
    exact h.home howner hplace

theorem home_remove (h : Coherent x v) {n : PageNumber} {g : FrameNumber} {o : Owner}
    {s' : Key AddressSpace} {n' : PageNumber} (howner : v.owner g = some (some o))
    (hplace : Function.update v.pageOf s (Function.update (v.pageOf s) n none) s' n' =
      some o.page) : v.directoryOf s' = some o.directory := by
  by_cases hs : s' = s
  · subst hs
    rw [Function.update_self] at hplace
    by_cases hn : n' = n
    · rw [hn, Function.update_self] at hplace
      cases hplace
    · rw [Function.update_of_ne hn] at hplace
      exact h.home howner hplace
  · rw [Function.update_of_ne hs] at hplace
    exact h.home howner hplace

end Coherent

theorem owner_of_update {owner : FrameNumber → Option (Option Owner)} {f g : FrameNumber}
    {entry : Option (Option Owner)} {o : Owner}
    (h : Function.update owner f entry g = some (some o)) :
    entry = some (some o) ∨ owner g = some (some o) := by
  by_cases hg : g = f
  · rw [hg, Function.update_self] at h
    exact .inl h
  · rw [Function.update_of_ne hg] at h
    exact .inr h

/-- Every step keeps the state coherent. -/
theorem Step.coherent {effects : List Effect} {x x' : Option FrameNumber} {v v' : View}
    (hstep : Step effects x v x' v') (h : Coherent x v) : Coherent x' v' := by
  cases hstep with
  | scribble => exact ⟨h.residency, h.placement, h.home, h.fits⟩
  | take hfree =>
      refine ⟨h.residency.take hfree, h.placement, fun howner hplace => ?_, h.fits⟩
      exact h.home ((owner_of_update howner).resolve_left nofun) hplace
  | giveBack =>
      refine ⟨h.residency.giveBack, h.placement, fun howner hplace => ?_, h.fits⟩
      exact h.home ((owner_of_update howner).resolve_left nofun) hplace
  | @evict _ _ f o page bytes contents howner hpage hbytes hstowed =>
      have hfits := hstowed.fits
      obtain ⟨isOccupied, pageIn, file, rfl⟩ := hstowed.exists_eq
      refine ⟨h.residency.unlink howner _ fun p hp => ?_, h.placement.replace hpage rfl rfl, ?_, ?_⟩
      · cases hp
        rfl
      · intro g o' s n howner' hplace
        exact h.home ((owner_of_update howner').resolve_left nofun) hplace
      · intro key p hp
        refine h.fits_update (fun p hp => ?_) hp
        cases hp
        exact hfits
  | @bringIn _ f key page s d pa hpage hframe hplace hdirectory hstart hbytes =>
      have hunmapped := h.unmapped_of_absent hpage hframe hplace hdirectory
      refine ⟨h.residency.link (p := { page with
          contents := page.contents.settled, frame := some f }) ?_
          hunmapped hstart rfl,
        h.placement.replace hpage rfl rfl, ?_, ?_⟩
      · intro p hp
        rw [show v.page key = some p from hp] at hpage
        cases hpage
        exact hframe
      · intro g o s' n howner hplace'
        rcases owner_of_update howner with hnew | howner
        · cases hnew
          rw [h.placement.alone (show v.pageOf s' n = some key from hplace') hplace]
          exact hdirectory
        · exact h.home howner hplace'
      · intro key' p hp
        refine h.fits_update (fun p hp => ?_) hp
        cases hp
        exact page.contents.settled_fits
  | store howner hpage hwritable hbytes hfits =>
      exact ⟨h.residency, h.placement, h.home, h.fits⟩
  | @add _ s d page source hdirectory hplace hcontents hframe hholders =>
      refine ⟨h.residency.replace h.absent_of_created fun p hp => ?_,
        h.placement.add hdirectory hplace hholders, fun howner hplace' => h.home_add howner hplace',
        ?_⟩
      · cases hp
        exact hframe
      · intro key p hp
        refine h.fits_update (fun p hp => ?_) hp
        cases hp
        rw [hcontents, Page.isResident, hframe]
        rfl
  | @copyAside _ s d key page contents hpage hframe hcopied hkind hdirectory hplace =>
      refine ⟨h.residency.replace h.absent_of_created fun p hp => ?_,
        h.placement.add (p := { page with contents, holders := 1 }) hdirectory hplace rfl,
        fun howner hplace' => h.home_add howner hplace', ?_⟩
      · cases hp
        exact hframe
      · intro key' p hp
        refine h.fits_update (fun p hp => ?_) hp
        cases hp
        have hfits := hcopied.fits_of_kind.2 hkind
        rwa [show Page.isResident { page with contents, holders := 1 } = false by
          rw [Page.isResident, hframe]; rfl]
  | @copyIn _ f s d key page contents pa hpage hcopied hkind hdirectory hplace hstart hbytes =>
      refine ⟨h.residency.link (p := { page with contents, frame := some f, holders := 1 })
          h.absent_of_created (h.unmapped_of_free hdirectory hplace) hstart rfl,
        h.placement.add (p := { page with contents, frame := some f, holders := 1 }) hdirectory
          hplace rfl, ?_, ?_⟩
      · intro g o s' n howner hplace'
        rcases owner_of_update howner with hnew | howner
        · cases hnew
          have hplacement := h.placement.add
            (p := { page with contents, frame := some f, holders := 1 }) hdirectory hplace rfl
          have hsame : s' = s := hplacement.alone hplace' (by
            rw [Function.update_self]
            exact Function.update_self _ _ _)
          rw [hsame]
          exact hdirectory
        · exact h.home_add howner hplace'
      · intro key' p hp
        refine h.fits_update (fun p hp => ?_) hp
        cases hp
        exact hcopied.fits_of_kind.1 hkind
  | @removeAbsent _ s key page hplace hpage hframe =>
      refine ⟨h.residency.replace (fun p hp => ?_) (fun p hp => by cases hp),
        h.placement.remove hpage hplace, fun howner hplace' => h.home_remove howner hplace', ?_⟩
      · rw [show v.page key = some p from hp] at hpage
        cases hpage
        exact hframe
      · intro key' p hp
        exact h.fits_update (fun p hp => by cases hp) hp
  | @removePresent _ _ s f o page bytes hplace howner hpage hbytes hgiven =>
      obtain ⟨file, rfl⟩ := hgiven.exists_eq
      refine ⟨h.residency.unlink howner none (fun p hp => by cases hp),
        h.placement.remove hpage hplace, ?_, ?_⟩
      · intro g o' s' n howner' hplace'
        exact h.home_remove ((owner_of_update howner').resolve_left nofun) hplace'
      · intro key' p hp
        exact h.fits_update (fun p hp => by cases hp) hp
  | @openSpace _ s d hspace hdirectory =>
      refine ⟨h.residency, h.placement.openSpace hspace hdirectory, ?_, h.fits⟩
      intro g o s' n howner hplace
      obtain ⟨d', hd'⟩ := h.placement.opened hplace
      have hs : s' ≠ s := by
        rintro rfl
        rw [hspace] at hd'
        cases hd'
      simpa [View.addSpace, hs] using h.home howner hplace
  | @closeSpace _ s hempty =>
      refine ⟨h.residency, h.placement.closeSpace hempty, ?_, h.fits⟩
      intro g o s' n howner hplace
      by_cases hs : s' = s
      · simp [View.eraseSpace, hs] at hplace
      · simpa [View.eraseSpace, hs] using
          h.home howner (by simpa [View.eraseSpace, hs] using hplace)
  | register => exact ⟨h.residency, h.placement, h.home, h.fits⟩

theorem Steps.coherent {effects : List Effect} {x x' : Option FrameNumber} {v v' : View}
    (hsteps : Steps effects x v x' v') (h : Coherent x v) : Coherent x' v' :=
  hsteps.preserves Step.coherent h

end DemandPaging
