import DemandPaging.Proofs.View

/-!
What the parts of the system do to the view.

Each action on a part leaves a state that differs in that part and in the events reported. The
lemmas of the first half name the new part; those of the second half say which update of the view it
amounts to.
-/

namespace DemandPaging

/-! ### Updates of single parts -/

namespace Machine

variable (m : Machine)

theorem view_pages (pages : Arena Page) :
    ({ m with pages } : Machine).view =
      { m.view with page := pages.get?, created := pages.nextKey.index } := rfl

theorem view_modifyPage (key : Key Page) (change : Page → Page) :
    ({ m with pages := m.pages.modify key change } : Machine).view =
      m.view.setPage key ((m.pages.get? key).map change) := by
  rw [view_pages, Arena.get?_modify_eq_update, Arena.nextKey_modify]
  rfl

theorem view_erasePage (key : Key Page) :
    ({ m with pages := m.pages.erase key } : Machine).view = m.view.setPage key none := by
  rw [view_pages, Arena.get?_erase_eq_update, Arena.nextKey_erase]
  rfl

theorem view_addPage (page : Page) :
    ({ m with pages := m.pages.add page } : Machine).view = m.view.addPage page := by
  rw [view_pages, Arena.get?_add_eq_update, Arena.index_nextKey_add]
  rfl

theorem view_setOwner {slot : FrameSlot} {index : Nat} (hnodup : (m.listed.map (·.frame)).Nodup)
    (hslot : m.listed[index]? = some slot) (owner : Option Owner) :
    ({ m with listed := m.listed.modify index fun slot => { slot with owner } } : Machine).view =
      m.view.setOwner slot.frame (some owner) := by
  have hlength : (m.listed.modify index fun slot => { slot with owner }).length =
      m.listed.length := List.length_modify _ _ _
  have hview : ({ m with
      listed := m.listed.modify index fun slot => { slot with owner } } : Machine).view =
      { m.view with
        owner := ownerIn (m.listed.modify index fun slot => { slot with owner })
        frames := (m.listed.modify index fun slot => { slot with owner }).length +
          m.pool.freeCount } := rfl
  rw [hview, ownerIn_modify hnodup hslot, hlength]
  rfl

theorem view_setBytes {pool : Pool} {f : FrameNumber} {bytes : PageBytes}
    (h : m.pool.setBytes f bytes = .ok pool) :
    ({ m with pool } : Machine).view = m.view.setBytes f bytes := by
  have hsame := Pool.sameAllocation_setBytes h
  have hbytes : pool.bytes? = Function.update m.pool.bytes? f (some bytes) := by
    funext g
    rw [Pool.bytes?_setBytes h, Function.update_apply]
    simp only [eq_comm]
  have hview : ({ m with pool } : Machine).view =
      { m.view with
        isAllocated := pool.allocation
        bytes := pool.bytes?
        frames := m.listed.length + pool.freeCount } := rfl
  rw [hview, hbytes, funext hsame.allocation, Pool.freeCount, hsame.freeList]
  rfl

theorem view_take {pool : Pool} {f : FrameNumber} (hpool : m.pool.Consistent)
    (hfresh : ownerIn m.listed f = none) (h : m.pool.allocate = some (f, pool)) :
    ({ m with pool, listed := m.listed ++ [⟨f, none⟩] } : Machine).view =
      (m.view.setOwner f (some none)).setAllocated f true := by
  obtain ⟨-, -, hfree, hallocation⟩ := Pool.allocate_eq_some hpool h
  have hallocated : pool.allocation = Function.update m.pool.allocation f (some true) := by
    funext g
    rw [hallocation, Function.update_apply]
    simp only [eq_comm]
  have hframes : (m.listed ++ [(⟨f, none⟩ : FrameSlot)]).length + pool.freeCount =
      m.listed.length + m.pool.freeCount := by
    rw [Pool.freeCount, Pool.freeCount, hfree, List.length_append, List.length_singleton,
      List.length_cons]
    omega
  have hview : ({ m with pool, listed := m.listed ++ [⟨f, none⟩] } : Machine).view =
      { m.view with
        owner := ownerIn (m.listed ++ [⟨f, none⟩])
        isAllocated := pool.allocation
        bytes := pool.bytes?
        frames := (m.listed ++ [(⟨f, none⟩ : FrameSlot)]).length + pool.freeCount } := rfl
  rw [hview, ownerIn_append hfresh, hallocated, funext (Pool.bytes?_allocate h), hframes]
  rfl

theorem view_giveBack {pool : Pool} {slot : FrameSlot} {index : Nat} (hpool : m.pool.Consistent)
    (hnodup : (m.listed.map (·.frame)).Nodup) (hslot : m.listed[index]? = some slot)
    (h : m.pool.release slot.frame = .ok pool) :
    ({ m with pool, listed := m.listed.eraseIdx index } : Machine).view =
      (m.view.setOwner slot.frame none).setAllocated slot.frame false := by
  obtain ⟨-, -, hfree, hallocation⟩ := Pool.release_eq_ok hpool h
  have hallocated : pool.allocation =
      Function.update m.pool.allocation slot.frame (some false) := by
    funext g
    rw [hallocation, Function.update_apply]
    simp only [eq_comm]
  obtain ⟨hlt, -⟩ := List.getElem?_eq_some_iff.1 hslot
  have hframes : (m.listed.eraseIdx index).length + pool.freeCount =
      m.listed.length + m.pool.freeCount := by
    rw [Pool.freeCount, Pool.freeCount, hfree, List.length_eraseIdx_of_lt hlt, List.length_cons]
    omega
  have hview : ({ m with pool, listed := m.listed.eraseIdx index } : Machine).view =
      { m.view with
        owner := ownerIn (m.listed.eraseIdx index)
        isAllocated := pool.allocation
        bytes := pool.bytes?
        frames := (m.listed.eraseIdx index).length + pool.freeCount } := rfl
  rw [hview, ownerIn_eraseIdx hnodup hslot, hallocated, funext (Pool.bytes?_release h), hframes]
  rfl

theorem view_setPinned {pool : Pool} {f : FrameNumber} {on : Bool}
    (h : m.pool.setPinned f on = .ok pool) : ({ m with pool } : Machine).view = m.view := by
  have hsame := Pool.sameAllocation_setPinned h
  have hview : ({ m with pool } : Machine).view =
      { m.view with
        isAllocated := pool.allocation
        bytes := pool.bytes?
        frames := m.listed.length + pool.freeCount } := rfl
  rw [hview, funext (Pool.bytes?_setPinned h), funext hsame.allocation, Pool.freeCount,
    hsame.freeList]
  rfl

/-! ### Swap -/

theorem view_swap (swap : Swap) : ({ m with swap } : Machine).view =
    { m.view with
      slots := swap.slotCount
      isOccupied := swap.isOccupied
      pageIn := swap.pageIn } := rfl

theorem view_store {swap : Swap} {slot : SwapSlot} {bytes : PageBytes}
    (h : m.swap.store bytes = (.ok slot, swap)) :
    m.view.isOccupied slot = false ∧ ({ m with swap } : Machine).view = m.view.occupy slot bytes := by
  obtain ⟨hfree, hoccupied, hpageIn, hslots⟩ := Swap.store_eq_ok h
  have hoccupied : swap.isOccupied = Function.update m.swap.isOccupied slot true := by
    funext other
    rw [hoccupied, Function.update_apply]
    simp only [eq_comm]
  have hpageIn : swap.pageIn = Function.update m.swap.pageIn slot bytes := by
    funext other
    rw [hpageIn, Function.update_apply]
    simp only [eq_comm]
  refine ⟨hfree, ?_⟩
  rw [view_swap, hslots, hoccupied, hpageIn]
  rfl

theorem view_unmoved {swap : Swap} (h : Swap.Unmoved m.swap swap) :
    ({ m with swap } : Machine).view = m.view := by
  rw [view_swap, Swap.slotCount, h.occupied, funext h.isOccupied, funext h.pageIn]
  rfl

theorem view_vacate {swap : Swap} {slot : SwapSlot}
    (hsectors : swap.disk.sectors = m.swap.disk.sectors) (hslots : swap.slotCount = m.swap.slotCount)
    (hoccupied : ∀ other, swap.isOccupied other =
      if slot = other then false else m.swap.isOccupied other) :
    ({ m with swap } : Machine).view = m.view.vacate (some slot) := by
  have hpageIn : swap.pageIn = m.swap.pageIn := by
    funext other
    exact Disk.pageAt_congr _ fun _ _ => by rw [hsectors]
  rw [view_swap, hslots, hpageIn, funext hoccupied]
  simp only [View.vacate, Option.some.injEq]
  rfl

/-! ### Files -/

theorem view_modifyFile {f : Key File} {file : File} (hfile : m.files.get? f = some file)
    (file' : File) :
    ({ m with files := m.files.modify f fun _ => file' } : Machine).view =
      m.view.setFile f file'.unissued := by
  have hget : (fun g => ((m.files.modify f fun _ => file').get? g).map File.unissued) =
      Function.update m.view.file f (some file'.unissued) := by
    funext g
    rw [Arena.get?_modify_eq_update, Function.update_apply, Function.update_apply, hfile]
    split <;> rfl
  have hview : ({ m with files := m.files.modify f fun _ => file' } : Machine).view =
      { m.view with
        file := fun g => ((m.files.modify f fun _ => file').get? g).map File.unissued } := rfl
  rw [hview, hget]
  rfl

/-- Issuing a handle does not change what is in a file. -/
theorem view_issue {f : Key File} {file : File} (hfile : m.files.get? f = some file) :
    ({ m with files := m.files.modify f fun _ => file.issue.2 } : Machine).view = m.view := by
  rw [view_modifyFile m hfile]
  have hsame : Function.update m.view.file f (some file.unissued) = m.view.file := by
    funext g
    rw [Function.update_apply]
    split
    · next heq =>
      subst heq
      exact (congrArg (Option.map File.unissued) hfile).symm
    · rfl
  change { m.view with file := Function.update m.view.file f (some file.unissued) } = m.view
  rw [hsame]

/-! ### Page directories -/

theorem view_directories (directories : Arena Directory) :
    ({ m with directories } : Machine).view =
      { m.view with
        grant := fun d va => (directories.get? d).bind (·.grant? va)
        isDirty := fun d va => (directories.get? d).any (·.test va .dirty)
        hasDirectory := fun d => (directories.get? d).isSome } := rfl

theorem view_modifyDirectory {d : Key Directory} {directory : Directory}
    (hdirectory : m.directories.get? d = some directory) (changed : Directory) :
    ({ m with directories := m.directories.modify d fun _ => changed } : Machine).view =
      { m.view with
        grant := fun d' va => if d' = d then changed.grant? va else m.view.grant d' va
        isDirty := fun d' va =>
          if d' = d then changed.test va .dirty else m.view.isDirty d' va } := by
  have hget : ∀ d', (m.directories.modify d fun _ => changed).get? d' =
      if d' = d then some changed else m.directories.get? d' := by
    intro d'
    rw [Arena.get?_modify_eq_update, Function.update_apply, hdirectory]
    rfl
  have hgrant : (fun d' va => ((m.directories.modify d fun _ => changed).get? d').bind
      (·.grant? va)) =
      fun d' va => if d' = d then changed.grant? va else m.view.grant d' va := by
    funext d' va
    rw [hget]
    split <;> rfl
  have hdirty : (fun d' va => ((m.directories.modify d fun _ => changed).get? d').any
      (·.test va .dirty)) =
      fun d' va => if d' = d then changed.test va .dirty else m.view.isDirty d' va := by
    funext d' va
    rw [hget]
    split <;> rfl
  have hhas : (fun d' => ((m.directories.modify d fun _ => changed).get? d').isSome) =
      m.view.hasDirectory := by
    funext d'
    rw [hget]
    split
    · next heq =>
      subst heq
      exact (congrArg Option.isSome hdirectory).symm
    · rfl
  rw [view_directories, hgrant, hdirty, hhas]

theorem view_grant_eq {d : Key Directory} {directory : Directory}
    (hdirectory : m.directories.get? d = some directory) (va : VirtualAddress) :
    m.view.grant d va = directory.grant? va := by
  change (m.directories.get? d).bind _ = _
  rw [hdirectory, Option.bind_some]

theorem view_isDirty_eq {d : Key Directory} {directory : Directory}
    (hdirectory : m.directories.get? d = some directory) (va : VirtualAddress) :
    m.view.isDirty d va = directory.test va .dirty := by
  change (m.directories.get? d).any _ = _
  rw [hdirectory, Option.any_some]

/-- Where the entry of one page changes, the view changes at that page. -/
theorem view_setGrant {d : Key Directory} {directory changed : Directory}
    (hdirectory : m.directories.get? d = some directory) (n : PageNumber) (grant? : Option Grant)
    (hgrant : ∀ va, changed.grant? va = if va.number = n then grant? else directory.grant? va)
    (hdirty : ∀ va, changed.test va .dirty =
      if va.number = n then false else directory.test va .dirty) :
    ({ m with directories := m.directories.modify d fun _ => changed } : Machine).view =
      m.view.setGrant d n grant? := by
  have hgrant' : (fun d' va => if d' = d then changed.grant? va else m.view.grant d' va) =
      fun d' va => if d' = d ∧ va.number = n then grant? else m.view.grant d' va := by
    funext d' va
    by_cases hd : d' = d
    · subst hd
      rw [if_pos rfl, hgrant, view_grant_eq m hdirectory]
      simp
    · simp [hd]
  have hdirty' : (fun d' va => if d' = d then changed.test va .dirty else m.view.isDirty d' va) =
      fun d' va => if d' = d ∧ va.number = n then false else m.view.isDirty d' va := by
    funext d' va
    by_cases hd : d' = d
    · subst hd
      rw [if_pos rfl, hdirty, view_isDirty_eq m hdirectory]
      simp
    · simp [hd]
  rw [view_modifyDirectory m hdirectory, hgrant', hdirty']
  rfl

theorem view_stain {d : Key Directory} {directory changed : Directory}
    (hdirectory : m.directories.get? d = some directory) (n : PageNumber)
    (hgrant : ∀ va, changed.grant? va = directory.grant? va)
    (hdirty : ∀ va, changed.test va .dirty =
      if va.number = n then true else directory.test va .dirty) :
    ({ m with directories := m.directories.modify d fun _ => changed } : Machine).view =
      m.view.stain d n := by
  have hgrant' : (fun d' va => if d' = d then changed.grant? va else m.view.grant d' va) =
      m.view.grant := by
    funext d' va
    by_cases hd : d' = d
    · subst hd
      rw [if_pos rfl, hgrant, view_grant_eq m hdirectory]
    · rw [if_neg hd]
  have hdirty' : (fun d' va => if d' = d then changed.test va .dirty else m.view.isDirty d' va) =
      fun d' va => if d' = d ∧ va.number = n then true else m.view.isDirty d' va := by
    funext d' va
    by_cases hd : d' = d
    · subst hd
      rw [if_pos rfl, hdirty, view_isDirty_eq m hdirectory]
      simp
    · simp [hd]
  rw [view_modifyDirectory m hdirectory, hgrant', hdirty']
  rfl

/-- A change that leaves grants and dirty bits alone does not show. -/
theorem view_untouched {d : Key Directory} {directory changed : Directory}
    (hdirectory : m.directories.get? d = some directory)
    (hgrant : ∀ va, changed.grant? va = directory.grant? va)
    (hdirty : ∀ va, changed.test va .dirty = directory.test va .dirty) :
    ({ m with directories := m.directories.modify d fun _ => changed } : Machine).view =
      m.view := by
  have hgrant' : (fun d' va => if d' = d then changed.grant? va else m.view.grant d' va) =
      m.view.grant := by
    funext d' va
    by_cases hd : d' = d
    · subst hd
      rw [if_pos rfl, hgrant, view_grant_eq m hdirectory]
    · rw [if_neg hd]
  have hdirty' : (fun d' va => if d' = d then changed.test va .dirty else m.view.isDirty d' va) =
      m.view.isDirty := by
    funext d' va
    by_cases hd : d' = d
    · subst hd
      rw [if_pos rfl, hdirty, view_isDirty_eq m hdirectory]
    · rw [if_neg hd]
  rw [view_modifyDirectory m hdirectory, hgrant', hdirty']

/-! ### Address spaces -/

theorem view_spaces (spaces : Arena AddressSpace) :
    ({ m with spaces } : Machine).view =
      { m.view with
        pageOf := fun s n => (spaces.get? s).bind (·.pages[n]?)
        directoryOf := fun s => (spaces.get? s).map (·.directory)
        regionOf := fun s va => (spaces.get? s).bind (·.regions[va]?) } := rfl

theorem view_modifySpace {s : Key AddressSpace} {space : AddressSpace}
    (hspace : m.spaces.get? s = some space) (change : AddressSpace → AddressSpace) :
    ({ m with spaces := m.spaces.modify s change } : Machine).view =
      { m.view with
        pageOf := Function.update m.view.pageOf s fun n => (change space).pages[n]?
        directoryOf := Function.update m.view.directoryOf s (some (change space).directory)
        regionOf := Function.update m.view.regionOf s fun va => (change space).regions[va]? } := by
  have hget : ∀ s', (m.spaces.modify s change).get? s' =
      if s' = s then some (change space) else m.spaces.get? s' := by
    intro s'
    rw [Arena.get?_modify_eq_update, Function.update_apply, hspace]
    rfl
  have hpages : (fun s' n => ((m.spaces.modify s change).get? s').bind (·.pages[n]?)) =
      Function.update m.view.pageOf s fun n => (change space).pages[n]? := by
    funext s' n
    rw [hget, Function.update_apply]
    split <;> rfl
  have hdirectory : (fun s' => ((m.spaces.modify s change).get? s').map (·.directory)) =
      Function.update m.view.directoryOf s (some (change space).directory) := by
    funext s'
    rw [hget, Function.update_apply]
    split <;> rfl
  have hregions : (fun s' va => ((m.spaces.modify s change).get? s').bind (·.regions[va]?)) =
      Function.update m.view.regionOf s fun va => (change space).regions[va]? := by
    funext s' va
    rw [hget, Function.update_apply]
    split <;> rfl
  rw [view_spaces, hpages, hdirectory, hregions]

section

variable {m} {s : Key AddressSpace} {space : AddressSpace}

theorem view_pageOf_eq (hspace : m.spaces.get? s = some space) (n : PageNumber) :
    m.view.pageOf s n = space.pages[n]? := by
  change (m.spaces.get? s).bind _ = _
  rw [hspace, Option.bind_some]

theorem view_directoryOf_eq (hspace : m.spaces.get? s = some space) :
    m.view.directoryOf s = some space.directory := by
  change (m.spaces.get? s).map _ = _
  rw [hspace, Option.map_some]

theorem view_regionOf_eq (hspace : m.spaces.get? s = some space) (va : VirtualAddress) :
    m.view.regionOf s va = space.regions[va]? := by
  change (m.spaces.get? s).bind _ = _
  rw [hspace, Option.bind_some]

theorem update_pageOf_self (hspace : m.spaces.get? s = some space) :
    Function.update m.view.pageOf s (fun n => space.pages[n]?) = m.view.pageOf := by
  rw [Function.update_eq_self_iff]
  funext n
  exact (view_pageOf_eq hspace n).symm

theorem update_directoryOf_self (hspace : m.spaces.get? s = some space) :
    Function.update m.view.directoryOf s (some space.directory) = m.view.directoryOf := by
  rw [Function.update_eq_self_iff]
  exact (view_directoryOf_eq hspace).symm

theorem update_regionOf_self (hspace : m.spaces.get? s = some space) :
    Function.update m.view.regionOf s (fun va => space.regions[va]?) = m.view.regionOf := by
  rw [Function.update_eq_self_iff]
  funext va
  exact (view_regionOf_eq hspace va).symm

theorem view_setPlace (hspace : m.spaces.get? s = some space) {pages : PageMap} (n : PageNumber)
    (key? : Option (Key Page))
    (hpages : ∀ n', pages[n']? = if n' = n then key? else space.pages[n']?) :
    ({ m with spaces := m.spaces.modify s fun space => { space with pages } } : Machine).view =
      m.view.setPlace s n key? := by
  have hplace : (fun n' => pages[n']?) = Function.update (m.view.pageOf s) n key? := by
    funext n'
    rw [hpages, Function.update_apply, view_pageOf_eq hspace]
  rw [view_modifySpace m hspace]
  dsimp only
  rw [hplace, update_directoryOf_self hspace, update_regionOf_self hspace]
  rfl

theorem view_setRegion (hspace : m.spaces.get? s = some space)
    {change : AddressSpace → AddressSpace} (start : VirtualAddress) (region? : Option Region)
    (hpages : (change space).pages = space.pages)
    (hdirectory : (change space).directory = space.directory)
    (hregions : ∀ va, (change space).regions[va]? =
      if va = start then region? else space.regions[va]?) :
    ({ m with spaces := m.spaces.modify s change } : Machine).view =
      m.view.setRegion s start region? := by
  have hregion : (fun va => (change space).regions[va]?) =
      Function.update (m.view.regionOf s) start region? := by
    funext va
    rw [hregions, Function.update_apply, view_regionOf_eq hspace]
  rw [view_modifySpace m hspace, hpages, hdirectory, hregion, update_pageOf_self hspace,
    update_directoryOf_self hspace]
  rfl

end

/-- Stack pointers do not show. -/
theorem view_modifySpace_of_same (s : Key AddressSpace) (change : AddressSpace → AddressSpace)
    (hpages : ∀ space, (change space).pages = space.pages)
    (hdirectory : ∀ space, (change space).directory = space.directory)
    (hregions : ∀ space, (change space).regions = space.regions) :
    ({ m with spaces := m.spaces.modify s change } : Machine).view = m.view := by
  cases hspace : m.spaces.get? s with
  | none =>
      have hsame : (m.spaces.modify s change).get? = m.spaces.get? := by
        rw [Arena.get?_modify_eq_update, Function.update_eq_self_iff, hspace, Option.map_none]
      rw [view_spaces, hsame]
      rfl
  | some space =>
      rw [view_modifySpace m hspace, hpages, hdirectory, hregions, update_pageOf_self hspace,
        update_directoryOf_self hspace, update_regionOf_self hspace]

/-- A new address space starts with a new directory and nothing else. -/
theorem view_addSpace {space : AddressSpace} (hdirectory : space.directory = m.directories.nextKey)
    (hpages : space.pages = ∅) (hregions : space.regions = ∅) :
    ({ m with
      directories := m.directories.add .empty
      spaces := m.spaces.add space } : Machine).view =
      m.view.addSpace m.spaces.nextKey m.directories.nextKey := by
  have hspace : ∀ s, (m.spaces.add space).get? s =
      if s = m.spaces.nextKey then some space else m.spaces.get? s := Arena.get?_add _ _
  have hdir : ∀ d, (m.directories.add .empty).get? d =
      if d = m.directories.nextKey then some .empty else m.directories.get? d := Arena.get?_add _ _
  have hpageOf : (fun s n => ((m.spaces.add space).get? s).bind (·.pages[n]?)) =
      m.view.pageOf := by
    funext s n
    rw [hspace]
    split
    · next heq =>
      subst heq
      simp [view, Arena.get?_nextKey, hpages]
    · rfl
  have hregionOf : (fun s va => ((m.spaces.add space).get? s).bind (·.regions[va]?)) =
      m.view.regionOf := by
    funext s va
    rw [hspace]
    split
    · next heq =>
      subst heq
      simp [view, Arena.get?_nextKey, hregions]
    · rfl
  have hdirectoryOf : (fun s => ((m.spaces.add space).get? s).map (·.directory)) =
      Function.update m.view.directoryOf m.spaces.nextKey (some m.directories.nextKey) := by
    funext s
    rw [hspace, Function.update_apply]
    split
    · rw [Option.map_some, hdirectory]
    · rfl
  have hgrant : (fun d va => ((m.directories.add .empty).get? d).bind (·.grant? va)) =
      m.view.grant := by
    funext d va
    rw [hdir]
    split
    · next heq =>
      subst heq
      simp [view, Arena.get?_nextKey]
    · rfl
  have hdirty : (fun d va => ((m.directories.add .empty).get? d).any (·.test va .dirty)) =
      m.view.isDirty := by
    funext d va
    rw [hdir]
    split
    · next heq =>
      subst heq
      have hnone : Directory.empty.find? va = none := by
        have hgrant := Directory.grant?_empty va
        rwa [Directory.grant?, Option.map_eq_none_iff] at hgrant
      simp [view, Arena.get?_nextKey, Directory.test, hnone]
    · rfl
  have hhas : (fun d => ((m.directories.add .empty).get? d).isSome) =
      Function.update m.view.hasDirectory m.directories.nextKey true := by
    funext d
    rw [hdir, Function.update_apply]
    split <;> rfl
  have hview : ({ m with
      directories := m.directories.add .empty
      spaces := m.spaces.add space } : Machine).view =
      { m.view with
        grant := fun d va => ((m.directories.add .empty).get? d).bind (·.grant? va)
        isDirty := fun d va => ((m.directories.add .empty).get? d).any (·.test va .dirty)
        hasDirectory := fun d => ((m.directories.add .empty).get? d).isSome
        pageOf := fun s n => ((m.spaces.add space).get? s).bind (·.pages[n]?)
        directoryOf := fun s => ((m.spaces.add space).get? s).map (·.directory)
        regionOf := fun s va => ((m.spaces.add space).get? s).bind (·.regions[va]?) } := rfl
  rw [hview, hpageOf, hregionOf, hdirectoryOf, hgrant, hdirty, hhas]
  rfl

theorem view_eraseSpace (s : Key AddressSpace) :
    ({ m with spaces := m.spaces.erase s } : Machine).view = m.view.eraseSpace s := by
  have hget : ∀ s', (m.spaces.erase s).get? s' =
      if s' = s then none else m.spaces.get? s' := by
    intro s'
    rw [Arena.get?_erase_eq_update, Function.update_apply]
  have hpageOf : (fun s' n => ((m.spaces.erase s).get? s').bind (·.pages[n]?)) =
      Function.update m.view.pageOf s fun _ => none := by
    funext s' n
    rw [hget, Function.update_apply]
    split <;> rfl
  have hdirectoryOf : (fun s' => ((m.spaces.erase s).get? s').map (·.directory)) =
      Function.update m.view.directoryOf s none := by
    funext s'
    rw [hget, Function.update_apply]
    split <;> rfl
  have hregionOf : (fun s' va => ((m.spaces.erase s).get? s').bind (·.regions[va]?)) =
      Function.update m.view.regionOf s fun _ => none := by
    funext s' va
    rw [hget, Function.update_apply]
    split <;> rfl
  rw [view_spaces, hpageOf, hdirectoryOf, hregionOf]
  rfl

end Machine

end DemandPaging
