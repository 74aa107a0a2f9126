import DemandPaging.Proofs.Computation
import DemandPaging.Space.Pages
import Mathlib.Tactic

/-!
The map of an address space.

A page is put into the map only where none is, and a range is asked for before a run of pages is put
into it. The question looks at one key only, the first from the start of the range on. Since the
keys come in order, that one speaks for the whole range.
-/

namespace DemandPaging

/-! ### Ordered maps -/

section

variable {α β : Type} [Ord α] [Std.TransOrd α]

theorem getElem?_insert_eq_ite [Std.LawfulEqOrd α] [DecidableEq α] (map : Std.ExtTreeMap α β)
    (key : α) (value : β) (other : α) :
    (map.insert key value)[other]? = if other = key then some value else map[other]? := by
  rw [Std.ExtTreeMap.getElem?_insert]
  by_cases h : other = key
  · rw [h, if_pos Std.ReflOrd.compare_self, if_pos rfl]
  · rw [if_neg h, if_neg fun he => h (Std.LawfulEqOrd.eq_of_compare he).symm]

theorem getElem?_erase_eq_ite [Std.LawfulEqOrd α] [DecidableEq α] (map : Std.ExtTreeMap α β)
    (key other : α) :
    (map.erase key)[other]? = if other = key then none else map[other]? := by
  rw [Std.ExtTreeMap.getElem?_erase]
  by_cases h : other = key
  · rw [h, if_pos Std.ReflOrd.compare_self, if_pos rfl]
  · rw [if_neg h, if_neg fun he => h (Std.LawfulEqOrd.eq_of_compare he).symm]

/-- Maps that have values at the same keys have them in the same order. -/
theorem keys_congr [Std.LawfulEqOrd α] {map map' : Std.ExtTreeMap α β}
    (h : ∀ key : α, map'[key]? = none ↔ map[key]? = none) : map'.keys = map.keys := by
  have hsame : map'.map (fun _ _ => ()) = map.map (fun _ _ => ()) := by
    refine Std.ExtTreeMap.ext_getElem? fun key => ?_
    rw [Std.ExtTreeMap.getElem?_map, Std.ExtTreeMap.getElem?_map]
    have hkey := h key
    cases hnew : map'[key]? <;> cases hold : map[key]? <;> simp_all
  calc map'.keys = (map'.map fun _ _ => ()).keys := Std.ExtTreeMap.keys_map.symm
    _ = (map.map fun _ _ => ()).keys := by rw [hsame]
    _ = map.keys := Std.ExtTreeMap.keys_map

/-- The first key from a bound on is the first one in order. -/
theorem getKeyGE?_eq_find?_keys (map : Std.ExtTreeMap α β) (bound : α) :
    map.getKeyGE? bound = map.keys.find? fun key => (compare key bound).isGE := by
  obtain ⟨⟨⟨map⟩⟩⟩ := map
  change Std.DTreeMap.Internal.Impl.getKeyGE? bound map.inner =
    List.find? _ (Std.DTreeMap.Internal.Impl.keys map.inner)
  rw [Std.DTreeMap.Internal.Impl.getKeyGE?_eq_getEntryGE?,
    Std.DTreeMap.Internal.Impl.getEntryGE?_eq_find? map.wf.ordered,
    Std.DTreeMap.Internal.Impl.keys_eq_keys, Std.Internal.List.keys_eq_map, List.find?_map]
  rfl

theorem isLE_compare_getKeyGE? [Std.LawfulEqOrd α] {map : Std.ExtTreeMap α β}
    {bound first key : α} (hfirst : map.getKeyGE? bound = some first) (hkey : key ∈ map)
    (hbound : (compare key bound).isGE = true) : (compare first key).isLE = true := by
  rw [getKeyGE?_eq_find?_keys, List.find?_eq_some_iff_append] at hfirst
  obtain ⟨-, before, after, hkeys, hbefore⟩ := hfirst
  have hmem : key ∈ before ++ first :: after := by
    rw [← hkeys]
    exact Std.ExtTreeMap.mem_keys.2 hkey
  have hordered := hkeys ▸ map.ordered_keys
  rcases List.mem_append.1 hmem with hmem | hmem
  · have hlow := hbefore key hmem
    rw [hbound] at hlow
    cases hlow
  · rcases List.mem_cons.1 hmem with rfl | hmem
    · rw [Std.ReflOrd.compare_self]
      rfl
    · have hlt := List.rel_of_pairwise_cons (List.pairwise_append.1 hordered).2.1 hmem
      rw [hlt]
      rfl

theorem values_eq_map_toList (map : Std.ExtTreeMap α β) : map.values = map.toList.map (·.2) := by
  obtain ⟨⟨⟨map⟩⟩⟩ := map
  change Std.DTreeMap.Internal.Impl.values map.inner =
    (Std.DTreeMap.Internal.Impl.Const.toList map.inner).map (·.2)
  rw [Std.DTreeMap.Internal.Impl.values_eq_map_snd,
    Std.DTreeMap.Internal.Impl.Const.toList_eq_toListModel_map, List.map_map]
  rfl

theorem mem_values_iff [Std.LawfulEqOrd α] {map : Std.ExtTreeMap α β} {value : β} :
    value ∈ map.values ↔ ∃ key : α, map[key]? = some value := by
  simp only [values_eq_map_toList, List.mem_map, Prod.exists, exists_eq_right,
    Std.ExtTreeMap.mem_toList_iff_getElem?_eq_some]

theorem nodup_values [Std.LawfulEqOrd α] {map : Std.ExtTreeMap α β}
    (h : ∀ (key key' : α) (value : β), map[key]? = some value → map[key']? = some value → key = key') :
    map.values.Nodup := by
  rw [values_eq_map_toList]
  refine List.Nodup.map_on ?_ ?_
  · rintro ⟨key, value⟩ hmem ⟨key', value'⟩ hmem' (rfl : value = value')
    rw [Std.ExtTreeMap.mem_toList_iff_getElem?_eq_some] at hmem hmem'
    rw [h key key' value hmem hmem']
  · exact map.distinct_keys_toList.imp fun hne he => hne (by rw [he, Std.ReflOrd.compare_self])

end

/-! ### Page maps -/

theorem PageMap.insertNew_eq_ok {map pages : PageMap} {va : VirtualAddress} {key : Key Page} :
    map.insertNew va key = .ok pages ↔ map[va.number]? = none ∧ pages = map.insert va.number key := by
  unfold insertNew
  split
  · next htaken =>
    simp only [reduceCtorEq, false_iff, not_and]
    intro hfree
    rw [← Std.ExtTreeMap.isSome_getElem?_eq_contains, hfree] at htaken
    cases htaken
  · next hfree =>
    rw [← Std.ExtTreeMap.isSome_getElem?_eq_contains, Option.not_isSome_iff_eq_none] at hfree
    rw [hfree, Except.ok.injEq, eq_comm]
    exact (and_iff_right rfl).symm

theorem PageMap.insertNew_eq_error {map : PageMap} {va : VirtualAddress} {key : Key Page}
    {cause : VmError} :
    map.insertNew va key = .error cause ↔ map[va.number]? ≠ none ∧ cause = .alreadyMapped := by
  unfold insertNew
  split
  · next htaken =>
    rw [← Std.ExtTreeMap.isSome_getElem?_eq_contains, Option.isSome_iff_ne_none] at htaken
    rw [Except.error.injEq, eq_comm]
    exact (and_iff_right htaken).symm
  · next hfree =>
    rw [← Std.ExtTreeMap.isSome_getElem?_eq_contains, Option.not_isSome_iff_eq_none] at hfree
    simp only [reduceCtorEq, hfree, ne_eq, not_true_eq_false, false_and]

theorem Number.compare_eq {kind : AddressKind} (a b : Number kind) :
    compare a b = compare a.toNat b.toNat := rfl

theorem PageMap.isRangeFree_iff {map : PageMap} {start : PageNumber} {count : Nat} {free : Bool}
    (h : map.isRangeFree start count = .ok free) : free = true ↔
      ∀ n : PageNumber, start.toNat ≤ n.toNat → n.toNat < start.toNat + count → map[n]? = none := by
  have hbound : ∀ n : PageNumber, (compare n start).isGE = true ↔ start.toNat ≤ n.toNat := fun n => by
    rw [Number.compare_eq, Nat.isGE_compare]
  simp only [PageMap.isRangeFree, Number.add, bind_eq_ok, pure_eq_ok, Word.add_eq_ok] at h
  obtain ⟨stop, ⟨total, ⟨-, rfl⟩, rfl⟩, h⟩ := h
  cases hfirst : map.getKeyGE? start with
  | none =>
      rw [hfirst, pure_eq_ok] at h
      subst h
      rw [getKeyGE?_eq_find?_keys, List.find?_eq_none] at hfirst
      refine ⟨fun _ n hle _ => Std.ExtTreeMap.getElem?_eq_none fun hmem => ?_, fun _ => rfl⟩
      exact hfirst n (Std.ExtTreeMap.mem_keys.2 hmem) ((hbound n).2 hle)
  | some first =>
      rw [hfirst, pure_eq_ok] at h
      subst h
      rw [Bool.not_eq_true', decide_eq_false_iff_not]
      constructor
      · intro hbeyond n hle hlt
        refine Std.ExtTreeMap.getElem?_eq_none fun hmem => ?_
        have hfirst' := isLE_compare_getKeyGE? hfirst hmem ((hbound n).2 hle)
        rw [Number.compare_eq, Nat.isLE_compare] at hfirst'
        exact hbeyond (Nat.lt_of_le_of_lt hfirst' hlt)
      · intro hfree hlt
        rw [getKeyGE?_eq_find?_keys, List.find?_eq_some_iff_append] at hfirst
        obtain ⟨hge, before, after, hkeys, -⟩ := hfirst
        have hmem : first ∈ map := Std.ExtTreeMap.mem_keys.1 (by rw [hkeys]; simp)
        have hnone := hfree first ((hbound first).1 hge) hlt
        rw [Std.ExtTreeMap.getElem?_eq_some_getElem hmem] at hnone
        cases hnone

end DemandPaging
