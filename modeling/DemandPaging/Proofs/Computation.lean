import DemandPaging.Word
import Mathlib.Data.List.Forall2

/-!
Computations with internal checks that came to a result.

A chain of checks and computations gives a result exactly if every check held and every part gave
one. The equivalences here take such a chain apart from the front.
-/

namespace DemandPaging

variable {ε α β : Type}

theorem bind_eq_ok {computed : Except ε α} {next : α → Except ε β} {b : β} :
    computed >>= next = .ok b ↔ ∃ a, computed = .ok a ∧ next a = .ok b := by
  cases computed with
  | error cause =>
      constructor
      · intro h
        cases h
      · rintro ⟨a, h, -⟩
        cases h
  | ok a =>
      constructor
      · intro h
        exact ⟨a, rfl, h⟩
      · rintro ⟨_, ⟨⟩, h⟩
        exact h

theorem pure_eq_ok {a b : α} : (pure a : Except ε α) = .ok b ↔ a = b := by
  constructor
  · intro h
    cases h
    rfl
  · rintro rfl
    rfl

theorem map_eq_ok {f : α → β} {computed : Except ε α} {b : β} :
    computed.map f = .ok b ↔ ∃ a, computed = .ok a ∧ f a = b := by
  cases computed with
  | error cause =>
      constructor
      · intro h
        cases h
      · rintro ⟨a, h, -⟩
        cases h
  | ok a => simp [Except.map]

theorem throw_ne_ok {cause : ε} {b : α} : ¬(throw cause : Except ε α) = .ok b := by
  intro h
  cases h

theorem throw_bind_ne_ok {cause : ε} {next : α → Except ε β} {b : β} :
    ¬(throw cause >>= next) = .ok b := by
  intro h
  cases h

theorem require_eq_ok {c : Prop} [Decidable c] {cause : ε} {next : β → Except ε α}
    {rest : Except ε α} {b : α} :
    (if c then rest else throw cause >>= next) = .ok b ↔ c ∧ rest = .ok b := by
  by_cases h : c
  · rw [if_pos h]
    exact ⟨fun hrest => ⟨h, hrest⟩, And.right⟩
  · rw [if_neg h]
    exact ⟨fun hthrow => absurd hthrow throw_bind_ne_ok, fun hand => absurd hand.1 h⟩

theorem refuse_eq_ok {c : Prop} [Decidable c] {cause : ε} {next : β → Except ε α}
    {rest : Except ε α} {b : α} :
    (if c then throw cause >>= next else rest) = .ok b ↔ ¬c ∧ rest = .ok b := by
  by_cases h : c
  · rw [if_pos h]
    exact ⟨fun hthrow => absurd hthrow throw_bind_ne_ok, fun hand => absurd h hand.1⟩
  · rw [if_neg h]
    exact ⟨fun hrest => ⟨h, hrest⟩, And.right⟩

/-- Computing with every element of a list gives the results in order. -/
theorem mapM_eq_ok {f : α → Except ε β} {xs : List α} {ys : List β} :
    xs.mapM f = .ok ys ↔ List.Forall₂ (fun x y => f x = .ok y) xs ys := by
  induction xs generalizing ys with
  | nil =>
      rw [List.mapM_nil, pure_eq_ok, List.forall₂_nil_left_iff, eq_comm]
  | cons x xs ih =>
      simp only [List.mapM_cons, bind_eq_ok, pure_eq_ok, ih, List.forall₂_cons_left_iff]
      constructor
      · rintro ⟨y, hy, ys, hys, rfl⟩
        exact ⟨y, ys, hy, hys, rfl⟩
      · rintro ⟨y, ys, hy, hys, rfl⟩
        exact ⟨y, hy, ys, hys, rfl⟩

theorem mem_of_mapM_eq_ok {f : α → Except ε β} {xs : List α} {ys : List β}
    (h : xs.mapM f = .ok ys) {y : β} : y ∈ ys ↔ ∃ x ∈ xs, f x = .ok y := by
  have hall := mapM_eq_ok.1 h
  clear h
  induction hall with
  | nil => simp
  | cons hhead _ ih =>
      simp only [List.mem_cons, ih, or_and_right, exists_or, exists_eq_left, hhead,
        Except.ok.injEq, @eq_comm _ y]

theorem exists_of_mapM_eq_ok {f : α → Except ε β} {xs : List α} {ys : List β}
    (h : xs.mapM f = .ok ys) {x : α} (hx : x ∈ xs) : ∃ y ∈ ys, f x = .ok y := by
  have hall := mapM_eq_ok.1 h
  clear h
  induction hall with
  | nil => cases hx
  | @cons x' y' _ _ hhead _ ih =>
      rcases List.mem_cons.1 hx with rfl | hx
      · exact ⟨y', List.mem_cons_self, hhead⟩
      · obtain ⟨y, hy, hfound⟩ := ih hx
        exact ⟨y, List.mem_cons_of_mem _ hy, hfound⟩

theorem map_of_mapM_eq_ok {γ : Type} {f : α → Except ε β} {xs : List α} {ys : List β}
    {g : β → γ} {g' : α → γ} (h : xs.mapM f = .ok ys)
    (hsame : ∀ x ∈ xs, ∀ y, f x = .ok y → g y = g' x) : ys.map g = xs.map g' := by
  have hall := mapM_eq_ok.1 h
  clear h
  induction hall with
  | nil => rfl
  | cons hhead _ ih =>
      rw [List.map_cons, List.map_cons, hsame _ List.mem_cons_self _ hhead,
        ih fun x hx => hsame x (List.mem_cons_of_mem _ hx)]

theorem Word.add_eq_ok {a b n : Nat} : Word.add a b = .ok n ↔ a + b < Word.limit ∧ n = a + b := by
  unfold Word.add Word.add?
  split
  · next h => simp [Word.checked, h, eq_comm]
  · next h => simp [Word.checked, h]

theorem Word.mul_eq_ok {a b n : Nat} : Word.mul a b = .ok n ↔ a * b < Word.limit ∧ n = a * b := by
  unfold Word.mul Word.mul?
  split
  · next h => simp [Word.checked, h, eq_comm]
  · next h => simp [Word.checked, h]

end DemandPaging
