import Mathlib.Data.List.Nodup
import TinFaces.Proofs.Registry

/-!
# First offences

A check that goes through a list stops at the first element with which something is wrong, and its
error is about that one. `IsFirst` says which element that is. What is wrong with an element may
depend on those before it, as when none may come up twice; so a list is taken apart from the front,
and what was passed is remembered (`isFirst_cons_iff`).

A function that is mapped over a list and may fail is such a check (`mapM_eq_error_iff`), and so is
a search (`find?_eq_some_iff_isFirst`).
-/

namespace TinFaces

theorem bind_eq_error_iff {ε α β : Type} {x : Except ε α} {f : α → Except ε β} {error : ε} :
    (x >>= f) = .error error ↔ x = .error error ∨ ∃ a, x = .ok a ∧ f a = .error error := by
  cases x <;> simp [bind, Except.bind]

variable {α β ε : Type}

/-- Whether there is nothing wrong with any element of a list, given those before it. -/
def AllRight (Wrong : List α → α → Prop) (xs : List α) : Prop :=
  ∀ before x after, xs = before ++ x :: after → ¬ Wrong before x

/-- Whether `x`, with `before` in front of it, is the first element of a list with which something
is wrong. -/
structure IsFirst (Wrong : List α → α → Prop) (xs before : List α) (x : α) : Prop where
  split : ∃ after, xs = before ++ x :: after
  wrong : Wrong before x
  right : AllRight Wrong before

variable {Wrong Wrong' : List α → α → Prop} {xs ys before : List α} {x y : α}

theorem not_isFirst_nil : ¬ IsFirst Wrong [] before x := by
  rintro ⟨⟨after, hsplit⟩, _, _⟩
  simp at hsplit

theorem allRight_nil : AllRight Wrong [] := by
  intro before x after hsplit
  simp at hsplit

theorem allRight_cons_iff : AllRight Wrong (y :: ys) ↔
    ¬ Wrong [] y ∧ AllRight (fun earlier => Wrong (y :: earlier)) ys := by
  constructor
  · intro h
    exact ⟨h [] y ys rfl, fun before x after hsplit => h (y :: before) x after (by simp [hsplit])⟩
  · rintro ⟨hhead, htail⟩ before x after hsplit
    rcases List.cons_eq_append_iff.1 hsplit with ⟨rfl, hcons⟩ | ⟨before, rfl, hrest⟩
    · cases hcons
      exact hhead
    · exact htail before x after hrest

/-- Only what is wrong at the places of the list matters. -/
theorem allRight_congr
    (h : ∀ before x after, xs = before ++ x :: after → (Wrong before x ↔ Wrong' before x)) :
    AllRight Wrong xs ↔ AllRight Wrong' xs :=
  forall₃_congr fun before x after =>
    forall_congr' fun hsplit => not_congr (h before x after hsplit)

/-- What is wrong with an element by itself. -/
theorem allRight_iff_forall {P : α → Prop} : AllRight (fun _ x => P x) xs ↔ ∀ x ∈ xs, ¬ P x := by
  induction xs with
  | nil => simp [allRight_nil]
  | cons y ys ih => simp [allRight_cons_iff, ih]

/-- The head is the first, or it is right and the first comes after it. -/
theorem isFirst_cons_iff : IsFirst Wrong (y :: ys) before x ↔
    before = [] ∧ x = y ∧ Wrong [] y ∨
      ¬ Wrong [] y ∧ ∃ earlier, before = y :: earlier ∧
        IsFirst (fun earlier => Wrong (y :: earlier)) ys earlier x := by
  constructor
  · rintro ⟨⟨after, hsplit⟩, hwrong, hright⟩
    rcases List.cons_eq_append_iff.1 hsplit with ⟨rfl, hcons⟩ | ⟨earlier, rfl, hrest⟩
    · cases hcons
      exact .inl ⟨rfl, rfl, hwrong⟩
    · obtain ⟨hhead, htail⟩ := allRight_cons_iff.1 hright
      exact .inr ⟨hhead, earlier, rfl, ⟨after, hrest⟩, hwrong, htail⟩
  · rintro (⟨rfl, rfl, hwrong⟩ | ⟨hhead, earlier, rfl, ⟨after, rfl⟩, hwrong, htail⟩)
    · exact ⟨⟨ys, rfl⟩, hwrong, allRight_nil⟩
    · exact ⟨⟨after, rfl⟩, hwrong, allRight_cons_iff.2 ⟨hhead, htail⟩⟩

/-- What holds of the first offence is told by the head or by the rest. -/
theorem exists_isFirst_cons_iff {P : List α → α → Prop} :
    (∃ before x, IsFirst Wrong (y :: ys) before x ∧ P before x) ↔ Wrong [] y ∧ P [] y ∨
      ¬ Wrong [] y ∧ ∃ before x,
        IsFirst (fun earlier => Wrong (y :: earlier)) ys before x ∧ P (y :: before) x := by
  simp only [isFirst_cons_iff]
  constructor
  · rintro ⟨before, x, ⟨rfl, rfl, hwrong⟩ | ⟨hhead, earlier, rfl, hfirst⟩, h⟩
    · exact .inl ⟨hwrong, h⟩
    · exact .inr ⟨hhead, earlier, x, hfirst, h⟩
  · rintro (⟨hwrong, h⟩ | ⟨hhead, earlier, x, hfirst, h⟩)
    · exact ⟨[], y, .inl ⟨rfl, rfl, hwrong⟩, h⟩
    · exact ⟨y :: earlier, x, .inr ⟨hhead, earlier, rfl, hfirst⟩, h⟩

/-- It is told by the first part of a list, or by the second if the first is right. -/
theorem exists_isFirst_append_iff {P : List α → α → Prop} :
    (∃ before x, IsFirst Wrong (xs ++ ys) before x ∧ P before x) ↔
      (∃ before x, IsFirst Wrong xs before x ∧ P before x) ∨ AllRight Wrong xs ∧ ∃ before x,
        IsFirst (fun earlier => Wrong (xs ++ earlier)) ys before x ∧ P (xs ++ before) x := by
  induction xs generalizing Wrong P with
  | nil => simp [not_isFirst_nil, allRight_nil]
  | cons z zs ih =>
      simp only [List.cons_append, exists_isFirst_cons_iff, ih, allRight_cons_iff, and_or_left,
        or_assoc, and_assoc]

theorem isFirst_congr
    (h : ∀ before x after, xs = before ++ x :: after → (Wrong before x ↔ Wrong' before x)) :
    IsFirst Wrong xs before x ↔ IsFirst Wrong' xs before x := by
  have hpart : ∀ {W W' : List α → α → Prop},
      (∀ before x after, xs = before ++ x :: after → (W before x ↔ W' before x)) →
        IsFirst W xs before x → IsFirst W' xs before x := by
    rintro W W' h ⟨⟨after, rfl⟩, hwrong, hright⟩
    refine ⟨⟨after, rfl⟩, (h before x after rfl).1 hwrong, (allRight_congr ?_).1 hright⟩
    rintro earlier y later rfl
    exact h earlier y (later ++ x :: after) (by simp)
  exact ⟨hpart h, hpart fun before x after hsplit => (h before x after hsplit).symm⟩

/-- A search finds the first element that is looked for. -/
theorem find?_eq_some_iff_isFirst {p : α → Bool} :
    xs.find? p = some x ↔ ∃ before, IsFirst (fun _ y => p y = true) xs before x := by
  induction xs with
  | nil => simp [not_isFirst_nil]
  | cons y ys ih =>
      simp only [isFirst_cons_iff, List.find?_cons]
      cases hy : p y with
      | true =>
          simp only [Option.some.injEq, and_true, not_true, false_and, or_false, exists_eq_left]
          exact eq_comm
      | false => simp [ih]

/-! ## Fallible maps -/

section MapM

variable {f : α → Except ε β}

/-- A fallible function fails on a list as it fails on the first element on which it does. -/
theorem mapM_eq_error_iff {error : ε} : xs.mapM f = .error error ↔
    ∃ before x, IsFirst (fun _ y => ¬ ∃ z, f y = .ok z) xs before x ∧ f x = .error error := by
  induction xs with
  | nil => simp [not_isFirst_nil, pure, Except.pure]
  | cons y ys ih =>
      rw [exists_isFirst_cons_iff, ← ih, List.mapM_cons]
      cases hy : f y with
      | error other => simp [bind, Except.bind]
      | ok z => cases hys : ys.mapM f <;> simp [bind, Except.bind, pure, Except.pure]

theorem exists_mapM_eq_ok_iff :
    (∃ ys, xs.mapM f = .ok ys) ↔ ∀ x ∈ xs, ∃ y, f x = .ok y := by
  simp only [mapM_eq_ok_iff]
  constructor
  · rintro ⟨ys, hforall⟩ x hx
    obtain ⟨y, _, hy⟩ := exists_mem_of_forall₂ hforall hx
    exact ⟨y, hy⟩
  · intro hall
    induction xs with
    | nil => exact ⟨[], .nil⟩
    | cons x xs ih =>
        obtain ⟨y, hy⟩ := hall x List.mem_cons_self
        obtain ⟨ys, hys⟩ := ih fun x hx => hall x (List.mem_cons_of_mem _ hx)
        exact ⟨y :: ys, .cons hy hys⟩

end MapM

end TinFaces
