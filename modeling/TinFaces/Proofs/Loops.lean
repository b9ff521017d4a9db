import Mathlib.Data.List.Rotate

/-!
# Loops

A list of different things can be read as a loop: each leads on to the next, and the last
one back to the first. The pairs `loop.zip (loop.rotate 1)` are the steps of the loop.

* A property that every step keeps holds everywhere on the loop if it holds somewhere
  (`Loop.forall_mem_of_closed`).
* A loop that starts elsewhere has the same steps, turned as far (`Loop.zip_rotate`), and
  a loop that is run backwards has them backwards (`Loop.mem_reverse_iff`).
* On a loop of three or more, two steps do not lead back (`Loop.ne_of_mem`).
-/

namespace TinFaces

namespace Loop

variable {α : Type} {loop : List α} {a b c : α}

/-! ## Going round -/

/-- A property that one step along consecutive elements keeps holds from the
first on. -/
private theorem forall_mem_of_zip_closed {P : α → Prop} {l r : List α} (ha : P a)
    (hstep : ∀ x y, (x, y) ∈ (a :: l).zip (l ++ r) → P x → P y) : ∀ b ∈ l, P b := by
  induction l generalizing a with
  | nil => exact fun _ hb => absurd hb List.not_mem_nil
  | cons c l ih =>
      have hc : P c := hstep a c List.mem_cons_self ha
      intro b hb
      rcases List.mem_cons.1 hb with rfl | hb
      · exact hc
      · exact ih hc (fun x y hxy => hstep x y (List.mem_cons_of_mem _ hxy)) b hb

/-- A property that is kept along a loop and holds somewhere on it holds
everywhere on it. -/
theorem forall_mem_of_closed {P : α → Prop} (hmem : a ∈ loop) (ha : P a)
    (hstep : ∀ x y, (x, y) ∈ loop.zip (loop.rotate 1) → P x → P y) : ∀ b ∈ loop, P b := by
  obtain ⟨s, t, rfl⟩ := List.append_of_mem hmem
  have hturn : (s ++ a :: t).rotate s.length = a :: (t ++ s) := by
    rw [List.rotate_append_length_eq, List.cons_append]
  have hzip : (a :: (t ++ s)).zip (t ++ s ++ [a]) =
      ((s ++ a :: t).zip ((s ++ a :: t).rotate 1)).rotate s.length := by
    have hdistrib := List.zipWith_rotate_distrib Prod.mk (s ++ a :: t)
      ((s ++ a :: t).rotate 1) s.length (List.length_rotate _ _).symm
    rw [List.rotate_rotate, Nat.add_comm 1, ← List.rotate_rotate, hturn, List.rotate_cons_succ,
      List.rotate_zero] at hdistrib
    exact hdistrib.symm
  have hall : ∀ b ∈ t ++ s, P b := by
    refine forall_mem_of_zip_closed (r := [a]) ha fun x y hxy => hstep x y ?_
    rw [hzip] at hxy
    exact List.mem_rotate.1 hxy
  intro b hb
  rcases List.mem_append.1 hb with hb | hb
  · exact hall b (List.mem_append_right _ hb)
  · rcases List.mem_cons.1 hb with rfl | hb
    · exact ha
    · exact hall b (List.mem_append_left _ hb)

/-! ## Steps -/

theorem map_fst_zip (loop : List α) : (loop.zip (loop.rotate 1)).map Prod.fst = loop :=
  List.map_fst_zip (by rw [List.length_rotate])

theorem map_snd_zip (loop : List α) :
    (loop.zip (loop.rotate 1)).map Prod.snd = loop.rotate 1 :=
  List.map_snd_zip (by rw [List.length_rotate])

/-- A step starts and ends on the loop. -/
theorem mem_of_mem_zip (h : (a, b) ∈ loop.zip (loop.rotate 1)) : a ∈ loop ∧ b ∈ loop := by
  obtain ⟨ha, hb⟩ := List.of_mem_zip h
  exact ⟨ha, List.mem_rotate.1 hb⟩

/-- One step starts at each element. -/
theorem next_unique (hnodup : loop.Nodup) (hab : (a, b) ∈ loop.zip (loop.rotate 1))
    (hac : (a, c) ∈ loop.zip (loop.rotate 1)) : b = c := by
  rw [← map_fst_zip loop] at hnodup
  exact congrArg Prod.snd (List.inj_on_of_nodup_map hnodup hab hac rfl)

/-- One step ends at each element. -/
theorem previous_unique (hnodup : loop.Nodup) (hac : (a, c) ∈ loop.zip (loop.rotate 1))
    (hbc : (b, c) ∈ loop.zip (loop.rotate 1)) : a = b := by
  rw [← List.nodup_rotate (n := 1), ← map_snd_zip loop] at hnodup
  exact congrArg Prod.fst (List.inj_on_of_nodup_map hnodup hac hbc rfl)

/-- A step leads from some position to the next. -/
theorem mem_zip_iff : (a, b) ∈ loop.zip (loop.rotate 1) ↔
    ∃ i < loop.length, loop[i]? = some a ∧ loop[(i + 1) % loop.length]? = some b := by
  rw [List.mem_iff_getElem?]
  simp only [List.getElem?_zip_eq_some]
  constructor
  · intro hmem
    obtain ⟨i, ha, hb⟩ := hmem
    have hi : i < loop.length := (List.getElem?_eq_some_iff.1 ha).1
    rw [List.getElem?_rotate hi] at hb
    exact ⟨i, hi, ha, hb⟩
  · intro hmem
    obtain ⟨i, hi, ha, hb⟩ := hmem
    rw [← List.getElem?_rotate hi] at hb
    exact ⟨i, ha, hb⟩

/-- The position after `i`. -/
private theorem next_position {i n : Nat} (hi : i < n) :
    (i + 1) % n = if i + 1 = n then 0 else i + 1 := by
  split
  · next hlast => rw [hlast, Nat.mod_self]
  · exact Nat.mod_eq_of_lt (by omega)

/-- A loop that starts elsewhere has the same steps. -/
theorem zip_rotate (loop : List α) (k : Nat) :
    (loop.rotate k).zip ((loop.rotate k).rotate 1) = (loop.zip (loop.rotate 1)).rotate k := by
  rw [List.rotate_rotate, Nat.add_comm, ← List.rotate_rotate]
  exact (List.zipWith_rotate_distrib Prod.mk loop (loop.rotate 1) k
    (List.length_rotate _ _).symm).symm

private theorem mem_of_mem_reverse (h : (a, b) ∈ loop.reverse.zip (loop.reverse.rotate 1)) :
    (b, a) ∈ loop.zip (loop.rotate 1) := by
  obtain ⟨i, hi, ha, hb⟩ := mem_zip_iff.1 h
  rw [List.length_reverse] at hi hb
  have hnext : (i + 1) % loop.length < loop.length := Nat.mod_lt _ (by omega)
  rw [List.getElem?_reverse hi] at ha
  rw [List.getElem?_reverse hnext] at hb
  refine mem_zip_iff.2 ⟨_, by omega, hb, ?_⟩
  rw [next_position (by omega), ← ha]
  congr 1
  rw [next_position hi] at hnext ⊢
  split <;> split <;> omega

/-- A loop that is run backwards has the steps backwards. -/
theorem mem_reverse_iff : (a, b) ∈ loop.reverse.zip (loop.reverse.rotate 1) ↔
    (b, a) ∈ loop.zip (loop.rotate 1) := by
  refine ⟨mem_of_mem_reverse, fun h => mem_of_mem_reverse ?_⟩
  rwa [List.reverse_reverse]

/-- Two steps of a loop do not lead back, unless it is too short. -/
theorem ne_of_mem (hnodup : loop.Nodup) (hlength : 3 ≤ loop.length)
    (hab : (a, b) ∈ loop.zip (loop.rotate 1)) (hbc : (b, c) ∈ loop.zip (loop.rotate 1)) :
    a ≠ c := by
  rintro rfl
  obtain ⟨i, hi, ha, hb⟩ := mem_zip_iff.1 hab
  obtain ⟨j, hj, hb', ha'⟩ := mem_zip_iff.1 hbc
  have hthere : (i + 1) % loop.length = j :=
    (List.getElem?_inj (Nat.mod_lt _ (by omega)) hnodup).1 (hb.trans hb'.symm)
  have hback : (j + 1) % loop.length = i :=
    (List.getElem?_inj (Nat.mod_lt _ (by omega)) hnodup).1 (ha'.trans ha.symm)
  rw [next_position hi] at hthere
  rw [next_position hj] at hback
  split at hthere <;> split at hback <;> omega

end Loop

end TinFaces
