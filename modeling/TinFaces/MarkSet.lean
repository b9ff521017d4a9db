import TinFaces.Fault

/-!
# Mark sets

A walk remembers the edges it has claimed in a set of flags, one bit per edge
index, packed into 64-bit words. An index whose word exists can be read and set
even if it lies past the capacity that was asked for; beyond the last word
every access faults.

`isSet` is the view of a mark set as a plain predicate on indices, and
`isSet_mark` says what setting a flag does to it. `free` counts the flags that
are still clear; it is what makes a walk end (`free_lt_of_mark`).
-/

namespace TinFaces

/-- Flags for edge indices, 64 to a word. -/
structure MarkSet where
  /-- How many indices the set was made for. -/
  capacity : Nat
  words : Array (BitVec 64)
  size_words : words.size = (capacity + 63) / 64 := by simp
deriving DecidableEq

namespace MarkSet

/-- No flag set, with room for the indices below `capacity`. -/
def withCapacity (capacity : Nat) : MarkSet where
  capacity
  words := Array.replicate ((capacity + 63) / 64) 0

/-- No flag set, with room for every index up to `maxIndex + slack`. The words of
any count of flags can be addressed, so that needs no check. -/
def ofMaxIndex (maxIndex slack : Nat) : Except Fault MarkSet := do
  let upToMax ← addCounts maxIndex 1
  withCapacity <$> addCounts upToMax slack

/-- The flags as a predicate; past the last word nothing is set. -/
def isSet (marks : MarkSet) (i : Nat) : Bool :=
  match marks.words[i / 64]? with
  | some word => word.getLsbD (i % 64)
  | none => false

/-- Whether the flag of `i` is set. -/
def isMarked (marks : MarkSet) (i : Nat) : Except Fault Bool :=
  (·.getLsbD (i % 64)) <$> readAt marks.words (i / 64)

/-- Sets the flag of `i`. -/
def mark (marks : MarkSet) (i : Nat) : Except Fault MarkSet :=
  if h : i / 64 < marks.words.size then
    .ok { marks with
      words := marks.words.set (i / 64) (marks.words[i / 64] ||| BitVec.twoPow 64 (i % 64))
      size_words := by simp [marks.size_words] }
  else .error (.outOfBounds marks.words.size (i / 64))

/-- Sets flags one by one, up to the first that has no word. -/
def markAll (marks : MarkSet) (is : List Nat) : Outcome MarkSet :=
  .ofSteps marks (is.map fun i marks => marks.mark i)

/-- How many flags are set. -/
def count (marks : MarkSet) : Nat :=
  (marks.words.toList.map fun word => word.cpop.toNat).foldr (· + ·) 0

/-- The set indices below the capacity, in ascending order. -/
def marked (marks : MarkSet) : List Nat :=
  (List.range marks.capacity).filter marks.isSet

/-- How many flags are clear. -/
def free (marks : MarkSet) : Nat :=
  (List.range (64 * marks.words.size)).countP fun i => !marks.isSet i

/-! ## Reading and setting through the view -/

@[simp] theorem isSet_withCapacity (capacity i : Nat) :
    (withCapacity capacity).isSet i = false := by
  unfold isSet withCapacity
  split
  · next h =>
      obtain ⟨hlt, hget⟩ := Array.getElem?_eq_some_iff.1 h
      simp [← hget]
  · rfl

theorem isMarked_eq_ok_iff {marks : MarkSet} {i : Nat} {b : Bool} :
    marks.isMarked i = .ok b ↔ i / 64 < marks.words.size ∧ marks.isSet i = b := by
  unfold isMarked isSet readAt
  by_cases h : i / 64 < marks.words.size
  · simp [h, Functor.map, Except.map]
  · simp [h, Functor.map, Except.map]

theorem size_of_mark {marks marks' : MarkSet} {i : Nat} (h : marks.mark i = .ok marks') :
    marks'.words.size = marks.words.size := by
  unfold mark at h
  split at h
  · cases h
    simp
  · cases h

theorem isSet_mark {marks marks' : MarkSet} {i : Nat} (h : marks.mark i = .ok marks') (j : Nat) :
    marks'.isSet j = (decide (j = i) || marks.isSet j) := by
  unfold mark at h
  split at h
  case isFalse => cases h
  case isTrue hi =>
    cases h
    by_cases hw : i / 64 = j / 64
    · have hj : j / 64 < marks.words.size := hw ▸ hi
      have hb : i % 64 < 64 := Nat.mod_lt _ (by decide)
      have hij : (i % 64 = j % 64) ↔ j = i := by omega
      simp [isSet, hw, hj, hb, hij, Bool.or_comm]
    · have hij : ¬ j = i := fun e => hw (by rw [e])
      simp [isSet, hw, hij]

/-! ## Clear flags run out -/

private theorem countP_lt_of_mem {α : Type} {p q : α → Bool} {xs : List α} {a : α}
    (ha : a ∈ xs) (hp : p a = true) (hq : q a = false)
    (hle : ∀ x ∈ xs, q x = true → p x = true) : xs.countP q < xs.countP p := by
  induction xs with
  | nil => cases ha
  | cons x xs ih =>
      have hrest : ∀ y ∈ xs, q y = true → p y = true :=
        fun y hy => hle y (List.mem_cons_of_mem _ hy)
      rcases List.mem_cons.1 ha with rfl | hmem
      · have := List.countP_mono_left hrest
        simp [hp, hq]
        omega
      · have hlt := ih hmem hrest
        have hx := hle x List.mem_cons_self
        by_cases hqx : q x = true
        · simp [hqx, hx hqx, hlt]
        · simp only [List.countP_cons, hqx]
          simp
          omega

theorem free_le_of_mark {marks marks' : MarkSet} {i : Nat} (h : marks.mark i = .ok marks') :
    marks'.free ≤ marks.free := by
  unfold free
  rw [size_of_mark h]
  refine List.countP_mono_left fun j _ hj => ?_
  simp_all [isSet_mark h]

theorem free_lt_of_mark {marks marks' : MarkSet} {i : Nat}
    (hclear : marks.isMarked i = .ok false) (h : marks.mark i = .ok marks') :
    marks'.free < marks.free := by
  obtain ⟨hi, hset⟩ := isMarked_eq_ok_iff.1 hclear
  unfold free
  rw [size_of_mark h]
  refine countP_lt_of_mem (a := i) (List.mem_range.2 (by omega)) ?_ ?_ fun j _ hj => ?_
  · simp [hset]
  · simp [isSet_mark h]
  · simp_all [isSet_mark h]

end MarkSet

end TinFaces
