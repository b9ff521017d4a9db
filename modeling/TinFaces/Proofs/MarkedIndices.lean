import Mathlib.Algebra.Order.Floor.Div
import Mathlib.Data.Finset.Card
import Mathlib.Data.Finset.Dedup
import Mathlib.GroupTheory.GroupAction.Ring
import TinFaces.Proofs.Lawful

/-!
# Marks as a finite set of indices

The flags of a mark set are bits of words, but a caller sees a finite set of indices
(`MarkSet.StandsFor`): the set says which flags are read as set, how many there are, and what the
next call makes of them. Marking an index adds it to the set (`StandsFor.mark`); marking several
adds those before the first that has no word (`StandsFor.markAll`). So after any calls the set is
that of the indices whose marking was executed (`MarkSet.made_marks_answer`).

The words are counted out in `count_eq_countP`: the bits of all words are the flags of the indices
in order, none of them twice.
-/

namespace TinFaces

namespace MarkSet

variable {marks marks' : MarkSet} {words : Nat} {S : Finset Nat}

/-! ## Counting bits -/

/-- The number of set bits of a word, counted one by one. -/
theorem toNat_cpop_eq_countP {w : Nat} (word : BitVec w) :
    word.cpop.toNat = (List.range w).countP word.getLsbD := by
  have hbits : ∀ n, word.cpopNatRec n 0 = (List.range n).countP word.getLsbD := by
    intro n
    induction n with
    | zero => rfl
    | succ n ih =>
        rw [BitVec.cpopNatRec_succ, BitVec.cpopNatRec_add, ih, List.range_succ,
          List.countP_append]
        cases hbit : word.getLsbD n <;> simp [hbit]
  rw [BitVec.toNat_cpop, hbits]

/-- The bits of a list of words, counted through one numbering. -/
theorem sum_cpop_eq_countP (ws : List (BitVec 64)) :
    (ws.map fun word => word.cpop.toNat).foldr (· + ·) 0 =
      (List.range (64 * ws.length)).countP fun i =>
        ws[i / 64]?.any fun word => word.getLsbD (i % 64) := by
  induction ws with
  | nil => rfl
  | cons word ws ih =>
      -- the first word numbers its bits as they are, the others 64 further on
      have hfirst : (List.range 64).countP word.getLsbD = (List.range 64).countP fun i =>
          (word :: ws)[i / 64]?.any fun word => word.getLsbD (i % 64) := by
        refine List.countP_congr fun i hi => ?_
        have hlt : i < 64 := List.mem_range.1 hi
        simp [Nat.div_eq_of_lt hlt, Nat.mod_eq_of_lt hlt]
      have hrest : ∀ i, (64 + i) / 64 = i / 64 + 1 ∧ (64 + i) % 64 = i % 64 := by omega
      have hlength : 64 * (word :: ws).length = 64 + 64 * ws.length := by
        rw [List.length_cons]
        omega
      rw [hlength, List.range_add, List.countP_append, ← hfirst, List.countP_map, List.map_cons,
        List.foldr_cons, ih, toNat_cpop_eq_countP]
      simp [Function.comp_def, hrest]

/-- The set flags, counted index by index. -/
theorem count_eq_countP (marks : MarkSet) :
    marks.count = (List.range (64 * marks.words.size)).countP marks.isSet := by
  have hisSet : ∀ i, (marks.words.toList[i / 64]?.any fun word => word.getLsbD (i % 64)) =
      marks.isSet i := by
    intro i
    unfold isSet
    rw [Array.getElem?_toList]
    cases marks.words[i / 64]? <;> rfl
  unfold count
  rw [sum_cpop_eq_countP, Array.length_toList]
  simp only [hisSet]

/-! ## The set of the set flags -/

/-- The marks have so many words, and the flags that are set are those of `S`. -/
structure StandsFor (marks : MarkSet) (words : Nat) (S : Finset Nat) : Prop where
  size_eq : marks.words.size = words
  isSet_iff : ∀ i, marks.isSet i = true ↔ i ∈ S

/-- Only an index with a word can be set. -/
theorem StandsFor.lt (h : marks.StandsFor words S) {i : Nat} (hi : i ∈ S) : i / 64 < words := by
  have hset := (h.isSet_iff i).2 hi
  unfold isSet at hset
  split at hset
  · next hword =>
      rw [← h.size_eq]
      exact (Array.getElem?_eq_some_iff.1 hword).1
  · cases hset

theorem StandsFor.count_eq (h : marks.StandsFor words S) : marks.count = S.card := by
  have hset : ((List.range (64 * words)).filter marks.isSet).toFinset = S := by
    ext i
    rw [List.mem_toFinset, List.mem_filter, List.mem_range, h.isSet_iff]
    refine ⟨fun hi => hi.2, fun hi => ⟨?_, hi⟩⟩
    have hlt := h.lt hi
    omega
  rw [count_eq_countP, h.size_eq, List.countP_eq_length_filter,
    ← List.toFinset_card_of_nodup (List.nodup_range.filter _), hset]

/-- A new mark set has a word for each index that it was made for, and no flag is set. -/
theorem standsFor_withCapacity (capacity : Nat) :
    (withCapacity capacity).StandsFor (capacity ⌈/⌉ 64) ∅ where
  size_eq := by
    rw [size_words_withCapacity, Nat.ceilDiv_eq_add_pred_div]
    rfl
  isSet_iff i := by simp

/-- Marking an index adds it to the set. -/
theorem StandsFor.mark (h : marks.StandsFor words S) {i : Nat} (hmark : marks.mark i = .ok marks') :
    marks'.StandsFor words (insert i S) where
  size_eq := (size_of_mark hmark).trans h.size_eq
  isSet_iff j := by
    rw [isSet_mark hmark, Bool.or_eq_true, decide_eq_true_eq, h.isSet_iff, Finset.mem_insert]

/-! ## Marking several indices -/

theorem markAll_cons (marks : MarkSet) (i : Nat) (rest : List Nat) :
    marks.markAll (i :: rest) =
      match marks.mark i with
      | .ok marks => marks.markAll rest
      | .error fault => ⟨marks, some fault⟩ := by
  unfold markAll
  rw [List.map_cons, Outcome.ofSteps]
  cases marks.mark i <;> rfl

/-- The indices of a list whose marking is executed. They are marked in turn, up to the first
that faults. -/
def executed (marks : MarkSet) : List Nat → List Nat
  | [] => []
  | i :: rest =>
      match marks.mark i with
      | .ok marks => i :: marks.executed rest
      | .error _ => []

/-- The indices that are marked are added to the set. -/
theorem StandsFor.markAll (h : marks.StandsFor words S) (is : List Nat) :
    (marks.markAll is).value.StandsFor words (S ∪ (marks.executed is).toFinset) := by
  induction is generalizing marks S with
  | nil => simpa [executed, MarkSet.markAll, Outcome.ofSteps] using h
  | cons i rest ih =>
      rw [markAll_cons, executed]
      cases hmark : marks.mark i with
      | error fault => simpa using h
      | ok marked =>
          have hrest := ih (h.mark hmark)
          rwa [Finset.insert_union, ← Finset.union_insert, ← List.toFinset_cons] at hrest

/-- If all indices have words, all are marked. -/
theorem StandsFor.executed_eq (h : marks.StandsFor words S) {is : List Nat}
    (his : ∀ i ∈ is, i / 64 < words) :
    marks.executed is = is ∧ (marks.markAll is).fault? = none := by
  induction is generalizing marks S with
  | nil => exact ⟨rfl, rfl⟩
  | cons i rest ih =>
      obtain ⟨hi, hrest⟩ := List.forall_mem_cons.1 his
      obtain ⟨marked, hmark⟩ := exists_mark (h.size_eq ▸ hi)
      obtain ⟨hexecuted, hfault⟩ := ih (h.mark hmark) hrest
      rw [executed, markAll_cons, hmark]
      exact ⟨congrArg (i :: ·) hexecuted, hfault⟩

/-- The first index without a word ends the marking, and only those before it are marked. -/
theorem StandsFor.executed_of_fault (h : marks.StandsFor words S) {before after : List Nat}
    {i : Nat} (hbefore : ∀ j ∈ before, j / 64 < words) (hi : words ≤ i / 64) :
    marks.executed (before ++ i :: after) = before ∧
      (marks.markAll (before ++ i :: after)).fault? = some (.outOfBounds words (i / 64)) := by
  induction before generalizing marks S with
  | nil =>
      have hmark : marks.mark i = .error (.outOfBounds words (i / 64)) :=
        mark_eq_error_iff.2 ⟨h.size_eq ▸ hi, by rw [h.size_eq]⟩
      rw [List.nil_append, executed, markAll_cons, hmark]
      exact ⟨rfl, rfl⟩
  | cons j before ih =>
      obtain ⟨hj, hrest⟩ := List.forall_mem_cons.1 hbefore
      obtain ⟨marked, hmark⟩ := exists_mark (h.size_eq ▸ hj)
      obtain ⟨hexecuted, hfault⟩ := ih (h.mark hmark) hrest
      rw [List.cons_append, executed, markAll_cons, hmark]
      exact ⟨congrArg (j :: ·) hexecuted, hfault⟩

/-! ## Calls -/

/-- A call that sets flags: that of one index, or those of the three edges of a face. -/
inductive Call where
  | mark (i : Nat)
  | markFace (indices : Triangle Nat)

/-- The indices that a call marks in turn. -/
def Call.indices : Call → List Nat
  | mark i => [i]
  | markFace indices => indices.toList

/-- The marks that some calls in turn leave. One that faults leaves what it had set. -/
def afterCalls (marks : MarkSet) (calls : List Call) : MarkSet :=
  calls.foldl (fun marks call => (marks.markAll call.indices).value) marks

/-- The indices whose marking some calls executed, in order. -/
def history (marks : MarkSet) : List Call → List Nat
  | [] => []
  | call :: rest =>
      marks.executed call.indices ++ (marks.markAll call.indices).value.history rest

theorem StandsFor.afterCalls (h : marks.StandsFor words S) (calls : List Call) :
    (marks.afterCalls calls).StandsFor words (S ∪ (marks.history calls).toFinset) := by
  induction calls generalizing marks S with
  | nil => simpa [MarkSet.afterCalls, history] using h
  | cons call rest ih =>
      have hrest := ih (h.markAll call.indices)
      rwa [Finset.union_assoc, ← List.toFinset_append] at hrest

/-! ## What the marks answer -/

/-- What marks with so many words answer that stand for `S`, and what the next call makes of
them. -/
structure Answers (marks : MarkSet) (words : Nat) (S : Finset Nat) : Prop where
  /-- An index past the last word can be neither read nor marked. -/
  isMarked_faults : ∀ i, (∃ fault, marks.isMarked i = .error fault) ↔ words ≤ i / 64
  mark_faults : ∀ i, (∃ fault, marks.mark i = .error fault) ↔ words ≤ i / 64
  isMarked_eq : ∀ i, i / 64 < words → marks.isMarked i = .ok (decide (i ∈ S))
  count_eq : marks.count = S.card
  /-- The number is one of 64 bits as long as any flag is clear. -/
  count_le : (∃ i < UInt64.size, i ∉ S) → marks.count ≤ maxCount
  /-- Marking the edges of a face goes through if they all have words. -/
  markFace : ∀ face : Triangle Nat, (∀ i ∈ face.toList, i / 64 < words) →
    (marks.markAll face.toList).fault? = none ∧
      ∀ j, (marks.markAll face.toList).value.isSet j = true ↔ j ∈ S ∨ j ∈ face.toList
  /-- Otherwise the edges before the first without a word are marked, and no flag changes
  besides. -/
  markFace_faults : ∀ (face : Triangle Nat) (before : List Nat) (i : Nat) (after : List Nat),
    face.toList = before ++ i :: after → (∀ j ∈ before, j / 64 < words) → words ≤ i / 64 →
      (marks.markAll face.toList).fault? = some (.outOfBounds words (i / 64)) ∧
        ∀ j, (marks.markAll face.toList).value.isSet j = true ↔ j ∈ S ∨ j ∈ before

theorem StandsFor.count_le (h : marks.StandsFor words S) (hwords : 64 * words ≤ UInt64.size)
    {i : Nat} (hi : i < UInt64.size) (hclear : i ∉ S) : marks.count ≤ maxCount := by
  have hsub : S ⊆ (Finset.range UInt64.size).erase i := by
    intro j hj
    have hlt := h.lt hj
    refine Finset.mem_erase.2 ⟨fun heq => hclear (heq ▸ hj), Finset.mem_range.2 ?_⟩
    omega
  have hcard := Finset.card_le_card hsub
  rw [Finset.card_erase_of_mem (Finset.mem_range.2 hi), Finset.card_range] at hcard
  rw [h.count_eq]
  exact hcard

theorem StandsFor.answers (h : marks.StandsFor words S) (hwords : 64 * words ≤ UInt64.size) :
    marks.Answers words S where
  isMarked_faults i := by simp [isMarked_eq_error_iff, h.size_eq]
  mark_faults i := by simp [mark_eq_error_iff, h.size_eq]
  isMarked_eq i hi := by
    refine isMarked_eq_ok_iff.2 ⟨h.size_eq ▸ hi, ?_⟩
    rw [Bool.eq_iff_iff, h.isSet_iff, decide_eq_true_eq]
  count_eq := h.count_eq
  count_le := by
    rintro ⟨i, hi, hclear⟩
    exact h.count_le hwords hi hclear
  markFace face hface := by
    obtain ⟨hexecuted, hfault⟩ := h.executed_eq hface
    refine ⟨hfault, fun j => ?_⟩
    rw [(h.markAll face.toList).isSet_iff, hexecuted, Finset.mem_union, List.mem_toFinset]
  markFace_faults face before i after hsplit hbefore hi := by
    rw [hsplit]
    obtain ⟨hexecuted, hfault⟩ : marks.executed (before ++ i :: after) = before ∧
        (marks.markAll (before ++ i :: after)).fault? = some (.outOfBounds words (i / 64)) :=
      h.executed_of_fault hbefore hi
    refine ⟨hfault, fun j => ?_⟩
    rw [(h.markAll _).isSet_iff, hexecuted, Finset.mem_union, List.mem_toFinset]

/-- Marks can be made for the indices up to a largest one and some beyond, unless there are too
many of them. They have just enough words for those indices, and after any calls they stand for
the indices whose marking these executed. -/
theorem made_marks_answer (maxIndex slack : Nat) :
    ((∃ fault, ofMaxIndex maxIndex slack = .error fault) ↔ maxCount < maxIndex + 1 + slack) ∧
      ∀ marks, ofMaxIndex maxIndex slack = .ok marks →
        (∀ i ≤ maxIndex + slack, i / 64 < (maxIndex + 1 + slack) ⌈/⌉ 64) ∧
        ∀ calls, (marks.afterCalls calls).Answers ((maxIndex + 1 + slack) ⌈/⌉ 64)
          (marks.history calls).toFinset := by
  have hceil : (maxIndex + 1 + slack) ⌈/⌉ 64 = (maxIndex + 1 + slack + 64 - 1) / 64 :=
    Nat.ceilDiv_eq_add_pred_div _ _
  by_cases hroom : maxIndex + 1 + slack ≤ maxCount
  · rw [ofMaxIndex_eq_ok hroom]
    refine ⟨by simpa using hroom, ?_⟩
    rintro marks ⟨⟩
    refine ⟨fun i hi => by omega, fun calls => ?_⟩
    have hstands := (standsFor_withCapacity (maxIndex + 1 + slack)).afterCalls calls
    rw [Finset.empty_union] at hstands
    refine hstands.answers ?_
    have hsize : maxCount + 1 = UInt64.size := rfl
    have hwhole : UInt64.size = 64 * 2 ^ 58 := by decide
    omega
  · rw [ofMaxIndex_eq_error (Nat.not_le.1 hroom)]
    exact ⟨by simpa using hroom, fun marks hmarks => by cases hmarks⟩

/-- Two words for 66 flags. One index lies past the capacity, but not past the second word; the
second edge of the face has no word, so the third is not marked. -/
theorem two_words_answer :
    let calls : List Call := [.mark 0, .mark 127, .markFace ⟨5, 128, 7⟩, .mark 64, .mark 200,
      .mark 64]
    ofMaxIndex 63 2 = .ok (withCapacity 66) ∧
      (withCapacity 66).history calls = [0, 127, 5, 64, 64] ∧
      ((withCapacity 66).afterCalls calls).Answers 2 {0, 5, 64, 127} ∧
      ((withCapacity 66).afterCalls calls).count = 4 := by
  intro calls
  have hmade : ofMaxIndex 63 2 = .ok (withCapacity 66) := by decide
  have hhistory : (withCapacity 66).history calls = [0, 127, 5, 64, 64] := by decide +kernel
  have hwords : (63 + 1 + 2) ⌈/⌉ 64 = 2 := by decide
  have hset : ([0, 127, 5, 64, 64] : List Nat).toFinset = {0, 5, 64, 127} := by decide
  have hanswers := ((made_marks_answer 63 2).2 _ hmade).2 calls
  rw [hwords, hhistory, hset] at hanswers
  exact ⟨hmade, hhistory, hanswers, hanswers.count_eq⟩

end MarkSet

end TinFaces
