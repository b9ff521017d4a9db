import Mathlib.Data.Finset.Card
import Mathlib.Data.Finset.Range
import Mathlib.Data.List.Sort
import TinFaces.Proofs.PoolOps

/-!
# Slots that are used again

A pool is judged here by what its callers saw of it: a log of the pairs that it gave them and of
those that they gave back, the latest call first. The log alone tells which slots are in use
(`PoolCall.inUse`), which were in use once and wait to be given again (`PoolCall.idle`), which
were ever given (`PoolCall.given`) and how many were in use at once at most (`PoolCall.peak`).

`EdgePool.Logged` says that a pool has come about by the calls of a log. Callers may give back
anything: either side of a pair, a pair that is not in use, an edge that the pool never gave. The
pool answers each next call as the log says (`EdgePool.Logged.recycles`).

What carries the argument is `EdgePool.Keeps`: the list of free slots is the list of idle ones,
without repetition, and these are the slots that exist and are not in use. So the pairs in use
and the free slots add up to the slots that exist (`EdgePool.Keeps.card_add_length`), and a slot
is added only when all others are in use. That is why the number of slots is the peak.
-/

namespace TinFaces

/-! ## Logs -/

/-- A call that a pool has answered. -/
inductive PoolCall where
  /-- A pair was asked for; the pool gave the one with this base side. -/
  | gave (e : EdgeId)
  /-- The pair of `e` was given back, whether it was in use or not. -/
  | tookBack (e : EdgeId)
deriving DecidableEq, Repr

namespace PoolCall

/-- The slots that were given and not taken back since. -/
def inUse : List PoolCall → Finset Nat
  | [] => ∅
  | gave e :: log => insert e.slot (inUse log)
  | tookBack e :: log => (inUse log).erase e.slot

/-- The slots that were taken back from use and not given since, the one taken back last first. -/
def idle : List PoolCall → List Nat
  | [] => []
  | gave e :: log => (idle log).erase e.slot
  | tookBack e :: log => if e.slot ∈ inUse log then e.slot :: idle log else idle log

/-- The slots that were given at some time. -/
def given : List PoolCall → Finset Nat
  | [] => ∅
  | gave e :: log => insert e.slot (given log)
  | tookBack _ :: log => given log

/-- How many slots were in use at once, when they were most. -/
def peak : List PoolCall → Nat
  | [] => 0
  | call :: log => max (inUse (call :: log)).card (peak log)

/-- The slot that a pool should give next: the idle one that was taken back last, or if none is
idle the first one that was never given. -/
def IsNext (log : List PoolCall) (slot : Nat) : Prop :=
  (idle log).head? = some slot ∨
    idle log = [] ∧ slot ∉ given log ∧ ∀ s < slot, s ∈ given log

end PoolCall

namespace EdgePool

open PoolCall (inUse idle given peak)

/-! ## Single operations, with slots to recycle -/

variable {pool : EdgePool} {log : List PoolCall}

theorem isLive_eq_pair? (pool : EdgePool) (e : EdgeId) :
    pool.isLive e.slot = ((pool.pair? e).map EdgePair.live).getD false := by
  unfold isLive pair?
  cases pool.pairs[e.slot]? <;> rfl

/-- The slot of a new pair: the first free one, or one more than there were. -/
theorem allocate_fst (pool : EdgePool) (a b : Option VertexId) :
    (pool.allocate a b).1 = .ofSlot (pool.free.head?.getD pool.pairs.size) := by
  unfold allocate
  cases pool.free <;> rfl

theorem free_allocate (pool : EdgePool) (a b : Option VertexId) :
    (pool.allocate a b).2.free = pool.free.tail := by
  unfold allocate
  cases pool.free <;> rfl

/-- A new pair goes into its slot, and no other slot changes. -/
theorem pair?_allocate (hfree : ∀ slot ∈ pool.free, slot < pool.pairs.size)
    (a b : Option VertexId) (e : EdgeId) :
    (pool.allocate a b).2.pair? e =
      if (pool.allocate a b).1.slot = e.slot then some (.joining e.slot a b) else pool.pair? e := by
  rw [allocate_fst, EdgeId.slot_ofSlot]
  cases h : pool.free with
  | nil =>
      rw [pair?_allocate_of_free_eq_nil h, List.head?_nil, Option.getD_none]
      by_cases hslot : e.slot = pool.pairs.size
      · rw [if_pos hslot, if_pos hslot.symm, hslot]
      · rw [if_neg hslot, if_neg fun heq => hslot heq.symm]
  | cons slot free =>
      rw [pair?_allocate_of_free h (hfree slot (by simp [h])), List.head?_cons, Option.getD_some]
      by_cases hslot : slot = e.slot
      · rw [if_pos hslot, if_pos hslot, hslot]
      · rw [if_neg hslot, if_neg hslot]

theorem isLive_of_allocate (hfree : ∀ slot ∈ pool.free, slot < pool.pairs.size)
    (a b : Option VertexId) (slot : Nat) :
    (pool.allocate a b).2.isLive slot =
      (decide (slot = (pool.allocate a b).1.slot) || pool.isLive slot) := by
  have hread : ∀ p : EdgePool, p.isLive slot =
      ((p.pair? (.ofSlot slot)).map EdgePair.live).getD false := fun p => by
    rw [← isLive_eq_pair?, EdgeId.slot_ofSlot]
  rw [hread, hread, pair?_allocate hfree, EdgeId.slot_ofSlot]
  by_cases h : (pool.allocate a b).1.slot = slot
  · simp [h, EdgePair.joining]
  · rw [if_neg h, decide_eq_false fun heq => h heq.symm, Bool.false_or]

theorem size_allocate (pool : EdgePool) (a b : Option VertexId) :
    (pool.allocate a b).2.pairs.size =
      if pool.free = [] then pool.pairs.size + 1 else pool.pairs.size := by
  unfold allocate
  cases pool.free <;> simp

theorem free_deallocate (pool : EdgePool) (e : EdgeId) :
    (pool.deallocate e).free =
      if pool.isLive e.slot then e.slot :: pool.free else pool.free := by
  unfold deallocate
  split <;> rfl

/-! ## What a pool keeps of its log -/

/-- What a pool keeps of the calls that it has answered. -/
structure Keeps (pool : EdgePool) (log : List PoolCall) : Prop where
  isLive_iff : ∀ slot, pool.isLive slot = true ↔ slot ∈ inUse log
  free_eq : pool.free = idle log
  nodup_idle : (idle log).Nodup
  /-- A slot that exists is in use or idle, and not both. -/
  mem_idle_iff : ∀ slot, slot ∈ idle log ↔ slot < pool.pairs.size ∧ slot ∉ inUse log
  mem_given_iff : ∀ slot, slot ∈ given log ↔ slot < pool.pairs.size
  size_eq : pool.pairs.size = peak log

theorem keeps_empty : ({} : EdgePool).Keeps [] where
  isLive_iff slot := by simp [isLive, inUse]
  free_eq := rfl
  nodup_idle := List.nodup_nil
  mem_idle_iff slot := by simp [idle]
  mem_given_iff slot := by simp [given]
  size_eq := rfl

theorem Keeps.lt_size (h : pool.Keeps log) {slot : Nat} (hslot : slot ∈ inUse log) :
    slot < pool.pairs.size :=
  lt_size_of_isLive ((h.isLive_iff slot).2 hslot)

theorem Keeps.lt_size_of_free (h : pool.Keeps log) : ∀ slot ∈ pool.free, slot < pool.pairs.size :=
  fun slot hslot => ((h.mem_idle_iff slot).1 (h.free_eq ▸ hslot)).1

/-- The pairs in use and the idle slots are all there are. -/
theorem Keeps.card_add_length (h : pool.Keeps log) :
    (inUse log).card + (idle log).length = pool.pairs.size := by
  have hidle : (idle log).toFinset = Finset.range pool.pairs.size \ inUse log := by
    ext slot
    rw [List.mem_toFinset, Finset.mem_sdiff, Finset.mem_range, h.mem_idle_iff]
  have hsub : inUse log ⊆ Finset.range pool.pairs.size := fun slot hslot =>
    Finset.mem_range.2 (h.lt_size hslot)
  rw [← List.toFinset_card_of_nodup h.nodup_idle, hidle, Finset.card_sdiff_of_subset hsub,
    Finset.card_range]
  have hle := Finset.card_le_card hsub
  rw [Finset.card_range] at hle
  omega

/-- The slot that is given next is the one that should be, and is not in use. -/
theorem Keeps.next (h : pool.Keeps log) (a b : Option VertexId) :
    ∃ slot, (pool.allocate a b).1 = .ofSlot slot ∧ slot ∉ inUse log ∧
      PoolCall.IsNext log slot := by
  refine ⟨_, allocate_fst pool a b, ?_⟩
  rw [h.free_eq]
  cases hidle : idle log with
  | nil =>
      have hsize : pool.pairs.size ∉ inUse log := fun hslot => (h.lt_size hslot).false
      refine ⟨hsize, .inr ⟨hidle, fun hslot => ?_, fun s hs => (h.mem_given_iff s).2 hs⟩⟩
      exact ((h.mem_given_iff _).1 hslot).false
  | cons slot rest =>
      have hmem : slot ∈ idle log := by simp [hidle]
      refine ⟨((h.mem_idle_iff slot).1 hmem).2, .inl ?_⟩
      rw [hidle]
      rfl

section Giving

variable {pool' : EdgePool}

/-- An idle slot comes into use again. -/
theorem Keeps.give_idle (h : pool.Keeps log) {slot : Nat} {rest : List Nat}
    (hidle : idle log = slot :: rest) (hfree : pool'.free = rest)
    (hsize : pool'.pairs.size = pool.pairs.size)
    (hlive : ∀ s, pool'.isLive s = (decide (s = slot) || pool.isLive s)) :
    pool'.Keeps (.gave (.ofSlot slot) :: log) := by
  have hcount := h.card_add_length
  rw [hidle, List.length_cons] at hcount
  have hnodup := h.nodup_idle
  rw [hidle, List.nodup_cons] at hnodup
  obtain ⟨hlt, hnew⟩ := (h.mem_idle_iff slot).1 (by simp [hidle])
  refine ⟨fun s => ?_, ?_, ?_, fun s => ?_, fun s => ?_, ?_⟩
  · simp [hlive, h.isLive_iff, inUse]
  · simp [hfree, hidle, idle]
  · simp [idle, hidle, hnodup.2]
  · have hold := h.mem_idle_iff s
    simp only [hidle, List.mem_cons] at hold
    simp only [idle, hidle, EdgeId.slot_ofSlot, List.erase_cons_head, inUse, Finset.mem_insert,
      hsize]
    by_cases hs : s = slot
    · simp [hs, hnodup.1]
    · simpa [hs] using hold
  · simp only [given, EdgeId.slot_ofSlot, Finset.mem_insert, h.mem_given_iff, hsize]
    omega
  · simp only [peak, inUse, EdgeId.slot_ofSlot, Finset.card_insert_of_notMem hnew, hsize,
      ← h.size_eq]
    omega

/-- When all slots are in use, one more is added. -/
theorem Keeps.give_new (h : pool.Keeps log) (hidle : idle log = []) (hfree : pool'.free = [])
    (hsize : pool'.pairs.size = pool.pairs.size + 1)
    (hlive : ∀ s, pool'.isLive s = (decide (s = pool.pairs.size) || pool.isLive s)) :
    pool'.Keeps (.gave (.ofSlot pool.pairs.size) :: log) := by
  have hcount := h.card_add_length
  rw [hidle, List.length_nil] at hcount
  have hnew : pool.pairs.size ∉ inUse log := fun hslot => (h.lt_size hslot).false
  have hall : ∀ s < pool.pairs.size, s ∈ inUse log := by
    intro s hs
    by_contra hdead
    have hmem := (h.mem_idle_iff s).2 ⟨hs, hdead⟩
    rw [hidle] at hmem
    exact List.not_mem_nil hmem
  refine ⟨fun s => ?_, ?_, ?_, fun s => ?_, fun s => ?_, ?_⟩
  · simp [hlive, h.isLive_iff, inUse]
  · simp [hfree, hidle, idle]
  · simp [idle, hidle]
  · simp only [idle, hidle, List.erase_nil, List.not_mem_nil, inUse, EdgeId.slot_ofSlot,
      Finset.mem_insert, hsize, false_iff, not_and, not_not]
    intro hs
    exact (Nat.lt_succ_iff_lt_or_eq.1 hs).symm.imp id (hall s)
  · simp only [given, EdgeId.slot_ofSlot, Finset.mem_insert, h.mem_given_iff, hsize]
    omega
  · simp only [peak, inUse, EdgeId.slot_ofSlot, Finset.card_insert_of_notMem hnew, hsize,
      ← h.size_eq]
    omega

end Giving

/-- Giving a pair adds a slot only if all the others are in use. -/
theorem Keeps.allocate (h : pool.Keeps log) (a b : Option VertexId) :
    (pool.allocate a b).2.Keeps (.gave (pool.allocate a b).1 :: log) := by
  have hlive := isLive_of_allocate h.lt_size_of_free a b
  have hfree := free_allocate pool a b
  have hsize := size_allocate pool a b
  rw [allocate_fst, EdgeId.slot_ofSlot, h.free_eq] at hlive
  rw [h.free_eq] at hfree hsize
  rw [allocate_fst, h.free_eq]
  cases hidle : idle log with
  | nil =>
      rw [hidle] at hlive hfree hsize
      exact h.give_new hidle hfree hsize hlive
  | cons slot rest =>
      rw [hidle] at hlive hfree hsize
      exact h.give_idle hidle hfree hsize hlive

/-- Giving back a pair that is in use makes its slot idle; anything else that is given back makes
no difference. -/
theorem Keeps.deallocate (h : pool.Keeps log) (e : EdgeId) :
    (pool.deallocate e).Keeps (.tookBack e :: log) := by
  have hlive := isLive_deallocate pool e
  have hfree := free_deallocate pool e
  have hsize := size_deallocate pool e
  have hcount := h.card_add_length
  have hcard : ((inUse log).erase e.slot).card ≤ (inUse log).card :=
    Finset.card_le_card (Finset.erase_subset _ _)
  rw [h.free_eq] at hfree
  simp only [h.isLive_iff] at hfree
  refine ⟨fun s => ?_, hfree, ?_, fun s => ?_, fun s => ?_, ?_⟩
  · simp [hlive, h.isLive_iff, inUse]
  · unfold idle
    split
    · next hused =>
        exact List.nodup_cons.2 ⟨fun hidle => ((h.mem_idle_iff _).1 hidle).2 hused, h.nodup_idle⟩
    · exact h.nodup_idle
  · rw [hsize]
    unfold idle
    split
    · next hused =>
        have hlt := h.lt_size hused
        simp only [List.mem_cons, h.mem_idle_iff, inUse, Finset.mem_erase]
        by_cases hs : s = e.slot
        · simp [hs, hlt]
        · simp [hs]
    · next hdead => rw [h.mem_idle_iff, inUse, Finset.erase_eq_of_notMem hdead]
  · rw [hsize]
    exact h.mem_given_iff s
  · simp only [peak, inUse, hsize, ← h.size_eq]
    omega

/-! ## Runs -/

/-- The pools that come about by calls, and the logs of these. A copy of a pool is the same value,
so it has the log of the pool that was copied, and copying is no call. -/
inductive Logged : EdgePool → List PoolCall → Prop where
  | empty : Logged {} []
  | allocate {pool : EdgePool} {log : List PoolCall} (h : Logged pool log)
      (a b : Option VertexId) :
      Logged (pool.allocate a b).2 (.gave (pool.allocate a b).1 :: log)
  | deallocate {pool : EdgePool} {log : List PoolCall} (h : Logged pool log) (e : EdgeId) :
      Logged (pool.deallocate e) (.tookBack e :: log)

theorem Logged.keeps (h : pool.Logged log) : pool.Keeps log := by
  induction h with
  | empty => exact keeps_empty
  | allocate _ a b ih => exact ih.allocate a b
  | deallocate _ e ih => exact ih.deallocate e

/-- What a pool answers after the calls of a log, and what the next call makes of it. -/
structure Recycles (pool : EdgePool) (log : List PoolCall) : Prop where
  /-- The pair that is given next is not in use, and its slot is the one that should be next. -/
  next : ∀ a b, ∃ slot, (pool.allocate a b).1 = .ofSlot slot ∧ slot ∉ inUse log ∧
    PoolCall.IsNext log slot
  /-- It joins what it was asked to join, and no other slot changes. -/
  allocated : ∀ a b e, (pool.allocate a b).2.pair? e =
    if (pool.allocate a b).1.slot = e.slot then some (.joining e.slot a b) else pool.pair? e
  /-- A pair in use that is given back goes, and no other. -/
  freed : ∀ e : EdgeId, e.slot ∈ inUse log →
    (pool.deallocate e).baseEdges = pool.baseEdges.erase (.ofSlot e.slot) ∧
      ∀ d : EdgeId, d.slot ≠ e.slot → (pool.deallocate e).pair? d = pool.pair? d
  ignored : ∀ e : EdgeId, e.slot ∉ inUse log → pool.deallocate e = pool
  mem_baseEdges : ∀ e : EdgeId, e ∈ pool.baseEdges ↔ e.isBase = true ∧ e.slot ∈ inUse log
  ascending : pool.baseEdges.Pairwise fun d e => d.index < e.index
  /-- The number of pairs in use is counted without falling below zero. -/
  numLivePairs_add : pool.numLivePairs + pool.free.length = pool.pairs.size
  numLivePairs_eq : pool.numLivePairs = pool.baseEdges.length
  maxIndex_eq : pool.maxIndex = 2 * peak log - 1
  maxIndex_le : (∀ a b, pool.maxIndex ≤ (pool.allocate a b).2.maxIndex) ∧
    ∀ e, pool.maxIndex ≤ (pool.deallocate e).maxIndex

theorem ascending_baseEdges (pool : EdgePool) :
    pool.baseEdges.Pairwise fun d e => d.index < e.index := by
  unfold baseEdges
  rw [List.pairwise_map]
  refine (List.pairwise_lt_range.sublist List.filter_sublist).imp fun {i j} hlt => ?_
  show 2 * i < 2 * j
  omega

/-- Taking a pair out of use takes its base side off the list. -/
theorem baseEdges_deallocate (pool : EdgePool) (e : EdgeId) :
    (pool.deallocate e).baseEdges = pool.baseEdges.erase (.ofSlot e.slot) := by
  have hne : ∀ slot, decide (slot ≠ e.slot) = (EdgeId.ofSlot slot != .ofSlot e.slot) := by
    intro slot
    rw [Bool.eq_iff_iff, decide_eq_true_iff, bne_iff_ne, EdgeId.ofSlot_injective.ne_iff]
  rw [pool.nodup_baseEdges.erase_eq_filter]
  unfold baseEdges
  rw [size_deallocate, List.filter_map, List.filter_filter]
  congr 1
  refine List.filter_congr fun slot _ => ?_
  rw [isLive_deallocate, hne]
  rfl

theorem Keeps.length_baseEdges (h : pool.Keeps log) :
    pool.baseEdges.length = (inUse log).card := by
  have hslots : ((List.range pool.pairs.size).filter pool.isLive).toFinset = inUse log := by
    ext slot
    rw [List.mem_toFinset, List.mem_filter, List.mem_range, h.isLive_iff]
    exact ⟨fun hslot => hslot.2, fun hslot => ⟨h.lt_size hslot, hslot⟩⟩
  have hnodup : ((List.range pool.pairs.size).filter pool.isLive).Nodup :=
    List.nodup_range.sublist List.filter_sublist
  unfold baseEdges
  rw [List.length_map, ← List.toFinset_card_of_nodup hnodup, hslots]

/-- A pool that has come about by calls answers them as a recycling allocator should: it gives the
slot that became idle last, or else a new one; takes back what is in use and ignores the rest;
lists and counts what is in use; and its largest index tells how many pairs were in use at once. -/
theorem Logged.recycles (h : pool.Logged log) : pool.Recycles log := by
  have hkeeps := h.keeps
  have hcount := hkeeps.card_add_length
  have hlength := hkeeps.length_baseEdges
  refine ⟨hkeeps.next, fun a b e => pair?_allocate hkeeps.lt_size_of_free a b e,
    fun e _ => ⟨pool.baseEdges_deallocate e, fun d hd => pair?_deallocate_of_ne pool hd⟩,
    fun e hdead => ?_, fun e => ?_, pool.ascending_baseEdges, ?_, ?_, ?_, fun a b => ?_,
    fun e => ?_⟩
  · unfold EdgePool.deallocate
    rw [if_neg fun hlive => hdead ((hkeeps.isLive_iff _).1 hlive)]
  · rw [EdgePool.mem_baseEdges, hkeeps.isLive_iff]
  · rw [numLivePairs, hkeeps.free_eq]
    omega
  · rw [numLivePairs, hkeeps.free_eq]
    omega
  · rw [maxIndex, hkeeps.size_eq]
  · have hsize := size_allocate pool a b
    unfold maxIndex
    split at hsize <;> omega
  · rw [maxIndex, maxIndex, size_deallocate]

/-- Three pairs are given and the first two come back, one of them by its dual side. The second is
given again. Then the first comes back once more, and so does an edge that was never given. -/
theorem reused_recycles :
    let two := ((({} : EdgePool).allocate none (some ⟨0⟩)).2.allocate none (some ⟨1⟩)).2
    let three := (two.allocate none (some ⟨2⟩)).2
    let reused := (((three.deallocate ⟨0⟩).deallocate ⟨3⟩).allocate (some ⟨3⟩) (some ⟨4⟩)).2
    let pool := (reused.deallocate ⟨1⟩).deallocate ⟨1000⟩
    let log := [.tookBack ⟨1000⟩, .tookBack ⟨1⟩, .gave ⟨2⟩, .tookBack ⟨3⟩, .tookBack ⟨0⟩,
      .gave ⟨4⟩, .gave ⟨2⟩, .gave ⟨0⟩]
    pool.Logged log ∧ inUse log = {1, 2} ∧ idle log = [0] ∧ peak log = 3 ∧ pool.maxIndex = 5 ∧
      pool.Recycles log := by
  intro two three reused pool log
  have hthree : three.Logged [.gave ⟨4⟩, .gave ⟨2⟩, .gave ⟨0⟩] :=
    ((Logged.empty.allocate _ _).allocate _ _).allocate _ _
  have hreused : reused.Logged [.gave ⟨2⟩, .tookBack ⟨3⟩, .tookBack ⟨0⟩, .gave ⟨4⟩, .gave ⟨2⟩,
      .gave ⟨0⟩] := ((hthree.deallocate ⟨0⟩).deallocate ⟨3⟩).allocate _ _
  have hlogged : pool.Logged log := (hreused.deallocate ⟨1⟩).deallocate ⟨1000⟩
  exact ⟨hlogged, by decide, by decide, by decide, by decide, hlogged.recycles⟩

end EdgePool

end TinFaces
