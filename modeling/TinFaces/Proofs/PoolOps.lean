import Mathlib.Data.List.Nodup
import TinFaces.Mesh.EdgePool

/-!
# What pool operations do to sides

A pool is read through three questions: which slots are in use (`isLive`), what
a side stores (`side?`), and how many slots there are. For each operation this
file says what becomes of the three; the slots themselves are not looked at
again.

* `allocate`, with nothing to recycle, adds a pair and leaves the others alone;
* `linkFace` sets the neighbours of three sides, and no origin;
* `deallocate` empties one slot;
* `constrain` changes none of the three.
-/

namespace TinFaces

namespace EdgeId

theorem isBase_dual (e : EdgeId) : e.dual.isBase = !e.isBase := by
  rcases e with ⟨n⟩
  by_cases h : n % 2 = 0
  · have h' : (n + 1) % 2 = 1 := by omega
    simp [dual, isBase, h, h']
  · have h' : (n - 1) % 2 = 0 := by omega
    simp [dual, isBase, h, h']

/-- The slot and the direction make an edge. -/
theorem eq_of_slot_of_isBase {a b : EdgeId} (hslot : a.slot = b.slot)
    (hbase : a.isBase = b.isBase) : a = b := by
  rcases a with ⟨m⟩
  rcases b with ⟨n⟩
  simp only [slot] at hslot
  have hparity : m % 2 = 0 ↔ n % 2 = 0 := by
    simp only [isBase] at hbase
    rw [← beq_iff_eq (a := m % 2), hbase, beq_iff_eq]
  simp only [EdgeId.mk.injEq]
  omega

/-- The two directions of a pair. -/
theorem eq_or_eq_dual {a b : EdgeId} (h : a.slot = b.slot) : a = b ∨ a = b.dual := by
  by_cases hbase : a.isBase = b.isBase
  · exact .inl (eq_of_slot_of_isBase h hbase)
  · refine .inr (eq_of_slot_of_isBase ?_ ?_)
    · rw [slot_dual]
      exact h
    · rw [isBase_dual]
      cases ha : a.isBase <;> cases hb : b.isBase <;> simp_all

theorem ofSlot_injective : Function.Injective ofSlot := fun a b h => by
  simpa using congrArg slot h

theorem index_le_of_slot_lt {e : EdgeId} {n : Nat} (h : e.slot < n) : e.index ≤ 2 * n - 1 := by
  simp only [slot] at h
  omega

end EdgeId

namespace EdgePair

theorem side_modifySide (pair : EdgePair) (e e' : EdgeId) (f : EdgeSide → EdgeSide) :
    (pair.modifySide e f).side e' =
      if e.isBase = e'.isBase then f (pair.side e') else pair.side e' := by
  cases h : e.isBase <;> cases h' : e'.isBase <;> simp [modifySide, side, h, h']

theorem live_modifySide (pair : EdgePair) (e : EdgeId) (f : EdgeSide → EdgeSide) :
    (pair.modifySide e f).live = pair.live := by
  unfold modifySide
  split <;> rfl

end EdgePair

namespace EdgePool

/-! ## Reading -/

theorem isLive_eq_true_iff {pool : EdgePool} {slot : Nat} :
    pool.isLive slot = true ↔ ∃ pair, pool.pairs[slot]? = some pair ∧ pair.live = true := by
  unfold isLive
  split
  · next pair h => simp [h]
  · next h => simp [h]

/-- A slot in use exists. -/
theorem lt_size_of_isLive {pool : EdgePool} {slot : Nat} (h : pool.isLive slot = true) :
    slot < pool.pairs.size := by
  obtain ⟨_, hpair, _⟩ := isLive_eq_true_iff.1 h
  exact (Array.getElem?_eq_some_iff.1 hpair).1

/-- Both directions of every pair in use, in the order of the pairs. -/
def directedEdges (pool : EdgePool) : List EdgeId := pool.baseEdges.flatMap fun e => [e, e.dual]

theorem mem_directedEdges {pool : EdgePool} {e : EdgeId} :
    e ∈ pool.directedEdges ↔ pool.isLive e.slot = true := by
  constructor
  · intro he
    obtain ⟨b, hb, hside⟩ := List.mem_flatMap.1 he
    obtain ⟨_, hlive⟩ := mem_baseEdges.1 hb
    rcases List.mem_cons.1 hside with rfl | hside
    · exact hlive
    · rw [List.mem_singleton.1 hside, EdgeId.slot_dual]
      exact hlive
  · intro he
    by_cases hbase : e.isBase = true
    · exact List.mem_flatMap.2 ⟨e, mem_baseEdges.2 ⟨hbase, he⟩, List.mem_cons_self⟩
    · refine List.mem_flatMap.2 ⟨e.dual, mem_baseEdges.2 ⟨?_, ?_⟩, ?_⟩
      · rw [EdgeId.isBase_dual, Bool.eq_false_iff.2 hbase]
        rfl
      · rw [EdgeId.slot_dual]
        exact he
      · exact List.mem_cons_of_mem _ (List.mem_singleton.2 e.dual_dual.symm)

theorem nodup_directedEdges (pool : EdgePool) : pool.directedEdges.Nodup := by
  have hslots : ((List.range pool.pairs.size).filter pool.isLive).Nodup :=
    List.nodup_range.sublist List.filter_sublist
  unfold directedEdges baseEdges
  rw [List.flatMap_map]
  refine List.nodup_flatMap.2 ⟨fun slot _ => ?_, hslots.imp fun {i j} hne => ?_⟩
  · simp [(EdgeId.dual_ne (.ofSlot slot)).symm]
  · -- an edge of both pairs would have both slots
    have hslot : ∀ k, ∀ e ∈ [EdgeId.ofSlot k, (EdgeId.ofSlot k).dual], e.slot = k := by simp
    intro e hi hj
    exact hne ((hslot i e hi).symm.trans (hslot j e hj))

theorem nodup_baseEdges (pool : EdgePool) : pool.baseEdges.Nodup :=
  (List.nodup_range.sublist List.filter_sublist).map EdgeId.ofSlot_injective

/-- The directed edges are two for each pair. -/
theorem length_directedEdges (pool : EdgePool) :
    pool.directedEdges.length = 2 * pool.baseEdges.length := by
  unfold directedEdges
  induction pool.baseEdges with
  | nil => rfl
  | cons e es ih =>
      rw [List.flatMap_cons, List.length_append, ih, List.length_cons]
      simp only [List.length_cons, List.length_nil]
      omega

/-- A side that is stored has a slot. -/
theorem lt_size_of_side? {pool : EdgePool} {e : EdgeId} {side : EdgeSide}
    (h : pool.side? e = some side) : e.slot < pool.pairs.size := by
  obtain ⟨_, hpair, _⟩ := Option.map_eq_some_iff.1 h
  exact (Array.getElem?_eq_some_iff.1 hpair).1

/-- What can be found can be read without a fault. -/
theorem side_eq_ok {pool : EdgePool} {e : EdgeId} {side : EdgeSide}
    (h : pool.side? e = some side) : pool.side e = .ok side := by
  obtain ⟨pair, hpair, rfl⟩ := Option.map_eq_some_iff.1 h
  unfold EdgePool.side EdgePool.pair
  rw [readAt_eq_ok_iff.2 hpair]
  rfl

/-- The two directions of a pair are stored together. -/
theorem pair?_dual (pool : EdgePool) (e : EdgeId) : pool.pair? e.dual = pool.pair? e := by
  unfold pair?
  rw [EdgeId.slot_dual]

/-- The two sides of a stored pair, by its base edge. -/
theorem exists_pair_of_sides {pool : EdgePool} {e : EdgeId} (hbase : e.isBase = true)
    {side twin : EdgeSide} (hside : pool.side? e = some side)
    (htwin : pool.side? e.dual = some twin) :
    ∃ pair, pool.pair? e = some pair ∧ pair.base = side ∧ pair.dual = twin := by
  obtain ⟨pair, hpair, rfl⟩ := Option.map_eq_some_iff.1 hside
  obtain ⟨pair', hpair', rfl⟩ := Option.map_eq_some_iff.1 htwin
  rw [pair?_dual, hpair] at hpair'
  obtain rfl := Option.some.inj hpair'
  refine ⟨pair, hpair, ?_, ?_⟩
  · rw [EdgePair.side, if_pos hbase]
  · rw [EdgePair.side, EdgeId.isBase_dual, hbase]
    rfl

/-! ## Linking -/

/-- Linking a side changes what it stores and nothing else. -/
theorem side?_linkSide (pool : EdgePool) (e forward reverse e' : EdgeId) :
    (pool.linkSide e forward reverse).side? e' =
      if e' = e then (pool.side? e').map fun side => { side with forward, reverse }
      else pool.side? e' := by
  simp only [side?, linkSide, pair?_modifyPair]
  by_cases hslot : e.slot = e'.slot
  · rw [if_pos hslot, Option.map_map]
    by_cases he : e' = e
    · rw [if_pos he, Option.map_map, he]
      congr 1
      funext pair
      simp [EdgePair.side_modifySide]
    · have hbase : ¬ e.isBase = e'.isBase := fun hb =>
        he (EdgeId.eq_of_slot_of_isBase hslot hb).symm
      rw [if_neg he]
      congr 1
      funext pair
      simp [EdgePair.side_modifySide, hbase]
  · have he : ¬ e' = e := fun h => hslot (by rw [h])
    rw [if_neg hslot, if_neg he]

theorem isLive_modifyPair (pool : EdgePool) (e : EdgeId) {f : EdgePair → EdgePair}
    (hf : ∀ pair, (f pair).live = pair.live) (slot : Nat) :
    (pool.modifyPair e f).isLive slot = pool.isLive slot := by
  have hiff : (pool.modifyPair e f).isLive slot = true ↔ pool.isLive slot = true := by
    simp only [isLive_eq_true_iff, modifyPair, Array.getElem?_modify]
    by_cases hslot : e.slot = slot
    · rw [if_pos hslot]
      constructor
      · intro hfound
        obtain ⟨_, hmapped, hlive⟩ := hfound
        obtain ⟨pair, hpair, rfl⟩ := Option.map_eq_some_iff.1 hmapped
        exact ⟨pair, hpair, (hf pair).symm.trans hlive⟩
      · intro hfound
        obtain ⟨pair, hpair, hlive⟩ := hfound
        exact ⟨f pair, Option.map_eq_some_iff.2 ⟨pair, hpair, rfl⟩, (hf pair).trans hlive⟩
    · rw [if_neg hslot]
  exact Bool.eq_iff_iff.2 hiff

@[simp] theorem isLive_linkFace (pool : EdgePool) (t : Triangle EdgeId) (slot : Nat) :
    (pool.linkFace t).isLive slot = pool.isLive slot := by
  simp only [linkFace, linkSide,
    isLive_modifyPair _ _ (fun pair => EdgePair.live_modifySide pair _ _)]

@[simp] theorem size_linkFace (pool : EdgePool) (t : Triangle EdgeId) :
    (pool.linkFace t).pairs.size = pool.pairs.size := by
  simp [linkFace, linkSide, modifyPair]

/-- Linking a face leaves the other sides alone. -/
theorem side?_linkFace_of_ne (pool : EdgePool) {t : Triangle EdgeId} {e : EdgeId}
    (h₁ : e ≠ t.first) (h₂ : e ≠ t.second) (h₃ : e ≠ t.third) :
    (pool.linkFace t).side? e = pool.side? e := by
  simp only [linkFace, side?_linkSide, if_neg h₁, if_neg h₂, if_neg h₃]

/-- The three sides of a linked face, if they are different edges. -/
theorem side?_linkFace (pool : EdgePool) {e₁ e₂ e₃ : EdgeId} (h₁₂ : e₁ ≠ e₂) (h₂₃ : e₂ ≠ e₃)
    (h₃₁ : e₃ ≠ e₁) :
    (pool.linkFace ⟨e₁, e₂, e₃⟩).side? e₁ =
        (pool.side? e₁).map (fun side => { side with forward := e₂, reverse := e₃ }) ∧
      (pool.linkFace ⟨e₁, e₂, e₃⟩).side? e₂ =
        (pool.side? e₂).map (fun side => { side with forward := e₃, reverse := e₁ }) ∧
      (pool.linkFace ⟨e₁, e₂, e₃⟩).side? e₃ =
        (pool.side? e₃).map (fun side => { side with forward := e₁, reverse := e₂ }) := by
  simp only [linkFace, side?_linkSide]
  simp [h₁₂, h₁₂.symm, h₂₃, h₂₃.symm, h₃₁, h₃₁.symm]

/-- Linking a face moves no origin. -/
theorem origin_linkFace (pool : EdgePool) (t : Triangle EdgeId) (e : EdgeId) :
    ((pool.linkFace t).side? e).map EdgeSide.origin = (pool.side? e).map EdgeSide.origin := by
  have hside : ∀ (pool : EdgePool) (d forward reverse : EdgeId),
      ((pool.linkSide d forward reverse).side? e).map EdgeSide.origin =
        (pool.side? e).map EdgeSide.origin := by
    intro pool d forward reverse
    rw [side?_linkSide]
    split
    · rw [Option.map_map]
      rfl
    · rfl
  simp only [linkFace, hside]

/-! ## Allocating -/

variable {pool : EdgePool}

theorem allocate_eq (hfree : pool.free = []) (a b : Option VertexId) :
    pool.allocate a b =
      (.ofSlot pool.pairs.size,
        { pairs := pool.pairs.push (.joining pool.pairs.size a b), free := [] }) := by
  unfold allocate
  rw [hfree]

/-- An edge of an old slot is left alone. -/
theorem side?_allocate_of_lt (hfree : pool.free = []) (a b : Option VertexId) {e : EdgeId}
    (he : e.slot < pool.pairs.size) : (pool.allocate a b).2.side? e = pool.side? e := by
  rw [side?, pair?_allocate_of_free_eq_nil hfree, if_neg (Nat.ne_of_lt he)]
  rfl

/-- The new base side starts at `a`, its dual at `b`, and both are unlinked. -/
theorem side?_allocate (hfree : pool.free = []) (a b : Option VertexId) :
    (pool.allocate a b).2.side? (pool.allocate a b).1 =
        some ⟨a, (pool.allocate a b).1, (pool.allocate a b).1⟩ ∧
      (pool.allocate a b).2.side? (pool.allocate a b).1.dual =
        some ⟨b, (pool.allocate a b).1.dual, (pool.allocate a b).1.dual⟩ := by
  have hslot : (pool.allocate a b).1 = .ofSlot pool.pairs.size := by rw [allocate_eq hfree]
  rw [hslot]
  constructor
  · rw [side?, pair?_allocate_of_free_eq_nil hfree, if_pos (by simp)]
    simp [EdgePair.joining, EdgePair.detached, EdgePair.side]
  · rw [side?, pair?_allocate_of_free_eq_nil hfree, if_pos (by simp)]
    simp [EdgePair.joining, EdgePair.detached, EdgePair.side, EdgeId.isBase_dual]

theorem isLive_allocate (hfree : pool.free = []) (a b : Option VertexId) (slot : Nat) :
    (pool.allocate a b).2.isLive slot = (decide (slot = pool.pairs.size) || pool.isLive slot) := by
  rw [allocate_eq hfree]
  unfold isLive
  simp only [Array.getElem?_push]
  by_cases h : slot = pool.pairs.size
  · simp [h, EdgePair.joining]
  · simp [h]

/-- Reserving pairs appends them; the ids are those of the new slots. -/
theorem reserve_eq (hfree : pool.free = []) (n : Nat) :
    (pool.reserve n).1 = (List.range n).map (fun i => EdgeId.ofSlot (pool.pairs.size + i)) ∧
      (pool.reserve n).2.free = [] ∧ (pool.reserve n).2.pairs.size = pool.pairs.size + n := by
  induction n generalizing pool with
  | zero => exact ⟨rfl, hfree, rfl⟩
  | succ n ih =>
      have halloc := allocate_eq hfree none none
      obtain ⟨hids, hnil, hsize⟩ := @ih (pool.allocate none none).2 (by rw [halloc])
      have hgrown : (pool.allocate none none).2.pairs.size = pool.pairs.size + 1 := by
        rw [halloc]
        simp
      rw [hgrown] at hids hsize
      refine ⟨?_, hnil, ?_⟩
      · show (pool.allocate none none).1 :: ((pool.allocate none none).2.reserve n).1 = _
        rw [hids, List.range_succ_eq_map, List.map_cons, List.map_map, halloc]
        refine congrArg (List.cons _) (List.map_congr_left fun i _ => ?_)
        show EdgeId.ofSlot _ = EdgeId.ofSlot _
        congr 1
        show pool.pairs.size + 1 + i = pool.pairs.size + (i + 1)
        omega
      · show ((pool.allocate none none).2.reserve n).2.pairs.size = _
        rw [hsize]
        omega

/-! ## Taking back -/

variable (pool)

theorem size_deallocate (e : EdgeId) : (pool.deallocate e).pairs.size = pool.pairs.size := by
  unfold deallocate
  split
  · simp
  · rfl

theorem isLive_deallocate (e : EdgeId) (slot : Nat) :
    (pool.deallocate e).isLive slot = (decide (slot ≠ e.slot) && pool.isLive slot) := by
  unfold deallocate
  split
  · next hlive =>
      by_cases h : slot = e.slot
      · have hlt : slot < pool.pairs.size := h ▸ lt_size_of_isLive hlive
        rw [← h]
        simp [isLive, EdgePair.detached, hlt]
      · have h' : ¬ e.slot = slot := fun heq => h heq.symm
        simp [isLive, h, h']
  · next hdead =>
      by_cases h : slot = e.slot
      · rw [h]
        simpa using hdead
      · simp [h]

theorem pair?_deallocate_of_ne {e e' : EdgeId} (h : e'.slot ≠ e.slot) :
    (pool.deallocate e).pair? e' = pool.pair? e' := by
  unfold deallocate
  split
  · simp [pair?, h.symm]
  · rfl

variable {pool}

/-- What is left after a list of edges was taken back. -/
theorem foldl_deallocate (es : List EdgeId) :
    (es.foldl deallocate pool).pairs.size = pool.pairs.size ∧
      (∀ slot, (es.foldl deallocate pool).isLive slot = true ↔
        (∀ e ∈ es, slot ≠ e.slot) ∧ pool.isLive slot = true) ∧
      ∀ e', (∀ e ∈ es, e'.slot ≠ e.slot) →
        (es.foldl deallocate pool).pair? e' = pool.pair? e' := by
  induction es generalizing pool with
  | nil => simp
  | cons e es ih =>
      obtain ⟨hsize, hlive, hpair⟩ := @ih (pool.deallocate e)
      refine ⟨?_, ?_, ?_⟩
      · rw [List.foldl_cons, hsize, size_deallocate]
      · intro slot
        rw [List.foldl_cons, hlive, isLive_deallocate]
        simp [and_assoc, and_comm, and_left_comm]
      · intro e' he'
        rw [List.foldl_cons, hpair e' fun x hx => he' x (List.mem_cons_of_mem _ hx),
          pair?_deallocate_of_ne pool (he' e List.mem_cons_self)]

/-- What is left after the pairs reserved from the start were taken back: the slots
beyond them. -/
theorem foldl_deallocate_reserved (n : Nat) :
    (∀ slot, ((({} : EdgePool).reserve n).1.foldl deallocate pool).isLive slot = true ↔
        n ≤ slot ∧ pool.isLive slot = true) ∧
      ∀ e : EdgeId, n ≤ e.slot →
        ((({} : EdgePool).reserve n).1.foldl deallocate pool).pair? e = pool.pair? e := by
  obtain ⟨hids, _, _⟩ := @reserve_eq {} rfl n
  obtain ⟨_, hlive, hpair⟩ := @foldl_deallocate pool (({} : EdgePool).reserve n).1
  have hbeyond : ∀ slot, (∀ e ∈ (({} : EdgePool).reserve n).1, slot ≠ e.slot) ↔ n ≤ slot := by
    intro slot
    rw [hids]
    show (∀ e ∈ (List.range n).map fun i => EdgeId.ofSlot (0 + i), slot ≠ e.slot) ↔ n ≤ slot
    simp only [Nat.zero_add, List.forall_mem_map, List.mem_range, EdgeId.slot_ofSlot]
    constructor
    · intro hne
      apply Nat.le_of_not_lt
      intro hlt
      exact hne slot hlt rfl
    · intro hle i hi heq
      omega
  refine ⟨fun slot => ?_, fun e he => hpair e ((hbeyond e.slot).2 he)⟩
  rw [hlive, hbeyond]

/-! ## Flagging -/

/-- Flagging pairs leaves the sides, the slots in use and their number alone. -/
theorem constrain_eq (pool : EdgePool) (es : List EdgeId) (border : Bool) :
    (pool.constrain es border).pairs.size = pool.pairs.size ∧
      (∀ slot, (pool.constrain es border).isLive slot = pool.isLive slot) ∧
      ∀ e, (pool.constrain es border).side? e = pool.side? e := by
  induction es generalizing pool with
  | nil => exact ⟨rfl, fun _ => rfl, fun _ => rfl⟩
  | cons d es ih =>
      obtain ⟨hsize, hlive, hside⟩ := ih (pool.modifyPair d (·.constrain border))
      refine ⟨?_, ?_, ?_⟩
      · exact hsize.trans (by simp [modifyPair])
      · intro slot
        have hflag : ∀ pair : EdgePair, (pair.constrain border).live = pair.live := fun _ => rfl
        exact (hlive slot).trans (isLive_modifyPair pool d hflag slot)
      · intro e
        refine (hside e).trans ?_
        simp only [side?, pair?_modifyPair]
        split
        · rw [Option.map_map]
          rfl
        · rfl

/-- Nor does it change which edges are enumerated, or how far their indices go. -/
theorem baseEdges_constrain (pool : EdgePool) (es : List EdgeId) (border : Bool) :
    (pool.constrain es border).baseEdges = pool.baseEdges ∧
      (pool.constrain es border).maxIndex = pool.maxIndex := by
  obtain ⟨hsize, hlive, _⟩ := constrain_eq pool es border
  unfold baseEdges maxIndex
  rw [hsize, funext hlive]
  exact ⟨rfl, rfl⟩

end EdgePool

end TinFaces
