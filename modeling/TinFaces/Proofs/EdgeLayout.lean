import Mathlib.Algebra.Group.Nat.Even
import Mathlib.Data.List.Dedup
import Mathlib.Data.Sym.Sym2
import TinFaces.Proofs.Registry

/-!
# Where the edges of a mesh lie

A build leaves its pairs in consecutive slots, behind those that were reserved
(`Mesh.layout_of_build`):

* until the reserved pairs are given back, every slot of the pool is in use (`EdgePool.IsFull`),
  so the slots that become free are the reserved ones, and those in use are all the others;
* a pair has two directions, and a face three sides, each along a direction of its own
  (`Mesh.Realizes.two_mul_length_baseEdges`);
* the ends of a pair tell it from the others, so there is one pair for each vertex of the hull,
  which joins it to the ghost vertex, and one for each side of the triangles, taken without
  direction (`Mesh.Realizes.ghostPairs_perm`, `Mesh.Realizes.realPairs_perm`).

The edits that a mesh allows afterwards take no pair into use and move no end.
-/

namespace TinFaces

open Assembly (corner sideBetween)

/-! ## Pools without a free slot -/

namespace EdgePool

/-- Every slot of the pool is in use, and there is none to recycle. -/
structure IsFull (pool : EdgePool) : Prop where
  free_eq : pool.free = []
  live : ∀ slot < pool.pairs.size, pool.isLive slot = true

theorem isFull_empty : IsFull {} where
  free_eq := rfl
  live _ hslot := absurd hslot (Nat.not_lt_zero _)

variable {pool : EdgePool}

theorem IsFull.allocate (h : pool.IsFull) (a b : Corner) : (pool.allocate a b).2.IsFull where
  free_eq := by rw [allocate_eq h.free_eq]
  live slot hslot := by
    rw [allocate_eq h.free_eq, Array.size_push] at hslot
    rw [isLive_allocate h.free_eq, Bool.or_eq_true, decide_eq_true_eq]
    rcases Nat.lt_succ_iff_lt_or_eq.1 hslot with hold | hnew
    · exact .inr (h.live slot hold)
    · exact .inl hnew

theorem IsFull.linkFace (h : pool.IsFull) (t : Triangle EdgeId) : (pool.linkFace t).IsFull where
  free_eq := h.free_eq
  live slot hslot := by
    rw [size_linkFace] at hslot
    rw [isLive_linkFace]
    exact h.live slot hslot

theorem IsFull.reserve (h : pool.IsFull) (n : Nat) : (pool.reserve n).2.IsFull := by
  induction n generalizing pool with
  | zero => exact h
  | succ n ih => exact ih (h.allocate none none)

/-- Giving back pairs that are in use frees a slot for each of them. -/
theorem length_free_foldl_deallocate {es : List EdgeId} (hslots : (es.map EdgeId.slot).Nodup)
    (hlive : ∀ e ∈ es, pool.isLive e.slot = true) :
    (es.foldl deallocate pool).free.length = pool.free.length + es.length := by
  induction es generalizing pool with
  | nil => rfl
  | cons e es ih =>
      obtain ⟨hnew, hrest⟩ := List.nodup_cons.1 hslots
      obtain ⟨he, hes⟩ := List.forall_mem_cons.1 hlive
      have hkept : ∀ d ∈ es, (pool.deallocate e).isLive d.slot = true := by
        intro d hd
        have hne : d.slot ≠ e.slot := fun heq => hnew (heq ▸ List.mem_map_of_mem hd)
        rw [isLive_deallocate, decide_eq_true hne, Bool.true_and]
        exact hes d hd
      have hfreed : (pool.deallocate e).free = e.slot :: pool.free := by
        unfold deallocate
        rw [if_pos he]
      rw [List.foldl_cons, ih hrest hkept, hfreed, List.length_cons, List.length_cons]
      omega

/-- Once the pairs reserved from the start are given back, the pairs in use are those behind
them. -/
theorem IsFull.giveBack_reserved (h : pool.IsFull) {n : Nat} (hn : n ≤ pool.pairs.size) :
    let freed := (({} : EdgePool).reserve n).1.foldl deallocate pool
    freed.baseEdges = (List.range freed.numLivePairs).map (fun i => .ofSlot (n + i)) ∧
      freed.maxIndex = 2 * (n + freed.numLivePairs) - 1 := by
  intro freed
  obtain ⟨hids, _, _⟩ := @reserve_eq {} rfl n
  obtain ⟨hsize, _, _⟩ := @foldl_deallocate pool (({} : EdgePool).reserve n).1
  obtain ⟨hlive, _⟩ := @foldl_deallocate_reserved pool n
  have hslots : (({} : EdgePool).reserve n).1.map EdgeId.slot = List.range n := by
    rw [hids, List.map_map]
    simp [Function.comp_def]
  have hcount : freed.numLivePairs = pool.pairs.size - n := by
    have hused : ∀ e ∈ (({} : EdgePool).reserve n).1, pool.isLive e.slot = true := by
      intro e he
      have hmem : e.slot ∈ List.range n := hslots ▸ List.mem_map_of_mem he
      exact h.live _ (lt_of_lt_of_le (List.mem_range.1 hmem) hn)
    have hfree := length_free_foldl_deallocate (hslots ▸ List.nodup_range) hused
    rw [h.free_eq, ← List.length_map EdgeId.slot, hslots, List.length_range, List.length_nil,
      Nat.zero_add] at hfree
    rw [numLivePairs, hsize, hfree]
  have hsplit : pool.pairs.size = n + freed.numLivePairs := by omega
  rw [hsplit] at hsize
  refine ⟨?_, by rw [maxIndex, hsize]⟩
  -- of all slots, the first `n` are not in use and the others are
  have hbelow : (List.range n).filter freed.isLive = [] := by
    refine List.filter_eq_nil_iff.2 fun slot hslot hused => ?_
    exact absurd ((hlive slot).1 hused).1 (Nat.not_le.2 (List.mem_range.1 hslot))
  have habove : ((List.range freed.numLivePairs).map (n + ·)).filter freed.isLive =
      (List.range freed.numLivePairs).map (n + ·) := by
    refine List.filter_eq_self.2 fun slot hslot => ?_
    obtain ⟨i, hi, rfl⟩ := List.mem_map.1 hslot
    have hlt := List.mem_range.1 hi
    exact (hlive _).2 ⟨Nat.le_add_right n i, h.live _ (by omega)⟩
  rw [baseEdges, hsize, List.range_add, List.filter_append, hbelow, List.nil_append, habove,
    List.map_map]
  rfl

end EdgePool

namespace Assembly

theorem isFull_connectSide {s : Assembly} (h : s.pool.IsFull) (side : Side) :
    (s.connectSide side).2.pool.IsFull := by
  unfold connectSide
  split
  · exact h
  · exact h.allocate _ _

theorem isFull_connect {s : Assembly} (h : s.pool.IsFull) (face : Triangle Corner) :
    (s.connect face).pool.IsFull :=
  (isFull_connectSide (isFull_connectSide (isFull_connectSide h _) _) _).linkFace _

theorem isFull_foldl_connect {s : Assembly} (h : s.pool.IsFull)
    (faces : List (Triangle Corner)) : (faces.foldl connect s).pool.IsFull := by
  induction faces generalizing s with
  | nil => exact h
  | cons face faces ih =>
      rw [List.foldl_cons]
      exact ih (isFull_connect h face)

end Assembly

/-! ## Sides without direction -/

/-- The sides of the triangles without direction, each once. -/
def undirectedSides (triangles : List (Triangle Nat)) : List (Sym2 Nat) :=
  ((sidesOf triangles).map fun side => s(side.1, side.2)).dedup

/-- The vertices that lie on the hull, each once. -/
def hullVertices (triangles : List (Triangle Nat)) : List Nat :=
  ((hullSides triangles).flatMap fun side => [side.1, side.2]).dedup

theorem nodup_undirectedSides (triangles : List (Triangle Nat)) :
    (undirectedSides triangles).Nodup := List.nodup_dedup _

theorem nodup_hullVertices (triangles : List (Triangle Nat)) : (hullVertices triangles).Nodup :=
  List.nodup_dedup _

theorem mem_undirectedSides {triangles : List (Triangle Nat)} {x : Sym2 Nat} :
    x ∈ undirectedSides triangles ↔ ∃ side ∈ sidesOf triangles, s(side.1, side.2) = x := by
  rw [undirectedSides, List.mem_dedup, List.mem_map]

theorem mem_hullVertices {triangles : List (Triangle Nat)} {v : Nat} :
    v ∈ hullVertices triangles ↔
      v ∈ (hullSides triangles).map Prod.fst ∨ v ∈ (hullSides triangles).map Prod.snd := by
  simp only [hullVertices, List.mem_dedup, List.mem_flatMap, List.mem_cons, List.not_mem_nil,
    or_false, List.mem_map, eq_comm (a := v)]
  constructor
  · rintro ⟨side, hside, hfst | hsnd⟩
    · exact .inl ⟨side, hside, hfst⟩
    · exact .inr ⟨side, hside, hsnd⟩
  · rintro (⟨side, hside, hfst⟩ | ⟨side, hside, hsnd⟩)
    · exact ⟨side, hside, .inl hfst⟩
    · exact ⟨side, hside, .inr hsnd⟩

/-- A hull that is a single loop has as many vertices as sides. -/
theorem IsLoop.length_hullVertices {triangles : List (Triangle Nat)}
    (h : IsLoop (hullSides triangles)) :
    (hullVertices triangles).length = (hullSides triangles).length := by
  obtain ⟨hleft, _, hends⟩ := h.ends
  have hperm : (hullVertices triangles).Perm ((hullSides triangles).map Prod.fst) := by
    refine (List.perm_ext_iff_of_nodup (nodup_hullVertices _) hleft).2 fun v => ?_
    rw [mem_hullVertices, ← hends, or_self]
  rw [hperm.length_eq, List.length_map]

namespace Mesh

variable {m : Mesh} {triangles : List (Triangle Nat)} {e : EdgeId}

/-! ## The ends of a pair -/

/-- The two ends of the pair of `e`, in no order. -/
def ends (m : Mesh) (e : EdgeId) : Except Fault (Sym2 Corner) := do
  return s(← m.origin e, ← m.destination e)

/-- Whether an end of the pair of `e` is the ghost vertex. -/
def isGhostEdge (m : Mesh) (e : EdgeId) : Bool :=
  match m.surface.toTriangulation.isGhostEdge e with
  | .ok ghost => ghost
  | .error _ => false

/-- The pairs in use that end at the ghost vertex, and those that join two vertices. -/
def ghostPairs (m : Mesh) : List EdgeId := m.surface.baseEdges.filter m.isGhostEdge

def realPairs (m : Mesh) : List EdgeId := m.surface.baseEdges.filter fun e => !m.isGhostEdge e

theorem ends_eq_ok {a b : Corner} (ha : m.origin e = .ok a) (hb : m.destination e = .ok b) :
    m.ends e = .ok s(a, b) := by
  unfold ends
  rw [ha, hb]
  rfl

theorem isGhostEdge_iff {a b : Corner} (ha : m.origin e = .ok a) (hb : m.destination e = .ok b) :
    m.isGhostEdge e = true ↔ a = none ∨ b = none := by
  have hanswer : m.surface.toTriangulation.isGhostEdge e = .ok (a.isNone || b.isNone) := by
    have horigin : m.surface.toTriangulation.origin e = .ok a := ha
    have hdestination : m.surface.toTriangulation.destination e = .ok b := hb
    unfold Triangulation.isGhostEdge
    rw [horigin, hdestination]
    cases a <;> rfl
  unfold isGhostEdge
  rw [hanswer, Bool.or_eq_true, Option.isNone_iff_eq_none, Option.isNone_iff_eq_none]

/-- The edge of a side has the ends of the side. -/
theorem Realizes.origin_destination_edge (h : m.Realizes triangles) {edge : Side → EdgeId}
    (hcarries : m.pool.Carries (closedFaces triangles) edge) {side : Side}
    (hside : side ∈ sidesOf (closedFaces triangles)) :
    m.origin (edge side) = .ok side.1 ∧ m.destination (edge side) = .ok side.2 := by
  refine ⟨origin_eq_ok_iff.2 (hcarries.origin_edge hside), ?_⟩
  show m.origin (edge side).dual = _
  rw [← hcarries.edge_swap side hside]
  exact origin_eq_ok_iff.2 (hcarries.origin_edge (h.closed.swap_mem side hside))

/-- A pair in use has the ends of a side of the faces. -/
theorem Realizes.exists_side_of_mem_baseEdges (h : m.Realizes triangles)
    (he : e ∈ m.surface.baseEdges) : ∃ side ∈ sidesOf (closedFaces triangles),
      m.ends e = .ok s(side.1, side.2) ∧
        (m.isGhostEdge e = true ↔ side.1 = none ∨ side.2 = none) := by
  obtain ⟨edge, hcarries⟩ := h.carried
  obtain ⟨side, hside, rfl⟩ := (hcarries.isLive_iff e).1 (EdgePool.mem_baseEdges.1 he).2
  obtain ⟨horigin, hdestination⟩ := h.origin_destination_edge hcarries hside
  exact ⟨side, hside, ends_eq_ok horigin hdestination, isGhostEdge_iff horigin hdestination⟩

/-- A side of the faces runs along a pair in use. -/
theorem Realizes.exists_mem_baseEdges (h : m.Realizes triangles) {side : Side}
    (hside : side ∈ sidesOf (closedFaces triangles)) : ∃ e ∈ m.surface.baseEdges,
      m.ends e = .ok s(side.1, side.2) ∧
        (m.isGhostEdge e = true ↔ side.1 = none ∨ side.2 = none) := by
  obtain ⟨edge, hcarries⟩ := h.carried
  -- one of the two directions is the base side of its pair
  have hbase : ∀ {s : Side}, s ∈ sidesOf (closedFaces triangles) → (edge s).isBase = true →
      edge s ∈ m.surface.baseEdges := fun hs hs' =>
    EdgePool.mem_baseEdges.2 ⟨hs', hcarries.isLive_edge hs⟩
  have hswap := h.closed.swap_mem side hside
  cases hfirst : (edge side).isBase with
  | true =>
      obtain ⟨horigin, hdestination⟩ := h.origin_destination_edge hcarries hside
      exact ⟨_, hbase hside hfirst, ends_eq_ok horigin hdestination,
        isGhostEdge_iff horigin hdestination⟩
  | false =>
      have hsecond : (edge side.swap).isBase = true := by
        rw [hcarries.edge_swap side hside, EdgeId.isBase_dual, hfirst]
        rfl
      obtain ⟨horigin, hdestination⟩ := h.origin_destination_edge hcarries hswap
      refine ⟨_, hbase hswap hsecond, ?_, ?_⟩
      · rw [ends_eq_ok horigin hdestination]
        exact congrArg Except.ok Sym2.eq_swap
      · rw [isGhostEdge_iff horigin hdestination]
        exact or_comm

/-- The ends of a pair tell it from the others. -/
theorem Realizes.nodup_ends (h : m.Realizes triangles) : (m.surface.baseEdges.map m.ends).Nodup := by
  obtain ⟨edge, hcarries⟩ := h.carried
  refine List.Nodup.map_on (fun e he d hd heq => ?_) ?_
  · obtain ⟨hbase, hlive⟩ := EdgePool.mem_baseEdges.1 he
    obtain ⟨hbase', hlive'⟩ := EdgePool.mem_baseEdges.1 hd
    obtain ⟨side, hside, rfl⟩ := (hcarries.isLive_iff e).1 hlive
    obtain ⟨side', hside', rfl⟩ := (hcarries.isLive_iff d).1 hlive'
    obtain ⟨horigin, hdestination⟩ := h.origin_destination_edge hcarries hside
    obtain ⟨horigin', hdestination'⟩ := h.origin_destination_edge hcarries hside'
    rw [ends_eq_ok horigin hdestination, ends_eq_ok horigin' hdestination'] at heq
    rcases Sym2.eq_iff.1 (Except.ok.inj heq) with ⟨hfst, hsnd⟩ | ⟨hfst, hsnd⟩
    · rw [Prod.ext hfst hsnd]
    · -- the reverse side has the dual edge, which is no base side
      have hswap : side = side'.swap := Prod.ext hfst hsnd
      rw [hswap, hcarries.edge_swap side' hside', EdgeId.isBase_dual, hbase'] at hbase
      cases hbase
  · show m.pool.baseEdges.Nodup
    exact m.pool.nodup_baseEdges

/-- One pair joins each vertex of the hull to the ghost vertex, and no other pair ends there. -/
theorem Realizes.ghostPairs_perm (h : m.Realizes triangles) :
    (m.ghostPairs.map m.ends).Perm
      ((hullVertices triangles).map fun v => .ok s(none, corner v)) := by
  have hinj : Function.Injective fun v : Nat => (.ok s(none, corner v) : Except Fault _) := by
    intro v w heq
    simpa [corner] using heq
  refine (List.perm_ext_iff_of_nodup (h.nodup_ends.sublist (List.filter_sublist.map _))
    ((nodup_hullVertices _).map hinj)).2 fun x => ?_
  simp only [List.mem_map, List.mem_filter]
  constructor
  · rintro ⟨e, ⟨he, hghost⟩, rfl⟩
    obtain ⟨⟨a, b⟩, hside, hends, hiff⟩ := h.exists_side_of_mem_baseEdges he
    obtain ⟨face, hface, hmem⟩ := mem_sidesOf.1 hside
    have hne : a ≠ b := (h.closed.distinct face hface).ne_of_mem_sides hmem
    rw [hends]
    rcases hiff.1 hghost with rfl | rfl
    · obtain ⟨⟨v⟩, rfl⟩ := Option.ne_none_iff_exists'.1 hne.symm
      exact ⟨v, mem_hullVertices.2 (.inr (from_ghost_mem_iff.1 hside)), rfl⟩
    · obtain ⟨⟨v⟩, rfl⟩ := Option.ne_none_iff_exists'.1 hne
      exact ⟨v, mem_hullVertices.2 (.inl (to_ghost_mem_iff.1 hside)), congrArg _ Sym2.eq_swap⟩
  · rintro ⟨v, hv, rfl⟩
    have hside : (none, corner v) ∈ sidesOf (closedFaces triangles) := by
      rcases mem_hullVertices.1 hv with hfst | hsnd
      · exact h.closed.swap_mem _ (to_ghost_mem_iff.2 hfst)
      · exact from_ghost_mem_iff.2 hsnd
    obtain ⟨e, he, hends, hiff⟩ := h.exists_mem_baseEdges hside
    exact ⟨e, ⟨he, hiff.2 (.inl rfl)⟩, hends⟩

/-- One pair runs along each side of the triangles, and every pair that joins two vertices runs
along one. -/
theorem Realizes.realPairs_perm (h : m.Realizes triangles) :
    (m.realPairs.map m.ends).Perm
      ((undirectedSides triangles).map fun x => .ok (x.map corner)) := by
  have hinj : Function.Injective fun x : Sym2 Nat => (.ok (x.map corner) : Except Fault _) :=
    fun x y heq => Sym2.map.injective Assembly.corner_injective (Except.ok.inj heq)
  refine (List.perm_ext_iff_of_nodup (h.nodup_ends.sublist (List.filter_sublist.map _))
    ((nodup_undirectedSides _).map hinj)).2 fun x => ?_
  simp only [List.mem_map, List.mem_filter, Bool.not_eq_true', ← Bool.not_eq_true]
  constructor
  · rintro ⟨e, ⟨he, hreal⟩, rfl⟩
    obtain ⟨side, hside, hends, hiff⟩ := h.exists_side_of_mem_baseEdges he
    rw [hiff, not_or] at hreal
    rw [hends]
    rcases mem_sidesOf_closedFaces.1 hside with
      ⟨s, hs, rfl⟩ | ⟨s, hs, rfl⟩ | ⟨v, _, rfl⟩ | ⟨v, _, rfl⟩
    · exact ⟨_, mem_undirectedSides.2 ⟨s, hs, rfl⟩, rfl⟩
    · exact ⟨_, mem_undirectedSides.2 ⟨s, (mem_hullSides.1 hs).1, rfl⟩,
        congrArg _ Sym2.eq_swap⟩
    · exact absurd rfl hreal.2
    · exact absurd rfl hreal.1
  · rintro ⟨x, hx, rfl⟩
    obtain ⟨s, hs, rfl⟩ := mem_undirectedSides.1 hx
    obtain ⟨e, he, hends, hiff⟩ :=
      h.exists_mem_baseEdges (mem_sidesOf_closedFaces.2 (.inl ⟨s, hs, rfl⟩))
    refine ⟨e, ⟨he, fun hghost => ?_⟩, hends⟩
    rcases hiff.1 hghost with hnone | hnone <;> exact absurd hnone (Option.some_ne_none _)

/-- Each face has three sides, and each pair two directions. -/
theorem Realizes.two_mul_length_baseEdges (h : m.Realizes triangles) :
    2 * m.surface.baseEdges.length =
      3 * (triangles.length + (hullSides triangles).length) := by
  obtain ⟨edge, hcarries⟩ := h.carried
  have hperm : m.pool.directedEdges.Perm ((sidesOf (closedFaces triangles)).map edge) := by
    refine (List.perm_ext_iff_of_nodup m.pool.nodup_directedEdges ?_).2 fun e => ?_
    · exact List.Nodup.map_on (fun a ha b hb => hcarries.edge_inj h.closed ha hb) h.closed.nodup
    · rw [EdgePool.mem_directedEdges, hcarries.isLive_iff, List.mem_map]
  rw [← length_closedFaces, ← length_sidesOf, ← List.length_map edge, ← hperm.length_eq]
  exact (EdgePool.length_directedEdges m.pool).symm

/-! ## The layout -/

/-- How the pairs of a mesh lie that stores some triangles behind so many reserved slots. -/
structure LaidOut (m : Mesh) (triangles : List (Triangle Nat)) (reserved : Nat) : Prop where
  even : Even (3 * (triangles.length + (hullSides triangles).length))
  numEdges_eq : m.numEdges = 3 * (triangles.length + (hullSides triangles).length) / 2
  baseEdges_eq : m.surface.baseEdges = (List.range m.numEdges).map fun i => ⟨2 * (reserved + i)⟩
  maxEdgeIndex_eq : m.surface.maxEdgeIndex = 2 * (reserved + m.numEdges) - 1
  length_ghostPairs : m.ghostPairs.length = (hullSides triangles).length
  /-- The ghost pairs are one for each vertex of the hull. -/
  ghostPairs_perm : (m.ghostPairs.map m.ends).Perm
    ((hullVertices triangles).map fun v => .ok s(none, corner v))
  /-- The others are one for each side of the triangles. -/
  realPairs_perm : (m.realPairs.map m.ends).Perm
    ((undirectedSides triangles).map fun x => .ok (x.map corner))

/-- A mesh that realizes triangles is laid out as its base edges and its largest index say. -/
theorem Realizes.laidOut (h : m.Realizes triangles) (hloop : IsLoop (hullSides triangles))
    {reserved : Nat}
    (hbase : m.pool.baseEdges = (List.range m.numEdges).map fun i => .ofSlot (reserved + i))
    (hmax : m.pool.maxIndex = 2 * (reserved + m.numEdges) - 1) : m.LaidOut triangles reserved := by
  have htwice : 3 * (triangles.length + (hullSides triangles).length) =
      m.numEdges + m.numEdges := by
    have hlength : m.surface.baseEdges.length = m.numEdges := by
      show m.pool.baseEdges.length = _
      rw [hbase, List.length_map, List.length_range]
    rw [← h.two_mul_length_baseEdges, hlength, Nat.two_mul]
  refine ⟨⟨_, htwice⟩, by omega, hbase, hmax, ?_, h.ghostPairs_perm, h.realPairs_perm⟩
  have hlength := h.ghostPairs_perm.length_eq
  rwa [List.length_map, List.length_map, hloop.length_hullVertices] at hlength

/-- The pairs of a mesh that has just been built. -/
theorem pool_closedMesh {points : Array Point} (h : Acceptable points triangles)
    (options : BuildOptions) :
    let m := closedMesh points triangles options
    m.pool.baseEdges =
        (List.range m.numEdges).map (fun i => .ofSlot (options.reservedPairs + i)) ∧
      m.pool.maxIndex = 2 * (options.reservedPairs + m.numEdges) - 1 := by
  intro m
  obtain ⟨_, hfree, hsize⟩ := @EdgePool.reserve_eq {} rfl options.reservedPairs
  have hreserved := (holds_closedAssembly hfree h.distinct h.closedSurface.nodup).sound.reserved_le
  have hempty : ({} : EdgePool).pairs.size = 0 := rfl
  rw [hsize, hempty, Nat.zero_add] at hreserved
  have hfull : (closedAssembly (({} : EdgePool).reserve options.reservedPairs).2
      triangles).pool.IsFull :=
    Assembly.isFull_foldl_connect (EdgePool.isFull_empty.reserve options.reservedPairs) _
  exact hfull.giveBack_reserved hreserved

/-- No edit takes a pair into use or gives one back. -/
theorem pairs_edit (m : Mesh) (change : Edit) :
    (m.edit change).pool.baseEdges = m.pool.baseEdges ∧
      (m.edit change).numEdges = m.numEdges := by
  cases change with
  | addVertex p => exact ⟨rfl, rfl⟩
  | addConstraint chain =>
      rcases m.edit_addConstraint chain with hsame | ⟨edges, _, hstored⟩
      · rw [hsame]
        exact ⟨rfl, rfl⟩
      · obtain ⟨hsize, _, _⟩ := EdgePool.constrain_eq m.pool edges chain.closed
        rw [hstored]
        refine ⟨(m.pool.baseEdges_constrain edges chain.closed).1, ?_⟩
        show (m.pool.constrain edges chain.closed).numLivePairs = m.pool.numLivePairs
        rw [EdgePool.numLivePairs, EdgePool.numLivePairs, hsize, EdgePool.free_constrain]

theorem pairs_editAll (m : Mesh) (edits : List Edit) :
    (m.editAll edits).pool.baseEdges = m.pool.baseEdges ∧
      (m.editAll edits).numEdges = m.numEdges := by
  induction edits generalizing m with
  | nil => exact ⟨rfl, rfl⟩
  | cons change rest ih =>
      obtain ⟨hbase, hcount⟩ := ih (m.edit change)
      obtain ⟨hbase', hcount'⟩ := m.pairs_edit change
      exact ⟨hbase.trans hbase', hcount.trans hcount'⟩

theorem ends_eq_ok_iff {x : Sym2 Corner} : m.ends e = .ok x ↔
    ∃ a b, m.origin e = .ok a ∧ m.destination e = .ok b ∧ s(a, b) = x := by
  simp only [ends, bind_eq_ok_iff, pure, Except.pure, Except.ok.injEq]
  constructor
  · rintro ⟨a, ha, b, hb, hx⟩
    exact ⟨a, b, ha, hb, hx⟩
  · rintro ⟨a, b, ha, hb, hx⟩
    exact ⟨a, ha, b, hb, hx⟩

/-- No edit moves an end. -/
theorem ends_editAll (m : Mesh) (edits : List Edit) (e : EdgeId) (x : Sym2 Corner) :
    (m.editAll edits).ends e = .ok x ↔ m.ends e = .ok x := by
  have horigin : ∀ {d : EdgeId} {v : Corner},
      (m.editAll edits).origin d = .ok v ↔ m.origin d = .ok v := map_side_editAll edits
  simp only [ends_eq_ok_iff, destination, horigin]

/-- A mesh that was built from some triangles lies in the slots behind the reserved ones, half as
many as the triangles and the ghost faces have sides. Each vertex of the hull has one pair to the
ghost vertex, and each side of the triangles has one pair. No edit changes this, or where a pair
runs. -/
theorem layout_of_build {points : Array Point} {options : BuildOptions} {built : Built}
    (hbuild : build points triangles options = .ok built) (edits : List Edit) :
    (built.mesh.editAll edits).LaidOut triangles options.reservedPairs ∧
      ∀ e x, (built.mesh.editAll edits).ends e = .ok x ↔ built.mesh.ends e = .ok x := by
  obtain ⟨hacceptable, rfl⟩ := build_eq_ok_iff.1 hbuild
  refine ⟨?_, ends_editAll _ edits⟩
  obtain ⟨hbase, hcount⟩ := pairs_editAll (closedMesh points triangles options) edits
  obtain ⟨hbase', hmax⟩ := pool_closedMesh hacceptable options
  have hrealizes := (realizes_closedMesh hacceptable options).editAll edits
  refine hrealizes.laidOut hacceptable.hull_isLoop ?_ ?_
  · rw [hbase, hcount]
    exact hbase'
  · rw [maxIndex_editAll, hcount]
    exact hmax

/-- The square behind one reserved pair: five sides, of which the diagonal is constrained, and
four ghost pairs. -/
theorem layout_of_square :
    let m := squareMesh.editAll [.addVertex ⟨0.5, 0.5, 1.0⟩, .addConstraint (.line [⟨0⟩, ⟨2⟩])]
    m.LaidOut squareTriangles 1 ∧
      (∀ e x, m.ends e = .ok x ↔ squareMesh.ends e = .ok x) ∧ m.numEdges = 9 ∧
      (hullVertices squareTriangles).length = 4 ∧ (undirectedSides squareTriangles).length = 5 := by
  intro m
  obtain ⟨hlaidOut, hends⟩ := layout_of_build build_square
    [.addVertex ⟨0.5, 0.5, 1.0⟩, .addConstraint (.line [⟨0⟩, ⟨2⟩])]
  exact ⟨hlaidOut, hends, hlaidOut.numEdges_eq, by decide, by decide⟩

end Mesh

end TinFaces
