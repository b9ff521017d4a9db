import Mathlib.Data.List.Forall2
import TinFaces.Proofs.Flags
import TinFaces.Proofs.Realizes

/-!
# The registry and the flags

A mesh says twice where its constraints run: each registered chain lists its edges,
and each pair has flags. This file shows that the two agree, whatever was registered
and refused before (`Mesh.Reachable.flags_agree_with_registry`).

What is kept along the way is `Mesh.Registered`: a pair is flagged if an edge of some
registered chain is one of its two directions, and every chain is stored as the mesh
computed it (`Mesh.Stores`). A refused chain changes nothing; an accepted one adds its
own edges to both sides of the equivalence (`Mesh.Registered.store`).

From edges to segments it is one step: no two live edges run between the same two
vertices (`Mesh.Realizes.runsAlong_unique`), so the pair that carries a segment is the
one that the chain lists for it.
-/

namespace TinFaces

/-- A fallible function succeeds on a list if it does so on each element. -/
theorem mapM_eq_ok_iff {ε α β : Type} {f : α → Except ε β} {xs : List α} {ys : List β} :
    xs.mapM f = .ok ys ↔ List.Forall₂ (fun x y => f x = .ok y) xs ys := by
  induction xs generalizing ys with
  | nil => cases ys <;> simp [pure, Except.pure]
  | cons x xs ih =>
      rw [List.mapM_cons]
      simp only [bind_eq_ok_iff, ih, pure, Except.pure, Except.ok.injEq]
      constructor
      · intro hsteps
        obtain ⟨y, hy, rest, hrest, rfl⟩ := hsteps
        exact hrest.cons hy
      · intro hforall
        cases hforall with
        | cons hy hrest => exact ⟨_, hy, _, hrest, rfl⟩

/-- Elements that go with a chain of others are a chain if the partners of two that
follow each other allow it. -/
theorem isChain_of_forall₂ {α β : Type} {R : α → β → Prop} {P : α → α → Prop}
    {Q : β → β → Prop} {xs : List α} {ys : List β} (hforall : List.Forall₂ R xs ys)
    (hchain : ys.IsChain Q) (hstep : ∀ x x' y y', R x y → R x' y' → Q y y' → P x x') :
    xs.IsChain P := by
  induction hforall with
  | nil => exact List.isChain_nil
  | cons hfirst hrest ih =>
      cases hrest with
      | nil => exact List.isChain_singleton _
      | cons hsecond _ =>
          obtain ⟨hjoin, htail⟩ := List.isChain_cons_cons.1 hchain
          exact List.isChain_cons_cons.2 ⟨hstep _ _ _ _ hfirst hsecond hjoin, ih htail⟩

/-- Elements of two lists that go together pair by pair have partners. -/
theorem exists_mem_of_forall₂ {α β : Type} {R : α → β → Prop} {xs : List α} {ys : List β}
    (h : List.Forall₂ R xs ys) {x : α} (hx : x ∈ xs) : ∃ y ∈ ys, R x y := by
  induction h with
  | nil => cases hx
  | cons hfirst _ ih =>
      rcases List.mem_cons.1 hx with rfl | hx
      · exact ⟨_, List.mem_cons_self, hfirst⟩
      · obtain ⟨y, hy, hxy⟩ := ih hx
        exact ⟨y, List.mem_cons_of_mem _ hy, hxy⟩

/-! ## Segments -/

namespace Chain

/-- The segments lead from each vertex to the next, and in a closed chain back from
the last to the first. -/
theorem segments_cons {v : VertexId} {vs : List VertexId} {chain : Chain}
    (h : chain.vertices = v :: vs) :
    chain.segments = (v :: vs).zip (vs ++ if chain.closed then [v] else []) := by
  have hclosing : ∀ (a : VertexId) (l : List VertexId),
      (a :: l).zip l ++ [((a :: l).getLast (List.cons_ne_nil a l), v)] =
        (a :: l).zip (l ++ [v]) := by
    intro a l
    induction l generalizing a with
    | nil => rfl
    | cons b l ih => exact congrArg (List.cons (a, b)) (ih b)
  unfold segments
  rw [h]
  cases chain.closed with
  | false => simp
  | true =>
      have hback : closingSegment (v :: vs) =
          [((v :: vs).getLast (List.cons_ne_nil v vs), v)] := by
        unfold closingSegment
        rw [List.getLast?_eq_some_getLast (List.cons_ne_nil v vs)]
        rfl
      rw [List.tail_cons, if_pos rfl, if_pos rfl, hback]
      exact hclosing v vs

/-- The segments of a closed chain go round the loop of its vertices. -/
theorem segments_of_closed {chain : Chain} (hclosed : chain.closed = true) :
    chain.segments = chain.vertices.zip (chain.vertices.rotate 1) := by
  cases hvertices : chain.vertices with
  | nil => simp [segments, closingSegment, hvertices]
  | cons v vs =>
      rw [segments_cons hvertices, hclosed, if_pos rfl, List.rotate_cons_succ, List.rotate_zero]

/-- Each segment starts where the one before it ends. -/
theorem segments_isChain (chain : Chain) : chain.segments.IsChain fun s t => s.2 = t.1 := by
  have hzip : ∀ (a : VertexId) (l r : List VertexId),
      ((a :: l).zip (l ++ r)).IsChain fun s t => s.2 = t.1 := by
    intro a l r
    induction l generalizing a with
    | nil => cases r <;> simp
    | cons b l ih =>
        have hrest := ih b
        cases hnext : l ++ r with
        | nil => simp [hnext]
        | cons c rest =>
            rw [hnext] at hrest
            rw [List.cons_append, hnext]
            exact List.isChain_cons_cons.2 ⟨rfl, hrest⟩
  cases hvertices : chain.vertices with
  | nil =>
      have hnone : chain.segments = [] := by
        simp [segments, closingSegment, hvertices]
      rw [hnone]
      exact List.isChain_nil
  | cons v vs =>
      rw [segments_cons hvertices]
      exact hzip v vs _

/-- The last segment of a closed chain ends where the first one starts. -/
theorem segments_close {chain : Chain} (hclosed : chain.closed = true) :
    chain.segments.getLast?.map Prod.snd = chain.segments.head?.map Prod.fst := by
  cases hvertices : chain.vertices with
  | nil => simp [segments, closingSegment, hvertices]
  | cons v vs =>
      rw [segments_cons hvertices, hclosed, if_pos rfl, ← List.getLast?_map, ← List.head?_map,
        List.map_fst_zip (by simp), List.map_snd_zip (by simp)]
      simp

/-- A chain that is long enough has a segment. -/
theorem segments_ne_nil {chain : Chain} (h : ¬ chain.vertices.length < chain.required) :
    chain.segments ≠ [] := by
  have htwo : 2 ≤ chain.required := by
    unfold required
    split <;> omega
  cases hvertices : chain.vertices with
  | nil =>
      rw [hvertices, List.length_nil] at h
      omega
  | cons v vs =>
      cases vs with
      | nil =>
          rw [hvertices, List.length_singleton] at h
          omega
      | cons w ws =>
          rw [segments_cons hvertices]
          exact List.cons_ne_nil _ _

end Chain

namespace Mesh

/-! ## Edges along segments -/

/-- Whether `e` is in use and runs from the first vertex of the segment to the
second. -/
structure RunsAlong (m : Mesh) (e : EdgeId) (segment : VertexId × VertexId) : Prop where
  live : m.pool.isLive e.slot = true
  origin_eq : m.origin e = .ok (some segment.1)
  destination_eq : m.destination e = .ok (some segment.2)

/-- Whether a segment of the chain runs along `e`, in either direction. -/
def LiesOn (m : Mesh) (e : EdgeId) (chain : Chain) : Prop :=
  ∃ segment ∈ chain.segments, m.RunsAlong e segment ∨ m.RunsAlong e.dual segment

variable {m : Mesh}

/-- A question about a side is answered from what the pool stores for it. -/
theorem map_side_eq_ok_iff {α : Type} {f : EdgeSide → α} {e : EdgeId} {x : α} :
    f <$> m.pool.side e = .ok x ↔ (m.pool.side? e).map f = some x := by
  unfold EdgePool.side EdgePool.pair EdgePool.side? EdgePool.pair? readAt
  cases m.pool.pairs[e.slot]? with
  | none => simp [Functor.map, Except.map]
  | some pair => simp [Functor.map, Except.map]

/-- Edits leave the answers about sides as they are. -/
theorem map_side_editAll {α : Type} {f : EdgeSide → α} (edits : List Edit) {e : EdgeId} {x : α} :
    f <$> (m.editAll edits).pool.side e = .ok x ↔ f <$> m.pool.side e = .ok x := by
  rw [map_side_eq_ok_iff, map_side_eq_ok_iff, (m.sides_editAll edits).2]

theorem origin_eq_ok_iff {e : EdgeId} {v : Corner} :
    m.origin e = .ok v ↔ (m.pool.side? e).map EdgeSide.origin = some v :=
  map_side_eq_ok_iff

/-- Where edges run is a matter of the sides and of the slots in use. -/
theorem RunsAlong.of_eq {m' : Mesh} {e : EdgeId} {segment : VertexId × VertexId}
    (h : m.RunsAlong e segment) (hlive : ∀ slot, m'.pool.isLive slot = m.pool.isLive slot)
    (hside : ∀ e, m'.pool.side? e = m.pool.side? e) : m'.RunsAlong e segment where
  live := (hlive e.slot).trans h.live
  origin_eq := by
    rw [origin_eq_ok_iff, hside]
    exact origin_eq_ok_iff.1 h.origin_eq
  destination_eq := by
    have hdual : m'.origin e.dual = .ok (some segment.2) := by
      rw [origin_eq_ok_iff, hside]
      exact origin_eq_ok_iff.1 h.destination_eq
    exact hdual

/-- The dual runs back. -/
theorem RunsAlong.dual {e : EdgeId} {a b : VertexId} (h : m.RunsAlong e (a, b)) :
    m.RunsAlong e.dual (b, a) where
  live := by
    rw [EdgeId.slot_dual]
    exact h.live
  origin_eq := h.destination_eq
  destination_eq := by
    unfold Mesh.destination
    rw [EdgeId.dual_dual]
    exact h.origin_eq

/-- A pair along which a segment runs has the reversed segment along it, too. -/
theorem runsAlong_or_swap {e : EdgeId} {a b : VertexId}
    (h : m.RunsAlong e (a, b) ∨ m.RunsAlong e.dual (a, b)) :
    m.RunsAlong e (b, a) ∨ m.RunsAlong e.dual (b, a) := by
  rcases h with hrun | hrun
  · exact .inr hrun.dual
  · have hback := hrun.dual
    rw [EdgeId.dual_dual] at hback
    exact .inl hback

/-- What the search finds runs where it was asked to. -/
theorem runsAlong_of_findEdge {a b : VertexId} {e : EdgeId} (h : m.findEdge a b = some e) :
    m.RunsAlong e (a, b) := by
  obtain ⟨base, hbase, hfound⟩ := List.exists_of_findSome?_eq_some h
  obtain ⟨hisBase, hlive⟩ := EdgePool.mem_baseEdges.1 hbase
  obtain ⟨pair, hpair, hends⟩ := Option.bind_eq_some_iff.1 hfound
  have hdualPair : m.pool.pair? base.dual = some pair := (m.pool.pair?_dual base).trans hpair
  have horigin : m.origin base = .ok pair.base.origin := by
    rw [origin_eq_ok_iff, EdgePool.side?, hpair]
    simp [EdgePair.side, hisBase]
  have hdestination : m.origin base.dual = .ok pair.dual.origin := by
    rw [origin_eq_ok_iff, EdgePool.side?, hdualPair]
    simp [EdgePair.side, EdgeId.isBase_dual, hisBase]
  split at hends
  · next hforth =>
      cases hends
      obtain ⟨ha, hb⟩ := hforth
      exact ⟨hlive, horigin.trans (by rw [ha]), hdestination.trans (by rw [hb])⟩
  · split at hends
    · next hback =>
        cases hends
        obtain ⟨hb, ha⟩ := hback
        refine ⟨?_, hdestination.trans (by rw [ha]), ?_⟩
        · rw [EdgeId.slot_dual]
          exact hlive
        · unfold Mesh.destination
          rw [EdgeId.dual_dual]
          exact horigin.trans (by rw [hb])
    · cases hends

theorem runsAlong_of_segmentEdge {segment : VertexId × VertexId} {e : EdgeId}
    (h : m.segmentEdge segment = .ok e) : m.RunsAlong e segment := by
  unfold Mesh.segmentEdge at h
  split at h
  · next hfound =>
      cases h
      exact runsAlong_of_findEdge hfound
  · cases h

/-- A chain is accepted if it is long enough, its vertices belong to the mesh, and there is
an edge for each segment. -/
theorem chainEdges_eq_ok_iff {chain : Chain} {edges : List EdgeId} :
    m.chainEdges chain = .ok edges ↔ chain.required ≤ chain.vertices.length ∧
      (∀ v ∈ chain.vertices, v.index < m.numVertices) ∧
      List.Forall₂ (fun segment e => m.segmentEdge segment = .ok e) chain.segments edges := by
  rw [← mapM_eq_ok_iff]
  unfold Mesh.chainEdges
  by_cases hshort : chain.vertices.length < chain.required
  · simp [hshort, throw, throwThe, MonadExceptOf.throw, bind, Except.bind]
  · cases hforeign : chain.vertices.find? fun v => m.numVertices ≤ v.index with
    | some v =>
        have hmem := List.mem_of_find?_eq_some hforeign
        have hout : m.numVertices ≤ v.index := by simpa using List.find?_some hforeign
        simp only [hshort, if_false, throw, throwThe, MonadExceptOf.throw, bind, Except.bind,
          reduceCtorEq, false_iff]
        exact fun h => absurd (h.2.1 v hmem) (Nat.not_lt.2 hout)
    | none =>
        have hall : ∀ v ∈ chain.vertices, v.index < m.numVertices := by
          simpa using List.find?_eq_none.1 hforeign
        simp only [hshort, if_false]
        exact ⟨fun h => ⟨Nat.not_lt.1 hshort, hall, h⟩, fun h => h.2.2⟩

theorem register_eq_ok_iff {chain : Chain} {r : Registration} :
    m.register chain = .ok r ↔
      ∃ edges, m.chainEdges chain = .ok edges ∧ r = m.store chain edges := by
  unfold register
  cases m.chainEdges chain with
  | error error => simp [Functor.map, Except.map]
  | ok edges => simp [Functor.map, Except.map, eq_comm]

/-- A chain that is accepted has an edge along each segment, and at least one. -/
theorem runsAlong_of_chainEdges {chain : Chain} {edges : List EdgeId}
    (h : m.chainEdges chain = .ok edges) :
    List.Forall₂ m.RunsAlong edges chain.segments ∧ edges ≠ [] := by
  obtain ⟨hlong, _, hforall⟩ := chainEdges_eq_ok_iff.1 h
  refine ⟨(hforall.imp fun _ _ => runsAlong_of_segmentEdge).flip, ?_⟩
  rintro rfl
  exact Chain.segments_ne_nil (Nat.not_lt.2 hlong) (List.forall₂_nil_right_iff.1 hforall)

/-! ## What is stored and flagged -/

/-- A chain as a mesh stores it under an id: with that id, with an edge along each of
its segments in turn, and with the first of them as its linking edge. -/
structure Stores (m : Mesh) (id : ConstraintId) (chain : Chain) : Prop where
  id_eq : chain.id? = some id
  runs : List.Forall₂ m.RunsAlong chain.edges chain.segments
  link : ∃ e, chain.edges.head? = some e ∧ chain.linkingEdge? = some e

/-- The registered chains are stored as they should be, and the flagged pairs are
those of their edges. -/
structure Registered (m : Mesh) : Prop where
  stores : ∀ id chain, m.chain? id = some chain → m.Stores id chain
  constrained_iff : ∀ e pair, m.pool.pair? e = some pair → (pair.constrained = true ↔
    ∃ chain ∈ m.chains, ∃ d ∈ chain.edges, d.slot = e.slot)
  regionBorder_iff : ∀ e pair, m.pool.pair? e = some pair → (pair.regionBorder = true ↔
    ∃ chain ∈ m.chains, chain.closed = true ∧ ∃ d ∈ chain.edges, d.slot = e.slot)

/-- Without flags there is nothing to register. -/
theorem registered_of_isPlain (hchains : m.chains = #[]) (hplain : m.pool.IsPlain) :
    m.Registered where
  stores id chain h := by
    rw [chain?, hchains] at h
    simp at h
  constrained_iff e pair hpair := by
    rw [(hplain e.slot pair hpair).1, hchains]
    simp
  regionBorder_iff e pair hpair := by
    rw [(hplain e.slot pair hpair).2, hchains]
    simp

/-- A chain of the mesh is registered under some id. -/
theorem exists_chain?_of_mem {chain : Chain} (hchain : chain ∈ m.chains) :
    ∃ id, m.chain? id = some chain := by
  obtain ⟨k, hk⟩ := Array.mem_iff_getElem?.1 hchain
  exact ⟨⟨k⟩, hk⟩

/-- The edges of a registered chain run along its segments. -/
theorem Registered.runs (h : m.Registered) {chain : Chain} (hchain : chain ∈ m.chains) :
    List.Forall₂ m.RunsAlong chain.edges chain.segments := by
  obtain ⟨id, hid⟩ := exists_chain?_of_mem hchain
  exact (h.stores id chain hid).runs

/-- The edges of a registered closed chain run round the loop of its vertices. -/
theorem Registered.runs_round (h : m.Registered) {chain : Chain} (hchain : chain ∈ m.chains)
    (hclosed : chain.closed = true) :
    List.Forall₂ m.RunsAlong chain.edges (chain.vertices.zip (chain.vertices.rotate 1)) := by
  rw [← Chain.segments_of_closed hclosed]
  exact h.runs hchain

/-- Storing a chain along edges that run along its segments keeps registry and flags
in agreement. -/
theorem Registered.store (h : m.Registered) {chain : Chain} {edges : List EdgeId}
    (hruns : List.Forall₂ m.RunsAlong edges chain.segments) (hne : edges ≠ []) :
    (m.store chain edges).mesh.Registered := by
  obtain ⟨_, hlive, hside⟩ := EdgePool.constrain_eq m.pool edges chain.closed
  have hkept : ∀ {e : EdgeId} {segment : VertexId × VertexId}, m.RunsAlong e segment →
      (m.store chain edges).mesh.RunsAlong e segment := fun hrun => hrun.of_eq hlive hside
  have hchains : (m.store chain edges).mesh.chains =
      m.chains.push (m.store chain edges).chain := rfl
  -- a pair of the new mesh is a pair of the old one with the flags added
  have hpairs := EdgePool.pair?_constrain m.pool edges chain.closed
  have hany : ∀ e : EdgeId, edges.any (·.slot == e.slot) = true ↔ ∃ d ∈ edges, d.slot = e.slot :=
    fun e => by simp only [List.any_eq_true, beq_iff_eq]
  refine ⟨?_, ?_, ?_⟩
  · intro id c hc
    rw [chain?, hchains, Array.getElem?_push] at hc
    split at hc
    · next hid =>
        cases hc
        refine ⟨?_, hruns.imp fun _ _ => hkept, ?_⟩
        · exact congrArg (fun k => some (ConstraintId.mk k)) hid.symm
        · obtain ⟨e, rest, rfl⟩ := List.exists_cons_of_ne_nil hne
          exact ⟨e, rfl, rfl⟩
    · have hold := h.stores id c hc
      exact ⟨hold.id_eq, hold.runs.imp fun _ _ => hkept, hold.link⟩
  · intro e pair hpair
    obtain ⟨old, hold, rfl⟩ := Option.map_eq_some_iff.1 ((hpairs e).symm.trans hpair)
    rw [hchains]
    simp only [Bool.or_eq_true, hany, h.constrained_iff e old hold, Array.mem_push, or_and_right,
      exists_or, exists_eq_left]
    exact Iff.rfl
  · intro e pair hpair
    obtain ⟨old, hold, rfl⟩ := Option.map_eq_some_iff.1 ((hpairs e).symm.trans hpair)
    rw [hchains]
    simp only [Bool.or_eq_true, Bool.and_eq_true, hany, h.regionBorder_iff e old hold,
      Array.mem_push, or_and_right, exists_or, exists_eq_left]
    exact Iff.rfl

theorem Registered.edit (h : m.Registered) (change : Edit) : (m.edit change).Registered := by
  cases change with
  | addVertex p =>
      -- neither the pool nor the chains change
      refine ⟨fun id chain hchain => ?_, h.constrained_iff, h.regionBorder_iff⟩
      have hold := h.stores id chain hchain
      exact ⟨hold.id_eq, hold.runs.imp fun _ _ hrun =>
        hrun.of_eq (fun _ => rfl) fun _ => rfl, hold.link⟩
  | addConstraint chain =>
      rcases m.edit_addConstraint chain with hsame | ⟨edges, hedges, hstored⟩
      · rw [hsame]
        exact h
      · obtain ⟨hruns, hne⟩ := runsAlong_of_chainEdges hedges
        rw [hstored]
        exact h.store hruns hne

theorem Reachable.registered (h : m.Reachable) : m.Registered := by
  induction h with
  | empty => exact registered_of_isPlain rfl EdgePool.isPlain_empty
  | withCapacity h =>
      rw [eq_of_withCapacity_eq_ok h]
      exact registered_of_isPlain rfl EdgePool.isPlain_empty
  | @build points triangles options _ h =>
      obtain ⟨_, rfl⟩ := build_eq_ok_iff.1 h
      exact registered_of_isPlain rfl (isPlain_closedMesh points triangles options)
  | edit _ change ih => exact ih.edit change

/-! ## Flags and segments -/

variable {triangles : List (Triangle Nat)}

/-- There is one live edge from a vertex to another. -/
theorem Realizes.runsAlong_unique (h : m.Realizes triangles) {d e : EdgeId}
    {segment : VertexId × VertexId} (hd : m.RunsAlong d segment) (he : m.RunsAlong e segment) :
    d = e := by
  obtain ⟨edge, hcarries⟩ := h.carried
  have hends : ∀ {x : EdgeId}, m.RunsAlong x segment →
      edge (some segment.1, some segment.2) = x := by
    intro x hx
    obtain ⟨side, hside, rfl⟩ := (hcarries.isLive_iff x).1 hx.live
    have hdual : m.origin (edge side).dual = .ok (some segment.2) := hx.destination_eq
    rw [← hcarries.edge_swap side hside, origin_eq_ok_iff,
      hcarries.origin_edge (h.closed.swap_mem side hside)] at hdual
    have horigin := origin_eq_ok_iff.1 hx.origin_eq
    rw [hcarries.origin_edge hside] at horigin
    rw [← Option.some.inj horigin, ← Option.some.inj hdual]
    rfl
  rw [← hends hd, ← hends he]

/-- The pairs of the edges along a chain are those that carry its segments. -/
theorem Realizes.exists_slot_eq_iff (h : m.Realizes triangles) {chain : Chain}
    (hruns : List.Forall₂ m.RunsAlong chain.edges chain.segments) {e : EdgeId} :
    (∃ d ∈ chain.edges, d.slot = e.slot) ↔ m.LiesOn e chain := by
  constructor
  · intro hslot
    obtain ⟨d, hd, hslot⟩ := hslot
    obtain ⟨segment, hsegment, hrun⟩ := exists_mem_of_forall₂ hruns hd
    refine ⟨segment, hsegment, ?_⟩
    rcases EdgeId.eq_or_eq_dual hslot with rfl | rfl
    · exact .inl hrun
    · exact .inr hrun
  · intro hlies
    obtain ⟨segment, hsegment, hrun⟩ := hlies
    obtain ⟨d, hd, hdrun⟩ := exists_mem_of_forall₂ hruns.flip hsegment
    refine ⟨d, hd, ?_⟩
    rcases hrun with hrun | hrun
    · rw [h.runsAlong_unique hdrun hrun]
    · rw [h.runsAlong_unique hdrun hrun, EdgeId.slot_dual]

/-- No segment runs along an edge at the ghost vertex. -/
theorem not_liesOn_of_ghost {e : EdgeId} {chain : Chain}
    (hghost : m.origin e = .ok none ∨ m.destination e = .ok none) : ¬ m.LiesOn e chain := by
  rintro ⟨segment, _, hrun | hrun⟩
  · rcases hghost with hghost | hghost
    · cases hghost.symm.trans hrun.origin_eq
    · cases hghost.symm.trans hrun.destination_eq
  · have hback : m.origin e = .ok (some segment.2) := by
      have hdestination := hrun.destination_eq
      rwa [Mesh.destination, EdgeId.dual_dual] at hdestination
    rcases hghost with hghost | hghost
    · cases hghost.symm.trans hback
    · cases hghost.symm.trans hrun.origin_eq

/-- The flags of a pair tell on which registered chains it lies. -/
theorem Registered.flags_iff (h : m.Registered) (hrealizes : m.Realizes triangles) {e : EdgeId}
    {pair : EdgePair} (hpair : m.pool.pair? e = some pair) :
    (pair.constrained = true ↔ ∃ chain ∈ m.chains, m.LiesOn e chain) ∧
      (pair.regionBorder = true ↔
        ∃ chain ∈ m.chains, chain.closed = true ∧ m.LiesOn e chain) := by
  have hiff : ∀ chain ∈ m.chains, (∃ d ∈ chain.edges, d.slot = e.slot) ↔ m.LiesOn e chain :=
    fun chain hchain => hrealizes.exists_slot_eq_iff (h.runs hchain)
  rw [h.constrained_iff e pair hpair, h.regionBorder_iff e pair hpair]
  constructor
  · exact exists_congr fun chain => and_congr_right fun hchain => hiff chain hchain
  · exact exists_congr fun chain => and_congr_right fun hchain =>
      and_congr_right fun _ => hiff chain hchain

/-- A pair along which no chain has an edge is not flagged. -/
theorem Registered.isPlain (h : m.Registered) {e : EdgeId} {pair : EdgePair}
    (hpair : m.pool.pair? e = some pair)
    (hnone : ∀ chain ∈ m.chains, ∀ d ∈ chain.edges, d.slot ≠ e.slot) : pair.IsPlain := by
  constructor
  · refine Bool.eq_false_iff.2 fun hflag => ?_
    obtain ⟨chain, hchain, d, hd, hslot⟩ := (h.constrained_iff e pair hpair).1 hflag
    exact hnone chain hchain d hd hslot
  · refine Bool.eq_false_iff.2 fun hflag => ?_
    obtain ⟨chain, hchain, _, d, hd, hslot⟩ := (h.regionBorder_iff e pair hpair).1 hflag
    exact hnone chain hchain d hd hslot

/-- A pair that is not in use is not flagged, since the edges of the chains are. -/
theorem Registered.isPlain_of_dead (h : m.Registered) {e : EdgeId} {pair : EdgePair}
    (hpair : m.pool.pair? e = some pair) (hdead : m.pool.isLive e.slot = false) :
    pair.IsPlain := by
  refine h.isPlain hpair fun chain hchain d hd hslot => ?_
  obtain ⟨_, _, hrun⟩ := exists_mem_of_forall₂ (h.runs hchain) hd
  rw [← hslot, hrun.live] at hdead
  cases hdead

/-- A pair at the ghost vertex is not flagged. -/
theorem Registered.isPlain_of_ghost (h : m.Registered) (hrealizes : m.Realizes triangles)
    {e : EdgeId} {pair : EdgePair} (hpair : m.pool.pair? e = some pair)
    (hghost : m.origin e = .ok none ∨ m.destination e = .ok none) : pair.IsPlain := by
  refine h.isPlain hpair fun chain hchain d hd hslot => ?_
  have hlies : m.LiesOn e chain :=
    (hrealizes.exists_slot_eq_iff (h.runs hchain)).1 ⟨d, hd, hslot⟩
  exact not_liesOn_of_ghost hghost hlies

/-- A mesh answers with the flags of the pair. -/
theorem flags_of_pair? {e : EdgeId} {pair : EdgePair} (h : m.pool.pair? e = some pair) :
    m.isConstrained e = .ok pair.constrained ∧ m.isRegionBorder e = .ok pair.regionBorder := by
  have hread : m.pool.pair e = .ok pair := readAt_eq_ok_iff.2 h
  unfold Mesh.isConstrained Mesh.isRegionBorder
  rw [hread]
  exact ⟨rfl, rfl⟩

theorem flags_of_isPlain {e : EdgeId} {pair : EdgePair} (h : m.pool.pair? e = some pair)
    (hplain : pair.IsPlain) : m.isConstrained e = .ok false ∧ m.isRegionBorder e = .ok false := by
  obtain ⟨hconstrained, hborder⟩ := flags_of_pair? h
  rw [hplain.1] at hconstrained
  rw [hplain.2] at hborder
  exact ⟨hconstrained, hborder⟩

/-- The edges along a chain follow each other, and round a closed one they come back
to the start. -/
theorem Stores.edges_follow {id : ConstraintId} {chain : Chain} (h : m.Stores id chain) :
    chain.edges.IsChain (fun d e => m.destination d = m.origin e) ∧
      (chain.closed = true →
        chain.edges.getLast?.map m.destination = chain.edges.head?.map m.origin) := by
  constructor
  · refine isChain_of_forall₂ h.runs chain.segments_isChain fun d e s t hd he hjoin => ?_
    rw [hd.destination_eq, he.origin_eq, hjoin]
  · intro hclosed
    have horigins : chain.edges.map m.origin =
        (chain.segments.map Prod.fst).map fun v => .ok (some v) := by
      rw [List.map_map, ← List.forall₂_eq_eq_eq, List.forall₂_map_left_iff,
        List.forall₂_map_right_iff]
      exact h.runs.imp fun _ _ hrun => hrun.origin_eq
    have hdestinations : chain.edges.map m.destination =
        (chain.segments.map Prod.snd).map fun v => .ok (some v) := by
      rw [List.map_map, ← List.forall₂_eq_eq_eq, List.forall₂_map_left_iff,
        List.forall₂_map_right_iff]
      exact h.runs.imp fun _ _ hrun => hrun.destination_eq
    rw [← List.getLast?_map, ← List.head?_map, horigins, hdestinations, List.getLast?_map,
      List.getLast?_map, List.head?_map, List.head?_map, Chain.segments_close hclosed]

/-- What the flags of a mesh say about its registered chains. -/
structure FlagsAgree (m : Mesh) : Prop where
  /-- Both directions of a pair in use are constrained if a chain runs along it. -/
  constrained : ∀ e : EdgeId, m.pool.isLive e.slot = true → ∃ flag,
    m.isConstrained e = .ok flag ∧ m.isConstrained e.dual = .ok flag ∧
      (flag = true ↔ ∃ chain ∈ m.chains, m.LiesOn e chain)
  /-- They are region borders if a closed chain does. -/
  regionBorder : ∀ e : EdgeId, m.pool.isLive e.slot = true → ∃ flag,
    m.isRegionBorder e = .ok flag ∧ m.isRegionBorder e.dual = .ok flag ∧
      (flag = true ↔ ∃ chain ∈ m.chains, chain.closed = true ∧ m.LiesOn e chain)
  ghost : ∀ e : EdgeId, m.pool.isLive e.slot = true →
    m.origin e = .ok none ∨ m.destination e = .ok none →
      m.isConstrained e = .ok false ∧ m.isRegionBorder e = .ok false
  dead : ∀ e : EdgeId, e.slot < m.pool.pairs.size → m.pool.isLive e.slot = false →
    m.isConstrained e = .ok false ∧ m.isRegionBorder e = .ok false

theorem Registered.flagsAgree (h : m.Registered) (hrealizes : m.Realizes triangles) :
    m.FlagsAgree := by
  have hpair : ∀ e : EdgeId, e.slot < m.pool.pairs.size → ∃ pair, m.pool.pair? e = some pair :=
    fun e he => ⟨_, Array.getElem?_eq_getElem he⟩
  have hlive : ∀ e : EdgeId, m.pool.isLive e.slot = true → ∃ pair, m.pool.pair? e = some pair :=
    fun e he => hpair e (EdgePool.lt_size_of_isLive he)
  refine ⟨fun e he => ?_, fun e he => ?_, fun e he hghost => ?_, fun e he hdead => ?_⟩
  · obtain ⟨pair, hpair⟩ := hlive e he
    exact ⟨pair.constrained, (flags_of_pair? hpair).1,
      (flags_of_pair? ((m.pool.pair?_dual e).trans hpair)).1, (h.flags_iff hrealizes hpair).1⟩
  · obtain ⟨pair, hpair⟩ := hlive e he
    exact ⟨pair.regionBorder, (flags_of_pair? hpair).2,
      (flags_of_pair? ((m.pool.pair?_dual e).trans hpair)).2, (h.flags_iff hrealizes hpair).2⟩
  · obtain ⟨pair, hpair⟩ := hlive e he
    exact flags_of_isPlain hpair (h.isPlain_of_ghost hrealizes hpair hghost)
  · obtain ⟨pair, hpair⟩ := hpair e he
    exact flags_of_isPlain hpair (h.isPlain_of_dead hpair hdead)

/-- In every mesh that can come about the flags are those of the registered chains, and
each chain is stored under its id with an edge along each of its segments, one edge
following the other, the first of which is its linking edge. -/
theorem Reachable.flags_agree_with_registry (h : m.Reachable) :
    m.FlagsAgree ∧ ∀ id chain, m.chain? id = some chain → m.Stores id chain ∧
      chain.edges.IsChain (fun d e => m.destination d = m.origin e) ∧
      (chain.closed = true →
        chain.edges.getLast?.map m.destination = chain.edges.head?.map m.origin) := by
  obtain ⟨triangles, hrealizes⟩ := h.exists_realizes
  have hregistered := h.registered
  refine ⟨hregistered.flagsAgree hrealizes, fun id chain hchain => ?_⟩
  have hstores := hregistered.stores id chain hchain
  exact ⟨hstores, hstores.edges_follow⟩

/-- The square with a ring and a line that share the diagonal, in opposite directions.
A line along the other diagonal was refused between the two. -/
def constrainedSquare : Mesh :=
  squareMesh.editAll [.addConstraint (.ring [⟨0⟩, ⟨1⟩, ⟨2⟩]),
    .addConstraint (.line [⟨3⟩, ⟨1⟩]), .addConstraint (.line [⟨0⟩, ⟨2⟩, ⟨3⟩])]

theorem reachable_constrainedSquare : constrainedSquare.Reachable :=
  (Reachable.build build_square).editAll _

theorem constrainedSquare_flags_agree :
    constrainedSquare.chains.size = 2 ∧ constrainedSquare.FlagsAgree ∧
      ∀ id chain, constrainedSquare.chain? id = some chain →
        constrainedSquare.Stores id chain ∧
        chain.edges.IsChain
          (fun d e => constrainedSquare.destination d = constrainedSquare.origin e) ∧
        (chain.closed = true → chain.edges.getLast?.map constrainedSquare.destination =
          chain.edges.head?.map constrainedSquare.origin) :=
  ⟨by decide +kernel, reachable_constrainedSquare.flags_agree_with_registry⟩

end Mesh

end TinFaces
