import TinFaces.Proofs.Realizes

/-!
# Edges further up

Two pools may hold the same pairs, the second a few slots further up. Whatever is done to
both alike keeps them so, as long as the edges that are named are shifted as well:
`EdgePool.Shifted` says it of a pool, `Assembly.Shifted` of an assembly, `Mesh.Shifted` of a
mesh, each with one lemma for every operation.

A build that reserves pairs begins with such a gap. It runs side by side with a build that
reserves none, refuses what that refuses, and for the same reason (`Mesh.agree_build`). The
edits that a mesh allows afterwards leave the two meshes as they were to each other
(`Mesh.Shifted.editAll`).
-/

namespace TinFaces

/-! ## Computations that agree -/

/-- Computations that fail with the same error, or succeed with related results. -/
inductive Agree {ε α β : Type} (R : α → β → Prop) : Except ε α → Except ε β → Prop
  | ok {a : α} {b : β} (h : R a b) : Agree R (.ok a) (.ok b)
  | error (e : ε) : Agree R (.error e) (.error e)

namespace Agree

variable {ε α β γ δ τ : Type} {R : α → β → Prop} {S : γ → δ → Prop} {x : Except ε α}
  {y : Except ε β}

theorem refl (x : Except ε α) : Agree Eq x x := by
  cases x with
  | ok a => exact .ok rfl
  | error e => exact .error e

theorem bind (h : Agree R x y) {f : α → Except ε γ} {g : β → Except ε δ}
    (hnext : ∀ a b, R a b → Agree S (f a) (g b)) : Agree S (x >>= f) (y >>= g) := by
  cases h with
  | ok hab => exact hnext _ _ hab
  | error e => exact .error e

theorem map (h : Agree R x y) {f : α → γ} {g : β → δ} (hfg : ∀ a b, R a b → S (f a) (g b)) :
    Agree S (f <$> x) (g <$> y) := by
  cases h with
  | ok hab => exact .ok (hfg _ _ hab)
  | error e => exact .error e

/-- Computations that agree with a third one agree. -/
theorem common {z : Except ε γ} {T : α → γ → Prop} (h : Agree R x y) (h' : Agree T x z) :
    Agree (fun b c => ∃ a, R a b ∧ T a c) y z := by
  cases h with
  | ok hab =>
      cases h' with
      | ok hac => exact .ok ⟨_, hab, hac⟩
  | error e =>
      cases h'
      exact .error e

theorem imp {R' : α → β → Prop} (h : Agree R x y)
    (himp : ∀ a b, x = .ok a → y = .ok b → R a b → R' a b) : Agree R' x y := by
  cases h with
  | ok hab => exact .ok (himp _ _ rfl rfl hab)
  | error e => exact .error e

/-- Steps that agree, taken in turn. -/
theorem foldlM {f : α → τ → Except ε α} {g : β → τ → Except ε β}
    (hstep : ∀ a b t, R a b → Agree R (f a t) (g b t)) {a : α} {b : β} (h : R a b)
    (ts : List τ) : Agree R (ts.foldlM f a) (ts.foldlM g b) := by
  induction ts generalizing a b with
  | nil => exact .ok h
  | cons t ts ih =>
      rw [List.foldlM_cons, List.foldlM_cons]
      exact (hstep a b t h).bind fun _ _ hnext => ih hnext

end Agree

/-! ## Ids and pairs -/

namespace EdgeId

/-- The edge so many slots further up. -/
def shift (n : Nat) (e : EdgeId) : EdgeId := ⟨e.index + 2 * n⟩

variable (n : Nat) (e : EdgeId)

@[simp] theorem slot_shift : (e.shift n).slot = e.slot + n := by
  simp only [shift, slot]
  omega

@[simp] theorem isBase_shift : (e.shift n).isBase = e.isBase := by
  have hmod : (e.index + 2 * n) % 2 = e.index % 2 := by omega
  simp only [shift, isBase, hmod]

@[simp] theorem dual_shift : (e.shift n).dual = e.dual.shift n := by
  unfold dual
  rw [isBase_shift]
  split
  · simp only [shift, EdgeId.mk.injEq]
    omega
  · next hbase =>
      have hodd : e.index % 2 ≠ 0 := by simpa [isBase] using hbase
      simp only [shift, EdgeId.mk.injEq]
      omega

@[simp] theorem shift_ofSlot (slot : Nat) : (ofSlot slot).shift n = ofSlot (slot + n) := by
  simp only [shift, ofSlot, EdgeId.mk.injEq]
  omega

theorem shift_injective : Function.Injective (shift n) := by
  intro a b h
  obtain ⟨i⟩ := a
  obtain ⟨k⟩ := b
  simp only [shift, EdgeId.mk.injEq] at h ⊢
  omega

/-- An edge that is far enough up is another one further up. -/
theorem exists_eq_shift {n : Nat} {e : EdgeId} (h : n ≤ e.slot) : ∃ d : EdgeId, e = d.shift n := by
  obtain ⟨i⟩ := e
  simp only [slot] at h
  refine ⟨⟨i - 2 * n⟩, ?_⟩
  simp only [shift, EdgeId.mk.injEq]
  omega

end EdgeId

/-- The side with its neighbours further up. -/
def EdgeSide.shift (n : Nat) (side : EdgeSide) : EdgeSide :=
  { side with forward := side.forward.shift n, reverse := side.reverse.shift n }

namespace EdgePair

/-- The pair with the neighbours of its sides further up. -/
def shift (n : Nat) (pair : EdgePair) : EdgePair :=
  { pair with base := pair.base.shift n, dual := pair.dual.shift n }

theorem shift_joining (n slot : Nat) (a b : Corner) :
    (joining slot a b).shift n = joining (slot + n) a b := by
  have hdual : (EdgeId.ofSlot slot).dual.shift n = (EdgeId.ofSlot (slot + n)).dual := by
    rw [← EdgeId.dual_shift, EdgeId.shift_ofSlot]
  simp [shift, joining, detached, EdgeSide.shift, hdual]

theorem side_shift (n : Nat) (pair : EdgePair) (e : EdgeId) :
    (pair.shift n).side (e.shift n) = (pair.side e).shift n := by
  unfold side
  rw [EdgeId.isBase_shift]
  split <;> rfl

theorem modifySide_shift (n : Nat) (pair : EdgePair) (e : EdgeId) {f g : EdgeSide → EdgeSide}
    (hfg : ∀ side, g (side.shift n) = (f side).shift n) :
    (pair.shift n).modifySide (e.shift n) g = (pair.modifySide e f).shift n := by
  unfold modifySide
  rw [EdgeId.isBase_shift]
  split <;> simp [shift, hfg]

end EdgePair

/-! ## Pools -/

namespace EdgePool

/-- A pool and one that holds its pairs `n` slots further up. What the second holds below is
left open. -/
structure Shifted (n : Nat) (pool pool' : EdgePool) : Prop where
  size_eq : pool'.pairs.size = pool.pairs.size + n
  pairs_eq : ∀ slot, pool'.pairs[slot + n]? = pool.pairs[slot]?.map (EdgePair.shift n)

variable {n : Nat} {pool pool' : EdgePool}

theorem Shifted.pair?_eq (h : Shifted n pool pool') (e : EdgeId) :
    pool'.pair? (e.shift n) = (pool.pair? e).map (EdgePair.shift n) := by
  unfold pair?
  rw [EdgeId.slot_shift]
  exact h.pairs_eq e.slot

theorem Shifted.isLive_eq (h : Shifted n pool pool') (slot : Nat) :
    pool'.isLive (slot + n) = pool.isLive slot := by
  unfold isLive
  rw [h.pairs_eq]
  cases pool.pairs[slot]? <;> rfl

theorem Shifted.allocate (h : Shifted n pool pool') (hfree : pool.free = [])
    (hfree' : pool'.free = []) (a b : Corner) :
    (pool'.allocate a b).1 = (pool.allocate a b).1.shift n ∧
      Shifted n (pool.allocate a b).2 (pool'.allocate a b).2 := by
  rw [allocate_eq hfree, allocate_eq hfree', h.size_eq]
  refine ⟨(EdgeId.shift_ofSlot n _).symm, ?_, fun slot => ?_⟩
  · simp only [Array.size_push, h.size_eq]
    omega
  · simp only [Array.getElem?_push, h.size_eq, Nat.add_right_cancel_iff]
    split
    · simp [EdgePair.shift_joining]
    · exact h.pairs_eq slot

theorem Shifted.modifyPair (h : Shifted n pool pool') (e : EdgeId) {f g : EdgePair → EdgePair}
    (hfg : ∀ pair, g (pair.shift n) = (f pair).shift n) :
    Shifted n (pool.modifyPair e f) (pool'.modifyPair (e.shift n) g) where
  size_eq := by simpa [EdgePool.modifyPair] using h.size_eq
  pairs_eq slot := by
    simp only [EdgePool.modifyPair, Array.getElem?_modify, EdgeId.slot_shift,
      Nat.add_right_cancel_iff, h.pairs_eq]
    split
    · simp [Function.comp_def, hfg]
    · rfl

theorem Shifted.linkSide (h : Shifted n pool pool') (e forward reverse : EdgeId) :
    Shifted n (pool.linkSide e forward reverse)
      (pool'.linkSide (e.shift n) (forward.shift n) (reverse.shift n)) :=
  h.modifyPair e fun pair => pair.modifySide_shift n e fun _ => rfl

theorem Shifted.linkFace (h : Shifted n pool pool') {e₁ e₂ e₃ e₁' e₂' e₃' : EdgeId}
    (h₁ : e₁' = e₁.shift n) (h₂ : e₂' = e₂.shift n) (h₃ : e₃' = e₃.shift n) :
    Shifted n (pool.linkFace ⟨e₁, e₂, e₃⟩) (pool'.linkFace ⟨e₁', e₂', e₃'⟩) := by
  rw [h₁, h₂, h₃]
  exact ((h.linkSide _ _ _).linkSide _ _ _).linkSide _ _ _

theorem Shifted.constrain (h : Shifted n pool pool') (es : List EdgeId) (border : Bool) :
    Shifted n (pool.constrain es border) (pool'.constrain (es.map (EdgeId.shift n)) border) := by
  induction es generalizing pool pool' with
  | nil => exact h
  | cons e es ih => exact ih (h.modifyPair e fun _ => rfl)

/-- The edges are enumerated in the same order, if nothing is in use below. -/
theorem Shifted.baseEdges_eq (h : Shifted n pool pool')
    (hbelow : ∀ slot < n, pool'.isLive slot = false) :
    pool'.baseEdges = pool.baseEdges.map (EdgeId.shift n) := by
  have hnone : (List.range n).filter pool'.isLive = [] := by
    simpa [List.filter_eq_nil_iff] using hbelow
  have hlive : pool'.isLive ∘ (n + ·) = pool.isLive := by
    funext slot
    rw [Function.comp_apply, Nat.add_comm, h.isLive_eq]
  unfold baseEdges
  rw [h.size_eq, Nat.add_comm, List.range_add, List.filter_append, hnone, List.nil_append,
    List.filter_map, hlive, List.map_map, List.map_map]
  refine List.map_congr_left fun slot _ => ?_
  simp [Nat.add_comm]

end EdgePool

/-! ## Assemblies -/

namespace Assembly

/-- An assembly and one that has the same sides along edges `n` slots further up. -/
structure Shifted (n : Nat) (s s' : Assembly) : Prop where
  pool : EdgePool.Shifted n s.pool s'.pool
  free_eq : s.pool.free = []
  free_eq' : s'.pool.free = []
  sides_eq : s'.sides = s.sides.map (Prod.map id (EdgeId.shift n))

variable {n : Nat} {s s' : Assembly}

theorem Shifted.edge?_eq (h : Shifted n s s') (side : Side) :
    s'.edge? side = (s.edge? side).map (EdgeId.shift n) := by
  unfold edge?
  rw [h.sides_eq]
  induction s.sides with
  | nil => rfl
  | cons entry entries ih =>
      rw [List.map_cons, List.lookup_cons, List.lookup_cons, ih, Prod.map_fst, id]
      cases side == entry.1 <;> rfl

theorem Shifted.isTaken_eq (h : Shifted n s s') : s'.isTaken = s.isTaken := by
  funext side
  unfold isTaken
  rw [h.edge?_eq, Option.isSome_map]

theorem Shifted.connectSide (h : Shifted n s s') (side : Side) :
    (s'.connectSide side).1 = (s.connectSide side).1.shift n ∧
      Shifted n (s.connectSide side).2 (s'.connectSide side).2 := by
  unfold Assembly.connectSide
  rw [h.edge?_eq]
  cases s.edge? side.swap with
  | some twin =>
      refine ⟨EdgeId.dual_shift n twin, h.pool, h.free_eq, h.free_eq', ?_⟩
      simp [h.sides_eq]
  | none =>
      obtain ⟨hedge, hpool⟩ := h.pool.allocate h.free_eq h.free_eq' side.1 side.2
      refine ⟨hedge, hpool, ?_, ?_, ?_⟩
      · simp [EdgePool.allocate_eq h.free_eq]
      · simp [EdgePool.allocate_eq h.free_eq']
      · simp [h.sides_eq, hedge]

theorem Shifted.linkFace (h : Shifted n s s') {e₁ e₂ e₃ e₁' e₂' e₃' : EdgeId}
    (h₁ : e₁' = e₁.shift n) (h₂ : e₂' = e₂.shift n) (h₃ : e₃' = e₃.shift n) :
    Shifted n { s with pool := s.pool.linkFace ⟨e₁, e₂, e₃⟩ }
      { s' with pool := s'.pool.linkFace ⟨e₁', e₂', e₃'⟩ } :=
  ⟨h.pool.linkFace h₁ h₂ h₃, h.free_eq, h.free_eq', h.sides_eq⟩

theorem Shifted.connect (h : Shifted n s s') (face : Triangle Corner) :
    Shifted n (s.connect face) (s'.connect face) := by
  obtain ⟨hfirst, h₁⟩ := h.connectSide (face.first, face.second)
  obtain ⟨hsecond, h₂⟩ := h₁.connectSide (face.second, face.third)
  obtain ⟨hthird, h₃⟩ := h₂.connectSide (face.third, face.first)
  exact h₃.linkFace hfirst hsecond hthird

theorem Shifted.attach (h : Shifted n s s') (t : Triangle Nat) :
    Agree (Shifted n) (s.attach t) (s'.attach t) := by
  unfold Assembly.attach
  rw [h.isTaken_eq]
  split
  · exact .error _
  · exact .ok (h.connect _)

theorem Shifted.attachGhost (h : Shifted n s s') (hullSide : HullSide) :
    Agree (Shifted n) (s.attachGhost hullSide) (s'.attachGhost hullSide) := by
  unfold Assembly.attachGhost
  rw [h.isTaken_eq]
  split
  · exact .error _
  · exact .ok (h.connect _)

theorem Shifted.hull_eq (h : Shifted n s s') (triangles : List (Triangle Nat)) :
    s'.hull triangles = s.hull triangles := by
  unfold hull
  rw [h.isTaken_eq]

theorem Shifted.checkTwins_eq (h : Shifted n s s') : s'.checkTwins = s.checkTwins := by
  have hfind : s'.sides.find? (fun entry => !s.isTaken entry.1.swap) =
      (s.sides.find? fun entry => !s.isTaken entry.1.swap).map (Prod.map id (EdgeId.shift n)) := by
    rw [h.sides_eq, List.find?_map]
    rfl
  unfold checkTwins
  rw [h.isTaken_eq, hfind]
  cases s.sides.find? fun entry => !s.isTaken entry.1.swap <;> rfl

end Assembly

/-- Two assemblies that start so far from each other stay so, and find the same hull. -/
theorem Mesh.agree_assemble {n : Nat} {pool pool' : EdgePool} (h : EdgePool.Shifted n pool pool')
    (hfree : pool.free = []) (hfree' : pool'.free = []) (triangles : List (Triangle Nat)) :
    Agree (fun r r' => Assembly.Shifted n r.1 r'.1 ∧ r'.2 = r.2) (assemble pool triangles)
      (assemble pool' triangles) := by
  have hstart : Assembly.Shifted n { pool } { pool := pool' } := ⟨h, hfree, hfree', rfl⟩
  unfold assemble
  apply (Agree.foldlM (fun _ _ t hs => hs.attach t) hstart triangles).bind
  intro faces faces' hfaces
  rw [hfaces.hull_eq]
  apply (Agree.foldlM (fun _ _ side hs => hs.attachGhost side) hfaces _).bind
  intro closed closed' hclosed
  rw [hclosed.checkTwins_eq]
  exact (Agree.refl _).bind fun _ _ _ => (Agree.refl _).bind fun _ _ _ => .ok ⟨hclosed, rfl⟩

/-! ## Meshes -/

/-- The chain with its edges under other ids. -/
def Chain.relabel (f : EdgeId → EdgeId) (chain : Chain) : Chain :=
  { chain with linkingEdge? := chain.linkingEdge?.map f, edges := chain.edges.map f }

theorem Chain.relabel_relabel (f g : EdgeId → EdgeId) (chain : Chain) :
    (chain.relabel f).relabel g = chain.relabel (g ∘ f) := by
  simp [relabel]

namespace Mesh

/-- A mesh and one that has the same edges `n` slots further up, with none in use below. -/
structure Shifted (n : Nat) (m m' : Mesh) : Prop where
  vertices_eq : m'.vertices = m.vertices
  numTriangles_eq : m'.numTriangles = m.numTriangles
  chains_eq : m'.chains = m.chains.map (Chain.relabel (EdgeId.shift n))
  pool : EdgePool.Shifted n m.pool m'.pool
  below : ∀ slot < n, m'.pool.isLive slot = false

variable {n : Nat} {m m' : Mesh}

/-- A build that reserves pairs does as one that reserves none, that far up. -/
theorem agree_build (points : Array Point) (triangles : List (Triangle Nat)) (n : Nat) :
    Agree (fun built built' => built'.hull = built.hull ∧ Shifted n built.mesh built'.mesh)
      (build points triangles {}) (build points triangles { reservedPairs := n }) := by
  obtain ⟨_, hfree, hsize⟩ := @EdgePool.reserve_eq {} rfl n
  have hempty : EdgePool.Shifted n {} (({} : EdgePool).reserve n).2 := by
    refine ⟨hsize, fun slot => ?_⟩
    have hend : (({} : EdgePool).reserve n).2.pairs.size ≤ slot + n := by
      rw [hsize]
      exact Nat.add_le_add_right (Nat.zero_le slot) n
    rw [Array.getElem?_eq_none hend]
    rfl
  unfold build
  cases triangles.isEmpty with
  | true => exact .error _
  | false =>
      simp only [Bool.false_eq_true, if_false]
      apply (Agree.refl _).bind
      intro _ _ _
      apply (agree_assemble hempty rfl hfree triangles).bind
      rintro ⟨s, hull⟩ ⟨s', _⟩ ⟨hs, rfl⟩
      obtain ⟨hlive, hpair⟩ := @EdgePool.foldl_deallocate_reserved s'.pool n
      obtain ⟨hkept, _, _⟩ := @EdgePool.foldl_deallocate s'.pool (({} : EdgePool).reserve n).1
      refine .ok ⟨rfl, rfl, rfl, Array.map_empty.symm, ⟨?_, fun slot => ?_⟩, fun slot hslot => ?_⟩
      · exact hkept.trans hs.pool.size_eq
      · have hbeyond := hpair (.ofSlot (slot + n)) (by simp)
        simp only [EdgePool.pair?, EdgeId.slot_ofSlot] at hbeyond
        exact hbeyond.trans (hs.pool.pairs_eq slot)
      · exact Bool.eq_false_iff.2 fun hused => absurd ((hlive slot).1 hused).1 (Nat.not_le.2 hslot)

/-! ## Edits -/

/-- The search goes through the edges in the same order. -/
theorem Shifted.findEdge_eq (h : Shifted n m m') (a b : VertexId) :
    m'.findEdge a b = (m.findEdge a b).map (EdgeId.shift n) := by
  unfold findEdge
  rw [h.pool.baseEdges_eq h.below, List.findSome?_map, List.map_findSome?]
  congr 1
  funext e
  simp only [Function.comp_apply, h.pool.pair?_eq]
  cases m.pool.pair? e with
  | none => rfl
  | some pair =>
      have hbase : (pair.shift n).base.origin = pair.base.origin := rfl
      have hdual : (pair.shift n).dual.origin = pair.dual.origin := rfl
      simp only [Option.map_some, Option.bind_eq_bind, Option.bind_some, hbase, hdual,
        EdgeId.dual_shift]
      split
      · rfl
      · split <;> rfl

theorem Shifted.segmentEdge (h : Shifted n m m') (segment : VertexId × VertexId) :
    Agree (fun e e' => e' = e.shift n) (m.segmentEdge segment) (m'.segmentEdge segment) := by
  unfold Mesh.segmentEdge
  rw [h.findEdge_eq]
  cases m.findEdge segment.1 segment.2 with
  | none => exact .error _
  | some e => exact .ok rfl

theorem Shifted.chainEdges (h : Shifted n m m') (chain : Chain) :
    Agree (fun es es' => es' = es.map (EdgeId.shift n)) (m.chainEdges chain)
      (m'.chainEdges chain) := by
  have hknown : m'.numVertices = m.numVertices := congrArg Array.size h.vertices_eq
  have hsegments : ∀ segments : List (VertexId × VertexId),
      Agree (fun es es' => es' = es.map (EdgeId.shift n)) (segments.mapM m.segmentEdge)
        (segments.mapM m'.segmentEdge) := by
    intro segments
    induction segments with
    | nil => exact .ok rfl
    | cons segment segments ih =>
        rw [List.mapM_cons, List.mapM_cons]
        apply (h.segmentEdge segment).bind
        rintro e _ rfl
        apply ih.bind
        rintro es _ rfl
        exact .ok rfl
  unfold Mesh.chainEdges
  rw [hknown]
  by_cases hshort : chain.vertices.length < chain.required
  · simp only [hshort, if_true]
    exact .error _
  · simp only [hshort, if_false]
    cases chain.vertices.find? fun v => m.numVertices ≤ v.index with
    | some v => exact .error _
    | none => exact hsegments chain.segments

theorem Shifted.size_chains_eq (h : Shifted n m m') : m'.chains.size = m.chains.size := by
  rw [h.chains_eq, Array.size_map]

theorem Shifted.store (h : Shifted n m m') (chain : Chain) (edges : List EdgeId) :
    (m'.store chain (edges.map (EdgeId.shift n))).chain =
        (m.store chain edges).chain.relabel (EdgeId.shift n) ∧
      Shifted n (m.store chain edges).mesh
        (m'.store chain (edges.map (EdgeId.shift n))).mesh := by
  have hchain : (m'.store chain (edges.map (EdgeId.shift n))).chain =
      (m.store chain edges).chain.relabel (EdgeId.shift n) := by
    simp [Mesh.store, Chain.relabel, h.size_chains_eq, List.head?_map]
  refine ⟨hchain, h.vertices_eq, h.numTriangles_eq, ?_, h.pool.constrain edges chain.closed, ?_⟩
  · show m'.chains.push _ = (m.chains.push _).map _
    rw [Array.map_push, ← h.chains_eq]
    exact congrArg m'.chains.push hchain
  · intro slot hslot
    obtain ⟨_, hlive, _⟩ :=
      m'.pool.constrain_eq (edges.map (EdgeId.shift n)) chain.closed
    exact (hlive slot).trans (h.below slot hslot)

/-- Both meshes register a chain, under the same id, or refuse it for the same reason. -/
theorem Shifted.register (h : Shifted n m m') (chain : Chain) :
    Agree (fun r r' => (r'.id = r.id ∧ r'.chain = r.chain.relabel (EdgeId.shift n)) ∧
        Shifted n r.mesh r'.mesh) (m.register chain) (m'.register chain) := by
  apply (h.chainEdges chain).map
  rintro edges _ rfl
  obtain ⟨hchain, hmesh⟩ := h.store chain edges
  exact ⟨⟨congrArg ConstraintId.mk h.size_chains_eq, hchain⟩, hmesh⟩

theorem Shifted.edit (h : Shifted n m m') (change : Edit) :
    Shifted n (m.edit change) (m'.edit change) := by
  cases change with
  | addVertex p =>
      refine ⟨?_, h.numTriangles_eq, h.chains_eq, h.pool, h.below⟩
      exact congrArg (Array.push · p) h.vertices_eq
  | addConstraint chain =>
      have hagree := h.register chain
      simp only [Mesh.edit]
      generalize m.register chain = registered, m'.register chain = registered' at hagree
      cases hagree with
      | ok hregistered => exact hregistered.2
      | error _ => exact h

theorem Shifted.editAll (h : Shifted n m m') (edits : List Edit) :
    Shifted n (m.editAll edits) (m'.editAll edits) := by
  induction edits generalizing m m' with
  | nil => exact h
  | cons change rest ih => exact ih (h.edit change)

/-! ## Answers -/

/-- The edges in use above are those in use below, further up. -/
theorem Shifted.isLive_iff (h : Shifted n m m') (e : EdgeId) :
    m'.pool.isLive e.slot = true ↔ ∃ d : EdgeId, m.pool.isLive d.slot = true ∧ e = d.shift n := by
  constructor
  · intro he
    have hge : n ≤ e.slot := by
      by_contra hlt
      cases (h.below e.slot (Nat.not_le.1 hlt)).symm.trans he
    obtain ⟨d, rfl⟩ := EdgeId.exists_eq_shift hge
    rw [EdgeId.slot_shift, h.pool.isLive_eq] at he
    exact ⟨d, he, rfl⟩
  · rintro ⟨d, hd, rfl⟩
    rw [EdgeId.slot_shift, h.pool.isLive_eq]
    exact hd

/-- What the two meshes answer about an edge. -/
structure AnswersShifted (n : Nat) (m m' : Mesh) (e : EdgeId) : Prop where
  origin_eq : m'.origin (e.shift n) = m.origin e
  forward_eq : m'.forward (e.shift n) = EdgeId.shift n <$> m.forward e
  reverse_eq : m'.reverse (e.shift n) = EdgeId.shift n <$> m.reverse e
  isConstrained_eq : m'.isConstrained (e.shift n) = m.isConstrained e
  isRegionBorder_eq : m'.isRegionBorder (e.shift n) = m.isRegionBorder e

theorem Shifted.answers (h : Shifted n m m') {e : EdgeId} (he : m.pool.isLive e.slot = true) :
    AnswersShifted n m m' e := by
  obtain ⟨pair, hpair, _⟩ := EdgePool.isLive_eq_true_iff.1 he
  have hread : m.pool.pair e = .ok pair := readAt_eq_ok_iff.2 hpair
  have hread' : m'.pool.pair (e.shift n) = .ok (pair.shift n) := by
    refine readAt_eq_ok_iff.2 ?_
    rw [EdgeId.slot_shift, h.pool.pairs_eq, hpair]
    rfl
  have hside : (pair.shift n).side (e.shift n) = (pair.side e).shift n := pair.side_shift n e
  constructor
  all_goals
    simp only [Mesh.origin, Mesh.forward, Mesh.reverse, Mesh.isConstrained, Mesh.isRegionBorder,
      EdgePool.side, hread, hread', Functor.map, Except.map, hside]
    rfl

end Mesh

end TinFaces
