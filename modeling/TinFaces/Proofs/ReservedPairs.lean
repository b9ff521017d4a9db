import TinFaces.Proofs.Regions
import TinFaces.Proofs.Relabelling
import TinFaces.Proofs.ShiftedEdges

/-!
# Builds that reserve pairs

A build may reserve pairs before it starts and give them back when it is done. That moves
the edges up by as many slots and has no other consequence: the same triangles are refused,
and the meshes that come out answer alike, edge by edge (`Mesh.Isomorphic`), however they are
edited afterwards.

Two builds that reserve pairs are both compared with the one that reserves none
(`Mesh.Shifted.isomorphic`). Traversals take the same course over isomorphic meshes, whatever
the renaming of the edges is (`Mesh.Isomorphic.relabels`, `Mesh.Isomorphic.traversed`); only
the marks need more room in the one than in the other.

`Mesh.builds_agree_under_reservation` puts this together.
-/

namespace TinFaces

/-! ## Reports and tours -/

section Reports

variable {V E E' : Type}

/-- Reports of the same triangles in the same order, with the same summary or for the same
failure. -/
structure Report.SameOutput (report : Report V E) (report' : Report V E') : Prop where
  triangles_eq : report'.triangles = report.triangles
  result_eq : report'.result = report.result

theorem Report.SameCourse.sameOutput {f : E → E'} {report : Report V E} {report' : Report V E'}
    (h : report.SameCourse f report') : report.SameOutput report' :=
  ⟨h.triangles_eq, h.result_eq⟩

/-- Tours take the same course if the walks do that they string together. -/
theorem Constraint.walkEach_sameCourse {f : E → E'} {options : WalkOptions}
    {cs : List (Constraint V E)} {cs' : List (Constraint V E')}
    (h : List.Forall₂ (fun c c' => c'.definesRegion = c.definesRegion ∧
      (c.walk options).SameCourse f (c'.walk options)) cs cs') (total : Summary) :
    (walkEach options total cs).SameCourse f (walkEach options total cs') := by
  induction h generalizing total with
  | nil => exact ⟨rfl, rfl⟩
  | @cons c c' rest rest' hfirst _ ih =>
      obtain ⟨hregion, hevents, hresult⟩ := hfirst
      simp only [walkEach, hregion, hresult]
      split
      · split
        · exact ⟨hevents, hresult⟩
        · split
          · exact ⟨hevents, rfl⟩
          · next merged _ =>
              obtain ⟨hevents', hresult'⟩ := ih merged
              refine ⟨?_, hresult'⟩
              show _ ++ _ = List.map _ (_ ++ _)
              rw [hevents, hevents', List.map_append]
      · exact ih total

end Reports

/-! ## Isomorphic meshes -/

namespace Mesh

/-- Meshes that are the same but for the names of their edges: `f` takes the edges in use of
the first to those of the second. -/
structure Isomorphic (f : EdgeId → EdgeId) (m m' : Mesh) : Prop where
  vertices_eq : m'.vertices = m.vertices
  numTriangles_eq : m'.numTriangles = m.numTriangles
  isLive_iff : ∀ e' : EdgeId, m'.pool.isLive e'.slot = true ↔
    ∃ e : EdgeId, m.pool.isLive e.slot = true ∧ f e = e'
  injOn : Set.InjOn f {e | m.pool.isLive e.slot = true}
  baseEdges_eq : m'.pool.baseEdges = m.pool.baseEdges.map f
  findEdge_eq : ∀ a b, m'.findEdge a b = (m.findEdge a b).map f
  dual_eq : ∀ e : EdgeId, m.pool.isLive e.slot = true → (f e).dual = f e.dual
  origin_eq : ∀ e : EdgeId, m.pool.isLive e.slot = true → m'.origin (f e) = m.origin e
  forward_eq : ∀ e : EdgeId, m.pool.isLive e.slot = true → m'.forward (f e) = f <$> m.forward e
  reverse_eq : ∀ e : EdgeId, m.pool.isLive e.slot = true → m'.reverse (f e) = f <$> m.reverse e
  isConstrained_eq : ∀ e : EdgeId, m.pool.isLive e.slot = true →
    m'.isConstrained (f e) = m.isConstrained e
  isRegionBorder_eq : ∀ e : EdgeId, m.pool.isLive e.slot = true →
    m'.isRegionBorder (f e) = m.isRegionBorder e
  chains_eq : m'.chains = m.chains.map (Chain.relabel f)

variable {m m' : Mesh} {f : EdgeId → EdgeId} {triangles triangles' : List (Triangle Nat)}

/-- The names of the edges are labels that keep how they hang together. -/
theorem Isomorphic.relabels (h : Isomorphic f m m') (hm : m.Realizes triangles)
    (hm' : m'.Realizes triangles') : hm.lawful.Relabels hm'.lawful f := by
  have hmem : ∀ e : EdgeId, m.pool.isLive e.slot = true → m'.pool.isLive (f e).slot = true :=
    fun e he => (h.isLive_iff (f e)).2 ⟨e, he, rfl⟩
  refine ⟨hmem, h.injOn, h.dual_eq, fun e he => ?_, fun e he => ?_⟩
  · have hforward : m.forward e = .ok (hm.lawful.forward e) := hm.lawful.forward_eq e he
    have hforward' : m'.forward (f e) = .ok (hm'.lawful.forward (f e)) :=
      hm'.lawful.forward_eq _ (hmem e he)
    rw [h.forward_eq e he, hforward] at hforward'
    exact (Except.ok.inj hforward').symm
  · have horigin : m.origin e = .ok (hm.lawful.origin e) := hm.lawful.origin_eq e he
    have horigin' : m'.origin (f e) = .ok (hm'.lawful.origin (f e)) :=
      hm'.lawful.origin_eq _ (hmem e he)
    rw [h.origin_eq e he, horigin] at horigin'
    exact (Except.ok.inj horigin').symm

theorem Isomorphic.border_eq (h : Isomorphic f m m') (hm : m.Realizes triangles)
    (hm' : m'.Realizes triangles') {e : EdgeId} (he : m.pool.isLive e.slot = true) :
    hm'.lawful.border (f e) = hm.lawful.border e := by
  have hborder : m.isRegionBorder e = .ok (hm.lawful.border e) := hm.lawful.border_eq e he
  have hborder' : m'.isRegionBorder (f e) = .ok (hm'.lawful.border (f e)) :=
    hm'.lawful.border_eq _ ((h.isLive_iff (f e)).2 ⟨e, he, rfl⟩)
  rw [h.isRegionBorder_eq e he, hborder] at hborder'
  exact (Except.ok.inj hborder').symm

theorem Isomorphic.chain?_eq (h : Isomorphic f m m') (id : ConstraintId) :
    m'.chain? id = (m.chain? id).map (Chain.relabel f) := by
  unfold chain?
  rw [h.chains_eq, Array.getElem?_map]

theorem Isomorphic.isBootstrapped_eq (h : Isomorphic f m m') :
    m'.isBootstrapped = m.isBootstrapped := by
  unfold isBootstrapped
  rw [h.numTriangles_eq]

/-! ## Traversals of isomorphic meshes -/

variable {options : WalkOptions}

theorem Isomorphic.scan (h : Isomorphic f m m') (hm : m.Realizes triangles)
    (hm' : m'.Realizes triangles') (hroom : m.pool.maxIndex + 1 + options.markSlack ≤ maxCount)
    (hroom' : m'.pool.maxIndex + 1 + options.markSlack ≤ maxCount) :
    (m.surface.toTriangulation.scan options).SameCourse f
      (m'.surface.toTriangulation.scan options) := by
  apply (h.relabels hm hm').scan _ h.baseEdges_eq h.isBootstrapped_eq hroom hroom'
  exact fun e he => (EdgePool.mem_baseEdges.1 he).2

/-- The walk of a registered chain. -/
theorem Isomorphic.walk (h : Isomorphic f m m') (hm : m.Realizes triangles)
    (hm' : m'.Realizes triangles') (hregistered : m.Registered)
    (hroom : m.pool.maxIndex + 1 + options.markSlack ≤ maxCount)
    (hroom' : m'.pool.maxIndex + 1 + options.markSlack ≤ maxCount) {id : ConstraintId}
    {chain : Chain} (hchain : m.chain? id = some chain) :
    ((m.constraintOf chain).walk options).SameCourse f
      ((m'.constraintOf (chain.relabel f)).walk options) := by
  cases hclosed : chain.closed with
  | false =>
      have hclosed' : (chain.relabel f).closed = false := hclosed
      simp only [Constraint.walk, constraintOf, hclosed, hclosed', Bool.false_eq_true, if_false]
      exact ⟨rfl, rfl⟩
  | true =>
      obtain ⟨link, hlink, hlive, _⟩ := hregistered.link_isRegionBorder hchain hclosed
      have hclosed' : (chain.relabel f).closed = true := hclosed
      have hlink' : (chain.relabel f).linkingEdge? = some (f link) := by simp [Chain.relabel, hlink]
      have hlive' := (h.isLive_iff (f link)).2 ⟨link, hlive, rfl⟩
      rw [hm.walk_constraintOf hclosed hlink hlive,
        hm'.walk_constraintOf hclosed' hlink' hlive']
      apply (h.relabels hm hm').walkFrom hlive hroom hroom' rfl
      intro e he
      exact h.border_eq hm hm' (hm.lawful.mem_of_mem_claimedEdges hlive he)

/-- The tour of all registered chains. -/
theorem Isomorphic.walkRegions (h : Isomorphic f m m') (hm : m.Realizes triangles)
    (hm' : m'.Realizes triangles') (hregistered : m.Registered)
    (hroom : m.pool.maxIndex + 1 + options.markSlack ≤ maxCount)
    (hroom' : m'.pool.maxIndex + 1 + options.markSlack ≤ maxCount) :
    (m.surface.toTriangulation.walkRegions m.constraints options).SameCourse f
      (m'.surface.toTriangulation.walkRegions m'.constraints options) := by
  have hbootstrapped : m'.surface.toTriangulation.isBootstrapped =
      m.surface.toTriangulation.isBootstrapped := h.isBootstrapped_eq
  unfold Triangulation.walkRegions
  rw [hbootstrapped]
  split
  · apply Constraint.walkEach_sameCourse
    unfold constraints
    rw [h.chains_eq, Array.toList_map, List.map_map, List.forall₂_map_left_iff,
      List.forall₂_map_right_iff, List.forall₂_same]
    intro chain hchain
    obtain ⟨id, hid⟩ := exists_chain?_of_mem (Array.mem_def.2 hchain)
    exact ⟨rfl, h.walk hm hm' hregistered hroom hroom' hid⟩
  · exact ⟨rfl, rfl⟩

/-- Traversals of two meshes, the edges of the second under other names, that report the
same. -/
structure TraversedAlike (f : EdgeId → EdgeId) (m m' : Mesh) (options : WalkOptions) : Prop where
  scan : (m.surface.toTriangulation.scan options).SameOutput
    (m'.surface.toTriangulation.scan options)
  walk : ∀ id chain, m.chain? id = some chain → m'.chain? id = some (chain.relabel f) ∧
    ((m.constraintOf chain).walk options).SameOutput
      ((m'.constraintOf (chain.relabel f)).walk options)
  walkRegions : (m.surface.toTriangulation.walkRegions m.constraints options).SameOutput
    (m'.surface.toTriangulation.walkRegions m'.constraints options)

theorem Isomorphic.traversed (h : Isomorphic f m m') (hm : m.Reachable) (hm' : m'.Reachable)
    (hroom : m.pool.maxIndex + 1 + options.markSlack ≤ maxCount)
    (hroom' : m'.pool.maxIndex + 1 + options.markSlack ≤ maxCount) :
    TraversedAlike f m m' options := by
  obtain ⟨_, hrealizes⟩ := hm.exists_realizes
  obtain ⟨_, hrealizes'⟩ := hm'.exists_realizes
  refine ⟨?_, fun id chain hchain => ⟨?_, ?_⟩, ?_⟩
  · exact (h.scan hrealizes hrealizes' hroom hroom').sameOutput
  · rw [h.chain?_eq, hchain]
    rfl
  · exact (h.walk hrealizes hrealizes' hm.registered hroom hroom' hchain).sameOutput
  · exact (h.walkRegions hrealizes hrealizes' hm.registered hroom hroom').sameOutput

end Mesh

/-! ## Reserved pairs -/

/-- The edge of a build that reserves `k` pairs where one that reserves `j` has `e`. -/
def EdgeId.moved (j k : Nat) (e : EdgeId) : EdgeId := ⟨e.index + 2 * k - 2 * j⟩

theorem EdgeId.moved_shift (j k : Nat) (d : EdgeId) : (d.shift j).moved j k = d.shift k := by
  simp only [moved, shift, EdgeId.mk.injEq]
  omega

theorem EdgeId.moved_comp_shift (j k : Nat) : moved j k ∘ shift j = shift k :=
  funext (moved_shift j k)

namespace Mesh

variable {j k : Nat} {m₀ m m' : Mesh}

/-- Both have the edges of a third mesh further up. -/
theorem Shifted.isomorphic (h : Shifted j m₀ m) (h' : Shifted k m₀ m') :
    Isomorphic (EdgeId.moved j k) m m' := by
  have hanswers : ∀ e : EdgeId, m.pool.isLive e.slot = true → ∃ d : EdgeId, e = d.shift j ∧
      AnswersShifted j m₀ m d ∧ AnswersShifted k m₀ m' d := by
    intro e he
    obtain ⟨d, hd, rfl⟩ := (h.isLive_iff e).1 he
    exact ⟨d, rfl, h.answers hd, h'.answers hd⟩
  constructor
  case vertices_eq => rw [h.vertices_eq, h'.vertices_eq]
  case numTriangles_eq => rw [h.numTriangles_eq, h'.numTriangles_eq]
  case isLive_iff =>
    intro e'
    rw [h'.isLive_iff]
    constructor
    · rintro ⟨d, hd, rfl⟩
      exact ⟨d.shift j, (h.isLive_iff _).2 ⟨d, hd, rfl⟩, d.moved_shift j k⟩
    · rintro ⟨e, he, rfl⟩
      obtain ⟨d, hd, rfl⟩ := (h.isLive_iff e).1 he
      exact ⟨d, hd, d.moved_shift j k⟩
  case injOn =>
    intro a ha b hb heq
    obtain ⟨c, _, rfl⟩ := (h.isLive_iff a).1 ha
    obtain ⟨d, _, rfl⟩ := (h.isLive_iff b).1 hb
    rw [EdgeId.moved_shift, EdgeId.moved_shift] at heq
    rw [EdgeId.shift_injective k heq]
  case baseEdges_eq =>
    rw [h.pool.baseEdges_eq h.below, h'.pool.baseEdges_eq h'.below, List.map_map,
      EdgeId.moved_comp_shift]
  case findEdge_eq =>
    intro a b
    rw [h.findEdge_eq, h'.findEdge_eq, Option.map_map, EdgeId.moved_comp_shift]
  case chains_eq =>
    rw [h.chains_eq, h'.chains_eq, Array.map_map]
    congr 1
    funext chain
    rw [Function.comp_apply, Chain.relabel_relabel, EdgeId.moved_comp_shift]
  case dual_eq =>
    intro e he
    obtain ⟨d, rfl, _⟩ := hanswers e he
    rw [EdgeId.moved_shift, EdgeId.dual_shift, EdgeId.dual_shift, EdgeId.moved_shift]
  all_goals
    intro e he
    obtain ⟨d, rfl, hbelow, habove⟩ := hanswers e he
    rw [EdgeId.moved_shift]
  case origin_eq => rw [hbelow.origin_eq, habove.origin_eq]
  case forward_eq =>
    rw [hbelow.forward_eq, habove.forward_eq, ← comp_map, EdgeId.moved_comp_shift]
  case reverse_eq =>
    rw [hbelow.reverse_eq, habove.reverse_eq, ← comp_map, EdgeId.moved_comp_shift]
  case isConstrained_eq => rw [hbelow.isConstrained_eq, habove.isConstrained_eq]
  case isRegionBorder_eq => rw [hbelow.isRegionBorder_eq, habove.isRegionBorder_eq]

/-- What becomes of a mesh if `k` pairs are reserved for it and not `j`. -/
structure SameButForGap (j k : Nat) (m m' : Mesh) : Prop where
  isomorphic : Isomorphic (EdgeId.moved j k) m m'
  /-- The index of each edge in use changes by twice the difference. -/
  index_eq : ∀ e : EdgeId, m.pool.isLive e.slot = true →
    ((e.moved j k).index : Int) = e.index + 2 * ((k : Int) - j)
  /-- Both meshes register a chain, under the same id, or refuse it for the same reason. -/
  register : ∀ chain, Agree (fun r r' => r'.id = r.id ∧ r'.chain = r.chain.relabel (.moved j k))
    (m.register chain) (m'.register chain)
  traversed : ∀ options : WalkOptions, m.pool.maxIndex + 1 + options.markSlack ≤ maxCount →
    m'.pool.maxIndex + 1 + options.markSlack ≤ maxCount →
      TraversedAlike (EdgeId.moved j k) m m' options

theorem Shifted.sameButForGap (h : Shifted j m₀ m) (h' : Shifted k m₀ m') (hm : m.Reachable)
    (hm' : m'.Reachable) : SameButForGap j k m m' := by
  have hisomorphic := h.isomorphic h'
  refine ⟨hisomorphic, fun e he => ?_, fun chain => ?_, fun options hroom hroom' => ?_⟩
  · obtain ⟨d, _, rfl⟩ := (h.isLive_iff e).1 he
    rw [EdgeId.moved_shift]
    simp only [EdgeId.shift]
    omega
  · apply ((h.register chain).common (h'.register chain)).imp
    rintro r r' _ _ ⟨r₀, ⟨⟨hid, hchain⟩, _⟩, ⟨hid', hchain'⟩, _⟩
    rw [hid, hid', hchain, hchain', Chain.relabel_relabel, EdgeId.moved_comp_shift]
    exact ⟨rfl, rfl⟩
  · exact hisomorphic.traversed hm hm' hroom hroom'

/-- However many pairs they reserve, two builds accept the same triangles or refuse them for
the same reason. The meshes that they make differ in the indices of the edges only, and still
do after any edits: they register the same chains, and traversals report the same. -/
theorem builds_agree_under_reservation (points : Array Point) (triangles : List (Triangle Nat))
    (j k : Nat) :
    Agree (fun built built' => built'.hull = built.hull ∧ ∀ edits : List Edit,
        SameButForGap j k (built.mesh.editAll edits) (built'.mesh.editAll edits))
      (build points triangles { reservedPairs := j })
      (build points triangles { reservedPairs := k }) := by
  apply ((agree_build points triangles j).common (agree_build points triangles k)).imp
  rintro built built' hbuilt hbuilt' ⟨built₀, ⟨hhull, hmesh⟩, hhull', hmesh'⟩
  refine ⟨hhull'.trans hhull.symm, fun edits => ?_⟩
  exact (hmesh.editAll edits).sameButForGap (hmesh'.editAll edits)
    ((Reachable.build hbuilt).editAll edits) ((Reachable.build hbuilt').editAll edits)

/-- The square, built without reserved pairs and with one: its diagonal moves up by two. -/
theorem square_builds_agree_under_reservation :
    ∃ built built', build squarePoints squareTriangles { reservedPairs := 0 } = .ok built ∧
      build squarePoints squareTriangles { reservedPairs := 1 } = .ok built' ∧
      built.mesh.findEdge ⟨0⟩ ⟨2⟩ = some ⟨5⟩ ∧ built'.mesh.findEdge ⟨0⟩ ⟨2⟩ = some ⟨7⟩ ∧
      built'.hull = built.hull ∧ ∀ edits : List Edit,
        SameButForGap 0 1 (built.mesh.editAll edits) (built'.mesh.editAll edits) := by
  have hagree := builds_agree_under_reservation squarePoints squareTriangles 0 1
  have hbuilt : build squarePoints squareTriangles { reservedPairs := 0 } =
      .ok ⟨closedMesh squarePoints squareTriangles {}, hullSides squareTriangles⟩ :=
    build_eq_ok_iff.2 ⟨acceptable_square, rfl⟩
  rw [hbuilt, build_square] at hagree
  cases hagree with
  | ok hsame =>
      exact ⟨_, _, hbuilt, build_square, by decide +kernel, by decide +kernel, hsame⟩

end Mesh

end TinFaces
