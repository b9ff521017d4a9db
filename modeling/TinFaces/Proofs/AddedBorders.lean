import TinFaces.Proofs.RegistrationOrder
import TinFaces.Proofs.Relabelling

/-!
# Regions under new constraints

A registration can make borders and do nothing else to what a traversal sees
(`Mesh.surface_store`). A scan does not ask for borders, so it is the same afterwards
(`Triangulation.scan_withBorders`). A region can only lose faces, because each path that
avoids the borders avoided them before (`Mesh.InRegion.of_store`). And a walk asks for the
borders around the faces it claims and for no others, so it notices nothing as long as the
new borders stay away from them (`Lawful.walkFrom_withBorders`); an open chain makes no
border at all (`Mesh.surface_store_of_open`).

`Mesh.Reachable.registration_narrows_regions` says so of every mesh that can come about.
-/

namespace TinFaces

variable {V E : Type}

/-! ## Other borders -/

/-- The same mesh with other answers about borders. -/
def Triangulation.withBorders (T : Triangulation V E) (border : E → Except Fault Bool) :
    Triangulation V E :=
  { T with isRegionBorder := border }

namespace Triangulation

variable (T : Triangulation V E) (border : E → Except Fault Bool)

theorem scanSides_withBorders (es : List E) (marks : MarkSet) :
    (T.withBorders border).scanSides es marks = T.scanSides es marks := by
  induction es generalizing marks with
  | nil => rfl
  | cons e rest ih =>
      unfold scanSides
      simp only [ih]
      rfl

theorem scanEdges_withBorders (es : List E) (marks : MarkSet) :
    (T.withBorders border).scanEdges es marks = T.scanEdges es marks := by
  induction es generalizing marks with
  | nil => rfl
  | cons e rest ih =>
      unfold scanEdges
      simp only [scanSides_withBorders, funext ih]
      rfl

/-- A scan asks for no border. -/
theorem scan_withBorders (options : WalkOptions) :
    (T.withBorders border).scan options = T.scan options := by
  unfold scan
  simp only [scanEdges_withBorders]
  rfl

/-- Nor is one asked for before a walk begins. -/
theorem prepareWalk_withBorders (options : WalkOptions) :
    (T.withBorders border).prepareWalk options = T.prepareWalk options := rfl

end Triangulation

namespace Lawful

variable {T : Triangulation V E} {border : E → Except Fault Bool} {edges edges' : Set E}

/-- The edges keep how they hang together, whichever of them are borders. -/
theorem relabels_withBorders (L : Lawful T edges) (L' : Lawful (T.withBorders border) edges')
    (hsubset : edges ⊆ edges') : L.Relabels L' id where
  mem _ he := hsubset he
  injOn := Set.injOn_id edges
  dual_eq e he := Except.ok.inj ((L'.dual_eq e (hsubset he)).symm.trans (L.dual_eq e he))
  forward_eq e he :=
    Except.ok.inj ((L'.forward_eq e (hsubset he)).symm.trans (L.forward_eq e he))
  origin_eq e he := Except.ok.inj ((L'.origin_eq e (hsubset he)).symm.trans (L.origin_eq e he))

/-- A walk is the same if the borders around the faces that it claims are. -/
theorem walkFrom_withBorders (L : Lawful T edges) (L' : Lawful (T.withBorders border) edges')
    (hsubset : edges ⊆ edges') {link : E} (hlink : link ∈ edges) {options : WalkOptions}
    (hborder : ∀ e ∈ (T.walkFrom link options).claimedEdges, border e = T.isRegionBorder e) :
    (T.withBorders border).walkFrom link options = T.walkFrom link options := by
  have hsame := T.prepareWalk_withBorders border options
  cases hprepare : T.prepareWalk options with
  | error fault =>
      rw [Triangulation.walkFrom_eq_broken hprepare,
        Triangulation.walkFrom_eq_broken (hsame.trans hprepare)]
  | ok marks =>
      obtain ⟨hroom, hstack⟩ := Triangulation.room_of_prepareWalk hprepare
      obtain ⟨hroom', hstack'⟩ := Triangulation.room_of_prepareWalk (hsame.trans hprepare)
      have hf := L.relabels_withBorders L' hsubset
      have halike := hf.explore hlink hroom hstack fun e he => by
        -- the answers that the laws of the two meshes speak of
        have hmem : e ∈ edges := L.mem_of_mem_claimedEdges hlink he
        have hanswer := (L'.border_eq e (hsubset hmem)).symm.trans (hborder e he)
        exact Except.ok.inj (hanswer.trans (L.border_eq e hmem))
      rw [walkFrom_eq_ofTrace hroom hstack, walkFrom_eq_ofTrace hroom' hstack']
      exact halike.ofTrace_eq _ _ _

end Lawful

namespace Mesh

variable {m : Mesh} {triangles : List (Triangle Nat)} {chain other : Chain}

/-! ## What a registration changes -/

theorem isLive_store (m : Mesh) (chain : Chain) (edges : List EdgeId) (slot : Nat) :
    (m.store chain edges).mesh.pool.isLive slot = m.pool.isLive slot :=
  (EdgePool.constrain_eq m.pool edges chain.closed).2.1 slot

theorem maxIndex_store (m : Mesh) (chain : Chain) (edges : List EdgeId) :
    (m.store chain edges).mesh.pool.maxIndex = m.pool.maxIndex :=
  (m.pool.baseEdges_constrain edges chain.closed).2

theorem sideAt_store (m : Mesh) (chain : Chain) (edges : List EdgeId) :
    (m.store chain edges).mesh.sideAt = m.sideAt := by
  funext e
  show ((m.pool.constrain edges chain.closed).side? e).getD _ = _
  rw [(EdgePool.constrain_eq m.pool edges chain.closed).2.2]
  rfl

/-- A registration leaves what is read of a side as it was, faults included. -/
theorem side_store (m : Mesh) (chain : Chain) (edges : List EdgeId) (e : EdgeId) :
    (m.store chain edges).mesh.pool.side e = m.pool.side e := by
  obtain ⟨hsize, _, _⟩ := EdgePool.constrain_eq m.pool edges chain.closed
  have hpair := m.pool.pair?_constrain edges chain.closed e
  show _ <$> readAt (m.pool.constrain edges chain.closed).pairs e.slot =
    _ <$> readAt m.pool.pairs e.slot
  unfold EdgePool.pair? at hpair
  unfold readAt
  rw [hpair, hsize]
  cases m.pool.pairs[e.slot]? <;> rfl

/-- The pairs along a closed chain become borders, and the others stay what they were. -/
theorem isRegionBorder_store (m : Mesh) (chain : Chain) (edges : List EdgeId) (e : EdgeId) :
    (m.store chain edges).mesh.isRegionBorder e =
      (· || (chain.closed && edges.any (·.slot == e.slot))) <$> m.isRegionBorder e := by
  obtain ⟨hsize, _, _⟩ := EdgePool.constrain_eq m.pool edges chain.closed
  have hpair := m.pool.pair?_constrain edges chain.closed e
  show _ <$> readAt (m.pool.constrain edges chain.closed).pairs e.slot =
    _ <$> _ <$> readAt m.pool.pairs e.slot
  unfold EdgePool.pair? at hpair
  unfold readAt
  rw [hpair, hsize]
  cases m.pool.pairs[e.slot]? <;> rfl

/-- To a traversal a registration shows in the borders only. -/
theorem surface_store (m : Mesh) (chain : Chain) (edges : List EdgeId) :
    (m.store chain edges).mesh.surface.toTriangulation =
      m.surface.toTriangulation.withBorders (m.store chain edges).mesh.isRegionBorder := by
  have hside : (m.store chain edges).mesh.pool.side = m.pool.side :=
    funext (m.side_store chain edges)
  have hbase : (m.store chain edges).mesh.pool.baseEdges = m.pool.baseEdges :=
    (m.pool.baseEdges_constrain edges chain.closed).1
  simp only [surface, Triangulation.withBorders, Triangulation.mk.injEq, hbase, maxIndex_store,
    true_and, and_true]
  refine ⟨rfl, ?_, ?_, ?_⟩
  · funext e
    unfold Mesh.origin
    rw [hside]
  · funext e
    unfold Mesh.forward
    rw [hside]
  · funext e
    unfold Mesh.reverse
    rw [hside]

/-- An open chain makes no borders, so a traversal sees the same mesh. -/
theorem surface_store_of_open (hopen : chain.closed = false) (edges : List EdgeId) :
    (m.store chain edges).mesh.surface.toTriangulation = m.surface.toTriangulation := by
  have hborder : (m.store chain edges).mesh.isRegionBorder = m.isRegionBorder := by
    funext e
    rw [isRegionBorder_store, hopen]
    cases m.isRegionBorder e <;> simp [Functor.map, Except.map]
  rw [surface_store, hborder]
  rfl

/-- A path that avoids the borders afterwards avoided them before. -/
theorem InRegion.of_store {edges : List EdgeId} {a b : EdgeId}
    (h : (m.store chain edges).mesh.InRegion a b) : m.InRegion a b := by
  induction h with
  | start => exact .start
  | around _ hforward ih =>
      unfold Mesh.forward at hforward
      rw [side_store] at hforward
      exact ih.around hforward
  | @across e _ hopen ih =>
      rw [isRegionBorder_store] at hopen
      cases hborder : m.isRegionBorder e with
      | error fault => simp [hborder, Functor.map, Except.map] at hopen
      | ok flag =>
          have hflag : flag = false := by
            simp [hborder, Functor.map, Except.map] at hopen
            exact hopen.1
          exact ih.across (hflag ▸ hborder)

/-- The pairs along an accepted chain are those that carry its segments. -/
theorem Realizes.any_slot_iff (h : m.Realizes triangles) {edges : List EdgeId}
    (hedges : m.chainEdges chain = .ok edges) {e : EdgeId} :
    edges.any (·.slot == e.slot) = true ↔ m.LiesOn e chain := by
  have hruns : List.Forall₂ m.RunsAlong (m.store chain edges).chain.edges
      (m.store chain edges).chain.segments := (runsAlong_of_chainEdges hedges).1
  have hslot := h.exists_slot_eq_iff hruns (e := e)
  simp only [List.any_eq_true, beq_iff_eq]
  exact hslot

/-! ## Walks before and after -/

/-- What a registration that leads from `m` to `m'` does to the walk of a chain that was
registered before. -/
structure Narrows (m m' : Mesh) (chain other : Chain) (options : WalkOptions) : Prop where
  /-- Both walks end, if the chain has a region and there is room for the marks and the
  stack. -/
  ends : other.closed = true → m.pool.maxIndex + 1 + options.markSlack ≤ maxCount →
    options.stackCapacity * wordBytes ≤ maxBytes →
    (∃ summary, ((m.constraintOf other).walk options).result = .ok summary) ∧
      ∃ summary, ((m'.constraintOf other).walk options).result = .ok summary
  line : chain.closed = false →
    (m'.constraintOf other).walk options = (m.constraintOf other).walk options
  subset : ((m'.constraintOf other).walk options).claimedFaces ⊆
    ((m.constraintOf other).walk options).claimedFaces
  /-- Nothing changes if no segment of the new chain runs along a side of a claimed face. -/
  apart : (∀ e ∈ ((m.constraintOf other).walk options).claimedEdges, ¬ m.LiesOn e chain) →
    (m'.constraintOf other).walk options = (m.constraintOf other).walk options

section Closed

variable {edges : List EdgeId} {link : EdgeId}

/-- A face is the same set of edges before and after. -/
theorem Realizes.orbit_store (h : m.Realizes triangles)
    (h' : (m.store chain edges).mesh.Realizes triangles) (e : EdgeId) :
    h'.lawful.orbit e = h.lawful.orbit e := by
  ext x
  show x = e ∨ x = ((m.store chain edges).mesh.sideAt e).forward ∨
    x = ((m.store chain edges).mesh.sideAt
      ((m.store chain edges).mesh.sideAt e).forward).forward ↔ _
  rw [sideAt_store]
  exact Iff.rfl

/-- An edge that was a border still is one. -/
theorem isRegionBorder_store_of_eq_true (hborder : m.isRegionBorder link = .ok true) :
    (m.store chain edges).mesh.isRegionBorder link = .ok true := by
  rw [isRegionBorder_store, hborder]
  rfl

/-- The walk from a border ends afterwards as before, if there is room for the marks and the
stack, and claims faces that it claimed before. -/
theorem Realizes.walkFrom_store_of_room (h : m.Realizes triangles)
    (h' : (m.store chain edges).mesh.Realizes triangles)
    (hlive : m.pool.isLive link.slot = true) (hborder : m.isRegionBorder link = .ok true)
    {options : WalkOptions} (hroom : m.pool.maxIndex + 1 + options.markSlack ≤ maxCount)
    (hstack : options.stackCapacity * wordBytes ≤ maxBytes) :
    (∃ summary, (m.surface.toTriangulation.walkFrom link options).result = .ok summary) ∧
      (∃ summary, ((m.store chain edges).mesh.surface.toTriangulation.walkFrom link
        options).result = .ok summary) ∧
      ((m.store chain edges).mesh.surface.toTriangulation.walkFrom link options).claimedFaces ⊆
        (m.surface.toTriangulation.walkFrom link options).claimedFaces := by
  have hlive' := (m.isLive_store chain edges link.slot).trans hlive
  have hborder' : (m.store chain edges).mesh.isRegionBorder link = .ok true :=
    isRegionBorder_store_of_eq_true hborder
  obtain ⟨entries, hwalks⟩ := h.walkFrom_represents hlive hborder hroom hstack
  rw [← maxIndex_store m chain edges] at hroom
  obtain ⟨entries', hwalks'⟩ := h'.walkFrom_represents hlive' hborder' hroom hstack
  refine ⟨⟨_, hwalks.result_eq⟩, ⟨_, hwalks'.result_eq⟩, ?_⟩
  rw [hwalks.represents.claimedFaces_eq hwalks.faces_eq,
    hwalks'.represents.claimedFaces_eq hwalks'.faces_eq]
  rintro F ⟨e, he, rfl⟩
  exact ⟨e, InRegion.of_store he, (h.orbit_store h' e).symm⟩

/-- The walk from an edge is the same afterwards if no segment of the new chain runs along a
side of a face that it claims. -/
theorem Realizes.walkFrom_store (h : m.Realizes triangles)
    (h' : (m.store chain edges).mesh.Realizes triangles) (hedges : m.chainEdges chain = .ok edges)
    (hlive : m.pool.isLive link.slot = true) {options : WalkOptions}
    (hapart : ∀ e ∈ (m.surface.toTriangulation.walkFrom link options).claimedEdges,
      ¬ m.LiesOn e chain) :
    (m.store chain edges).mesh.surface.toTriangulation.walkFrom link options =
      m.surface.toTriangulation.walkFrom link options := by
  have hsubset : {e : EdgeId | m.pool.isLive e.slot = true} ⊆
      {e | (m.store chain edges).mesh.pool.isLive e.slot = true} :=
    fun e he => (m.isLive_store chain edges e.slot).trans he
  have hlawful := h'.lawful
  rw [surface_store] at hlawful ⊢
  refine h.lawful.walkFrom_withBorders hlawful hsubset hlive fun e he => ?_
  have hoff : edges.any (·.slot == e.slot) = false :=
    Bool.eq_false_iff.2 fun hany => hapart e he ((h.any_slot_iff hedges).1 hany)
  show _ = m.isRegionBorder e
  rw [isRegionBorder_store, hoff]
  cases m.isRegionBorder e <;> simp [Functor.map, Except.map]

end Closed

/-- What a registration does to the walk of a chain that was there before it. -/
theorem Realizes.narrows (h : m.Realizes triangles) (hregistered : m.Registered)
    {edges : List EdgeId} (hedges : m.chainEdges chain = .ok edges) {id : ConstraintId}
    (hother : m.chain? id = some other) (options : WalkOptions) :
    Narrows m (m.store chain edges).mesh chain other options := by
  have h' : (m.store chain edges).mesh.Realizes triangles := by
    rw [← edit_of_ok hedges]
    exact h.edit _
  cases hclosed : other.closed with
  | false =>
      -- without a region both walks are refused
      have hsame : ((m.store chain edges).mesh.constraintOf other).walk options =
          (m.constraintOf other).walk options := by
        simp [Constraint.walk, constraintOf, hclosed]
      exact ⟨by simp [hclosed], fun _ => hsame, by rw [hsame], fun _ => hsame⟩
  | true =>
      obtain ⟨link, hlink, hlive, hborder⟩ := hregistered.link_isRegionBorder hother hclosed
      have hlive' := (m.isLive_store chain edges link.slot).trans hlive
      have hwalk := h.walk_constraintOf hclosed hlink hlive options
      have hwalk' := h'.walk_constraintOf hclosed hlink hlive' options
      constructor
      case ends =>
        intro _ hroom hstack
        obtain ⟨hends, hends', _⟩ := h.walkFrom_store_of_room h' hlive hborder hroom hstack
        rw [hwalk, hwalk']
        exact ⟨hends, hends'⟩
      case line =>
        intro hopen
        rw [hwalk, hwalk', surface_store_of_open hopen]
      case subset =>
        rw [hwalk, hwalk']
        have hsame : (m.store chain edges).mesh.surface.toTriangulation.prepareWalk options =
            m.surface.toTriangulation.prepareWalk options := by
          rw [surface_store]
          exact Triangulation.prepareWalk_withBorders _ _ options
        cases hprepare : m.surface.toTriangulation.prepareWalk options with
        | ok marks =>
            obtain ⟨hroom, hstack⟩ := Triangulation.room_of_prepareWalk hprepare
            exact (h.walkFrom_store_of_room h' hlive hborder hroom hstack).2.2
        | error fault =>
            -- then neither walk can begin
            rw [Triangulation.walkFrom_eq_broken hprepare,
              Triangulation.walkFrom_eq_broken (hsame.trans hprepare)]
      case apart =>
        intro hapart
        rw [hwalk] at hapart ⊢
        rw [hwalk']
        exact h.walkFrom_store h' hedges hlive hapart

/-- A registration changes nothing about a scan. The walk of a chain that was registered
before is the same if the new chain is open; if that is closed, the walk can only lose faces,
and stays the same as long as the new chain runs along no side of a face that it claims. -/
theorem Reachable.registration_narrows_regions (h : m.Reachable) {r : Registration}
    (hregister : m.register chain = .ok r) (options : WalkOptions) :
    r.mesh.surface.toTriangulation.scan options = m.surface.toTriangulation.scan options ∧
      ∀ id other, m.chain? id = some other →
        r.mesh.chain? id = some other ∧ Narrows m r.mesh chain other options := by
  obtain ⟨edges, hedges, rfl⟩ := register_eq_ok_iff.1 hregister
  obtain ⟨triangles, hrealizes⟩ := h.exists_realizes
  constructor
  · rw [surface_store]
    exact Triangulation.scan_withBorders _ _ options
  · intro id other hother
    have hkept := chain?_edit hother (.addConstraint chain)
    rw [edit_of_ok hedges] at hkept
    exact ⟨hkept, hrealizes.narrows h.registered hedges hother options⟩

/-- The square with a ring round the outside of one triangle, to which a ring round the other
one is added. The walk of the first claimed five faces before; one is left of them. -/
theorem square_registration_narrows_regions :
    let m := squareMesh.edit (.addConstraint (.ring [⟨0⟩, ⟨2⟩, ⟨1⟩]))
    let other : Chain := ⟨[⟨0⟩, ⟨2⟩, ⟨1⟩], true, some ⟨0⟩, some ⟨7⟩, [⟨7⟩, ⟨5⟩, ⟨3⟩]⟩
    let chain : Chain := .ring [⟨0⟩, ⟨2⟩, ⟨3⟩]
    let r := m.store chain [⟨7⟩, ⟨8⟩, ⟨10⟩]
    m.Reachable ∧ m.register chain = .ok r ∧ m.chain? ⟨0⟩ = some other ∧
      (Event.faces ((m.constraintOf other).walk {}).events).length = 5 ∧
      (Event.faces ((r.mesh.constraintOf other).walk {}).events).length = 1 ∧
      r.mesh.surface.toTriangulation.scan {} = m.surface.toTriangulation.scan {} ∧
      ∀ id other, m.chain? id = some other →
        r.mesh.chain? id = some other ∧ Narrows m r.mesh chain other {} := by
  intro m other chain r
  have hreachable : m.Reachable := (Reachable.build build_square).edit _
  have hregister : m.register chain = .ok r := by decide +kernel
  exact ⟨hreachable, hregister, by decide +kernel, by decide +kernel, by decide +kernel,
    hreachable.registration_narrows_regions hregister {}⟩

end Mesh

end TinFaces
