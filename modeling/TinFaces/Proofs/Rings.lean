import TinFaces.Proofs.Loops
import TinFaces.Proofs.RegistrationOrder

/-!
# Regions of rings

A ring is a closed chain that passes no vertex twice. If the region borders of a mesh run
along one ring only, the region of any of its edges has the left faces of all of them.

* At a vertex of the ring the edges in use are turned through one after the other
  (`Mesh.FansAround`). From the edge along which the ring goes on, the turn comes through
  faces of its region and meets no border before the edge along which the ring came in
  (`Mesh.BorderedBy.corner`).
* From corner to corner this leads round the ring (`Mesh.BorderedBy.inRegion`).
* The mesh takes a ring from any of its vertices on, and comes out the same but for what it
  stores of the chain (`Mesh.chainEdges_rotate`, `Mesh.sameSurface_store_rotate`). So
  the walk claims the left faces of all edges, whichever vertex the ring starts at
  (`Mesh.Reachable.rings_claim_left_faces`).
-/

namespace TinFaces

/-- A chain that is read from its `k`-th vertex on. -/
def Chain.rotate (chain : Chain) (k : Nat) : Chain :=
  { chain with vertices := chain.vertices.rotate k }

/-- Lists that go together pair by pair do so when both are turned. -/
theorem forall₂_rotate {α β : Type} {R : α → β → Prop} {xs : List α} {ys : List β}
    (h : List.Forall₂ R xs ys) (k : Nat) : List.Forall₂ R (xs.rotate k) (ys.rotate k) := by
  induction k generalizing xs ys with
  | zero =>
      rw [List.rotate_zero, List.rotate_zero]
      exact h
  | succ k ih =>
      cases h with
      | nil => simp
      | cons hfirst hrest =>
          rw [List.rotate_cons_succ, List.rotate_cons_succ]
          exact ih (List.rel_append hrest (.cons hfirst .nil))

namespace Mesh

variable {m m' : Mesh} {triangles : List (Triangle Nat)} {v : VertexId}

/-! ## Turning round a vertex -/

/-- The edges that are reached from `a` by turning round the vertex where it starts: on to
the dual of the edge before it. -/
inductive Turned (m : Mesh) (a : EdgeId) : EdgeId → Prop
  | start : Turned m a a
  | turn {b r : EdgeId} : Turned m a b → m.reverse b = .ok r → Turned m a r.dual

/-- Whether the edges in use that leave `v` form a single cycle of turns. -/
def FansAround (m : Mesh) (v : VertexId) : Prop :=
  ∀ a b : EdgeId, m.pool.isLive a.slot = true → m.pool.isLive b.slot = true →
    m.origin a = .ok (some v) → m.origin b = .ok (some v) → m.Turned a b

/-- Where so many turns from `a` lead. -/
def fan (m : Mesh) : Nat → EdgeId → List EdgeId
  | 0, a => [a]
  | n + 1, a =>
      match m.reverse a with
      | .ok r => a :: m.fan n r.dual
      | .error _ => [a]

theorem Turned.of_mem_fan {n : Nat} {a b c : EdgeId} (hab : m.Turned a b) (h : c ∈ m.fan n b) :
    m.Turned a c := by
  induction n generalizing b with
  | zero =>
      rw [List.mem_singleton.1 h]
      exact hab
  | succ n ih =>
      unfold fan at h
      split at h
      · next r hreverse =>
          rcases List.mem_cons.1 h with rfl | hrest
          · exact hab
          · exact ih (hab.turn hreverse) hrest
      · rw [List.mem_singleton.1 h]
        exact hab

/-- The fan of a vertex can be checked edge by edge. -/
theorem fansAround_of_fan {n : Nat}
    (h : ∀ a ∈ m.pool.directedEdges, ∀ b ∈ m.pool.directedEdges,
      m.origin a = .ok (some v) → m.origin b = .ok (some v) → b ∈ m.fan n a) :
    m.FansAround v := by
  intro a b ha hb hfrom hfrom'
  apply Turned.start.of_mem_fan
  exact h a (EdgePool.mem_directedEdges.2 ha) b (EdgePool.mem_directedEdges.2 hb) hfrom hfrom'

/-- The fans of the square. -/
theorem fansAround_square : ∀ v ∈ squareMesh.vertexIds, squareMesh.FansAround v := by
  have hchecked : ∀ v ∈ squareMesh.vertexIds, ∀ a ∈ squareMesh.pool.directedEdges,
      ∀ b ∈ squareMesh.pool.directedEdges, squareMesh.origin a = .ok (some v) →
        squareMesh.origin b = .ok (some v) → b ∈ squareMesh.fan 3 a := by decide +kernel
  exact fun v hv => fansAround_of_fan (hchecked v hv)

/-- Edits leave the turns as they are. -/
theorem FansAround.editAll (h : m.FansAround v) (edits : List Edit) :
    (m.editAll edits).FansAround v := by
  have hturned : ∀ {a b : EdgeId}, m.Turned a b → (m.editAll edits).Turned a b := by
    intro a b hab
    induction hab with
    | start => exact .start
    | turn _ hreverse ih => exact ih.turn ((map_side_editAll edits).2 hreverse)
  intro a b ha hb hfrom hfrom'
  rw [(m.sides_editAll edits).1] at ha hb
  apply hturned
  exact h a b ha hb ((map_side_editAll edits).1 hfrom) ((map_side_editAll edits).1 hfrom')

/-- A turn goes through the left face, and round the vertex where the edge starts. -/
theorem Realizes.turn (h : m.Realizes triangles) {x r : EdgeId}
    (hx : m.pool.isLive x.slot = true) (hreverse : m.reverse x = .ok r) :
    m.InRegion x r ∧ m.pool.isLive r.slot = true ∧ m.origin r.dual = m.origin x := by
  obtain ⟨f, r', hlinks⟩ := h.exists_linksTriangle hx
  obtain rfl : r' = r := Except.ok.inj (hlinks.reverse_eq.symm.trans hreverse)
  refine ⟨(InRegion.start.around hlinks.forward_eq).around hlinks.forward_forward,
    hlinks.live.2, ?_⟩
  obtain ⟨x', _, hlinks'⟩ := h.exists_linksTriangle hlinks.live.2
  obtain rfl : x' = x := Except.ok.inj (hlinks'.forward_eq.symm.trans hlinks.forward_three)
  obtain ⟨v, horigin, hdestination⟩ := hlinks'.joins
  exact hdestination.trans horigin.symm

/-! ## Round a ring -/

/-- The region borders of a mesh run along a ring, and an edge along each step of it. Round
the vertices of the ring the edges form single cycles. -/
structure BorderedBy (m : Mesh) (ring : List VertexId) : Prop where
  nodup : ring.Nodup
  length_ge : 3 ≤ ring.length
  edges : ∀ step ∈ ring.zip (ring.rotate 1), ∃ e, m.RunsAlong e step
  borders : ∀ e : EdgeId, m.pool.isLive e.slot = true → m.isRegionBorder e = .ok true →
    ∃ step ∈ ring.zip (ring.rotate 1), m.RunsAlong e step ∨ m.RunsAlong e.dual step
  fans : ∀ v ∈ ring, m.FansAround v

section Ring

variable {ring : List VertexId} {a b c : VertexId} {d e : EdgeId}

/-- The borders that leave a vertex of the ring: the edge along which the ring goes on and
the dual of that along which it came. -/
theorem BorderedBy.eq_or_eq_dual (h : m.BorderedBy ring) (hrealizes : m.Realizes triangles)
    (hab : (a, b) ∈ ring.zip (ring.rotate 1)) (hbc : (b, c) ∈ ring.zip (ring.rotate 1))
    (hd : m.RunsAlong d (a, b)) (he : m.RunsAlong e (b, c)) {x : EdgeId}
    (hx : m.pool.isLive x.slot = true) (horigin : m.origin x = .ok (some b))
    (hborder : m.isRegionBorder x = .ok true) : x = e ∨ x = d.dual := by
  obtain ⟨⟨u, w⟩, hstep, hrun | hrun⟩ := h.borders x hx hborder
  · have hub : u = b := by
      have heq := hrun.origin_eq.symm.trans horigin
      simpa using heq
    rw [hub] at hstep hrun
    rw [Loop.next_unique h.nodup hstep hbc] at hrun
    exact .inl (hrealizes.runsAlong_unique hrun he)
  · have hwb : w = b := by
      have hdestination := hrun.destination_eq
      rw [Mesh.destination, EdgeId.dual_dual] at hdestination
      have heq := hdestination.symm.trans horigin
      simpa using heq
    rw [hwb] at hstep hrun
    rw [Loop.previous_unique h.nodup hstep hab] at hrun
    rw [← hrealizes.runsAlong_unique hrun hd, EdgeId.dual_dual]
    exact .inr rfl

/-- A turn in the region of the edge along which the ring goes on stays in it, until it
comes through the left face of the edge along which the ring came. -/
theorem BorderedBy.turn (h : m.BorderedBy ring) (hrealizes : m.Realizes triangles)
    (hab : (a, b) ∈ ring.zip (ring.rotate 1)) (hbc : (b, c) ∈ ring.zip (ring.rotate 1))
    (hd : m.RunsAlong d (a, b)) (he : m.RunsAlong e (b, c)) {x r : EdgeId}
    (hx : m.InRegion e x) (horigin : m.origin x = .ok (some b)) (hreverse : m.reverse x = .ok r) :
    m.InRegion e d ∨
      m.InRegion e r.dual ∧ r.dual ≠ d.dual ∧ m.origin r.dual = .ok (some b) := by
  obtain ⟨hthrough, hlive, hround⟩ := hrealizes.turn (hx.isLive hrealizes he.live) hreverse
  have hr : m.InRegion e r := hx.trans hthrough
  by_cases hlast : r.dual = d.dual
  case pos =>
    have hrd : r = d := by rw [← r.dual_dual, hlast, d.dual_dual]
    rw [hrd] at hr
    exact .inl hr
  case neg =>
    refine .inr ⟨?_, hlast, hround.trans horigin⟩
    rcases hrealizes.isRegionBorder_or hlive with hborder | hopen
    · -- the only other border is the one where the turn began
      have hlive' : m.pool.isLive r.dual.slot = true := by
        rw [EdgeId.slot_dual]
        exact hlive
      rw [← m.isRegionBorder_dual] at hborder
      have hwhich := h.eq_or_eq_dual hrealizes hab hbc hd he hlive' (hround.trans horigin) hborder
      rw [hwhich.resolve_right hlast]
      exact .start
    · exact hr.across hopen

/-- Where the ring comes along `d` and goes on along `e`, the left face of `d` is in the
region of `e`. -/
theorem BorderedBy.corner (h : m.BorderedBy ring) (hrealizes : m.Realizes triangles)
    (hab : (a, b) ∈ ring.zip (ring.rotate 1)) (hbc : (b, c) ∈ ring.zip (ring.rotate 1))
    (hd : m.RunsAlong d (a, b)) (he : m.RunsAlong e (b, c)) : m.InRegion e d := by
  have hstart : e ≠ d.dual := by
    rintro rfl
    have heq := he.destination_eq.symm.trans hd.dual.destination_eq
    exact Loop.ne_of_mem h.nodup h.length_ge hab hbc (by simpa using heq.symm)
  have hturned : ∀ x, m.Turned e x → m.InRegion e d ∨
      m.InRegion e x ∧ x ≠ d.dual ∧ m.origin x = .ok (some b) := by
    intro x hx
    induction hx with
    | start => exact .inr ⟨.start, hstart, he.origin_eq⟩
    | turn _ hreverse ih =>
        rcases ih with hdone | ⟨hregion, _, horigin⟩
        · exact .inl hdone
        · exact h.turn hrealizes hab hbc hd he hregion horigin hreverse
  -- the fan takes the turn as far as the dual of `d`
  have hlast : m.Turned e d.dual := by
    apply h.fans b (Loop.mem_of_mem_zip hbc).1
    · exact he.live
    · exact hd.dual.live
    · exact he.origin_eq
    · exact hd.dual.origin_eq
  rcases hturned d.dual hlast with hdone | ⟨_, hne, _⟩
  · exact hdone
  · exact absurd rfl hne

/-- The left faces along the ring are all in one region. -/
theorem BorderedBy.inRegion (h : m.BorderedBy ring) (hrealizes : m.Realizes triangles)
    {step step' : VertexId × VertexId} (hstep : step ∈ ring.zip (ring.rotate 1))
    (hstep' : step' ∈ ring.zip (ring.rotate 1)) (hd : m.RunsAlong d step)
    (he : m.RunsAlong e step') : m.InRegion d e := by
  obtain ⟨a, b⟩ := step
  obtain ⟨u, w⟩ := step'
  have hround : ∀ v ∈ ring, ∀ c x, (v, c) ∈ ring.zip (ring.rotate 1) → m.RunsAlong x (v, c) →
      m.InRegion d x := by
    apply Loop.forall_mem_of_closed (P := fun v => ∀ c x, (v, c) ∈ ring.zip (ring.rotate 1) →
      m.RunsAlong x (v, c) → m.InRegion d x) (Loop.mem_of_mem_zip hstep).1
    · intro c x hac hx
      rw [Loop.next_unique h.nodup hac hstep] at hx
      rw [hrealizes.runsAlong_unique hx hd]
      exact .start
    · intro v v' hvv' ih c x hv'c hx
      obtain ⟨y, hy⟩ := h.edges (v, v') hvv'
      have hcorner : m.InRegion x y := h.corner hrealizes hvv' hv'c hy hx
      exact (ih v' y hvv' hy).trans (hcorner.symm hrealizes hx.live)
  exact hround u (Loop.mem_of_mem_zip hstep').1 w e hstep' he

/-- A mesh whose closed chains all run along one of them, there or back, is bordered by
that one. -/
theorem Registered.borderedBy (h : m.Registered) (hrealizes : m.Realizes triangles)
    {chain : Chain} (hchain : chain ∈ m.chains) (hclosed : chain.closed = true)
    (hnodup : chain.vertices.Nodup) (hlength : 3 ≤ chain.vertices.length)
    (honly : ∀ other ∈ m.chains, other.closed = true →
      other.vertices = chain.vertices ∨ other.vertices = chain.vertices.reverse)
    (hfans : ∀ v ∈ chain.vertices, m.FansAround v) : m.BorderedBy chain.vertices where
  nodup := hnodup
  length_ge := hlength
  edges step hstep := by
    obtain ⟨e, _, hrun⟩ := exists_mem_of_forall₂ (h.runs_round hchain hclosed).flip hstep
    exact ⟨e, hrun⟩
  borders e he hborder := by
    obtain ⟨flag, hflag, _, hiff⟩ := (h.flagsAgree hrealizes).regionBorder e he
    obtain rfl : flag = true := Except.ok.inj (hflag.symm.trans hborder)
    obtain ⟨other, hother, hring, ⟨a, b⟩, hstep, hrun⟩ := hiff.1 rfl
    rw [Chain.segments_of_closed hring] at hstep
    rcases honly other hother hring with heq | heq
    · rw [heq] at hstep
      exact ⟨(a, b), hstep, hrun⟩
    · rw [heq] at hstep
      exact ⟨(b, a), Loop.mem_reverse_iff.1 hstep, runsAlong_or_swap hrun⟩
  fans := hfans

end Ring

/-! ## The same ring from another vertex on -/

/-- A closed chain is accepted from any vertex on, and runs along the same edges. -/
theorem chainEdges_rotate {chain : Chain} (hclosed : chain.closed = true) {edges : List EdgeId}
    (h : m.chainEdges chain = .ok edges) (k : Nat) :
    m.chainEdges (chain.rotate k) = .ok (edges.rotate k) := by
  obtain ⟨hlong, hknown, hforall⟩ := chainEdges_eq_ok_iff.1 h
  have hclosed' : (chain.rotate k).closed = true := hclosed
  have hsegments : (chain.rotate k).segments = chain.segments.rotate k := by
    rw [Chain.segments_of_closed hclosed', Chain.segments_of_closed hclosed]
    exact Loop.zip_rotate chain.vertices k
  apply chainEdges_eq_ok_iff.2
  refine ⟨?_, ?_, ?_⟩
  · show chain.required ≤ (chain.vertices.rotate k).length
    rw [List.length_rotate]
    exact hlong
  · exact fun v hv => hknown v (List.mem_rotate.1 hv)
  · rw [hsegments]
    exact forall₂_rotate hforall k

/-- Which of its edges comes first makes no difference to the surface. -/
theorem sameSurface_store_rotate (m : Mesh) (chain : Chain) (edges : List EdgeId) (k : Nat) :
    (m.store (chain.rotate k) (edges.rotate k)).mesh.SameSurface (m.store chain edges).mesh where
  vertices_eq := rfl
  pool_eq := m.pool.constrain_perm (edges.rotate_perm k) chain.closed
  numTriangles_eq := rfl

/-- What the walks of a ring do that a mesh has registered, and of the same ring in a mesh
that has it from another vertex on: both end, the first claims the left faces of all edges
along the ring, and the second claims the same faces. -/
structure ClaimsLeftFaces (m m' : Mesh) (r r' : Registration) (options : WalkOptions) : Prop where
  registered : m.chain? r.id = some r.chain
  registered' : m'.chain? r'.id = some r'.chain
  ends : ∃ summary, ((m.constraintOf r.chain).walk options).result = .ok summary
  ends' : ∃ summary, ((m'.constraintOf r'.chain).walk options).result = .ok summary
  claims : ∀ e ∈ r.chain.edges, e ∈ ((m.constraintOf r.chain).walk options).claimedEdges
  claimedFaces_eq : ((m.constraintOf r.chain).walk options).claimedFaces =
    ((m'.constraintOf r'.chain).walk options).claimedFaces

/-- The walks that start at two edges along the ring which borders the mesh. -/
theorem BorderedBy.claimsLeftFaces {r r' : Registration}
    (hrealizes : m.Realizes triangles) (hregistered : m.Registered) (hregistered' : m'.Registered)
    (hchain : m.chain? r.id = some r.chain) (hchain' : m'.chain? r'.id = some r'.chain)
    (hclosed : r.chain.closed = true) (hclosed' : r'.chain.closed = true)
    (hbordered : m.BorderedBy r.chain.vertices) (hsame : m'.SameSurface m)
    (hedges : ∀ e ∈ r'.chain.edges, e ∈ r.chain.edges) {options : WalkOptions}
    (hroom : m.pool.maxIndex + 1 + options.markSlack ≤ maxCount)
    (hstack : options.stackCapacity * wordBytes ≤ maxBytes) :
    ClaimsLeftFaces m m' r r' options := by
  have hruns := hregistered.runs_round (Array.mem_of_getElem? hchain) hclosed
  have hregion : ∀ d ∈ r.chain.edges, ∀ e ∈ r.chain.edges, m.InRegion d e := by
    intro d hd e he
    obtain ⟨step, hstep, hrun⟩ := exists_mem_of_forall₂ hruns hd
    obtain ⟨step', hstep', hrun'⟩ := exists_mem_of_forall₂ hruns he
    exact hbordered.inRegion hrealizes hstep hstep' hrun hrun'
  have hwalk' : (m'.constraintOf r'.chain).walk options =
      (m.constraintOf r'.chain).walk options := by
    unfold constraintOf
    rw [hsame.surface_eq]
  -- each walk claims the region of the first edge
  obtain ⟨link, hhead, hlink⟩ := (hregistered.stores _ _ hchain).link
  obtain ⟨link', hhead', hlink'⟩ := (hregistered'.stores _ _ hchain').link
  have hmem : link ∈ r.chain.edges := List.mem_of_head? hhead
  have hmem' : link' ∈ r.chain.edges := hedges link' (List.mem_of_head? hhead')
  obtain ⟨hlive, hborder⟩ := hregistered.isRegionBorder_of_mem hchain hclosed hmem
  obtain ⟨hlive', hborder'⟩ := hregistered.isRegionBorder_of_mem hchain hclosed hmem'
  obtain ⟨entries, hwalks⟩ := hrealizes.walkFrom_represents hlive hborder hroom hstack
  obtain ⟨entries', hwalks'⟩ := hrealizes.walkFrom_represents hlive' hborder' hroom hstack
  rw [← hrealizes.walk_constraintOf hclosed hlink hlive] at hwalks
  rw [← hrealizes.walk_constraintOf hclosed' hlink' hlive', ← hwalk'] at hwalks'
  refine ⟨hchain, hchain', ⟨_, hwalks.result_eq⟩, ⟨_, hwalks'.result_eq⟩, fun e he => ?_, ?_⟩
  · rw [hwalks.claimedEdges_eq hlive]
    exact hregion link hmem e he
  · have hone : m.region link = m.region link' :=
      region_eq_of_common hrealizes hlive hlive' (hregion link hmem link' hmem') .start
    rw [hwalks.represents.claimedFaces_eq hwalks.faces_eq,
      hwalks'.represents.claimedFaces_eq hwalks'.faces_eq, hone]

/-- The walk of the only ring of a mesh claims the left faces of all edges along it, and the
same faces when the ring was registered from another vertex on. -/
theorem Reachable.rings_claim_left_faces (h : m.Reachable) {chain : Chain} {r : Registration}
    (hclosed : chain.closed = true) (hnodup : chain.vertices.Nodup)
    (hfans : ∀ v ∈ chain.vertices, m.FansAround v) (hregister : m.register chain = .ok r)
    (later : List Edit)
    (honly : ∀ other ∈ (r.mesh.editAll later).chains, other.closed = true → other = r.chain)
    {options : WalkOptions} (hroom : m.pool.maxIndex + 1 + options.markSlack ≤ maxCount)
    (hstack : options.stackCapacity * wordBytes ≤ maxBytes) (k : Nat) : ∃ r', m.register (chain.rotate k) = .ok r' ∧
      ClaimsLeftFaces (r.mesh.editAll later) (r'.mesh.editAll later) r r' options := by
  obtain ⟨edges, hedges, rfl⟩ := register_eq_ok_iff.1 hregister
  have hedges' := chainEdges_rotate hclosed hedges k
  refine ⟨_, register_eq_ok_iff.2 ⟨_, hedges', rfl⟩, ?_⟩
  -- both meshes come about by edits
  have hmesh := edit_of_ok hedges
  have hmesh' := edit_of_ok hedges'
  have hreachable : ((m.store chain edges).mesh.editAll later).Reachable := by
    rw [← hmesh]
    exact (h.edit _).editAll later
  have hreachable' :
      ((m.store (chain.rotate k) (edges.rotate k)).mesh.editAll later).Reachable := by
    rw [← hmesh']
    exact (h.edit _).editAll later
  have hchain := chain?_editAll (m.chain?_store chain edges) later
  obtain ⟨triangles, hrealizes⟩ := hreachable.exists_realizes
  have hbordered : ((m.store chain edges).mesh.editAll later).BorderedBy chain.vertices := by
    apply hreachable.registered.borderedBy hrealizes (Array.mem_of_getElem? hchain) hclosed hnodup
    · have hlong := (chainEdges_eq_ok_iff.1 hedges).1
      rwa [Chain.required, if_pos hclosed] at hlong
    · intro other hother hring
      rw [honly other hother hring]
      exact .inl rfl
    · intro v hv
      have hedited := (hfans v hv).editAll (.addConstraint chain :: later)
      rw [← hmesh]
      exact hedited
  apply hbordered.claimsLeftFaces hrealizes hreachable.registered hreachable'.registered hchain
    (chain?_editAll (m.chain?_store _ _) later) hclosed hclosed
  · exact (m.sameSurface_store_rotate chain edges k).editAll later
  · exact fun e he => List.mem_rotate.1 he
  · rw [maxIndex_editAll, ← hmesh, maxIndex_edit]
    exact hroom
  · exact hstack

/-- The square with a ring round one of its triangles, to which a line along the diagonal is
added. The ring may as well start at its second vertex. -/
theorem square_rings_claim_left_faces :
    let chain : Chain := .ring [⟨0⟩, ⟨1⟩, ⟨2⟩]
    let r := squareMesh.store chain [⟨2⟩, ⟨4⟩, ⟨6⟩]
    let later : List Edit := [.addConstraint (.line [⟨0⟩, ⟨2⟩, ⟨3⟩])]
    squareMesh.Reachable ∧ chain.closed = true ∧ chain.vertices.Nodup ∧
      (∀ v ∈ chain.vertices, squareMesh.FansAround v) ∧ squareMesh.register chain = .ok r ∧
      (∀ other ∈ (r.mesh.editAll later).chains, other.closed = true → other = r.chain) ∧
      squareMesh.pool.maxIndex + 1 + 2 ≤ maxCount ∧ 64 * wordBytes ≤ maxBytes ∧
      ∃ r', squareMesh.register (chain.rotate 1) = .ok r' ∧
        ClaimsLeftFaces (r.mesh.editAll later) (r'.mesh.editAll later) r r' {} := by
  intro chain r later
  have hreachable : squareMesh.Reachable := .build build_square
  have hsubset : chain.vertices ⊆ squareMesh.vertexIds := by decide
  have hfans : ∀ v ∈ chain.vertices, squareMesh.FansAround v :=
    fun v hv => fansAround_square v (hsubset hv)
  have hregister : squareMesh.register chain = .ok r := by decide +kernel
  have honly : ∀ other ∈ (r.mesh.editAll later).chains, other.closed = true →
      other = r.chain := by decide +kernel
  have hroom : squareMesh.pool.maxIndex + 1 + 2 ≤ maxCount := by decide +kernel
  have hstack : 64 * wordBytes ≤ maxBytes := by decide
  exact ⟨hreachable, rfl, by decide, hfans, hregister, honly, hroom, hstack,
    hreachable.rings_claim_left_faces rfl (by decide) hfans hregister later honly hroom hstack 1⟩

end Mesh

end TinFaces
