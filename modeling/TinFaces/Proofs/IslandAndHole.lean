import TinFaces.Proofs.Rings

/-!
# Islands and holes

A ring that is run backwards has the other side of it on its left. If a ring and its
reversal are the only closed chains of a connected mesh, their regions cover the mesh: a
step that leaves the one region crosses an edge along the ring, and has then come to the
left of the ring or of its reversal (`Mesh.BorderedBy.inRegion_or`).

What is reported is the same thing seen from the triangles: a walk emits a triangle if and
only if it lies in the region of the linking edge (`Mesh.WalksRegion.emits_iff`). So every
triangle is emitted by one of the two walks, and a triangle that both emit makes the two
regions one (`Mesh.island_and_hole_cover`).
-/

namespace TinFaces

/-- Whether a traversal reports a triangle, read from whichever vertex on. -/
def Report.Emits {V E : Type} (report : Report V E) (t : Triangle V) : Prop :=
  ∃ t' ∈ report.triangles, t.IsRotation t'

namespace Mesh

variable {m : Mesh} {triangles : List (Triangle Nat)}

/-! ## Connected meshes -/

/-- The edges whose left faces can be reached from that of `a` by steps across sides,
borders or not. -/
inductive Joined (m : Mesh) (a : EdgeId) : EdgeId → Prop
  | start : Joined m a a
  | around {e f : EdgeId} : Joined m a e → m.forward e = .ok f → Joined m a f
  | across {e : EdgeId} : Joined m a e → Joined m a e.dual

/-- Whether every face, ghost faces included, can be reached from every other. -/
def Connected (m : Mesh) : Prop :=
  ∀ a b : EdgeId, m.pool.isLive a.slot = true → m.pool.isLive b.slot = true → m.Joined a b

/-- Where a step from an edge can lead. -/
def nextTo (m : Mesh) (e : EdgeId) : List EdgeId :=
  match m.forward e with
  | .ok f => [f, e.dual]
  | .error _ => [e.dual]

/-- The edges that were seen, and what so many steps from the edges on a stack add to
them. -/
def spread (m : Mesh) (seen : List EdgeId) : Nat → List EdgeId → List EdgeId
  | 0, _ => seen
  | _, [] => seen
  | n + 1, e :: stack =>
      if e ∈ seen then m.spread seen n stack else m.spread (e :: seen) n (m.nextTo e ++ stack)

theorem Joined.of_mem_nextTo {a e f : EdgeId} (he : m.Joined a e) (h : f ∈ m.nextTo e) :
    m.Joined a f := by
  unfold nextTo at h
  split at h
  · next f' hforward =>
      simp only [List.mem_cons, List.not_mem_nil, or_false] at h
      rcases h with rfl | rfl
      · exact he.around hforward
      · exact he.across
  · rw [List.mem_singleton.1 h]
    exact he.across

theorem Joined.of_mem_spread {n : Nat} {a b : EdgeId} {seen stack : List EdgeId}
    (hseen : ∀ e ∈ seen, m.Joined a e) (hstack : ∀ e ∈ stack, m.Joined a e)
    (h : b ∈ m.spread seen n stack) : m.Joined a b := by
  induction n generalizing seen stack with
  | zero => exact hseen b h
  | succ n ih =>
      cases stack with
      | nil => exact hseen b h
      | cons e rest =>
          obtain ⟨he, hrest⟩ := List.forall_mem_cons.1 hstack
          unfold spread at h
          split at h
          · exact ih hseen hrest h
          · apply ih (List.forall_mem_cons.2 ⟨he, hseen⟩) _ h
            intro f hf
            rcases List.mem_append.1 hf with hf | hf
            · exact he.of_mem_nextTo hf
            · exact hrest f hf

/-- That a mesh is connected can be checked edge by edge. -/
theorem connected_of_spread {n : Nat}
    (h : ∀ a ∈ m.pool.directedEdges, m.pool.directedEdges ⊆ m.spread [] n [a]) :
    m.Connected := by
  intro a b ha hb
  have hmem := h a (EdgePool.mem_directedEdges.2 ha) (EdgePool.mem_directedEdges.2 hb)
  apply Joined.of_mem_spread _ _ hmem
  · exact List.forall_mem_nil _
  · exact List.forall_mem_singleton.2 .start

/-- Edits leave the mesh connected. -/
theorem Connected.editAll (h : m.Connected) (edits : List Edit) :
    (m.editAll edits).Connected := by
  have hjoined : ∀ {a b : EdgeId}, m.Joined a b → (m.editAll edits).Joined a b := by
    intro a b hab
    induction hab with
    | start => exact .start
    | around _ hforward ih => exact ih.around ((map_side_editAll edits).2 hforward)
    | across _ ih => exact ih.across
  intro a b ha hb
  rw [(m.sides_editAll edits).1] at ha hb
  exact hjoined (h a b ha hb)

/-! ## Both sides of a ring -/

section Ring

variable {ring : List VertexId} {link link' : EdgeId} {step step' : VertexId × VertexId}

/-- A ring that is run backwards has the same edges. -/
theorem BorderedBy.reverse (h : m.BorderedBy ring) : m.BorderedBy ring.reverse where
  nodup := List.nodup_reverse.2 h.nodup
  length_ge := by
    rw [List.length_reverse]
    exact h.length_ge
  edges step hstep := by
    obtain ⟨a, b⟩ := step
    obtain ⟨e, hrun⟩ := h.edges (b, a) (Loop.mem_reverse_iff.1 hstep)
    exact ⟨e.dual, hrun.dual⟩
  borders e he hborder := by
    obtain ⟨⟨a, b⟩, hstep, hrun⟩ := h.borders e he hborder
    exact ⟨(b, a), Loop.mem_reverse_iff.2 hstep, runsAlong_or_swap hrun⟩
  fans v hv := h.fans v (List.mem_reverse.1 hv)

/-- Whatever can be reached from a ring is in its region or in that of its reversal. -/
theorem BorderedBy.inRegion_or (h : m.BorderedBy ring) (hrealizes : m.Realizes triangles)
    (hstep : step ∈ ring.zip (ring.rotate 1)) (hlink : m.RunsAlong link step)
    (hstep' : step' ∈ ring.reverse.zip (ring.reverse.rotate 1)) (hlink' : m.RunsAlong link' step')
    {e : EdgeId} (hjoined : m.Joined link e) : m.InRegion link e ∨ m.InRegion link' e := by
  induction hjoined with
  | start => exact .inl .start
  | around _ hforward ih => exact ih.imp (·.around hforward) (·.around hforward)
  | @across x _ ih =>
      have hx : m.pool.isLive x.slot = true := by
        rcases ih with hregion | hregion
        · exact hregion.isLive hrealizes hlink.live
        · exact hregion.isLive hrealizes hlink'.live
      rcases hrealizes.isRegionBorder_or hx with hborder | hopen
      · -- across the ring, to the left of it or of its reversal
        obtain ⟨⟨a, b⟩, hring, hrun | hrun⟩ := h.borders x hx hborder
        · have hback := Loop.mem_reverse_iff.2 hring
          exact .inr (h.reverse.inRegion hrealizes hstep' hback hlink' hrun.dual)
        · exact .inl (h.inRegion hrealizes hstep hring hlink hrun)
      · exact ih.imp (·.across hopen) (·.across hopen)

end Ring

/-! ## What is emitted -/

/-- A walk emits the triangles of the region of its linking edge. -/
theorem WalksRegion.emits_iff {h : m.Realizes triangles} {link : EdgeId}
    {report : Report VertexId EdgeId} {entries : List EdgeId}
    (hwalks : WalksRegion h link report entries) (hlive : m.pool.isLive link.slot = true)
    {t : Triangle VertexId} :
    report.Emits t ↔ ∃ e, m.InRegion link e ∧ m.cornersAt e = t.map some := by
  constructor
  · intro hemits
    obtain ⟨t', ht', hrotation⟩ := hemits
    obtain ⟨c, hc, hcorners⟩ := hwalks.exists_cornersAt_eq ht'
    have hregion : m.InRegion link c := hwalks.represents.mem c hc
    have hc' := hregion.isLive h hlive
    -- the face is read from the first vertex of `t` on around one of its edges
    have hreads : (m.cornersAt c).IsRotation (t.map some) := by
      rw [hcorners]
      exact hrotation.symm.map some
    obtain ⟨face, hface, hread⟩ := h.isReading_cornersAt hc'
    obtain ⟨e, he, hcorners'⟩ := h.exists_cornersAt_eq ⟨face, hface, hread.trans hreads⟩
    rw [← hcorners'] at hreads
    exact ⟨e, hregion.sameFace h hlive ((h.sameFace_iff hc' he).2 hreads), hcorners'⟩
  · intro hmem
    obtain ⟨e, he, hcorners⟩ := hmem
    obtain ⟨c, hc, hface⟩ := hwalks.represents.claimed e he
    have hc' := (hwalks.represents.mem c hc).isLive h hlive
    have hrotation := (h.sameFace_iff hc' (he.isLive h hlive)).1 hface
    rw [hcorners] at hrotation
    obtain ⟨t', hrotation', hsome⟩ := hrotation.symm.exists_allSome (v := t) rfl
    refine ⟨t', ?_, hrotation'⟩
    rw [Report.triangles, Event.triangles, hwalks.faces_eq, List.filterMap_map]
    exact List.mem_filterMap.2 ⟨c, hc, hsome⟩

/-- The linking edge of a registered closed chain runs along a step of its vertices. -/
theorem Registered.link_runsAlong (h : m.Registered) {id : ConstraintId} {chain : Chain}
    (hchain : m.chain? id = some chain) (hclosed : chain.closed = true) {link : EdgeId}
    (hlink : chain.linkingEdge? = some link) :
    ∃ step ∈ chain.vertices.zip (chain.vertices.rotate 1), m.RunsAlong link step := by
  obtain ⟨e, hhead, he⟩ := (h.stores id chain hchain).link
  obtain rfl : e = link := Option.some.inj (he.symm.trans hlink)
  have hruns := h.runs_round (Array.mem_of_getElem? hchain) hclosed
  exact exists_mem_of_forall₂ hruns (List.mem_of_head? hhead)

/-- Two walks that have a triangle in common emit the same. -/
theorem WalksRegion.emits_iff_of_common {h : m.Realizes triangles} {link link' : EdgeId}
    {report report' : Report VertexId EdgeId} {entries entries' : List EdgeId}
    (hwalks : WalksRegion h link report entries) (hwalks' : WalksRegion h link' report' entries')
    (hlive : m.pool.isLive link.slot = true) (hlive' : m.pool.isLive link'.slot = true)
    {s : Triangle VertexId} (hs : report.Emits s) (hs' : report'.Emits s)
    (t : Triangle VertexId) : report.Emits t ↔ report'.Emits t := by
  obtain ⟨e, he, hcorners⟩ := (hwalks.emits_iff hlive).1 hs
  obtain ⟨e', he', hcorners'⟩ := (hwalks'.emits_iff hlive').1 hs'
  have hface : h.lawful.SameFace e' e := by
    rw [h.sameFace_iff (he'.isLive h hlive') (he.isLive h hlive), hcorners, hcorners']
    exact Triangle.isRotation_refl _
  have hone : m.region link = m.region link' :=
    region_eq_of_common h hlive hlive' he (he'.sameFace h hlive' hface)
  rw [hwalks.emits_iff hlive, hwalks'.emits_iff hlive']
  exact exists_congr fun x => and_congr_left' (Set.ext_iff.1 hone x)

/-! ## The cover -/

/-- Walks that end and emit every triangle between them. If they have one in common they
emit the same. -/
structure CoverTogether (report report' : Report VertexId EdgeId)
    (triangles : List (Triangle Nat)) : Prop where
  ends : ∃ summary, report.result = .ok summary
  ends' : ∃ summary, report'.result = .ok summary
  covered : ∀ t ∈ triangles,
    report.Emits (t.map VertexId.mk) ∨ report'.Emits (t.map VertexId.mk)
  same : (∃ t, report.Emits t ∧ report'.Emits t) → ∀ t, report.Emits t ↔ report'.Emits t

/-- The walks of a ring and of its reversal, in a connected mesh that is bordered by the
ring. -/
theorem BorderedBy.coverTogether {chain chain' : Chain} (h : m.BorderedBy chain.vertices)
    (hrealizes : m.Realizes triangles) (hregistered : m.Registered) (hconnected : m.Connected)
    {id id' : ConstraintId} (hchain : m.chain? id = some chain) (hclosed : chain.closed = true)
    (hchain' : m.chain? id' = some chain') (hclosed' : chain'.closed = true)
    (hreverse : chain'.vertices = chain.vertices.reverse) {options : WalkOptions}
    (hroom : m.pool.maxIndex + 1 + options.markSlack ≤ maxCount)
    (hstack : options.stackCapacity * wordBytes ≤ maxBytes) :
    CoverTogether ((m.constraintOf chain).walk options) ((m.constraintOf chain').walk options)
      triangles := by
  obtain ⟨link, entries, hlink, hlive, hwalks⟩ :=
    hrealizes.walk_represents hregistered hchain hclosed hroom hstack
  obtain ⟨link', entries', hlink', hlive', hwalks'⟩ :=
    hrealizes.walk_represents hregistered hchain' hclosed' hroom hstack
  refine ⟨⟨_, hwalks.result_eq⟩, ⟨_, hwalks'.result_eq⟩, fun t ht => ?_, fun hcommon => ?_⟩
  · obtain ⟨step, hstep, hrun⟩ := hregistered.link_runsAlong hchain hclosed hlink
    obtain ⟨step', hstep', hrun'⟩ := hregistered.link_runsAlong hchain' hclosed' hlink'
    rw [hreverse] at hstep'
    -- the triangle is the left face of an edge in use
    have hface : t.map Assembly.corner ∈ closedFaces triangles :=
      List.mem_append_left _ (List.mem_map_of_mem ht)
    obtain ⟨e, he, hcorners⟩ :=
      hrealizes.exists_cornersAt_eq ⟨_, hface, Triangle.isRotation_refl _⟩
    have hjoined : m.Joined link e := hconnected link e hlive he
    rcases h.inRegion_or hrealizes hstep hrun hstep' hrun' hjoined with hregion | hregion
    · exact .inl ((hwalks.emits_iff hlive).2 ⟨e, hregion, hcorners⟩)
    · exact .inr ((hwalks'.emits_iff hlive').2 ⟨e, hregion, hcorners⟩)
  · obtain ⟨s, hs, hs'⟩ := hcommon
    exact hwalks.emits_iff_of_common hwalks' hlive hlive' hs hs'

/-- If a ring and its reversal are the only closed chains of a connected mesh, each triangle
that the mesh was built from is emitted by one of their walks. If some triangle is emitted
by both, both emit the same. -/
theorem island_and_hole_cover {points : Array Point} {options : BuildOptions} {built : Built}
    (hbuild : build points triangles options = .ok built) (hconnected : built.mesh.Connected)
    (edits : List Edit) {id id' : ConstraintId} {chain chain' : Chain}
    (hchain : (built.mesh.editAll edits).chain? id = some chain) (hclosed : chain.closed = true)
    (hchain' : (built.mesh.editAll edits).chain? id' = some chain')
    (hclosed' : chain'.closed = true) (hreverse : chain'.vertices = chain.vertices.reverse)
    (honly : ∀ other ∈ (built.mesh.editAll edits).chains, other.closed = true →
      other = chain ∨ other = chain')
    (hnodup : chain.vertices.Nodup) (hlength : 3 ≤ chain.vertices.length)
    (hfans : ∀ v ∈ chain.vertices, built.mesh.FansAround v) {walk : WalkOptions}
    (hroom : built.mesh.pool.maxIndex + 1 + walk.markSlack ≤ maxCount)
    (hstack : walk.stackCapacity * wordBytes ≤ maxBytes) :
    CoverTogether (((built.mesh.editAll edits).constraintOf chain).walk walk)
      (((built.mesh.editAll edits).constraintOf chain').walk walk) triangles := by
  have hregistered : (built.mesh.editAll edits).Registered :=
    ((Reachable.build hbuild).editAll edits).registered
  have hrealizes : (built.mesh.editAll edits).Realizes triangles := by
    obtain ⟨hacceptable, rfl⟩ := build_eq_ok_iff.1 hbuild
    exact (realizes_closedMesh hacceptable options).editAll edits
  have hbordered : (built.mesh.editAll edits).BorderedBy chain.vertices := by
    apply hregistered.borderedBy hrealizes (Array.mem_of_getElem? hchain) hclosed hnodup hlength
    · intro other hother hring
      rcases honly other hother hring with rfl | rfl
      · exact .inl rfl
      · exact .inr hreverse
    · exact fun v hv => (hfans v hv).editAll edits
  rw [← maxIndex_editAll built.mesh edits] at hroom
  exact hbordered.coverTogether hrealizes hregistered (hconnected.editAll edits) hchain hclosed
    hchain' hclosed' hreverse hroom hstack

/-- The square with a ring round one of its triangles and with the reversal of the ring,
whose walk goes by way of the ghost faces. -/
theorem square_island_and_hole_cover :
    let ring : Chain := .ring [⟨0⟩, ⟨1⟩, ⟨2⟩]
    let edits : List Edit := [.addConstraint ring, .addConstraint (.ring [⟨2⟩, ⟨1⟩, ⟨0⟩])]
    let m := squareMesh.editAll edits
    let chain : Chain := ⟨[⟨0⟩, ⟨1⟩, ⟨2⟩], true, some ⟨0⟩, some ⟨2⟩, [⟨2⟩, ⟨4⟩, ⟨6⟩]⟩
    let chain' : Chain := ⟨[⟨2⟩, ⟨1⟩, ⟨0⟩], true, some ⟨1⟩, some ⟨5⟩, [⟨5⟩, ⟨3⟩, ⟨7⟩]⟩
    squareMesh.Connected ∧ m.chain? ⟨0⟩ = some chain ∧ m.chain? ⟨1⟩ = some chain' ∧
      (∀ other ∈ m.chains, other.closed = true → other = chain ∨ other = chain') ∧
      (∀ v ∈ chain.vertices, squareMesh.FansAround v) ∧
      squareMesh.pool.maxIndex + 1 + 2 ≤ maxCount ∧ 64 * wordBytes ≤ maxBytes ∧
      CoverTogether ((m.constraintOf chain).walk {}) ((m.constraintOf chain').walk {})
        squareTriangles := by
  intro ring edits m chain chain'
  have hconnected : squareMesh.Connected := by
    have hchecked : ∀ a ∈ squareMesh.pool.directedEdges,
        squareMesh.pool.directedEdges ⊆ squareMesh.spread [] 40 [a] := by decide +kernel
    exact connected_of_spread hchecked
  have hsubset : chain.vertices ⊆ squareMesh.vertexIds := by decide
  have hfans : ∀ v ∈ chain.vertices, squareMesh.FansAround v :=
    fun v hv => fansAround_square v (hsubset hv)
  have hchain : m.chain? ⟨0⟩ = some chain := by decide +kernel
  have hchain' : m.chain? ⟨1⟩ = some chain' := by decide +kernel
  have honly : ∀ other ∈ m.chains, other.closed = true → other = chain ∨ other = chain' := by
    decide +kernel
  have hroom : squareMesh.pool.maxIndex + 1 + 2 ≤ maxCount := by decide +kernel
  have hstack : 64 * wordBytes ≤ maxBytes := by decide
  exact ⟨hconnected, hchain, hchain', honly, hfans, hroom, hstack,
    island_and_hole_cover build_square hconnected edits hchain rfl hchain' rfl rfl honly
      (by decide) (by decide) hfans hroom hstack⟩

end Mesh

end TinFaces
