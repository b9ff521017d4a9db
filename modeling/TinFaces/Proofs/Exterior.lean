import TinFaces.Proofs.Regions

/-!
# Regions and the exterior

The hull of a mesh is a single loop, so the ghost faces beyond it stand in a ring around
the ghost vertex: from the ghost edge of one hull vertex, one step across and one step
round lead to that of the next (`Mesh.Realizes.ghostEdge_inRegion`). Constraints cannot
break the ring, because no segment ends at the ghost vertex. Hence all ghost faces are
in one region (`Mesh.Realizes.ghosts_inRegion`), and a walk that comes to one of them
claims them all (`Mesh.Reachable.walk_ghosts_all_or_none`).

How many there are can be counted on the mesh itself: there is one for each hull edge
(`Mesh.Realizes.length_hullEdges`).
-/

namespace TinFaces

open Assembly (corner ghostFace)

variable {triangles : List (Triangle Nat)}

/-- A reading that ends at the ghost vertex is a ghost face. -/
theorem IsReading.exists_ghostFace {t : Triangle Corner}
    (h : IsReading (closedFaces triangles) t) (hghost : t.third = none) :
    ∃ side ∈ hullSides triangles, ghostFace side = t := by
  obtain ⟨face, hface, hrotation⟩ := h
  rcases List.mem_append.1 hface with hface | hface
  · obtain ⟨t', _, rfl⟩ := List.mem_map.1 hface
    -- a triangle does not pass the ghost vertex
    rcases hrotation with rfl | rfl | rfl <;> exact absurd hghost (Option.some_ne_none _)
  · obtain ⟨side, hside, rfl⟩ := List.mem_map.1 hface
    rcases hrotation with rfl | rfl | rfl
    · exact ⟨side, hside, rfl⟩
    · exact absurd hghost (Option.some_ne_none _)
    · exact absurd hghost (Option.some_ne_none _)

theorem isReading_ghostFace {side : HullSide} (h : side ∈ hullSides triangles) :
    IsReading (closedFaces triangles) (ghostFace side) :=
  ⟨ghostFace side, List.mem_append_right _ (List.mem_map_of_mem h), Triangle.isRotation_refl _⟩

namespace Mesh

variable {m : Mesh} {edge : Side → EdgeId}

/-! ## Hull edges -/

/-- Whether `e` joins two vertices and has a ghost face on its left. -/
def isHullEdge (m : Mesh) (e : EdgeId) : Bool :=
  match m.cornersAt e with
  | ⟨some _, some _, none⟩ => true
  | _ => false

/-- The hull of a mesh, one directed edge for each of its pairs: the one from which the
exterior lies to the left. -/
def hullEdges (m : Mesh) : List EdgeId := m.pool.directedEdges.filter m.isHullEdge

theorem mem_hullEdges {e : EdgeId} : e ∈ m.hullEdges ↔
    m.pool.isLive e.slot = true ∧ ∃ v w, m.cornersAt e = ⟨some v, some w, none⟩ := by
  rw [hullEdges, List.mem_filter, EdgePool.mem_directedEdges]
  refine and_congr_right fun _ => ?_
  unfold isHullEdge
  split
  · next hcorners => simp [hcorners]
  · next hother =>
      simp only [Bool.false_eq_true, false_iff]
      rintro ⟨v, w, hcorners⟩
      exact hother v w hcorners

theorem nodup_hullEdges (m : Mesh) : m.hullEdges.Nodup :=
  m.pool.nodup_directedEdges.filter _

/-- A mesh has as many hull edges as its triangles have hull sides. -/
theorem Realizes.length_hullEdges (h : m.Realizes triangles) :
    m.hullEdges.length = (hullSides triangles).length := by
  obtain ⟨edge, hcarries⟩ := h.carried
  have hperm : m.hullEdges.Perm ((hullSides triangles).map fun side =>
      edge ((ghostFace side).first, (ghostFace side).second)) := by
    refine (List.perm_ext_iff_of_nodup m.nodup_hullEdges ?_).2 fun e => ?_
    · have hnodup := (nodup_sidesOf_closedFaces_iff.1 h.closed.nodup).1
      refine List.Nodup.map_on (fun s hs t ht heq => ?_) (hnodup.filter _)
      have hends := hcarries.edge_inj h.closed (isReading_ghostFace hs).mem_sidesOf
        (isReading_ghostFace ht).mem_sidesOf heq
      exact Prod.ext (Assembly.corner_injective (congrArg Prod.snd hends))
        (Assembly.corner_injective (congrArg Prod.fst hends))
    · rw [mem_hullEdges, List.mem_map]
      constructor
      · intro hhull
        obtain ⟨hlive, v, w, hcorners⟩ := hhull
        obtain ⟨t, ht, rfl⟩ := hcarries.exists_reading hlive
        rw [cornersAt_edge hcarries ht] at hcorners
        obtain ⟨side, hside, rfl⟩ := ht.exists_ghostFace (congrArg Triangle.third hcorners)
        exact ⟨side, hside, rfl⟩
      · intro hedge
        obtain ⟨side, hside, rfl⟩ := hedge
        have hreading := isReading_ghostFace hside
        exact ⟨hcarries.isLive_edge hreading.mem_sidesOf, _, _, cornersAt_edge hcarries hreading⟩
  rw [hperm.length_eq, List.length_map]

/-! ## The ghost ring -/

/-- The edges that start at the ghost vertex lead to the vertices of the hull. -/
theorem Realizes.exists_ghostEdge (h : m.Realizes triangles)
    (hcarries : m.pool.Carries (closedFaces triangles) edge) {e : EdgeId}
    (hlive : m.pool.isLive e.slot = true) (horigin : m.origin e = .ok none) :
    ∃ v ∈ (hullSides triangles).map Prod.snd, edge (none, corner v) = e := by
  obtain ⟨⟨a, b⟩, hside, rfl⟩ := (hcarries.isLive_iff e).1 hlive
  rw [origin_eq_ok_iff, hcarries.origin_edge hside] at horigin
  obtain rfl : a = none := Option.some.inj horigin
  cases b with
  | none =>
      obtain ⟨face, hface, hmem⟩ := mem_sidesOf.1 hside
      exact absurd rfl ((h.closed.distinct face hface).ne_of_mem_sides hmem)
  | some v => exact ⟨v.index, from_ghost_mem_iff.1 hside, rfl⟩

/-- Across a ghost edge and round the ghost face beyond lies the next ghost edge. -/
theorem Realizes.ghostEdge_inRegion (h : m.Realizes triangles) (hregistered : m.Registered)
    (hcarries : m.pool.Carries (closedFaces triangles) edge) {v w : Nat}
    (hside : (v, w) ∈ hullSides triangles) :
    m.InRegion (edge (none, corner v)) (edge (none, corner w)) := by
  have hreading := (isReading_ghostFace hside).rotate
  have hto : (corner v, none) ∈ sidesOf (closedFaces triangles) := hreading.mem_sidesOf
  have hfrom : (none, corner v) ∈ sidesOf (closedFaces triangles) := h.closed.swap_mem _ hto
  have horigin : m.origin (edge (none, corner v)) = .ok none := by
    rw [origin_eq_ok_iff, hcarries.origin_edge hfrom]
  have hopen : m.isRegionBorder (edge (none, corner v)) = .ok false :=
    ((hregistered.flagsAgree h).ghost _ (hcarries.isLive_edge hfrom) (.inl horigin)).2
  have hcross : m.InRegion (edge (none, corner v)) (edge (corner v, none)) := by
    have hdual : edge (corner v, none) = (edge (none, corner v)).dual :=
      hcarries.edge_swap _ hfrom
    rw [hdual]
    exact InRegion.start.across hopen
  exact hcross.around (answers_of_side? (hcarries.side?_edge _ hreading)).2.1

/-- All edges that start at the ghost vertex are in one region. -/
theorem Realizes.ghosts_inRegion (h : m.Realizes triangles) (hregistered : m.Registered)
    (hloop : IsLoop (hullSides triangles)) {e e' : EdgeId}
    (hlive : m.pool.isLive e.slot = true) (horigin : m.origin e = .ok none)
    (hlive' : m.pool.isLive e'.slot = true) (horigin' : m.origin e' = .ok none) :
    m.InRegion e e' := by
  obtain ⟨edge, hcarries⟩ := h.carried
  obtain ⟨v, hv, rfl⟩ := h.exists_ghostEdge hcarries hlive horigin
  obtain ⟨w, hw, rfl⟩ := h.exists_ghostEdge hcarries hlive' horigin'
  obtain ⟨loop, _, hperm⟩ := hloop
  have hvertices : ∀ x, x ∈ (hullSides triangles).map Prod.snd ↔ x ∈ loop := fun x => by
    rw [(hperm.map Prod.snd).mem_iff, Loop.map_snd_zip, List.mem_rotate]
  -- round the loop, starting at `v`
  refine Loop.forall_mem_of_closed
    (P := fun x => m.InRegion (edge (none, corner v)) (edge (none, corner x)))
    ((hvertices v).1 hv) .start (fun x y hxy hx => ?_) w ((hvertices w).1 hw)
  exact hx.trans (h.ghostEdge_inRegion hregistered hcarries (hperm.mem_iff.2 hxy))

/-! ## Counting ghost faces -/

theorem Realizes.represents_entries (h : m.Realizes triangles) :
    h.lawful.Represents h.entries {e | m.pool.isLive e.slot = true} where
  subset := subset_rfl
  mem _ he := h.isLive_of_mem_entries he
  once := h.lawful.firsts_pairwise _ _
  claimed _ he := h.claimed_entries he

/-- There is one ghost face for each hull edge. -/
theorem Realizes.ncard_ghosts (h : m.Realizes triangles) :
    {F ∈ h.lawful.orbits {e | m.pool.isLive e.slot = true} | h.lawful.TouchesGhost F}.ncard =
      m.hullEdges.length := by
  -- counted as by a traversal that claims the faces at the entries and does nothing else
  have hfaces : Event.faces (h.entries.map fun e => .claimed (h.lawful.face e)) =
      h.entries.map h.lawful.face := by
    rw [Event.faces, List.filterMap_map]
    exact congrFun List.filterMap_eq_map h.entries
  have huntested : (h.entries.map fun e => Event.claimed (h.lawful.face e)).filterMap
      Event.border? = [] := by
    rw [List.filterMap_map]
    exact List.filterMap_eq_nil_iff.2 fun _ _ => rfl
  obtain ⟨faces, hperm, hforall⟩ := h.exists_perm_entries
  have hsummary := (report_of_perm hperm (by
    rw [hfaces, List.map_map]
    exact List.forall₂_map_right_iff.2 hforall.flip) huntested).2
  rw [h.represents_entries.ncard_ghosts, h.length_hullEdges]
  exact congrArg Summary.ghostsSuppressed ((Lawful.summary_eq hfaces 0).symm.trans hsummary)

/-- A region has all ghost faces if it has an edge that starts at the ghost vertex, and
otherwise none. -/
theorem Realizes.ncard_ghosts_region (h : m.Realizes triangles) (hregistered : m.Registered)
    (hloop : IsLoop (hullSides triangles)) {link : EdgeId}
    (hlive : m.pool.isLive link.slot = true) :
    {F ∈ h.lawful.orbits (m.region link) | h.lawful.TouchesGhost F}.ncard =
        m.hullEdges.length ∧ (∃ e, m.InRegion link e ∧ m.origin e = .ok none) ∨
    {F ∈ h.lawful.orbits (m.region link) | h.lawful.TouchesGhost F}.ncard = 0 ∧
      ¬ ∃ e, m.InRegion link e ∧ m.origin e = .ok none := by
  have horigin : ∀ {x : EdgeId}, m.pool.isLive x.slot = true →
      (h.lawful.origin x = none ↔ m.origin x = .ok none) := fun {x} hx => by
    have hanswer : m.origin x = .ok (h.lawful.origin x) := h.lawful.origin_eq x hx
    rw [hanswer, Except.ok.injEq]
  by_cases hghost : ∃ e, m.InRegion link e ∧ m.origin e = .ok none
  · refine .inl ⟨?_, hghost⟩
    obtain ⟨e, he, hnone⟩ := hghost
    rw [← h.ncard_ghosts]
    congr 1
    ext F
    refine and_congr_left fun htouches => ⟨fun hF => ?_, fun hF => ?_⟩
    · obtain ⟨x, hx, rfl⟩ := hF
      exact ⟨x, InRegion.isLive h hx hlive, rfl⟩
    · -- a ghost face has an edge at the ghost vertex, which `e` leads to
      obtain ⟨x, hx, rfl⟩ := hF
      obtain ⟨y, hxy, hy⟩ := htouches
      have hylive := h.lawful.sameFace_mem hx hxy
      have hey := h.ghosts_inRegion hregistered hloop (he.isLive h hlive) hnone hylive
        ((horigin hylive).1 hy)
      exact ⟨x, (he.trans hey).sameFace h hlive (h.lawful.sameFace_symm hx hxy), rfl⟩
  · refine .inr ⟨?_, hghost⟩
    rw [Set.sep_eq_empty_iff_mem_false.2, Set.ncard_empty]
    rintro F ⟨x, hx, rfl⟩ ⟨y, hxy, hy⟩
    have hregion : m.InRegion link y := InRegion.sameFace h hx hlive hxy
    exact hghost ⟨y, hregion, (horigin (hregion.isLive h hlive)).1 hy⟩

/-! ## Walks and the exterior -/

/-- What a walk leaves out are the ghost faces of its region. -/
theorem WalksRegion.ghosts_eq {h : m.Realizes triangles} {link : EdgeId}
    {report : Report VertexId EdgeId} {entries : List EdgeId}
    (hwalks : WalksRegion h link report entries) :
    (Event.summary report.events 1).ghostsSuppressed =
      {F ∈ h.lawful.orbits (m.region link) | h.lawful.TouchesGhost F}.ncard := by
  rw [Lawful.summary_eq hwalks.faces_eq, hwalks.represents.ncard_ghosts]

/-- What a region walk and a scan say about the exterior of a mesh: the ghost faces that
a walk from `link` leaves out are none or one for each hull edge, as many as a scan
leaves out. They are all if the walk can come to a ghost face, or if there are none. -/
structure AllGhostsOrNone (m : Mesh) (link : EdgeId) (walk scan : Summary) : Prop where
  scanned : scan.ghostsSuppressed = m.hullEdges.length
  all_or_none : walk.ghostsSuppressed = 0 ∨ walk.ghostsSuppressed = m.hullEdges.length
  all_iff : walk.ghostsSuppressed = m.hullEdges.length ↔
    (∃ e, m.InRegion link e ∧ m.origin e = .ok none) ∨ m.hullEdges = []

/-- The walk of a registered closed chain ends, and so does a scan, and the walk leaves
out all ghost faces or none. It leaves out all if a ghost face can be reached from the
linking edge without crossing a region border, or if the mesh has no hull. -/
theorem Reachable.walk_ghosts_all_or_none (h : m.Reachable) {id : ConstraintId} {chain : Chain}
    (hchain : m.chain? id = some chain) (hclosed : chain.closed = true) {options : WalkOptions}
    (hroom : m.pool.maxIndex + 1 + options.markSlack ≤ maxCount)
    (hstack : options.stackCapacity * wordBytes ≤ maxBytes) : ∃ link walk scan,
      chain.linkingEdge? = some link ∧
      ((m.constraintOf chain).walk options).result = .ok walk ∧
      (m.surface.toTriangulation.scan options).result = .ok scan ∧
      m.AllGhostsOrNone link walk scan := by
  obtain ⟨triangles, hrealizes, hloop⟩ := h.exists_realizes_isLoop
  obtain ⟨link, entries, hlink, hlive, hwalks⟩ :=
    hrealizes.walk_represents h.registered hchain hclosed hroom hstack
  have hne : triangles ≠ [] := by
    rintro rfl
    have hbootstrapped := hrealizes.isBootstrapped_iff.2 ⟨link, hlive⟩
    rw [isBootstrapped, hrealizes.numTriangles_eq] at hbootstrapped
    cases hbootstrapped
  obtain ⟨hscan, huntested, faces, hperm, hforall⟩ := hrealizes.exists_perm_scan hne hroom
  rw [(report_of_perm hperm hforall huntested).2, ← hrealizes.length_hullEdges] at hscan
  refine ⟨link, _, _, hlink, hwalks.result_eq, hscan, rfl, ?_, ?_⟩
  · rw [hwalks.ghosts_eq]
    rcases hrealizes.ncard_ghosts_region h.registered hloop hlive with ⟨hall, _⟩ | ⟨hnone, _⟩
    · exact .inr hall
    · exact .inl hnone
  · rw [hwalks.ghosts_eq]
    rcases hrealizes.ncard_ghosts_region h.registered hloop hlive with ⟨hall, hghost⟩ |
      ⟨hnone, hghost⟩
    · exact iff_of_true hall (.inl hghost)
    · rw [hnone, eq_comm, List.length_eq_zero_iff]
      exact (or_iff_right hghost).symm

/-- The square with a clockwise ring around one of its triangles, whose region is the
rest of the plane. -/
def holedSquare : Mesh := squareMesh.editAll [.addConstraint (.ring [⟨2⟩, ⟨1⟩, ⟨0⟩])]

theorem holedSquare_ghosts : ∃ chain, holedSquare.chain? ⟨0⟩ = some chain ∧
    chain.closed = true ∧ holedSquare.pool.maxIndex + 1 + 2 ≤ maxCount ∧
    64 * wordBytes ≤ maxBytes ∧ ∃ link walk scan,
      chain.linkingEdge? = some link ∧
      ((holedSquare.constraintOf chain).walk {}).result = .ok walk ∧
      (holedSquare.surface.toTriangulation.scan {}).result = .ok scan ∧
      holedSquare.AllGhostsOrNone link walk scan := by
  have hreachable : holedSquare.Reachable := (Reachable.build build_square).editAll _
  have hchain : holedSquare.chain? ⟨0⟩ = some ⟨[⟨2⟩, ⟨1⟩, ⟨0⟩], true, some ⟨0⟩, some ⟨5⟩,
      [⟨5⟩, ⟨3⟩, ⟨7⟩]⟩ := by decide +kernel
  have hroom : holedSquare.pool.maxIndex + 1 + 2 ≤ maxCount := by decide +kernel
  have hstack : 64 * wordBytes ≤ maxBytes := by decide
  exact ⟨_, hchain, rfl, hroom, hstack,
    hreachable.walk_ghosts_all_or_none hchain rfl hroom hstack⟩

/-! ## A surface without a hull -/

/-- Four points none of which is a place in the plane. -/
def nowhere : Array Point := Array.replicate 4 ⟨0.0 / 0.0, 0.0 / 0.0, 0.0⟩

/-- The four faces of a tetrahedron. -/
def tetrahedronTriangles : List (Triangle Nat) := [⟨0, 1, 2⟩, ⟨0, 2, 3⟩, ⟨0, 3, 1⟩, ⟨1, 3, 2⟩]

/-- No area is a number, so none is zero or negative; and no side is left for a hull. -/
theorem acceptable_tetrahedron : Acceptable nowhere tetrahedronTriangles where
  nonempty := by decide
  admissible := by decide +kernel
  sides_disjoint := by
    have hnodup : (sidesOf tetrahedronTriangles).Nodup := by decide
    exact (List.nodup_flatMap.1 hnodup).2
  hull_isLoop := ⟨[], List.nodup_nil, by decide⟩

theorem build_tetrahedron : build nowhere tetrahedronTriangles {} =
    .ok ⟨closedMesh nowhere tetrahedronTriangles {}, hullSides tetrahedronTriangles⟩ :=
  build_eq_ok_iff.2 ⟨acceptable_tetrahedron, rfl⟩

/-- The tetrahedron with a ring around one of its faces. -/
def ringedTetrahedron : Mesh :=
  (closedMesh nowhere tetrahedronTriangles {}).editAll
    [.addConstraint (.ring [⟨0⟩, ⟨1⟩, ⟨2⟩])]

/-- Where there is no hull, a walk leaves out as many ghost faces as there are, though it
can come to none. -/
theorem ringedTetrahedron_without_ghosts : ringedTetrahedron.Reachable ∧
    ∃ chain link walk, ringedTetrahedron.chain? ⟨0⟩ = some chain ∧ chain.closed = true ∧
      chain.linkingEdge? = some link ∧
      ((ringedTetrahedron.constraintOf chain).walk {}).result = .ok walk ∧
      ¬ (walk.ghostsSuppressed = ringedTetrahedron.hullEdges.length ↔
        ∃ e, ringedTetrahedron.InRegion link e ∧ ringedTetrahedron.origin e = .ok none) := by
  have hreachable : ringedTetrahedron.Reachable := (Reachable.build build_tetrahedron).editAll _
  have hrealizes : ringedTetrahedron.Realizes tetrahedronTriangles :=
    (realizes_closedMesh acceptable_tetrahedron {}).editAll _
  have hhull : hullSides tetrahedronTriangles = [] := by decide
  have hchain : ringedTetrahedron.chain? ⟨0⟩ = some ⟨[⟨0⟩, ⟨1⟩, ⟨2⟩], true, some ⟨0⟩, some ⟨0⟩,
      [⟨0⟩, ⟨2⟩, ⟨4⟩]⟩ := by decide +kernel
  have hroom : ringedTetrahedron.pool.maxIndex + 1 + ({} : WalkOptions).markSlack ≤ maxCount := by
    decide +kernel
  obtain ⟨link, entries, hlink, hlive, hwalks⟩ :=
    hrealizes.walk_represents hreachable.registered hchain rfl hroom (by decide)
  refine ⟨hreachable, _, link, _, hchain, rfl, hlink, hwalks.result_eq, fun hiff => ?_⟩
  have hall : {F ∈ hrealizes.lawful.orbits (ringedTetrahedron.region link) |
      hrealizes.lawful.TouchesGhost F}.ncard = ringedTetrahedron.hullEdges.length := by
    rcases hrealizes.ncard_ghosts_region hreachable.registered
      acceptable_tetrahedron.hull_isLoop hlive with ⟨hall, _⟩ | ⟨hnone, _⟩
    · exact hall
    · rw [hnone, hrealizes.length_hullEdges, hhull, List.length_nil]
  rw [hwalks.ghosts_eq] at hiff
  -- an edge at the ghost vertex would lead to a vertex of the hull
  obtain ⟨e, he, hnone⟩ := hiff.1 hall
  obtain ⟨edge, hcarries⟩ := hrealizes.carried
  obtain ⟨v, hv, _⟩ := hrealizes.exists_ghostEdge hcarries (he.isLive hrealizes hlive) hnone
  rw [hhull] at hv
  exact absurd hv List.not_mem_nil

end Mesh

end TinFaces
