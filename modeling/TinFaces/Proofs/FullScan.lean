import Mathlib.Data.List.Forall2
import TinFaces.Proofs.Realizes
import TinFaces.Proofs.ScanFaces

/-!
# A scan returns the triangles of a mesh

A mesh that realizes triangles is lawful on its live edges
(`Mesh.Realizes.lawful`), so a scan of it claims each face at one edge. The
origins around that edge read the face from one of its corners on, which turns
the entries of the scan into a list of the faces, in some order and each rotated
somehow (`Mesh.Realizes.exists_perm_scan`).

Everything that is reported follows from that list: dropping the ghost faces
leaves the triangles, and the counters count.
-/

namespace TinFaces

/-! ## Matching two lists -/

/-- If each element of a list goes with one of another, no two with the same, and
nothing is left over, then the other list can be put in the order of the first. -/
theorem exists_perm_forall₂ {α β : Type} [DecidableEq β] {R : α → β → Prop} {xs : List α}
    {ys : List β} (hys : ys.Nodup) (hfind : ∀ x ∈ xs, ∃ y ∈ ys, R x y)
    (hunique : ∀ x ∈ xs, ∀ y ∈ ys, ∀ y' ∈ ys, R x y → R x y' → y = y')
    (hapart : xs.Pairwise fun x x' => ∀ y ∈ ys, R x y → ¬ R x' y)
    (hcover : ∀ y ∈ ys, ∃ x ∈ xs, R x y) : ∃ ys', ys'.Perm ys ∧ List.Forall₂ R xs ys' := by
  induction xs generalizing ys with
  | nil =>
      have hnil : ys = [] := List.eq_nil_iff_forall_not_mem.2 fun y hy => by
        obtain ⟨x, hx, _⟩ := hcover y hy
        exact absurd hx List.not_mem_nil
      exact ⟨[], hnil ▸ List.Perm.refl _, List.Forall₂.nil⟩
  | cons x xs ih =>
      obtain ⟨y, hy, hxy⟩ := hfind x List.mem_cons_self
      obtain ⟨hfirst, hrest⟩ := List.pairwise_cons.1 hapart
      have hsub : ∀ z ∈ ys.erase y, z ∈ ys := fun z hz => List.mem_of_mem_erase hz
      -- the others go with what is left once `y` is taken out
      have hfind' : ∀ x' ∈ xs, ∃ z ∈ ys.erase y, R x' z := by
        intro x' hx'
        obtain ⟨z, hz, hxz⟩ := hfind x' (List.mem_cons_of_mem _ hx')
        have hne : z ≠ y := by
          rintro rfl
          exact hfirst x' hx' z hz hxy hxz
        exact ⟨z, (List.mem_erase_of_ne hne).2 hz, hxz⟩
      have hcover' : ∀ z ∈ ys.erase y, ∃ x' ∈ xs, R x' z := by
        intro z hz
        obtain ⟨hne, hmem⟩ := (List.Nodup.mem_erase_iff hys).1 hz
        obtain ⟨x', hx', hxz⟩ := hcover z hmem
        rcases List.mem_cons.1 hx' with rfl | hx'
        · exact absurd (hunique x' List.mem_cons_self z hmem y hy hxz hxy) hne
        · exact ⟨x', hx', hxz⟩
      obtain ⟨ys', hperm, hforall⟩ := ih (hys.erase y) hfind'
        (fun x' hx' z hz z' hz' =>
          hunique x' (List.mem_cons_of_mem _ hx') z (hsub z hz) z' (hsub z' hz'))
        (hrest.imp fun hne z hz => hne z (hsub z hz)) hcover'
      exact ⟨y :: ys', (hperm.cons y).trans (List.perm_cons_erase hy).symm, hforall.cons hxy⟩

/-- Where no side occurs twice, no triangle does. -/
theorem nodup_of_nodup_sidesOf {α : Type} {triangles : List (Triangle α)}
    (h : (sidesOf triangles).Nodup) : triangles.Nodup := by
  refine (List.nodup_flatMap.1 h).2.imp ?_
  rintro t _ hdisjoint rfl
  exact hdisjoint (show (t.first, t.second) ∈ t.sides from List.mem_cons_self)
    List.mem_cons_self

/-! ## Triangles among faces -/

namespace Triangle

variable {α : Type}

/-- A turned triangle has its values if the triangle has them, and they are turned
with it. -/
theorem IsRotation.exists_allSome {t t' : Triangle (Option α)} (h : t.IsRotation t')
    {v : Triangle α} (hv : t.allSome = some v) :
    ∃ v', v.IsRotation v' ∧ t'.allSome = some v' := by
  obtain rfl := map_some_of_allSome hv
  rcases h with rfl | rfl | rfl
  · exact ⟨v, .inl rfl, rfl⟩
  · exact ⟨v.rotate, .inr (.inl rfl), rfl⟩
  · exact ⟨v.rotate.rotate, .inr (.inr rfl), rfl⟩

theorem IsRotation.allSome {t t' : Triangle (Option α)} (h : t.IsRotation t') :
    Option.Rel IsRotation t.allSome t'.allSome := by
  cases hv : t.allSome with
  | some v =>
      obtain ⟨v', hrotation, hv'⟩ := h.exists_allSome hv
      rw [hv']
      exact Option.Rel.some hrotation
  | none =>
      cases hv' : t'.allSome with
      | none => exact Option.Rel.none
      | some v' =>
          obtain ⟨v, _, hsome⟩ := h.symm.exists_allSome hv'
          rw [hv] at hsome
          cases hsome

end Triangle

/-- Leaving out the ghost faces leaves the triangles. -/
theorem filterMap_closedFaces (triangles : List (Triangle Nat)) :
    (closedFaces triangles).filterMap Triangle.allSome =
      triangles.map (Triangle.map VertexId.mk) := by
  have hghosts :
      ((hullSides triangles).map Assembly.ghostFace).filterMap Triangle.allSome = [] := by
    rw [List.filterMap_map]
    exact List.filterMap_eq_nil_iff.2 fun _ _ => rfl
  have hreal : (triangles.map (Triangle.map Assembly.corner)).filterMap Triangle.allSome =
      triangles.map (Triangle.map VertexId.mk) := by
    rw [List.filterMap_map]
    show triangles.filterMap (some ∘ Triangle.map VertexId.mk) = _
    rw [List.filterMap_eq_map]
  rw [closedFaces, List.filterMap_append, hghosts, hreal, List.append_nil]

namespace Mesh

variable {m : Mesh} {triangles : List (Triangle Nat)}

/-! ## The live edges are lawful -/

/-- What a mesh stores for an edge; for an edge without a slot, a side that loops
onto itself. -/
def sideAt (m : Mesh) (e : EdgeId) : EdgeSide := (m.pool.side? e).getD ⟨none, e, e⟩

theorem sideAt_eq {e : EdgeId} {side : EdgeSide} (h : m.pool.side? e = some side) :
    m.sideAt e = side := by
  rw [sideAt, h]
  rfl

/-- A live edge has a stored side, whose neighbours are live and lead on as the
laws ask. -/
theorem Realizes.exists_side (h : m.Realizes triangles) {e : EdgeId}
    (he : m.pool.isLive e.slot = true) :
    m.pool.side? e = some (m.sideAt e) ∧ m.pool.isLive (m.sideAt e).forward.slot = true ∧
      (m.sideAt (m.sideAt e).forward).forward = (m.sideAt e).reverse ∧
      (m.sideAt (m.sideAt e).reverse).forward = e := by
  obtain ⟨edge, hcarries⟩ := h.carried
  obtain ⟨t, ht, rfl⟩ := hcarries.exists_reading he
  obtain ⟨hfirst, hsecond, hthird⟩ := hcarries.answers ht
  rw [sideAt_eq hfirst, sideAt_eq hsecond, sideAt_eq hthird]
  exact ⟨hfirst, hcarries.isLive_edge ht.rotate.mem_sidesOf, rfl, rfl⟩

/-- A mesh that realizes triangles keeps the quad-edge laws on its live edges. -/
def Realizes.lawful (h : m.Realizes triangles) :
    Lawful m.surface.toTriangulation {e | m.pool.isLive e.slot = true} where
  dual := EdgeId.dual
  forward e := (m.sideAt e).forward
  origin e := (m.sideAt e).origin
  index := EdgeId.index
  border e := ((m.pool.pair? e).map EdgePair.regionBorder).getD false
  dual_eq _ _ := rfl
  forward_eq _ he := (answers_of_side? (h.exists_side he).1).2.1
  reverse_eq _ he := by
    obtain ⟨hside, _, htwice, _⟩ := h.exists_side he
    rw [htwice]
    exact (answers_of_side? hside).2.2
  origin_eq _ he := (answers_of_side? (h.exists_side he).1).1
  index_eq _ _ := rfl
  border_eq e he := by
    obtain ⟨pair, hpair, _⟩ := EdgePool.isLive_eq_true_iff.1 he
    show (·.regionBorder) <$> readAt m.pool.pairs e.slot = _
    rw [readAt_eq_ok_iff.2 hpair, EdgePool.pair?, hpair]
    rfl
  dual_mem e he := by
    show m.pool.isLive e.dual.slot = true
    rw [EdgeId.slot_dual]
    exact he
  forward_mem _ he := (h.exists_side he).2.1
  dual_dual e _ := e.dual_dual
  forward_three _ he := by
    obtain ⟨_, _, htwice, hthree⟩ := h.exists_side he
    rw [htwice]
    exact hthree
  index_injOn _ _ _ _ heq := congrArg EdgeId.mk heq
  index_le _ he := EdgeId.index_le_of_slot_lt (EdgePool.lt_size_of_isLive he)

/-! ## Edges and faces -/

/-- The corners around the left face of an edge, from its origin on. -/
def cornersAt (m : Mesh) (e : EdgeId) : Triangle Corner :=
  ⟨(m.sideAt e).origin, (m.sideAt (m.sideAt e).forward).origin,
    (m.sideAt (m.sideAt (m.sideAt e).forward).forward).origin⟩

/-- The edge of a side has the reading that the side begins around it. -/
theorem cornersAt_edge {faces : List (Triangle Corner)} {edge : Side → EdgeId}
    (h : m.pool.Carries faces edge) {t : Triangle Corner} (ht : IsReading faces t) :
    m.cornersAt (edge (t.first, t.second)) = t := by
  obtain ⟨hfirst, hsecond, hthird⟩ := h.answers ht
  rw [cornersAt, sideAt_eq hfirst, sideAt_eq hsecond, sideAt_eq hthird]

/-- The corners around a live edge read a face of the mesh. -/
theorem Realizes.isReading_cornersAt (h : m.Realizes triangles) {e : EdgeId}
    (he : m.pool.isLive e.slot = true) : IsReading (closedFaces triangles) (m.cornersAt e) := by
  obtain ⟨edge, hcarries⟩ := h.carried
  obtain ⟨t, ht, rfl⟩ := hcarries.exists_reading he
  rw [cornersAt_edge hcarries ht]
  exact ht

/-- Every face is read around a live edge. -/
theorem Realizes.exists_cornersAt_eq (h : m.Realizes triangles) {t : Triangle Corner}
    (ht : IsReading (closedFaces triangles) t) :
    ∃ e : EdgeId, m.pool.isLive e.slot = true ∧ m.cornersAt e = t := by
  obtain ⟨edge, hcarries⟩ := h.carried
  exact ⟨_, hcarries.isLive_edge ht.mem_sidesOf, cornersAt_edge hcarries ht⟩

/-- Two live edges bound one face if the corners around them are the same, but for
where the reading begins. -/
theorem Realizes.sameFace_iff (h : m.Realizes triangles) {a b : EdgeId}
    (ha : m.pool.isLive a.slot = true) (hb : m.pool.isLive b.slot = true) :
    h.lawful.SameFace a b ↔ (m.cornersAt a).IsRotation (m.cornersAt b) := by
  obtain ⟨edge, hcarries⟩ := h.carried
  obtain ⟨t, ht, rfl⟩ := hcarries.exists_reading ha
  obtain ⟨t', ht', rfl⟩ := hcarries.exists_reading hb
  obtain ⟨hfirst, hsecond, _⟩ := hcarries.answers ht
  have hforward : (m.sideAt (edge (t.first, t.second))).forward = edge (t.second, t.third) := by
    rw [sideAt_eq hfirst]
  have htwice : (m.sideAt (edge (t.second, t.third))).forward = edge (t.third, t.first) := by
    rw [sideAt_eq hsecond]
  rw [cornersAt_edge hcarries ht, cornersAt_edge hcarries ht']
  show edge (t'.first, t'.second) = edge (t.first, t.second) ∨
    edge (t'.first, t'.second) = (m.sideAt (edge (t.first, t.second))).forward ∨
    edge (t'.first, t'.second) =
      (m.sideAt (m.sideAt (edge (t.first, t.second))).forward).forward ↔ _
  rw [hforward, htwice]
  constructor
  · intro hcase
    rcases hcase with heq | heq | heq
    · refine .inl ?_
      rw [← cornersAt_edge hcarries ht', heq, cornersAt_edge hcarries ht]
    · refine .inr (.inl ?_)
      rw [← cornersAt_edge hcarries ht', heq]
      exact cornersAt_edge hcarries ht.rotate
    · refine .inr (.inr ?_)
      rw [← cornersAt_edge hcarries ht', heq]
      exact cornersAt_edge hcarries ht.rotate.rotate
  · intro hcase
    rcases hcase with rfl | rfl | rfl
    · exact .inl rfl
    · exact .inr (.inl rfl)
    · exact .inr (.inr rfl)

/-! ## The entries of a scan -/

/-- The edges at which a scan claims the faces of a mesh. -/
noncomputable def Realizes.entries (h : m.Realizes triangles) : List EdgeId :=
  h.lawful.firsts [] (h.lawful.bothSides m.pool.baseEdges)

theorem Realizes.isLive_of_mem_entries (h : m.Realizes triangles) {e : EdgeId}
    (he : e ∈ h.entries) : m.pool.isLive e.slot = true :=
  EdgePool.mem_directedEdges.1 (h.lawful.mem_of_mem_firsts he)

/-- A scan tries both sides of every pair in use, so it claims the face of every live
edge. -/
theorem Realizes.claimed_entries (h : m.Realizes triangles) {e : EdgeId}
    (he : m.pool.isLive e.slot = true) : h.lawful.Claimed h.entries e := by
  have hmem : e ∈ h.lawful.bothSides m.pool.baseEdges := EdgePool.mem_directedEdges.2 he
  have hclaimed : h.lawful.Claimed ([] ++ h.entries) e := h.lawful.claimed_firsts hmem
  rwa [List.nil_append] at hclaimed

/-- The corners around the entries are the faces of the mesh, each once, in some
order and each read from some corner on. -/
theorem Realizes.exists_perm_entries (h : m.Realizes triangles) :
    ∃ faces, faces.Perm (closedFaces triangles) ∧
      List.Forall₂ (fun e face => Triangle.IsRotation face (m.cornersAt e)) h.entries faces := by
  refine exists_perm_forall₂ (nodup_of_nodup_sidesOf h.closed.nodup) ?_ ?_ ?_ ?_
  -- an entry reads a face
  · exact fun e he => h.isReading_cornersAt (h.isLive_of_mem_entries he)
  -- and one only, since its side bounds no other
  · intro e he face hface face' hface' hrotation hrotation'
    exact eq_of_mem_sides h.closed.nodup hface hface' hrotation.mem_sides hrotation'.mem_sides
  -- two entries that read one face would bound it together
  · refine (List.pairwise_iff_forall_sublist.2 fun {a b} hsub => ?_)
    have ha := h.isLive_of_mem_entries (hsub.subset List.mem_cons_self)
    have hb := h.isLive_of_mem_entries (hsub.subset (List.mem_cons_of_mem _ List.mem_cons_self))
    have hapart := List.pairwise_iff_forall_sublist.1 (h.lawful.firsts_pairwise _ _) hsub
    exact fun face _ hrotation hrotation' =>
      hapart ((h.sameFace_iff ha hb).2 (hrotation.symm.trans hrotation'))
  -- a face has an edge, and that was claimed with some entry
  · intro face hface
    obtain ⟨e, he, hcorners⟩ := h.exists_cornersAt_eq ⟨face, hface, face.isRotation_refl⟩
    obtain ⟨c, hc, hsame⟩ := h.claimed_entries he
    have hrotation := (h.sameFace_iff (h.isLive_of_mem_entries hc) he).1 hsame
    rw [hcorners] at hrotation
    exact ⟨c, hc, hrotation.symm⟩

/-! ## The scan -/

/-- A scan of a mesh with triangles ends and asks for no border, and the corners of
the faces it claims are the faces of the mesh, each once, in some order and each read
from some corner on. -/
theorem Realizes.exists_perm_scan (h : m.Realizes triangles) (hne : triangles ≠ [])
    {options : WalkOptions} (hroom : m.pool.maxIndex + 1 + options.markSlack ≤ maxCount) :
    let report := m.surface.toTriangulation.scan options
    report.result = .ok (Event.summary report.events 0) ∧
      report.events.filterMap Event.border? = [] ∧
      ∃ faces, faces.Perm (closedFaces triangles) ∧
        List.Forall₂ Triangle.IsRotation faces ((Event.faces report.events).map Face.origins) := by
  intro report
  have hbootstrapped : m.surface.toTriangulation.isBootstrapped = true := by
    show decide (0 < m.numTriangles) = true
    rw [h.numTriangles_eq]
    exact decide_eq_true (List.length_pos_iff.2 hne)
  obtain ⟨hfaces, huntested, hresult⟩ := h.lawful.scan_eq hbootstrapped
    (fun _ he => (EdgePool.mem_baseEdges.1 he).2) hroom
  obtain ⟨faces, hperm, hforall⟩ := h.exists_perm_entries
  refine ⟨hresult, huntested, faces, hperm, ?_⟩
  rw [hfaces, List.map_map]
  exact List.forall₂_map_right_iff.2 hforall.flip

/-- What is reported of such a scan: the triangles, and their number and that of the
ghost faces. -/
theorem report_of_perm {events : List (Event VertexId EdgeId)} {faces : List (Triangle Corner)}
    (hperm : faces.Perm (closedFaces triangles))
    (hforall : List.Forall₂ Triangle.IsRotation faces ((Event.faces events).map Face.origins))
    (huntested : events.filterMap Event.border? = []) :
    (∃ ts, ts.Perm (triangles.map (Triangle.map VertexId.mk)) ∧
      List.Forall₂ Triangle.IsRotation ts (Event.triangles events)) ∧
    Event.summary events 0 =
      { facesVisited := triangles.length + (hullSides triangles).length
        trianglesEmitted := triangles.length
        ghostsSuppressed := (hullSides triangles).length
        borderCrossingsRefused := 0
        regionsWalked := 0 } := by
  have htriangles : List.Forall₂ Triangle.IsRotation (faces.filterMap Triangle.allSome)
      (Event.triangles events) := by
    have hmapped := List.rel_filterMap (fun _ _ hrotation => hrotation.allSome) hforall
    rw [List.filterMap_map] at hmapped
    exact hmapped
  have hreal : (faces.filterMap Triangle.allSome).Perm
      (triangles.map (Triangle.map VertexId.mk)) := by
    rw [← filterMap_closedFaces]
    exact hperm.filterMap _
  refine ⟨⟨_, hreal, htriangles⟩, ?_⟩
  have hvisited : (Event.faces events).length =
      triangles.length + (hullSides triangles).length := by
    rw [← length_closedFaces, ← hperm.length_eq, hforall.length_eq, List.length_map]
  have hemitted : (Event.realFaces events).length = triangles.length := by
    have hcount : (Event.realFaces events).length = (Event.triangles events).length := by
      rw [Event.realFaces, Event.triangles, List.length_filterMap_eq_countP,
        ← List.countP_eq_length_filter]
      refine List.countP_congr fun face _ => ?_
      simp [Face.isGhost]
    rw [hcount, ← htriangles.length_eq, hreal.length_eq, List.length_map]
  have hghosts : ((Event.faces events).filter Face.isGhost).length =
      (hullSides triangles).length := by
    have hsplit := List.length_eq_length_filter_add (l := Event.faces events) Face.isGhost
    rw [hvisited] at hsplit
    have hrest : ((Event.faces events).filter fun face => !face.isGhost).length =
        triangles.length := hemitted
    omega
  rw [Event.summary, hvisited, hemitted, hghosts, huntested]
  rfl

/-- A scan of a mesh that was built, whatever edits were made to it since, ends and
returns the triangles it was built from: each of them once, in some order and each
read from some vertex on. It suppresses one ghost face for each hull side. That the
flags can be counted is all that is asked of the pool. -/
theorem scan_of_build {points : Array Point} {triangles : List (Triangle Nat)}
    {options : BuildOptions} {built : Built} (hbuild : build points triangles options = .ok built)
    (edits : List Edit) (walk : WalkOptions)
    (hroom : built.mesh.pool.maxIndex + 1 + walk.markSlack ≤ maxCount) :
    let report := (built.mesh.editAll edits).surface.toTriangulation.scan walk
    (∃ ts, ts.Perm (triangles.map (Triangle.map VertexId.mk)) ∧
      List.Forall₂ Triangle.IsRotation ts report.triangles) ∧
    report.result = .ok
      { facesVisited := triangles.length + (hullSides triangles).length
        trianglesEmitted := triangles.length
        ghostsSuppressed := (hullSides triangles).length
        borderCrossingsRefused := 0
        regionsWalked := 0 } := by
  intro report
  obtain ⟨hacceptable, rfl⟩ := build_eq_ok_iff.1 hbuild
  have hrealizes := (realizes_closedMesh hacceptable options).editAll edits
  rw [← maxIndex_editAll _ edits] at hroom
  obtain ⟨hresult, huntested, faces, hperm, hforall⟩ :=
    hrealizes.exists_perm_scan hacceptable.nonempty hroom
  obtain ⟨htriangles, hsummary⟩ := report_of_perm hperm hforall huntested
  refine ⟨htriangles, ?_⟩
  rw [hresult, hsummary]

/-- The square keeps its two triangles and four hull sides, whatever becomes of the
chains: one diagonal is an edge, the other is not. -/
theorem scan_of_square :
    let edits : List Edit := [.addConstraint (.line [⟨0⟩, ⟨2⟩]), .addVertex ⟨0.5, 0.5, 1.0⟩,
      .addConstraint (.line [⟨1⟩, ⟨3⟩])]
    let report := (squareMesh.editAll edits).surface.toTriangulation.scan {}
    (∃ ts, ts.Perm [⟨⟨0⟩, ⟨1⟩, ⟨2⟩⟩, ⟨⟨0⟩, ⟨2⟩, ⟨3⟩⟩] ∧
      List.Forall₂ Triangle.IsRotation ts report.triangles) ∧
    report.result = .ok
      { facesVisited := 6
        trianglesEmitted := 2
        ghostsSuppressed := 4
        borderCrossingsRefused := 0
        regionsWalked := 0 } :=
  scan_of_build build_square _ {} (by decide +kernel)

end Mesh

end TinFaces
