import Mathlib.Data.List.Induction
import TinFaces.Proofs.Orbits
import TinFaces.Proofs.ScanFaces

/-!
# A scan claims every face once

A scan that is given one side of each pair of a lawful mesh, in any order and as
often as one likes, claims every face exactly once, at the first of its sides to
come up (`Lawful.scan_claims_each_orbit`).

`ScanFaces` says what a scan claims in the words of its own bookkeeping
(`firsts`). Here the same list is told by positions alone: an edge is a first side
if no edge listed before it bounds its face (`firsts_eq_firstSides`). The counters
are the numbers of orbits, because the first sides are one edge for each of them
(`Enumerates.represents`).
-/

namespace TinFaces

namespace Lawful

variable {V E : Type} {T : Triangulation V E} {edges : Set E} (L : Lawful T edges)

/-! ## First sides by position -/

open Classical in
/-- The edges of a list before which no edge of their face is listed, in order. -/
noncomputable def firstSides (es : List E) : List E :=
  (es.zipIdx.filter fun listed => ∀ c ∈ es.take listed.2, ¬ L.SameFace c listed.1).map Prod.fst

open Classical in
/-- One more edge is a first side if its face has not been listed. -/
theorem firstSides_append_singleton (es : List E) (e : E) :
    L.firstSides (es ++ [e]) =
      L.firstSides es ++ if ∀ c ∈ es, ¬ L.SameFace c e then [e] else [] := by
  have hold : ∀ listed ∈ es.zipIdx, (es ++ [e]).take listed.2 = es.take listed.2 := by
    intro listed hlisted
    have hlt := (List.mem_zipIdx hlisted).2.1
    exact List.take_append_of_le_length (by omega)
  unfold firstSides
  rw [List.zipIdx_append, List.filter_append, List.map_append]
  congr 1
  · refine congrArg (List.map Prod.fst) (List.filter_congr fun listed hlisted => ?_)
    rw [hold listed hlisted]
  · have hbefore : (es ++ [e]).take (0 + es.length) = es := by
      rw [Nat.zero_add, List.take_left]
    rw [List.zipIdx_singleton, List.filter_singleton, hbefore, Bool.cond_decide]
    by_cases hnew : ∀ c ∈ es, ¬ L.SameFace c e
    · rw [if_pos hnew, if_pos hnew]
      rfl
    · rw [if_neg hnew, if_neg hnew]
      rfl

/-- Of edges of the mesh, the first sides by position are those that a scan keeps
track of. -/
theorem firsts_eq_firstSides {es : List E} (hes : ∀ e ∈ es, e ∈ edges) :
    L.firsts [] es = L.firstSides es := by
  -- from the end of the list, since a position is judged by what stands before it
  induction es using List.reverseRecOn with
  | nil => rfl
  | append_singleton es e ih =>
      have hrest : ∀ x ∈ es, x ∈ edges := fun x hx => hes x (List.mem_append_left _ hx)
      have hclaimed : L.Claimed (L.firsts [] es) e ↔ ¬ ∀ c ∈ es, ¬ L.SameFace c e := by
        rw [not_forall₂]
        constructor
        · intro h
          obtain ⟨c, hc, hface⟩ := h
          exact ⟨c, L.mem_of_mem_firsts hc, not_not.2 hface⟩
        · intro h
          obtain ⟨c, hc, hface⟩ := h
          have hfirst : L.Claimed ([] ++ L.firsts [] es) c := L.claimed_firsts hc
          exact hfirst.trans (fun x hx => hrest x (L.mem_of_mem_firsts hx)) (not_not.1 hface)
      rw [L.firsts_append, ih hrest, firstSides_append_singleton, List.nil_append, ← ih hrest]
      by_cases hnew : ∀ c ∈ es, ¬ L.SameFace c e
      · have hopen : ¬ L.Claimed (L.firsts [] es) e := fun h => hclaimed.1 h hnew
        rw [L.firsts_cons_of_not_claimed hopen, if_pos hnew]
        rfl
      · rw [L.firsts_cons_of_claimed (hclaimed.2 hnew), if_neg hnew]
        rfl

/-! ## The scan -/

/-- A list of edges of the mesh with at least one side of each pair. -/
structure Enumerates (es : List E) : Prop where
  mem : ∀ e ∈ es, e ∈ edges
  covers : ∀ e ∈ edges, e ∈ es ∨ L.dual e ∈ es

variable {L}

theorem Enumerates.bothSides_mem {es : List E} (h : L.Enumerates es) :
    ∀ e ∈ L.bothSides es, e ∈ edges := by
  intro e he
  obtain ⟨b, hb, hside⟩ := List.mem_flatMap.1 he
  rcases List.mem_cons.1 hside with rfl | hside
  · exact h.mem e hb
  · rw [List.mem_singleton.1 hside]
    exact L.dual_mem b (h.mem b hb)

/-- Both sides of enough edges are all edges. -/
theorem Enumerates.mem_bothSides {es : List E} (h : L.Enumerates es) {e : E} (he : e ∈ edges) :
    e ∈ L.bothSides es := by
  rcases h.covers e he with hlisted | hdual
  · exact List.mem_flatMap.2 ⟨e, hlisted, List.mem_cons_self⟩
  · refine List.mem_flatMap.2 ⟨L.dual e, hdual, ?_⟩
    rw [L.dual_dual e he]
    exact List.mem_cons_of_mem _ (List.mem_singleton_self e)

theorem Enumerates.represents {es : List E} (h : L.Enumerates es) :
    L.Represents (L.firsts [] (L.bothSides es)) edges where
  subset := subset_rfl
  mem e he := h.bothSides_mem e (L.mem_of_mem_firsts he)
  once := L.firsts_pairwise _ _
  claimed e he := by
    have hclaimed : L.Claimed ([] ++ L.firsts [] (L.bothSides es)) e :=
      L.claimed_firsts (h.mem_bothSides he)
    rwa [List.nil_append] at hclaimed

/-- What a scan reports that claims the faces of a mesh at the listed sides. -/
structure ScansOrbits (L : Lawful T edges) (sides : List E) (report : Report V E) : Prop where
  /-- No face is claimed twice. -/
  once : (sides.map L.orbit).Nodup
  /-- The claimed faces are those of the mesh. -/
  mem_iff : ∀ F, F ∈ sides.map L.orbit ↔ F ∈ L.orbits edges
  faces_eq : Event.faces report.events = sides.map L.face
  edgeTriangles_eq : report.edgeTriangles =
    (sides.filter L.isReal).map fun e => ⟨e, L.forward e, L.forward (L.forward e)⟩
  triangles_eq : report.triangles.map (Triangle.map some) =
    (sides.filter L.isReal).map fun e =>
      ⟨L.origin e, L.origin (L.forward e), L.origin (L.forward (L.forward e))⟩
  result_eq : report.result = .ok
    { facesVisited := (L.orbits edges).ncard
      trianglesEmitted := {F ∈ L.orbits edges | ¬ L.TouchesGhost F}.ncard
      ghostsSuppressed := {F ∈ L.orbits edges | L.TouchesGhost F}.ncard
      borderCrossingsRefused := 0
      regionsWalked := 0 }

/-- A scan of a lawful mesh that enumerates a side of each pair, in whatever order,
ends and claims every face once. It does so at the first side of the face in the
two-sided enumeration, and reports the faces without a ghost vertex in that order. -/
theorem scan_claims_each_orbit (L : Lawful T edges) (hbootstrapped : T.isBootstrapped = true)
    (henum : L.Enumerates T.baseEdges) (options : WalkOptions)
    (hroom : T.maxEdgeIndex + 1 + options.markSlack ≤ maxCount) :
    L.ScansOrbits (L.firstSides (L.bothSides T.baseEdges)) (T.scan options) := by
  obtain ⟨hfaces, huntested, hresult⟩ := L.scan_eq hbootstrapped henum.mem hroom
  have hrepresents := henum.represents
  rw [L.firsts_eq_firstSides henum.bothSides_mem] at hfaces hrepresents
  have hreal := hrepresents.ncard_sep_orbits (P := fun F => ¬ L.TouchesGhost F)
    fun e => L.isReal_iff
  refine ⟨hrepresents.nodup_orbits, fun F => hrepresents.mem_orbits_iff, hfaces,
    edgeTriangles_eq hfaces, triangles_eq hfaces, ?_⟩
  rw [hresult, summary_eq hfaces, huntested, hrepresents.ncard_orbits, hreal,
    hrepresents.ncard_ghosts]
  rfl

end Lawful

/-! ## A scan of a table -/

namespace Table

/-- A face with one side, and beyond it a ghost face; the indices leave gaps, and
the enumeration lists one pair twice and another by its odd side. -/
def snail : Table where
  isBootstrapped := true
  maxEdgeIndex := 70
  baseEdges := [3, 1, 0]
  rows := #[⟨some 0, 1, 0, 0, false, 5⟩, ⟨some 0, 0, 2, 3, false, 70⟩,
    ⟨some 1, 3, 3, 1, false, 2⟩, ⟨none, 2, 1, 2, true, 64⟩]
  positions := #[]
  links := #[]

theorem snail_keepsLaws : snail.KeepsLaws := by decide +kernel

/-- The ghost face is claimed at the edge 3 and the other one at 0. -/
theorem snail_scansOrbits :
    snail.surface.toTriangulation.isBootstrapped = true ∧
      (snail.lawful snail_keepsLaws).Enumerates snail.baseEdges ∧ 70 + 1 + 2 ≤ maxCount ∧
      (snail.lawful snail_keepsLaws).ScansOrbits
        ((snail.lawful snail_keepsLaws).firstSides [3, 2, 1, 0, 0, 1])
        (snail.surface.toTriangulation.scan {}) := by
  have henum : (snail.lawful snail_keepsLaws).Enumerates snail.baseEdges :=
    ⟨by decide +kernel, show ∀ e < 4, e ∈ snail.baseEdges ∨ (snail.rowAt e).dual ∈ snail.baseEdges
      by decide +kernel⟩
  exact ⟨rfl, henum, by decide,
    (snail.lawful snail_keepsLaws).scan_claims_each_orbit rfl henum {} (by decide)⟩

end Table

end TinFaces
