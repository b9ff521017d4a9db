import Mathlib.Data.Set.Card
import TinFaces.Proofs.Lawful
import TinFaces.Walk.Report

/-!
# Faces as orbits

On a lawful mesh the left face of an edge is its forward orbit (`Lawful.orbit`), and
a traversal that claims faces at some edges claims the orbits of these edges
(`Report.claimedFaces`).

`Represents entries S` says that the entries of a traversal are one edge for each
left face of the edges in `S`. The orbits of `S` are then as many as the entries, and
those with some property as many as the entries that have it
(`Represents.ncard_sep_orbits`), so the counters of the traversal are numbers of
orbits and depend on nothing but `S`.
-/

namespace TinFaces

/-- A set that is listed without repetition has as many members as the list. -/
theorem ncard_setOf_mem {α : Type} {xs : List α} (h : xs.Nodup) :
    {x | x ∈ xs}.ncard = xs.length := by
  classical
  rw [← List.coe_toFinset, Set.ncard_coe_finset, List.toFinset_card_of_nodup h]

/-- The faces that a traversal claimed, each as the set of its edges. -/
def Report.claimedFaces {V E : Type} (report : Report V E) : Set (Set E) :=
  {F | ∃ face ∈ Event.faces report.events, {x | x ∈ face.edges.toList} = F}

/-- The edges of the faces that a traversal claimed. -/
def Report.claimedEdges {V E : Type} (report : Report V E) : Set E :=
  {e | ∃ face ∈ Event.faces report.events, e ∈ face.edges.toList}

namespace Lawful

variable {V E : Type} {T : Triangulation V E} {edges : Set E} (L : Lawful T edges)

/-! ## Orbits -/

/-- The edges around the face on the left of `e`. -/
def orbit (e : E) : Set E := {x | L.SameFace e x}

/-- The left faces of some edges, each as the set of its edges. -/
def orbits (S : Set E) : Set (Set E) := L.orbit '' S

theorem orbit_eq_iff {a b : E} (ha : a ∈ edges) : L.orbit a = L.orbit b ↔ L.SameFace a b := by
  constructor
  · intro heq
    have hmem : b ∈ L.orbit b := L.sameFace_refl b
    rw [← heq] at hmem
    exact hmem
  · intro hab
    have hb : b ∈ edges := L.sameFace_mem ha hab
    ext x
    constructor
    · exact fun hx => L.sameFace_trans hb (L.sameFace_symm ha hab) hx
    · exact fun hx => L.sameFace_trans ha hab hx

/-- Whether an edge of the face starts at the ghost vertex. -/
def TouchesGhost (F : Set E) : Prop := ∃ x ∈ F, L.origin x = none

theorem isReal_iff {e : E} : L.isReal e = true ↔ ¬ L.TouchesGhost (L.orbit e) := by
  unfold isReal
  rw [Bool.and_eq_true, Bool.and_eq_true, Option.isSome_iff_ne_none, Option.isSome_iff_ne_none,
    Option.isSome_iff_ne_none]
  constructor
  · intro hreal hghost
    obtain ⟨⟨h₁, h₂⟩, h₃⟩ := hreal
    obtain ⟨x, hx, hnone⟩ := hghost
    rcases hx with rfl | rfl | rfl
    · exact h₁ hnone
    · exact h₂ hnone
    · exact h₃ hnone
  · intro hall
    exact ⟨⟨fun h => hall ⟨_, .inl rfl, h⟩, fun h => hall ⟨_, .inr (.inl rfl), h⟩⟩,
      fun h => hall ⟨_, .inr (.inr rfl), h⟩⟩

/-- The edges of a face, as a claim at one of them reports them. -/
theorem mem_face_iff {e x : E} : x ∈ (L.face e).edges.toList ↔ L.SameFace e x := by
  simp [face, sides, Triangle.toList, SameFace]

theorem setOf_mem_face (e : E) : {x | x ∈ (L.face e).edges.toList} = L.orbit e := by
  ext x
  exact L.mem_face_iff

/-! ## One edge for each face -/

/-- Some edges of a set, one for each face that the set bounds. -/
structure Represents (entries : List E) (S : Set E) : Prop where
  subset : S ⊆ edges
  mem : ∀ e ∈ entries, e ∈ S
  /-- No two of the edges bound the same face. -/
  once : entries.Pairwise fun a b => ¬ L.SameFace a b
  claimed : ∀ e ∈ S, L.Claimed entries e

variable {L} {entries : List E} {S : Set E}

theorem Represents.nodup_orbits (h : L.Represents entries S) :
    (entries.map L.orbit).Nodup := by
  refine List.pairwise_map.2 (h.once.imp_of_mem fun {a b} ha _ hne heq => ?_)
  exact hne ((L.orbit_eq_iff (h.subset (h.mem a ha))).1 heq)

theorem Represents.mem_orbits_iff (h : L.Represents entries S) {F : Set E} :
    F ∈ entries.map L.orbit ↔ F ∈ L.orbits S := by
  rw [List.mem_map]
  constructor
  · intro hF
    obtain ⟨e, he, rfl⟩ := hF
    exact ⟨e, h.mem e he, rfl⟩
  · intro hF
    obtain ⟨e, he, rfl⟩ := hF
    obtain ⟨c, hc, hface⟩ := h.claimed e he
    exact ⟨c, hc, (L.orbit_eq_iff (h.subset (h.mem c hc))).2 hface⟩

/-- The faces with some property are as many as the edges whose faces have it. -/
theorem Represents.ncard_sep_orbits (h : L.Represents entries S) {P : Set E → Prop}
    {p : E → Bool} (hp : ∀ e, p e = true ↔ P (L.orbit e)) :
    {F ∈ L.orbits S | P F}.ncard = (entries.filter p).length := by
  have hset : {F ∈ L.orbits S | P F} = {F | F ∈ (entries.filter p).map L.orbit} := by
    ext F
    rw [Set.mem_sep_iff, Set.mem_ofPred_eq, ← h.mem_orbits_iff, List.mem_map, List.mem_map]
    constructor
    · intro hF
      obtain ⟨⟨e, he, rfl⟩, hP⟩ := hF
      exact ⟨e, List.mem_filter.2 ⟨he, (hp e).2 hP⟩, rfl⟩
    · intro hF
      obtain ⟨e, he, rfl⟩ := hF
      obtain ⟨he, hpe⟩ := List.mem_filter.1 he
      exact ⟨⟨e, he, rfl⟩, (hp e).1 hpe⟩
  have hnodup : ((entries.filter p).map L.orbit).Nodup :=
    h.nodup_orbits.sublist (List.filter_sublist.map L.orbit)
  rw [hset, ncard_setOf_mem hnodup, List.length_map]

theorem Represents.ncard_orbits (h : L.Represents entries S) :
    (L.orbits S).ncard = entries.length := by
  have hall := h.ncard_sep_orbits (P := fun _ => True) (p := fun _ => true) (by simp)
  rw [List.filter_true] at hall
  rw [← hall]
  congr 1
  ext F
  simp

theorem Represents.ncard_ghosts (h : L.Represents entries S) :
    {F ∈ L.orbits S | L.TouchesGhost F}.ncard =
      (entries.filter fun e => !L.isReal e).length :=
  h.ncard_sep_orbits fun e => by
    rw [Bool.not_eq_true', ← Bool.not_eq_true, L.isReal_iff, not_not]

/-- What is claimed at the entries are the faces that they represent. -/
theorem Represents.claimedFaces_eq (h : L.Represents entries S) {report : Report V E}
    (hfaces : Event.faces report.events = entries.map L.face) :
    report.claimedFaces = L.orbits S := by
  ext F
  rw [← h.mem_orbits_iff, List.mem_map, Report.claimedFaces, Set.mem_ofPred_eq, hfaces]
  constructor
  · intro hF
    obtain ⟨_, hface, rfl⟩ := hF
    obtain ⟨e, he, rfl⟩ := List.mem_map.1 hface
    exact ⟨e, he, (L.setOf_mem_face e).symm⟩
  · intro hF
    obtain ⟨e, he, rfl⟩ := hF
    exact ⟨L.face e, List.mem_map_of_mem he, L.setOf_mem_face e⟩

theorem mem_claimedEdges_iff {report : Report V E}
    (hfaces : Event.faces report.events = entries.map L.face) {e : E} :
    e ∈ report.claimedEdges ↔ L.Claimed entries e := by
  rw [Report.claimedEdges, Set.mem_ofPred_eq, hfaces]
  constructor
  · intro he
    obtain ⟨_, hface, he⟩ := he
    obtain ⟨c, hc, rfl⟩ := List.mem_map.1 hface
    exact ⟨c, hc, L.mem_face_iff.1 he⟩
  · intro he
    obtain ⟨c, hc, hface⟩ := he
    exact ⟨L.face c, List.mem_map_of_mem hc, L.mem_face_iff.2 hface⟩

end Lawful

end TinFaces
