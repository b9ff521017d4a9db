import TinFaces.Mesh.Build
import TinFaces.Proofs.AssemblyInvariant
import TinFaces.Proofs.HullLoop

/-!
# What a build accepts

A build says nowhere which triangles it wants. It attaches faces one by one and
gives up at the first side that is taken, then asks each side for its reverse,
then follows the hull. This file collects what that amounts to.

* Attaching faces in turn succeeds if no side comes up twice
  (`Assembly.Holds.foldlM_eq_ok_iff`).
* An assembly succeeds if the triangles and their ghost faces are a closed
  surface whose hull is a single loop (`Mesh.assemble_eq_ok_iff`), and a build if
  the triangles are admissible besides (`Mesh.build_eq_ok_iff`).
* `Acceptable` says the same of the triangles alone: the ghost faces are gone
  from it, because a single loop leaves and enters each of its vertices once
  (`closedSurface_of_isLoop`).
-/

namespace TinFaces

namespace Assembly

/-! ## Attaching -/

theorem attach_eq_ok_iff {s s' : Assembly} {t : Triangle Nat} :
    s.attach t = .ok s' ↔
      (∀ side ∈ (t.map corner).sides, side ∉ s.keys) ∧ s' = s.connect (t.map corner) := by
  have hfresh : (∀ side ∈ (t.map corner).sides, side ∉ s.keys) ↔
      (t.sides.find? fun side => s.isTaken (sideBetween side)) = none := by
    simp only [List.find?_eq_none, sides_map_corner, List.forall_mem_map, isTaken_iff]
  rw [hfresh]
  unfold attach
  split
  · next h => simp [h]
  · next h => simp [h, eq_comm]

theorem attachGhost_eq_ok_iff {s s' : Assembly} {hullSide : HullSide} :
    s.attachGhost hullSide = .ok s' ↔
      (∀ side ∈ (ghostFace hullSide).sides, side ∉ s.keys) ∧
        s' = s.connect (ghostFace hullSide) := by
  have hfresh : (∀ side ∈ (ghostFace hullSide).sides, side ∉ s.keys) ↔
      (ghostFace hullSide).sides.find? s.isTaken = none := by
    simp only [List.find?_eq_none, isTaken_iff]
  rw [hfresh]
  unfold attachGhost
  split
  · next h => simp [h]
  · next h => simp [h, eq_comm]

/-- Attaching faces in turn succeeds if no side comes up twice, and then connects
them. -/
theorem Holds.foldlM_eq_ok_iff {α : Type} {attach : Assembly → α → Except Error Assembly}
    (face : α → Triangle Corner)
    (hattach : ∀ s x s', attach s x = .ok s' ↔
      (∀ side ∈ (face x).sides, side ∉ s.keys) ∧ s' = s.connect (face x))
    {reserved : Nat} {faces : List (Triangle Corner)} {s s' : Assembly}
    (h : s.Holds reserved faces) (xs : List α) (hxs : ∀ x ∈ xs, (face x).Distinct) :
    xs.foldlM attach s = .ok s' ↔
      (sidesOf (faces ++ xs.map face)).Nodup ∧ s' = (xs.map face).foldl Assembly.connect s := by
  -- on the list, the faces that are attached already growing from the front
  induction xs generalizing faces s with
  | nil =>
      have hnodup : (sidesOf faces).Nodup := by
        rw [← List.nodup_reverse, ← h.keys_eq]
        exact h.sound.nodup
      rw [List.map_nil, List.append_nil]
      show Except.ok s = .ok s' ↔ _
      simp [hnodup, eq_comm]
  | cons x xs ih =>
      have hsplit : faces ++ (x :: xs).map face = faces ++ [face x] ++ xs.map face := by
        rw [List.map_cons, List.append_cons]
      rw [List.foldlM_cons, bind_eq_ok_iff, hsplit, List.map_cons, List.foldl_cons]
      by_cases hnew : ∀ side ∈ (face x).sides, side ∉ s.keys
      · have hconnected := h.connect (hxs x List.mem_cons_self) hnew
        have hrest := ih hconnected fun y hy => hxs y (List.mem_cons_of_mem _ hy)
        constructor
        · intro hsteps
          obtain ⟨s₁, hfirst, hfold⟩ := hsteps
          obtain ⟨_, rfl⟩ := (hattach s x s₁).1 hfirst
          exact hrest.1 hfold
        · intro hall
          exact ⟨s.connect (face x), (hattach s x _).2 ⟨hnew, rfl⟩, hrest.2 hall⟩
      · constructor
        · intro hsteps
          obtain ⟨s₁, hfirst, _⟩ := hsteps
          exact absurd ((hattach s x s₁).1 hfirst).1 hnew
        · intro hall
          exact absurd (h.not_mem_keys hall.1) hnew

/-! ## The hull and the twins -/

/-- Once the triangles are attached, the hull is what it should be. -/
theorem Holds.hull_eq {reserved : Nat} {triangles : List (Triangle Nat)} {s : Assembly}
    (h : s.Holds reserved (triangles.map (Triangle.map corner))) :
    s.hull triangles = hullSides triangles := by
  unfold hull hullSides sidesOf
  refine List.filter_congr fun side _ => ?_
  have htaken : s.isTaken (sideBetween side.swap) = true ↔ side.swap ∈ sidesOf triangles := by
    rw [isTaken_iff, h.mem_keys_iff, sidesOf_map_corner,
      List.mem_map_of_injective sideBetween_injective]
  rw [Bool.eq_iff_iff, Bool.not_eq_true', ← Bool.not_eq_true, htaken, decide_eq_true_eq]
  rfl

theorem Holds.checkTwins_eq_ok_iff {reserved : Nat} {faces : List (Triangle Corner)}
    {s : Assembly} (h : s.Holds reserved faces) :
    s.checkTwins = .ok () ↔ ∀ side ∈ sidesOf faces, side.swap ∈ sidesOf faces := by
  have htwins : (∀ side ∈ sidesOf faces, side.swap ∈ sidesOf faces) ↔
      (s.sides.find? fun entry => !s.isTaken entry.1.swap) = none := by
    rw [List.find?_eq_none]
    constructor
    · intro hall entry hentry
      have hswap := hall entry.1 (h.mem_keys_iff.1 (List.mem_map_of_mem hentry))
      simpa using isTaken_iff.2 (h.mem_keys_iff.2 hswap)
    · intro hall side hside
      obtain ⟨e, he⟩ := Assembly.mem_keys_iff.1 (h.mem_keys_iff.2 hside)
      refine h.mem_keys_iff.1 (isTaken_iff.1 ?_)
      simpa using hall _ he
  rw [htwins]
  unfold checkTwins
  split
  · next hfound => simp [hfound]
  · next hnone => simp [hnone]

end Assembly

/-- A single loop leaves each of its vertices once, enters each once, and leaves
those it enters. -/
theorem IsLoop.ends {sides : List HullSide} (h : IsLoop sides) :
    (sides.map Prod.fst).Nodup ∧ (sides.map Prod.snd).Nodup ∧
      ∀ v, v ∈ sides.map Prod.fst ↔ v ∈ sides.map Prod.snd := by
  obtain ⟨loop, hnodup, hperm⟩ := h
  have hfst : (sides.map Prod.fst).Perm loop := by
    rw [← Loop.map_fst_zip loop]
    exact hperm.map Prod.fst
  have hsnd : (sides.map Prod.snd).Perm (loop.rotate 1) := by
    rw [← Loop.map_snd_zip loop]
    exact hperm.map Prod.snd
  refine ⟨hfst.nodup_iff.2 hnodup, hsnd.nodup_iff.2 (List.nodup_rotate.2 hnodup), fun v => ?_⟩
  rw [hfst.mem_iff, hsnd.mem_iff, List.mem_rotate]

/-- Triangles whose hull is a single loop are closed by their ghost faces. -/
theorem closedSurface_of_isLoop {triangles : List (Triangle Nat)}
    (hdistinct : ∀ t ∈ triangles, t.Distinct) (hnodup : (sidesOf triangles).Nodup)
    (hloop : IsLoop (hullSides triangles)) : ClosedSurface (closedFaces triangles) := by
  obtain ⟨hleft, hentered, hends⟩ := hloop.ends
  exact (closedSurface_closedFaces_iff hdistinct).2 ⟨⟨hnodup, hleft, hentered⟩, hends⟩

/-- On a closed surface the check of the hull accepts exactly the single loops. -/
theorem ClosedSurface.checkLoop_eq_ok_iff {triangles : List (Triangle Nat)}
    (h : ClosedSurface (closedFaces triangles)) (hdistinct : ∀ t ∈ triangles, t.Distinct) :
    Hull.checkLoop (hullSides triangles) = .ok () ↔ IsLoop (hullSides triangles) := by
  obtain ⟨⟨_, hleft, hentered⟩, hends⟩ := (closedSurface_closedFaces_iff hdistinct).1 h
  exact Hull.checkLoop_eq_ok_iff hleft hentered hends

namespace Mesh

/-! ## Assembling -/

/-- The triangles, connected one after the other. -/
def openAssembly (pool : EdgePool) (triangles : List (Triangle Nat)) : Assembly :=
  (triangles.map (Triangle.map Assembly.corner)).foldl Assembly.connect { pool }

/-- The triangles and the ghost faces beyond their hull, connected one after the
other. -/
def closedAssembly (pool : EdgePool) (triangles : List (Triangle Nat)) : Assembly :=
  (closedFaces triangles).foldl Assembly.connect { pool }

section Assembling

variable {pool : EdgePool} {triangles : List (Triangle Nat)}

theorem holds_openAssembly (hfree : pool.free = []) (hdistinct : ∀ t ∈ triangles, t.Distinct)
    (hnodup : (sidesOf triangles).Nodup) :
    (openAssembly pool triangles).Holds pool.pairs.size
      (triangles.map (Triangle.map Assembly.corner)) := by
  have hcorners : ∀ t ∈ triangles, (t.map Assembly.corner).Distinct := fun t ht =>
    (hdistinct t ht).map Assembly.corner_injective
  refine (Assembly.holds_nil hfree).foldl_connect (List.forall_mem_map.2 hcorners) ?_
  rw [List.nil_append, Assembly.sidesOf_map_corner]
  exact hnodup.map Assembly.sideBetween_injective

theorem holds_closedAssembly (hfree : pool.free = [])
    (hdistinct : ∀ t ∈ triangles, t.Distinct) (hnodup : (sidesOf (closedFaces triangles)).Nodup) :
    (closedAssembly pool triangles).Holds pool.pairs.size (closedFaces triangles) :=
  (Assembly.holds_nil hfree).foldl_connect (distinct_of_mem_closedFaces hdistinct) hnodup

/-- The triangles can be attached if no side belongs to two of them. -/
theorem foldlM_attach_eq_ok_iff (hfree : pool.free = [])
    (hdistinct : ∀ t ∈ triangles, t.Distinct) {s : Assembly} :
    triangles.foldlM Assembly.attach { pool } = .ok s ↔
      (sidesOf triangles).Nodup ∧ s = openAssembly pool triangles := by
  have hcorners : ∀ t ∈ triangles, (t.map Assembly.corner).Distinct := fun t ht =>
    (hdistinct t ht).map Assembly.corner_injective
  rw [(Assembly.holds_nil hfree).foldlM_eq_ok_iff (Triangle.map Assembly.corner)
    (fun _ _ _ => Assembly.attach_eq_ok_iff) triangles hcorners, List.nil_append,
    Assembly.sidesOf_map_corner, List.nodup_map_iff Assembly.sideBetween_injective]
  exact Iff.rfl

/-- The ghost faces can be attached to the triangles if no side bounds two faces. -/
theorem foldlM_attachGhost_eq_ok_iff (hfree : pool.free = [])
    (hdistinct : ∀ t ∈ triangles, t.Distinct) (hnodup : (sidesOf triangles).Nodup)
    {s : Assembly} :
    (hullSides triangles).foldlM Assembly.attachGhost (openAssembly pool triangles) = .ok s ↔
      (sidesOf (closedFaces triangles)).Nodup ∧ s = closedAssembly pool triangles := by
  have hghosts : ∀ side ∈ hullSides triangles, (Assembly.ghostFace side).Distinct := by
    intro side hside
    apply distinct_of_mem_closedFaces hdistinct
    exact List.mem_append_right _ (List.mem_map_of_mem hside)
  have hsplit : closedAssembly pool triangles =
      ((hullSides triangles).map Assembly.ghostFace).foldl Assembly.connect
        (openAssembly pool triangles) := by
    rw [closedAssembly, closedFaces, List.foldl_append, openAssembly]
  rw [(holds_openAssembly hfree hdistinct hnodup).foldlM_eq_ok_iff Assembly.ghostFace
    (fun _ _ _ => Assembly.attachGhost_eq_ok_iff) (hullSides triangles) hghosts, hsplit]
  exact Iff.rfl

/-- An assembly succeeds if the faces are a closed surface with a single loop for
its hull, and then holds the connected faces. -/
theorem assemble_eq_ok_iff (hfree : pool.free = []) (hdistinct : ∀ t ∈ triangles, t.Distinct)
    {closed : Assembly} {hull : List HullSide} :
    assemble pool triangles = .ok (closed, hull) ↔
      (ClosedSurface (closedFaces triangles) ∧ IsLoop (hullSides triangles)) ∧
        closed = closedAssembly pool triangles ∧ hull = hullSides triangles := by
  unfold assemble
  simp only [bind_eq_ok_iff, foldlM_attach_eq_ok_iff hfree hdistinct]
  constructor
  · intro hsteps
    obtain ⟨_, ⟨hnodup, rfl⟩, s, hghosts, ⟨⟩, htwins, ⟨⟩, hcheck, heq⟩ := hsteps
    -- each success leaves its share of the condition behind
    rw [(holds_openAssembly hfree hdistinct hnodup).hull_eq] at hghosts hcheck heq
    obtain ⟨hall, rfl⟩ := (foldlM_attachGhost_eq_ok_iff hfree hdistinct hnodup).1 hghosts
    have hholds := holds_closedAssembly hfree hdistinct hall
    have hclosed : ClosedSurface (closedFaces triangles) :=
      ⟨distinct_of_mem_closedFaces hdistinct, hall, hholds.checkTwins_eq_ok_iff.1 htwins⟩
    obtain ⟨rfl, rfl⟩ := Prod.mk.inj (Except.ok.inj heq)
    exact ⟨⟨hclosed, (hclosed.checkLoop_eq_ok_iff hdistinct).1 hcheck⟩, rfl, rfl⟩
  · intro hsurface
    obtain ⟨⟨hclosed, hloop⟩, rfl, rfl⟩ := hsurface
    have hnodup := ((closedSurface_closedFaces_iff hdistinct).1 hclosed).1.1
    have hholds := holds_closedAssembly hfree hdistinct hclosed.nodup
    refine ⟨_, ⟨hnodup, rfl⟩, closedAssembly pool triangles, ?_, (), ?_, (), ?_, ?_⟩
    · rw [(holds_openAssembly hfree hdistinct hnodup).hull_eq]
      exact (foldlM_attachGhost_eq_ok_iff hfree hdistinct hnodup).2 ⟨hclosed.nodup, rfl⟩
    · exact hholds.checkTwins_eq_ok_iff.2 hclosed.swap_mem
    · rw [(holds_openAssembly hfree hdistinct hnodup).hull_eq]
      exact (hclosed.checkLoop_eq_ok_iff hdistinct).2 hloop
    · rw [(holds_openAssembly hfree hdistinct hnodup).hull_eq]
      rfl

end Assembling

/-! ## Checking triangles -/

/-- The points that a triangle names; the zero point stands in for a vertex that is
none. -/
def pointsOf (points : Array Point) (t : Triangle Nat) : Triangle Point :=
  t.map fun v => points.getD v ⟨0.0, 0.0, 0.0⟩

/-- A triangle over three different points, whose area is neither zero nor
negative. An area that is not a number will do. -/
structure Admissible (points : Array Point) (t : Triangle Nat) : Prop where
  inRange : ∀ v ∈ t.toList, v < points.size
  distinct : t.Distinct
  area_ne_zero : ((pointsOf points t).doubledArea == 0.0) = false
  area_not_neg : ¬ (pointsOf points t).doubledArea < 0.0

instance (points : Array Point) (t : Triangle Nat) : Decidable (Admissible points t) :=
  decidable_of_iff ((∀ v ∈ t.toList, v < points.size) ∧ t.Distinct ∧
      ((pointsOf points t).doubledArea == 0.0) = false ∧ ¬ (pointsOf points t).doubledArea < 0.0)
    ⟨fun h => ⟨h.1, h.2.1, h.2.2.1, h.2.2.2⟩, fun h => ⟨h.1, h.2, h.3, h.4⟩⟩

theorem cornersOf_eq_ok_iff {points : Array Point} {index : Nat} {t : Triangle Nat}
    {corners : Triangle Point} :
    cornersOf points index t = .ok corners ↔
      (∀ v ∈ t.toList, v < points.size) ∧ corners = pointsOf points t := by
  obtain ⟨corner, hcornersOf, hcorner⟩ : ∃ corner : Nat → Except Error Point,
      cornersOf points index t = t.mapM corner ∧ ∀ v p,
        corner v = .ok p ↔ v < points.size ∧ p = points.getD v ⟨0.0, 0.0, 0.0⟩ := by
    -- the function that `cornersOf` maps, whatever its name
    refine ⟨_, rfl, fun v p => ?_⟩
    by_cases hv : v < points.size
    · simp [hv, eq_comm]
    · simp [hv]
  rw [hcornersOf, Triangle.mapM]
  simp only [bind_eq_ok_iff, hcorner, Triangle.toList, List.forall_mem_cons, List.not_mem_nil,
    false_implies, implies_true, and_true]
  constructor
  · intro h
    obtain ⟨_, ⟨h₁, rfl⟩, _, ⟨h₂, rfl⟩, _, ⟨h₃, rfl⟩, heq⟩ := h
    exact ⟨⟨h₁, h₂, h₃⟩, (Except.ok.inj heq).symm⟩
  · intro h
    obtain ⟨⟨h₁, h₂, h₃⟩, rfl⟩ := h
    exact ⟨_, ⟨h₁, rfl⟩, _, ⟨h₂, rfl⟩, _, ⟨h₃, rfl⟩, rfl⟩

theorem checkTriangle_eq_ok_iff {points : Array Point} {index : Nat} {t : Triangle Nat} :
    checkTriangle points index t = .ok () ↔ Admissible points t := by
  unfold checkTriangle
  rw [bind_eq_ok_iff]
  constructor
  · intro hchecked
    obtain ⟨corners, hcorners, hchecks⟩ := hchecked
    obtain ⟨hrange, rfl⟩ := cornersOf_eq_ok_iff.1 hcorners
    by_cases hsame : t.first = t.second ∨ t.second = t.third ∨ t.first = t.third
    · simp only [if_pos hsame] at hchecks
      cases hchecks
    by_cases hzero : ((pointsOf points t).doubledArea == 0.0) = true
    · simp only [if_neg hsame, if_pos hzero] at hchecks
      cases hchecks
    by_cases hneg : (pointsOf points t).doubledArea < 0.0
    · simp only [if_neg hsame, if_neg hzero, if_pos hneg] at hchecks
      cases hchecks
    obtain ⟨h₁₂, hrest⟩ := not_or.1 hsame
    obtain ⟨h₂₃, h₁₃⟩ := not_or.1 hrest
    exact ⟨hrange, ⟨h₁₂, h₂₃, h₁₃⟩, Bool.eq_false_iff.2 hzero, hneg⟩
  · intro hadmissible
    obtain ⟨hrange, ⟨h₁₂, h₂₃, h₁₃⟩, hzero, hneg⟩ := hadmissible
    refine ⟨pointsOf points t, cornersOf_eq_ok_iff.2 ⟨hrange, rfl⟩, ?_⟩
    have hsame : ¬ (t.first = t.second ∨ t.second = t.third ∨ t.first = t.third) := by
      simp [h₁₂, h₂₃, h₁₃]
    simp only [if_neg hsame, if_neg (Bool.eq_false_iff.1 hzero), if_neg hneg]
    rfl

theorem checkTriangles_eq_ok_iff {points : Array Point} {index : Nat}
    {triangles : List (Triangle Nat)} :
    checkTriangles points index triangles = .ok () ↔ ∀ t ∈ triangles, Admissible points t := by
  induction triangles generalizing index with
  | nil => simp [checkTriangles]
  | cons t rest ih =>
      unfold checkTriangles
      rw [bind_eq_ok_iff, List.forall_mem_cons, ← ih, ← checkTriangle_eq_ok_iff]
      constructor
      · intro hchecked
        obtain ⟨⟨⟩, hfirst, hrest⟩ := hchecked
        exact ⟨hfirst, hrest⟩
      · intro hall
        obtain ⟨hfirst, hrest⟩ := hall
        exact ⟨(), hfirst, hrest⟩

/-! ## Building -/

/-- What a build asks of its input: some triangles, all of them admissible, no
directed side in two of them, and for the hull a single loop or nothing. -/
structure Acceptable (points : Array Point) (triangles : List (Triangle Nat)) : Prop where
  nonempty : triangles ≠ []
  admissible : ∀ t ∈ triangles, Admissible points t
  sides_disjoint : triangles.Pairwise fun t t' => t.sides.Disjoint t'.sides
  hull_isLoop : IsLoop (hullSides triangles)

theorem Acceptable.distinct {points : Array Point} {triangles : List (Triangle Nat)}
    (h : Acceptable points triangles) : ∀ t ∈ triangles, t.Distinct :=
  fun t ht => (h.admissible t ht).distinct

theorem Acceptable.nodup_sidesOf {points : Array Point} {triangles : List (Triangle Nat)}
    (h : Acceptable points triangles) : (sidesOf triangles).Nodup :=
  List.nodup_flatMap.2 ⟨fun t ht => (h.distinct t ht).nodup_sides, h.sides_disjoint⟩

theorem Acceptable.closedSurface {points : Array Point} {triangles : List (Triangle Nat)}
    (h : Acceptable points triangles) : ClosedSurface (closedFaces triangles) :=
  closedSurface_of_isLoop h.distinct h.nodup_sidesOf h.hull_isLoop

/-- The mesh that a build makes: the faces are connected behind the reserved pairs,
which are then given back. -/
def closedMesh (points : Array Point) (triangles : List (Triangle Nat))
    (options : BuildOptions) : Mesh where
  vertices := points
  pool :=
    let (reserved, pool) := ({} : EdgePool).reserve options.reservedPairs
    reserved.foldl EdgePool.deallocate (closedAssembly pool triangles).pool
  numTriangles := triangles.length

/-- A build succeeds on what is acceptable, and only there. -/
theorem build_eq_ok_iff {points : Array Point} {triangles : List (Triangle Nat)}
    {options : BuildOptions} {built : Built} :
    build points triangles options = .ok built ↔ Acceptable points triangles ∧
      built = ⟨closedMesh points triangles options, hullSides triangles⟩ := by
  have hfree : (({} : EdgePool).reserve options.reservedPairs).2.free = [] :=
    (EdgePool.reserve_eq rfl options.reservedPairs).2.1
  by_cases hnil : triangles = []
  · subst hnil
    constructor
    · intro h
      cases h
    · exact fun h => absurd rfl h.1.nonempty
  have hnonempty : triangles.isEmpty = false := by simpa using hnil
  unfold build
  rw [hnonempty]
  simp only [Bool.false_eq_true, if_false, bind_eq_ok_iff]
  constructor
  · intro hsteps
    obtain ⟨⟨⟩, hcheck, ⟨closed, hull⟩, hassemble, heq⟩ := hsteps
    have hadmissible := checkTriangles_eq_ok_iff.1 hcheck
    have hdistinct : ∀ t ∈ triangles, t.Distinct := fun t ht => (hadmissible t ht).distinct
    obtain ⟨⟨hclosed, hloop⟩, rfl, rfl⟩ := (assemble_eq_ok_iff hfree hdistinct).1 hassemble
    have hnodup := ((closedSurface_closedFaces_iff hdistinct).1 hclosed).1.1
    exact ⟨⟨hnil, hadmissible, (List.nodup_flatMap.1 hnodup).2, hloop⟩,
      (Except.ok.inj heq).symm⟩
  · intro haccepted
    obtain ⟨h, rfl⟩ := haccepted
    exact ⟨(), checkTriangles_eq_ok_iff.2 h.admissible, (_, _),
      (assemble_eq_ok_iff hfree h.distinct).2 ⟨⟨h.closedSurface, h.hull_isLoop⟩, rfl, rfl⟩, rfl⟩

/-- The corners of the unit square. -/
def squarePoints : Array Point :=
  #[⟨0.0, 0.0, 0.0⟩, ⟨1.0, 0.0, 0.0⟩, ⟨1.0, 1.0, 0.0⟩, ⟨0.0, 1.0, 0.0⟩]

/-- The unit square, cut along a diagonal. -/
def squareTriangles : List (Triangle Nat) := [⟨0, 1, 2⟩, ⟨0, 2, 3⟩]

theorem acceptable_square : Acceptable squarePoints squareTriangles where
  nonempty := by decide
  admissible := by decide +kernel
  sides_disjoint := by
    have hnodup : (sidesOf squareTriangles).Nodup := by decide
    exact (List.nodup_flatMap.1 hnodup).2
  hull_isLoop := ⟨[0, 1, 2, 3], by decide, by decide⟩

/-- The square as a mesh whose first slot is not in use. -/
def squareMesh : Mesh := closedMesh squarePoints squareTriangles { reservedPairs := 1 }

theorem build_square : build squarePoints squareTriangles { reservedPairs := 1 } =
    .ok ⟨squareMesh, hullSides squareTriangles⟩ :=
  build_eq_ok_iff.2 ⟨acceptable_square, rfl⟩

/-! ## The order of the triangles -/

theorem hullSides_perm {triangles triangles' : List (Triangle Nat)}
    (h : triangles.Perm triangles') : (hullSides triangles).Perm (hullSides triangles') := by
  have hsides : (sidesOf triangles).Perm (sidesOf triangles') := h.flatMap_right Triangle.sides
  unfold hullSides
  simp only [hsides.mem_iff]
  exact hsides.filter _

/-- The order of the triangles makes no difference to a build's consent. -/
theorem Acceptable.perm {points : Array Point} {triangles triangles' : List (Triangle Nat)}
    (h : Acceptable points triangles) (hperm : triangles.Perm triangles') :
    Acceptable points triangles' where
  nonempty hnil := h.nonempty (List.perm_nil.1 (hnil ▸ hperm))
  admissible t ht := h.admissible t (hperm.mem_iff.2 ht)
  sides_disjoint := h.sides_disjoint.perm hperm fun hd => List.disjoint_symm hd
  hull_isLoop := by
    obtain ⟨loop, hnodup, hsides⟩ := h.hull_isLoop
    exact ⟨loop, hnodup, (hullSides_perm hperm).symm.trans hsides⟩

/-- A build succeeds on exactly the acceptable triangles, in whatever order they
come. -/
theorem build_succeeds_iff_acceptable (points : Array Point) (triangles : List (Triangle Nat))
    (options : BuildOptions) :
    ((∃ built, build points triangles options = .ok built) ↔ Acceptable points triangles) ∧
      ∀ triangles', triangles.Perm triangles' →
        ((∃ built, build points triangles' options = .ok built) ↔
          ∃ built, build points triangles options = .ok built) := by
  have haccept : ∀ ts, (∃ built, build points ts options = .ok built) ↔ Acceptable points ts := by
    intro ts
    constructor
    · intro hsucceeds
      obtain ⟨built, hbuilt⟩ := hsucceeds
      exact (build_eq_ok_iff.1 hbuilt).1
    · exact fun h => ⟨_, build_eq_ok_iff.2 ⟨h, rfl⟩⟩
  refine ⟨haccept triangles, fun triangles' hperm => ?_⟩
  rw [haccept, haccept]
  exact ⟨fun h => h.perm hperm.symm, fun h => h.perm hperm⟩

/-- The two triangles of the square may come in either order. -/
theorem square_builds_in_either_order :
    (∃ built, build squarePoints squareTriangles {} = .ok built) ∧
      ∃ built, build squarePoints squareTriangles.reverse {} = .ok built := by
  obtain ⟨haccept, horder⟩ := build_succeeds_iff_acceptable squarePoints squareTriangles {}
  have hbuilds := haccept.2 acceptable_square
  exact ⟨hbuilds, (horder _ (List.reverse_perm _).symm).2 hbuilds⟩

end Mesh

end TinFaces
