import TinFaces.Proofs.FirstOffence
import TinFaces.Proofs.HullBalance

/-!
# What a build refuses, and why

A build that fails says what the first offence is. There are five kinds, and one is looked for only
if there is none of the kinds before it (`Mesh.Offends`): no triangles; a triangle that is wrong by
itself; a directed side that came up before; a hull side that starts or ends where an earlier one
does; a hull side off the loop from the first. Each is the first of its kind in the order of the
triangles and their sides, and depends on nothing else: neither on the pairs that were reserved nor
on the order in which a table enumerates its entries.

Two checks are not in the list, since they do not fail (`HullBalance`): once the ghost faces are
attached every side has its reverse, and the hull leads on from every vertex it comes to.
-/

namespace TinFaces

namespace Triangle

variable {α β ε : Type}

/-- A fallible function fails on a triangle as it fails on the list of its three things. -/
theorem mapM_eq_error_iff {f : α → Except ε β} {t : Triangle α} {error : ε} :
    t.mapM f = .error error ↔
      ∃ before x, IsFirst (fun _ y => ¬ ∃ z, f y = .ok z) t.toList before x ∧
        f x = .error error := by
  have hlist : t.toList.mapM f = toList <$> t.mapM f := by
    simp only [toList, mapM, List.mapM_cons, List.mapM_nil]
    cases f t.first <;> cases f t.second <;> cases f t.third <;> rfl
  rw [← TinFaces.mapM_eq_error_iff, hlist]
  cases t.mapM f <;> simp [Functor.map, Except.map]

end Triangle

namespace Mesh

variable {points : Array Point} {index : Nat} {t : Triangle Nat} {triangles : List (Triangle Nat)}
  {error : Error}

/-! ## Triangles by themselves -/

/-- What is wrong with a triangle by itself: its first vertex that is no point, else a repeated
vertex or an area that equals zero, else a negative area. -/
inductive TriangleOffence (points : Array Point) (index : Nat) (t : Triangle Nat) : Error → Prop
  | invalidVertex {before : List Nat} {v : Nat} :
      IsFirst (fun _ w => points.size ≤ w) t.toList before v →
      TriangleOffence points index t (.invalidVertexIndex index v)
  | degenerate : (∀ v ∈ t.toList, v < points.size) →
      ¬ t.Distinct ∨ ((pointsOf points t).doubledArea == 0.0) = true →
      TriangleOffence points index t (.degenerateTriangle index)
  | clockwise : (∀ v ∈ t.toList, v < points.size) → t.Distinct →
      ((pointsOf points t).doubledArea == 0.0) = false → (pointsOf points t).doubledArea < 0.0 →
      TriangleOffence points index t (.clockwiseTriangle index)

theorem cornersOf_eq_error_iff : cornersOf points index t = .error error ↔
    ∃ before v, IsFirst (fun _ w => points.size ≤ w) t.toList before v ∧
      error = .invalidVertexIndex index v := by
  obtain ⟨corner, hcornersOf, hright, hwrong⟩ : ∃ corner : Nat → Except Error Point,
      cornersOf points index t = t.mapM corner ∧
      (∀ v, (¬ ∃ p, corner v = .ok p) ↔ points.size ≤ v) ∧
      ∀ v, corner v = .error error ↔ points.size ≤ v ∧ error = .invalidVertexIndex index v := by
    -- the function that `cornersOf` maps, whatever its name
    refine ⟨_, rfl, fun v => ?_, fun v => ?_⟩
    all_goals
      by_cases hv : v < points.size
      · simp [hv, Nat.not_le.2 hv]
      · simp [hv, Nat.not_lt.1 hv, eq_comm]
  rw [hcornersOf, Triangle.mapM_eq_error_iff]
  simp only [hright, hwrong]
  constructor
  · rintro ⟨before, v, hfirst, _, herror⟩
    exact ⟨before, v, hfirst, herror⟩
  · rintro ⟨before, v, hfirst, herror⟩
    exact ⟨before, v, hfirst, hfirst.wrong, herror⟩

/-- The checks of a triangle whose vertices are points. -/
theorem checkTriangle_of_inRange (hin : ∀ v ∈ t.toList, v < points.size) :
    checkTriangle points index t =
      if ¬ t.Distinct ∨ ((pointsOf points t).doubledArea == 0.0) = true then
        .error (.degenerateTriangle index)
      else if (pointsOf points t).doubledArea < 0.0 then .error (.clockwiseTriangle index)
      else .ok () := by
  have hsame : (t.first = t.second ∨ t.second = t.third ∨ t.first = t.third) ↔ ¬ t.Distinct := by
    unfold Triangle.Distinct
    tauto
  unfold checkTriangle
  rw [cornersOf_eq_ok_iff.2 ⟨hin, rfl⟩]
  simp only [hsame, bind, Except.bind, throw, throwThe, MonadExceptOf.throw, pure, Except.pure]
  by_cases hdistinct : t.Distinct <;>
    by_cases hzero : ((pointsOf points t).doubledArea == 0.0) = true <;>
      by_cases hneg : (pointsOf points t).doubledArea < 0.0 <;> simp [hdistinct, hzero, hneg]

theorem checkTriangle_eq_error_iff :
    checkTriangle points index t = .error error ↔ TriangleOffence points index t error := by
  constructor
  · intro herror
    by_cases hin : ∀ v ∈ t.toList, v < points.size
    · rw [checkTriangle_of_inRange hin] at herror
      split at herror
      · next hdegenerate =>
          cases herror
          exact .degenerate hin hdegenerate
      · next hnone =>
          obtain ⟨hdistinct, hzero⟩ := not_or.1 hnone
          split at herror
          · next hneg =>
              cases herror
              exact .clockwise hin (not_not.1 hdistinct) (Bool.eq_false_iff.2 hzero) hneg
          · cases herror
    · unfold checkTriangle at herror
      rcases bind_eq_error_iff.1 herror with hcorners | ⟨_, hcorners, _⟩
      · obtain ⟨_, _, hfirst, rfl⟩ := cornersOf_eq_error_iff.1 hcorners
        exact .invalidVertex hfirst
      · exact absurd (cornersOf_eq_ok_iff.1 hcorners).1 hin
  · intro hoffence
    cases hoffence with
    | invalidVertex hfirst =>
        unfold checkTriangle
        exact bind_eq_error_iff.2 (.inl (cornersOf_eq_error_iff.2 ⟨_, _, hfirst, rfl⟩))
    | degenerate hin hdegenerate => rw [checkTriangle_of_inRange hin, if_pos hdegenerate]
    | clockwise hin hdistinct hzero hneg =>
        rw [checkTriangle_of_inRange hin, if_neg (by simp [hdistinct, hzero]), if_pos hneg]

theorem TriangleOffence.not_admissible (h : TriangleOffence points index t error) :
    ¬ Admissible points t := by
  intro hadmissible
  have hok : checkTriangle points index t = .ok () := checkTriangle_eq_ok_iff.2 hadmissible
  cases (checkTriangle_eq_error_iff.2 h).symm.trans hok

/-- The check of the triangles reports the first that is not admissible. -/
theorem checkTriangles_eq_error_iff : checkTriangles points index triangles = .error error ↔
    ∃ before t, IsFirst (fun _ t => ¬ Admissible points t) triangles before t ∧
      TriangleOffence points (index + before.length) t error := by
  induction triangles generalizing index with
  | nil => simp [checkTriangles, not_isFirst_nil]
  | cons t rest ih =>
      have hnext : ∀ n, index + 1 + n = index + (n + 1) := by omega
      unfold checkTriangles
      rw [bind_eq_error_iff, exists_isFirst_cons_iff, checkTriangle_eq_error_iff]
      simp only [Unique.exists_iff, ih, List.length_nil, Nat.add_zero, List.length_cons, hnext,
        not_not]
      rw [and_iff_right_of_imp TriangleOffence.not_admissible]
      exact or_congr_right (and_congr_left' checkTriangle_eq_ok_iff)

end Mesh

/-! ## Sides that come up again -/

namespace Assembly

variable {s : Assembly} {triangles : List (Triangle Nat)} {error : Error}

theorem keys_connectSide (s : Assembly) (side : Side) :
    (s.connectSide side).2.keys = side :: s.keys := by
  unfold connectSide
  cases s.edge? side.swap <;> rfl

/-- A face that is connected adds its sides to those that are taken. -/
theorem keys_connect (s : Assembly) (face : Triangle Corner) :
    (s.connect face).keys = face.sides.reverse ++ s.keys := by
  -- linking the face, which comes last, changes the pool only
  have hsides : (s.connect face).sides = (((s.connectSide (face.first, face.second)).2.connectSide
      (face.second, face.third)).2.connectSide (face.third, face.first)).2.sides := by
    unfold connect
    rfl
  rw [keys, hsides]
  show keys _ = _
  rw [keys_connectSide, keys_connectSide, keys_connectSide]
  rfl

theorem attach_eq_error_iff {t : Triangle Nat} : s.attach t = .error error ↔
    ∃ before side, IsFirst (fun _ x => sideBetween x ∈ s.keys) t.sides before side ∧
      error = .nonManifoldEdge side.1 side.2 := by
  have hfind : ∀ side, (t.sides.find? fun x => s.isTaken (sideBetween x)) = some side ↔
      ∃ before, IsFirst (fun _ x => sideBetween x ∈ s.keys) t.sides before side := by
    simp only [find?_eq_some_iff_isFirst, isTaken_iff, implies_true]
  rw [exists_comm]
  simp only [exists_and_right, ← hfind]
  unfold attach
  cases t.sides.find? fun x => s.isTaken (sideBetween x) with
  | none => simp
  | some side => simp [eq_comm]

/-- Triangles are attached up to the first side that was taken before or came up before. -/
theorem foldlM_attach_eq_error_iff {seen : List HullSide}
    (hseen : ∀ side, sideBetween side ∈ s.keys ↔ side ∈ seen)
    (hdistinct : ∀ t ∈ triangles, t.Distinct) :
    triangles.foldlM attach s = .error error ↔
      ∃ before side,
        IsFirst (fun earlier x => x ∈ seen ++ earlier) (sidesOf triangles) before side ∧
          error = .nonManifoldEdge side.1 side.2 := by
  induction triangles generalizing s seen with
  | nil => simp [sidesOf, not_isFirst_nil, pure, Except.pure]
  | cons t rest ih =>
      obtain ⟨ht, hrest⟩ := List.forall_mem_cons.1 hdistinct
      -- within a triangle no side comes up again
      have hwithin : ∀ before x after, t.sides = before ++ x :: after →
          (x ∈ seen ++ before ↔ sideBetween x ∈ s.keys) := by
        intro before x after hsplit
        have hnodup := ht.nodup_sides
        rw [hsplit, List.nodup_append', List.nodup_cons] at hnodup
        have hx : x ∉ before := fun hx => hnodup.2.2 hx List.mem_cons_self
        rw [List.mem_append, hseen, or_iff_left hx]
      have hconnected : ∀ side, sideBetween side ∈ (s.connect (t.map corner)).keys ↔
          side ∈ seen ++ t.sides := by
        intro side
        rw [keys_connect, List.mem_append, List.mem_append, List.mem_reverse, hseen,
          sides_map_corner, List.mem_map_of_injective sideBetween_injective, or_comm]
      have hfresh : AllRight (fun earlier x => x ∈ seen ++ earlier) t.sides ↔
          ∀ side ∈ (t.map corner).sides, side ∉ s.keys := by
        rw [allRight_congr hwithin, allRight_iff_forall, sides_map_corner, List.forall_mem_map]
      have hlater := ih hconnected hrest
      simp only [List.append_assoc] at hlater
      have hsides : sidesOf (t :: rest) = t.sides ++ sidesOf rest := List.flatMap_cons
      rw [List.foldlM_cons, bind_eq_error_iff, attach_eq_error_iff, hsides,
        exists_isFirst_append_iff, hfresh]
      simp only [attach_eq_ok_iff, isFirst_congr hwithin, ← hlater]
      simp only [and_assoc, exists_and_left, exists_eq_left]

end Assembly

/-! ## The hull -/

namespace Hull

variable {hull : List HullSide} {error : Error}

/-- Whether a hull side starts where an earlier one does, or ends where an earlier one does. -/
def Revisits (earlier : List HullSide) (side : HullSide) : Prop :=
  side.1 ∈ earlier.map Prod.fst ∨ side.2 ∈ earlier.map Prod.snd

/-- The vertex at which a hull side comes back: its start if an earlier one starts there, else its
end. -/
def revisited (earlier : List HullSide) (side : HullSide) : Nat :=
  if side.1 ∈ earlier.map Prod.fst then side.1 else side.2

/-- The check of the loop reports what is found off the vertices that following the hull passed. -/
theorem checkLoop_eq_error_of_follow {start next : Nat} {rest : List HullSide} {passed : List Nat}
    (hfollow : follow start [] ((start, next) :: rest) = .ok passed) :
    checkLoop ((start, next) :: rest) = .error error ↔
      ∃ side, ((start, next) :: rest).find? (fun x => x.1 ∉ passed) = some side ∧
        error = .nonManifoldBoundary side.1 := by
  unfold checkLoop
  simp only [hfollow, bind, Except.bind]
  split
  · next hfound =>
      rw [hfound]
      simp only [Except.error.injEq, Option.some.injEq, exists_eq_left']
      exact eq_comm
  · next hnone =>
      rw [hnone]
      simp only [reduceCtorEq, false_and, exists_const]

/-- If the hull leaves no vertex twice and leads on from every vertex it comes to, the check of the
loop reports the first side that does not start on it. -/
theorem checkLoop_eq_error_iff (hleft : (hull.map Prod.fst).Nodup)
    (hleaves : ∀ side ∈ hull, side.2 ∈ hull.map Prod.fst) :
    checkLoop hull = .error error ↔
      ∃ before side, IsFirst (fun _ x => ¬ OnLoop hull x.1) hull before side ∧
        error = .nonManifoldBoundary side.1 := by
  cases hhull : hull with
  | nil => simp [checkLoop, not_isFirst_nil]
  | cons first rest =>
      obtain ⟨start, next⟩ := first
      rw [hhull] at hleft hleaves
      obtain ⟨passed, hfollow, hpassed⟩ := exists_follow_onLoop hleft hleaves List.head?_cons
      rw [checkLoop_eq_error_of_follow hfollow, exists_comm]
      simp only [find?_eq_some_iff_isFirst, decide_eq_true_eq, hpassed, exists_and_right]

end Hull

namespace Assembly

variable {s : Assembly} {side : HullSide} {hull : List HullSide} {error : Error}

/-- The hull sides beyond which a ghost face lies. The sides to the ghost vertex tell where they
start, those from it where they end. -/
structure GhostsBeyond (s : Assembly) (seen : List HullSide) : Prop where
  to_ghost : ∀ v, (corner v, none) ∈ s.keys ↔ v ∈ seen.map Prod.fst
  from_ghost : ∀ v, (none, corner v) ∈ s.keys ↔ v ∈ seen.map Prod.snd

theorem mem_keys_connect_ghostFace {x : Side} : x ∈ (s.connect (ghostFace side)).keys ↔
    x = (none, corner side.2) ∨ x = (corner side.1, none) ∨ x = sideBetween side.swap ∨
      x ∈ s.keys := by
  rw [keys_connect]
  show x ∈ (none, corner side.2) :: (corner side.1, none) :: sideBetween side.swap :: s.keys ↔ _
  simp only [List.mem_cons]

theorem GhostsBeyond.connect {seen : List HullSide} (h : s.GhostsBeyond seen) (side : HullSide) :
    (s.connect (ghostFace side)).GhostsBeyond (seen ++ [side]) where
  to_ghost v := by
    rw [mem_keys_connect_ghostFace, h.to_ghost]
    simp [sideBetween, corner, or_comm]
  from_ghost v := by
    rw [mem_keys_connect_ghostFace, h.from_ghost]
    simp [sideBetween, corner, or_comm]

/-- A ghost face cannot be attached if its hull side comes back to a vertex. -/
theorem GhostsBeyond.attachGhost_eq_error_iff {seen : List HullSide} (h : s.GhostsBeyond seen)
    (hback : sideBetween side.swap ∉ s.keys) :
    s.attachGhost side = .error error ↔ Hull.Revisits seen side ∧
      error = .nonManifoldBoundary (Hull.revisited seen side) := by
  have hsides : (ghostFace side).sides =
      [sideBetween side.swap, (corner side.1, none), (none, corner side.2)] := rfl
  have hreverse : ¬ s.isTaken (sideBetween side.swap) = true := mt isTaken_iff.1 hback
  have hto : s.isTaken (corner side.1, none) = true ↔ side.1 ∈ seen.map Prod.fst := by
    rw [isTaken_iff, h.to_ghost]
  have hfrom : s.isTaken (none, corner side.2) = true ↔ side.2 ∈ seen.map Prod.snd := by
    rw [isTaken_iff, h.from_ghost]
  unfold attachGhost Hull.Revisits Hull.revisited
  rw [hsides, List.find?_cons_of_neg hreverse]
  by_cases hstart : side.1 ∈ seen.map Prod.fst
  · rw [List.find?_cons_of_pos (hto.2 hstart), if_pos hstart]
    show Except.error (Error.nonManifoldBoundary side.1) = _ ↔ _
    simp only [Except.error.injEq, hstart, true_or, true_and]
    exact eq_comm
  · rw [List.find?_cons_of_neg (mt hto.1 hstart), if_neg hstart]
    by_cases hend : side.2 ∈ seen.map Prod.snd
    · rw [List.find?_cons_of_pos (hfrom.2 hend)]
      show Except.error (Error.nonManifoldBoundary side.2) = _ ↔ _
      simp only [Except.error.injEq, hend, or_true, true_and]
      exact eq_comm
    · rw [List.find?_cons_of_neg (mt hfrom.1 hend)]
      simp only [List.find?_nil, reduceCtorEq, hstart, hend, or_self, false_and]

/-- It can be attached if its hull side comes back to none. -/
theorem GhostsBeyond.fresh_iff {seen : List HullSide} (h : s.GhostsBeyond seen)
    (hback : sideBetween side.swap ∉ s.keys) :
    (∀ x ∈ (ghostFace side).sides, x ∉ s.keys) ↔ ¬ Hull.Revisits seen side := by
  unfold Hull.Revisits
  rw [← h.to_ghost, ← h.from_ghost]
  show (∀ x ∈ [sideBetween side.swap, (corner side.1, none), (none, corner side.2)], _) ↔ _
  simp [hback]

/-- Ghost faces are attached up to the first hull side that comes back to a vertex. -/
theorem GhostsBeyond.foldlM_attachGhost_eq_error_iff {seen : List HullSide}
    (h : s.GhostsBeyond seen) (hback : ∀ side ∈ hull, sideBetween side.swap ∉ s.keys)
    (hnodup : hull.Nodup) :
    hull.foldlM attachGhost s = .error error ↔
      ∃ before side, IsFirst (fun earlier => Hull.Revisits (seen ++ earlier)) hull before side ∧
        error = .nonManifoldBoundary (Hull.revisited (seen ++ before) side) := by
  induction hull generalizing s seen with
  | nil => simp [not_isFirst_nil, pure, Except.pure]
  | cons side rest ih =>
      obtain ⟨hside, hrest⟩ := List.forall_mem_cons.1 hback
      obtain ⟨hnew, hnodup⟩ := List.nodup_cons.1 hnodup
      have hrest' : ∀ x ∈ rest, sideBetween x.swap ∉ (s.connect (ghostFace side)).keys := by
        intro x hx
        rw [mem_keys_connect_ghostFace]
        rintro (heq | heq | heq | hmem)
        · exact absurd (congrArg Prod.fst heq) (Option.some_ne_none _)
        · exact absurd (congrArg Prod.snd heq) (Option.some_ne_none _)
        · obtain rfl := Prod.swap_injective (sideBetween_injective heq)
          exact hnew hx
        · exact hrest x hx hmem
      have hlater := ih (h.connect side) hrest' hnodup
      simp only [List.append_assoc, List.singleton_append] at hlater
      rw [List.foldlM_cons, bind_eq_error_iff, exists_isFirst_cons_iff, ← hlater,
        h.attachGhost_eq_error_iff hside, List.append_nil]
      simp only [attachGhost_eq_ok_iff, h.fresh_iff hside, and_assoc, exists_and_left,
        exists_eq_left]

/-- The check for reverse sides has nothing to report if every side that is taken has its reverse,
whatever comes first among the entries. -/
theorem checkTwins_of_swap_mem (h : ∀ side ∈ s.keys, side.swap ∈ s.keys) :
    s.checkTwins = .ok () := by
  have hnone : (s.sides.find? fun entry => !s.isTaken entry.1.swap) = none := by
    rw [List.find?_eq_none]
    intro entry hentry
    simpa using isTaken_iff.2 (h entry.1 (List.mem_map_of_mem hentry))
  unfold checkTwins
  rw [hnone]

/-- An assembly with all its ghost faces. The check for reverse sides has nothing to report, and
whoever follows the hull does not get stuck. -/
structure Closed (s : Assembly) (hull : List HullSide) : Prop where
  swap_mem : ∀ side ∈ s.keys, side.swap ∈ s.keys
  /-- In whatever order the sides are enumerated, the check of their reverses passes. -/
  checkTwins_eq : ∀ sides, sides.Perm s.sides → { s with sides }.checkTwins = .ok ()
  starts_nodup : (hull.map Prod.fst).Nodup
  ends_nodup : (hull.map Prod.snd).Nodup
  /-- The hull leaves exactly the vertices that it enters. -/
  starts_perm_ends : (hull.map Prod.fst).Perm (hull.map Prod.snd)
  /-- From wherever it is followed, the hull leads on. -/
  follow_eq : ∀ side ∈ hull, ∃ passed, Hull.follow side.1 [] hull = .ok passed

end Assembly

namespace Mesh

open Assembly (corner sideBetween GhostsBeyond)

variable {pool : EdgePool} {points : Array Point} {triangles : List (Triangle Nat)}
  {options : BuildOptions} {error : Error}

/-! ## Assembling -/

theorem ghostsBeyond_openAssembly (hfree : pool.free = []) (hdistinct : ∀ t ∈ triangles, t.Distinct)
    (hnodup : (sidesOf triangles).Nodup) : (openAssembly pool triangles).GhostsBeyond [] where
  to_ghost v := by
    rw [(holds_openAssembly hfree hdistinct hnodup).mem_keys_iff, Assembly.sidesOf_map_corner]
    simp [sideBetween, corner]
  from_ghost v := by
    rw [(holds_openAssembly hfree hdistinct hnodup).mem_keys_iff, Assembly.sidesOf_map_corner]
    simp [sideBetween, corner]

/-- The ghost faces come up to the first hull side that comes back to a vertex. -/
theorem foldlM_attachGhost_eq_error_iff (hfree : pool.free = [])
    (hdistinct : ∀ t ∈ triangles, t.Distinct) (hnodup : (sidesOf triangles).Nodup) :
    (hullSides triangles).foldlM Assembly.attachGhost (openAssembly pool triangles) =
        .error error ↔
      ∃ before side, IsFirst Hull.Revisits (hullSides triangles) before side ∧
        error = .nonManifoldBoundary (Hull.revisited before side) := by
  have hback : ∀ side ∈ hullSides triangles,
      sideBetween side.swap ∉ (openAssembly pool triangles).keys := by
    intro side hside
    rw [(holds_openAssembly hfree hdistinct hnodup).mem_keys_iff, Assembly.sidesOf_map_corner,
      List.mem_map_of_injective Assembly.sideBetween_injective]
    exact (mem_hullSides.1 hside).2
  exact (ghostsBeyond_openAssembly hfree hdistinct hnodup).foldlM_attachGhost_eq_error_iff hback
    (hnodup.filter _)

/-- Once every ghost face is attached, the checks that follow can fail for a hull of several loops
only. -/
theorem closed_closedAssembly (hfree : pool.free = []) (hdistinct : ∀ t ∈ triangles, t.Distinct)
    (hnodup : (sidesOf (closedFaces triangles)).Nodup) :
    (closedAssembly pool triangles).Closed (hullSides triangles) := by
  obtain ⟨hsides, hstarts, hends⟩ := nodup_sidesOf_closedFaces_iff.1 hnodup
  have hbalanced := hullSides_balanced hsides
  have hholds := holds_closedAssembly hfree hdistinct hnodup
  have hswap : ∀ side ∈ (closedAssembly pool triangles).keys,
      side.swap ∈ (closedAssembly pool triangles).keys := by
    simp only [hholds.mem_keys_iff]
    exact swap_mem_closedFaces_of_nodup hsides
  refine ⟨hswap, fun sides hperm => ?_, hstarts, hends, hbalanced, fun side hside => ?_⟩
  · have hkeys : ∀ x, x ∈ { closedAssembly pool triangles with sides }.keys ↔
        x ∈ (closedAssembly pool triangles).keys := fun _ => (hperm.map Prod.fst).mem_iff
    refine Assembly.checkTwins_of_swap_mem fun x hx => ?_
    rw [hkeys] at hx ⊢
    exact hswap x hx
  · have hleaves : ∀ x ∈ hullSides triangles, x.2 ∈ (hullSides triangles).map Prod.fst :=
      fun x hx => hbalanced.mem_iff.2 (List.mem_map_of_mem hx)
    obtain ⟨passed, _, hfollow, _⟩ := Hull.exists_follow_from hleaves (List.mem_map_of_mem hside)
    exact ⟨passed, hfollow⟩

theorem assemble_eq_error_iff (hfree : pool.free = []) (hdistinct : ∀ t ∈ triangles, t.Distinct) :
    assemble pool triangles = .error error ↔
      (∃ before side, IsFirst (fun earlier x => x ∈ earlier) (sidesOf triangles) before side ∧
        error = .nonManifoldEdge side.1 side.2) ∨
      (sidesOf triangles).Nodup ∧
        ((∃ before side, IsFirst Hull.Revisits (hullSides triangles) before side ∧
          error = .nonManifoldBoundary (Hull.revisited before side)) ∨
        (((hullSides triangles).map Prod.fst).Nodup ∧ ((hullSides triangles).map Prod.snd).Nodup) ∧
          ∃ before side, IsFirst (fun _ x => ¬ Hull.OnLoop (hullSides triangles) x.1)
            (hullSides triangles) before side ∧ error = .nonManifoldBoundary side.1) := by
  have hseen : ∀ side, sideBetween side ∈ ({ pool } : Assembly).keys ↔
      side ∈ ([] : List HullSide) :=
    fun _ => iff_of_false List.not_mem_nil List.not_mem_nil
  unfold assemble
  rw [bind_eq_error_iff, Assembly.foldlM_attach_eq_error_iff hseen hdistinct]
  simp only [foldlM_attach_eq_ok_iff hfree hdistinct, and_assoc, exists_and_left, exists_eq_left]
  refine or_congr Iff.rfl (and_congr_right fun hnodup => ?_)
  rw [(holds_openAssembly hfree hdistinct hnodup).hull_eq, bind_eq_error_iff,
    foldlM_attachGhost_eq_error_iff hfree hdistinct hnodup]
  simp only [foldlM_attachGhost_eq_ok_iff hfree hdistinct hnodup, nodup_sidesOf_closedFaces_iff,
    hnodup, true_and, and_assoc, exists_and_left, exists_eq_left]
  refine or_congr Iff.rfl (and_congr_right fun hstarts => and_congr_right fun hends => ?_)
  have hclosed := closed_closedAssembly hfree hdistinct
    (nodup_sidesOf_closedFaces_iff.2 ⟨hnodup, hstarts, hends⟩)
  have hleaves : ∀ side ∈ hullSides triangles, side.2 ∈ (hullSides triangles).map Prod.fst :=
    fun side hside => hclosed.starts_perm_ends.mem_iff.2 (List.mem_map_of_mem hside)
  have htwins : (closedAssembly pool triangles).checkTwins = .ok () :=
    hclosed.checkTwins_eq _ (List.Perm.refl _)
  rw [← Hull.checkLoop_eq_error_iff hstarts hleaves, htwins]
  show (Hull.checkLoop (hullSides triangles) >>= _) = _ ↔ _
  rw [bind_eq_error_iff]
  simp [pure, Except.pure]

/-! ## Building -/

/-- What is wrong with the triangles of a build, and the error that says so. -/
inductive Offends (points : Array Point) (triangles : List (Triangle Nat)) : Error → Prop
  | emptyMesh : triangles = [] → Offends points triangles .emptyMesh
  /-- A triangle is wrong by itself. -/
  | triangle {before : List (Triangle Nat)} {t : Triangle Nat} {error : Error} :
      IsFirst (fun _ t => ¬ Admissible points t) triangles before t →
      TriangleOffence points before.length t error → Offends points triangles error
  /-- A directed side came up before. -/
  | side {before : List HullSide} {side : HullSide} :
      (∀ t ∈ triangles, Admissible points t) →
      IsFirst (fun earlier x => x ∈ earlier) (sidesOf triangles) before side →
      Offends points triangles (.nonManifoldEdge side.1 side.2)
  /-- The hull comes back to a vertex. -/
  | hullVertex {before : List HullSide} {side : HullSide} :
      (∀ t ∈ triangles, Admissible points t) → (sidesOf triangles).Nodup →
      IsFirst Hull.Revisits (hullSides triangles) before side →
      Offends points triangles (.nonManifoldBoundary (Hull.revisited before side))
  /-- The hull has another loop. -/
  | hullLoop {before : List HullSide} {side : HullSide} :
      (∀ t ∈ triangles, Admissible points t) → (sidesOf triangles).Nodup →
      ((hullSides triangles).map Prod.fst).Nodup → ((hullSides triangles).map Prod.snd).Nodup →
      IsFirst (fun _ x => ¬ Hull.OnLoop (hullSides triangles) x.1) (hullSides triangles) before
        side →
      Offends points triangles (.nonManifoldBoundary side.1)

/-- A build of some triangles fails as their check does, or as their assembly does. -/
theorem build_eq_error_iff_of_ne_nil (hne : triangles ≠ []) :
    build points triangles options = .error error ↔
      checkTriangles points 0 triangles = .error error ∨
        (∀ t ∈ triangles, Admissible points t) ∧
          assemble (({} : EdgePool).reserve options.reservedPairs).2 triangles = .error error := by
  have hnonempty : triangles.isEmpty = false := by simpa using hne
  unfold build
  rw [hnonempty, ← @checkTriangles_eq_ok_iff points 0 triangles]
  simp only [Bool.false_eq_true, if_false]
  rw [bind_eq_error_iff]
  refine or_congr Iff.rfl ?_
  constructor
  · rintro ⟨_, hchecked, hassemble⟩
    rcases bind_eq_error_iff.1 hassemble with hfails | ⟨_, _, hdone⟩
    · exact ⟨hchecked, hfails⟩
    · cases hdone
  · rintro ⟨hchecked, hfails⟩
    exact ⟨(), hchecked, bind_eq_error_iff.2 (.inl hfails)⟩

/-- A build fails with what there is to object to, and only so. -/
theorem build_eq_error_iff : build points triangles options = .error error ↔
    Offends points triangles error := by
  have hfree : (({} : EdgePool).reserve options.reservedPairs).2.free = [] :=
    (EdgePool.reserve_eq rfl options.reservedPairs).2.1
  by_cases hnil : triangles = []
  · subst hnil
    constructor
    · intro hfails
      cases hfails
      exact .emptyMesh rfl
    · intro hoffends
      cases hoffends with
      | emptyMesh => rfl
      | triangle hfirst => exact absurd hfirst not_isFirst_nil
      | side _ hfirst => exact absurd hfirst not_isFirst_nil
      | hullVertex _ _ hfirst => exact absurd hfirst not_isFirst_nil
      | hullLoop _ _ _ _ hfirst => exact absurd hfirst not_isFirst_nil
  rw [build_eq_error_iff_of_ne_nil hnil, checkTriangles_eq_error_iff,
    and_congr_right fun h : ∀ t ∈ triangles, Admissible points t =>
      assemble_eq_error_iff hfree fun t ht => (h t ht).distinct]
  simp only [Nat.zero_add]
  constructor
  · rintro (⟨_, _, hfirst, hoffence⟩ | ⟨hadmissible, hassemble⟩)
    · exact .triangle hfirst hoffence
    · rcases hassemble with ⟨_, _, hfirst, rfl⟩ |
        ⟨hnodup, ⟨_, _, hfirst, rfl⟩ | ⟨⟨hstarts, hends⟩, _, _, hfirst, rfl⟩⟩
      · exact .side hadmissible hfirst
      · exact .hullVertex hadmissible hnodup hfirst
      · exact .hullLoop hadmissible hnodup hstarts hends hfirst
  · intro hoffends
    cases hoffends with
    | emptyMesh hempty => exact absurd hempty hnil
    | triangle hfirst hoffence => exact .inl ⟨_, _, hfirst, hoffence⟩
    | side hadmissible hfirst => exact .inr ⟨hadmissible, .inl ⟨_, _, hfirst, rfl⟩⟩
    | hullVertex hadmissible hnodup hfirst =>
        exact .inr ⟨hadmissible, .inr ⟨hnodup, .inl ⟨_, _, hfirst, rfl⟩⟩⟩
    | hullLoop hadmissible hnodup hstarts hends hfirst =>
        exact .inr ⟨hadmissible, .inr ⟨hnodup, .inr ⟨⟨hstarts, hends⟩, _, _, hfirst, rfl⟩⟩⟩

/-- A build that fails reports the first offence. Once its ghost faces are attached, the check for
reverse sides passes and the hull leads on from each of its vertices, so that no error depends on
how the sides are enumerated. -/
theorem build_reports_first_offence (points : Array Point) (triangles : List (Triangle Nat))
    (options : BuildOptions) :
    (∀ error, build points triangles options = .error error ↔ Offends points triangles error) ∧
      ∀ faces closed, (∀ t ∈ triangles, t.Distinct) →
        triangles.foldlM Assembly.attach
          { pool := (({} : EdgePool).reserve options.reservedPairs).2 } = .ok faces →
        (faces.hull triangles).foldlM Assembly.attachGhost faces = .ok closed →
        closed.Closed (faces.hull triangles) := by
  refine ⟨fun _ => build_eq_error_iff, fun faces closed hdistinct hfaces hghosts => ?_⟩
  have hfree : (({} : EdgePool).reserve options.reservedPairs).2.free = [] :=
    (EdgePool.reserve_eq rfl options.reservedPairs).2.1
  obtain ⟨hnodup, rfl⟩ := (foldlM_attach_eq_ok_iff hfree hdistinct).1 hfaces
  rw [(holds_openAssembly hfree hdistinct hnodup).hull_eq] at hghosts ⊢
  obtain ⟨hall, rfl⟩ := (foldlM_attachGhost_eq_ok_iff hfree hdistinct hnodup).1 hghosts
  exact closed_closedAssembly hfree hdistinct hall

/-- The corners of two triangles that are apart. -/
def twoPiecesPoints : Array Point :=
  #[⟨0.0, 0.0, 0.0⟩, ⟨1.0, 0.0, 0.0⟩, ⟨0.0, 1.0, 0.0⟩,
    ⟨2.0, 0.0, 0.0⟩, ⟨3.0, 0.0, 0.0⟩, ⟨2.0, 1.0, 0.0⟩]

/-- Two triangles that are apart. -/
def twoPieces : List (Triangle Nat) := [⟨0, 1, 2⟩, ⟨3, 4, 5⟩]

/-- Two triangles that are apart close like any others; it is the second loop that is refused. -/
theorem twoPieces_reports_first_offence :
    Offends twoPiecesPoints twoPieces (.nonManifoldBoundary 3) ∧
      (closedAssembly {} twoPieces).Closed ((openAssembly {} twoPieces).hull twoPieces) := by
  obtain ⟨hreports, hcloses⟩ := build_reports_first_offence twoPiecesPoints twoPieces {}
  exact ⟨(hreports _).1 (by decide +kernel),
    hcloses _ _ (by decide) (by decide +kernel) (by decide +kernel)⟩

end Mesh

end TinFaces
