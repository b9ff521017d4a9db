import Mathlib.Data.List.Chain
import TinFaces.Proofs.ClosedSurface
import TinFaces.Proofs.Loops

/-!
# The loop check

Given that the hull passes no vertex twice and leaves every vertex it comes to,
the check of its sides accepts exactly the single loops
(`Hull.checkLoop_eq_ok_iff`).

Following the hull from a vertex cannot get stuck, and gives a path whose end
leads back onto it (`Path`). A vertex is entered once, so the path closes where
it began: it is a loop, and if every hull side starts on it the hull is that
loop. Conversely, whatever is closed under the sides of a single loop and holds
one of its vertices holds them all (`Loop.forall_mem_of_closed`).
-/

namespace TinFaces

namespace Hull

/-! ## Following the hull -/

/-- A path along the hull: from `start`, by the vertices `passed` without
repetition, the last one first, to `v`. -/
structure Path (hull : List HullSide) (start v : Nat) (passed : List Nat) : Prop where
  steps : (v :: passed).IsChain fun b a => (a, b) ∈ hull
  nodup : passed.Nodup
  begins : (v :: passed).getLast? = some start

variable {hull : List HullSide}

/-- Following a path further never gets stuck, if the hull leaves every vertex
it comes to; it ends at a vertex that was passed. -/
theorem exists_follow_eq (hleaves : ∀ side ∈ hull, side.2 ∈ hull.map Prod.fst) {start v : Nat}
    {passed : List Nat} {sides : List HullSide} (hpath : Path hull start v passed)
    (hv : v ∈ hull.map Prod.fst) (hsub : ∀ side ∈ sides, side ∈ hull)
    (hleft : ∀ side ∈ hull, side.1 ∉ passed → side ∈ sides) : ∃ passed' w,
      follow v passed sides = .ok passed' ∧ w ∈ passed' ∧ Path hull start w passed' := by
  -- along the recursion: a step prolongs the path, and a side that was used up
  -- starts at a vertex that is passed
  fun_induction follow v passed sides with
  | case1 v passed sides hback => exact ⟨passed, v, rfl, hback, hpath⟩
  | case2 v passed sides hnew hnone =>
      obtain ⟨side, hside, rfl⟩ := List.mem_map.1 hv
      have hne := List.find?_eq_none.1 hnone side (hleft side hside hnew)
      exact absurd (beq_self_eq_true _) hne
  | case3 v passed sides hnew side hfound ih =>
      have hmem : side ∈ sides := List.mem_of_find?_eq_some hfound
      have hstart : side.1 = v := by simpa using List.find?_some hfound
      refine ih ⟨?_, ?_, ?_⟩ (hleaves side (hsub side hmem)) ?_ ?_
      · refine List.isChain_cons_cons.2 ⟨?_, hpath.steps⟩
        rw [← hstart]
        exact hsub side hmem
      · exact List.nodup_cons.2 ⟨hnew, hpath.nodup⟩
      · rw [List.getLast?_cons_cons]
        exact hpath.begins
      · exact fun s hs => hsub s (List.mem_of_mem_erase hs)
      · intro s hs hpassed
        have hne : s ≠ side := by
          rintro rfl
          exact hpassed (hstart ▸ List.mem_cons_self)
        have hmore : s.1 ∉ passed := fun h => hpassed (List.mem_cons_of_mem _ h)
        exact (List.mem_erase_of_ne hne).2 (hleft s hs hmore)

/-- So following the hull from a vertex that it leaves gives a path that comes back
onto itself. -/
theorem exists_follow_from (hleaves : ∀ side ∈ hull, side.2 ∈ hull.map Prod.fst) {start : Nat}
    (hstart : start ∈ hull.map Prod.fst) : ∃ passed w,
      follow start [] hull = .ok passed ∧ w ∈ passed ∧ Path hull start w passed :=
  exists_follow_eq hleaves ⟨List.isChain_singleton start, List.nodup_nil, rfl⟩ hstart
    (fun _ hs => hs) (fun _ hs _ => hs)

/-- A path that comes back to itself comes back to its start, if the hull enters
each vertex once. -/
theorem Path.eq_start (henters : (hull.map Prod.snd).Nodup) {start w : Nat} {passed : List Nat}
    (h : Path hull start w passed) (hw : w ∈ passed) : w = start := by
  have hunique : ∀ p q, (p, w) ∈ hull → (q, w) ∈ hull → p = q := fun p q hp hq =>
    congrArg Prod.fst (List.inj_on_of_nodup_map henters hp hq rfl)
  obtain ⟨newer, older, rfl⟩ := List.append_of_mem hw
  cases older with
  | nil =>
      have hlast := h.begins
      rw [← List.cons_append, List.getLast?_append] at hlast
      simpa using hlast
  | cons p older =>
      -- `w` would be entered from `p` and from the end of the path
      have hp : (p, w) ∈ hull := by
        have hsteps : (w :: p :: older).IsChain fun b a => (a, b) ∈ hull :=
          h.steps.tail.right_of_append
        exact (List.isChain_cons_cons.1 hsteps).1
      cases newer with
      | nil =>
          have hlast : (w, w) ∈ hull := (List.isChain_cons_cons.1 h.steps).1
          have hnodup := h.nodup
          rw [hunique p w hp hlast] at hnodup
          exact absurd hnodup (by simp)
      | cons q newer =>
          have hlast : (q, w) ∈ hull := (List.isChain_cons_cons.1 h.steps).1
          have hnodup := h.nodup
          rw [hunique p q hp hlast] at hnodup
          exact absurd hnodup (by simp)

/-- The pairs along a path are hull sides. -/
private theorem mem_of_mem_zip_steps {w : Nat} {passed : List Nat}
    (h : (w :: passed).IsChain fun b a => (a, b) ∈ hull) :
    ∀ side ∈ passed.zip (w :: passed), side ∈ hull := by
  induction passed generalizing w with
  | nil => exact fun _ hside => absurd hside List.not_mem_nil
  | cons v passed ih =>
      obtain ⟨hstep, hrest⟩ := List.isChain_cons_cons.1 h
      intro side hside
      rcases List.mem_cons.1 hside with rfl | hside
      · exact hstep
      · exact ih hrest side hside

theorem Path.getLast_eq {start v : Nat} {passed : List Nat} (h : Path hull start v passed)
    (hne : passed ≠ []) : passed.getLast hne = start := by
  have hbegins := h.begins
  rw [List.getLast?_cons_of_ne_nil hne, List.getLast?_eq_some_getLast hne] at hbegins
  exact Option.some.inj hbegins

/-- A path that has come back leads on from each of its vertices to another. -/
theorem Path.exists_step {start w : Nat} {passed : List Nat} (h : Path hull start w passed)
    (hw : w ∈ passed) {x : Nat} (hx : x ∈ passed) : ∃ y, (x, y) ∈ hull ∧ y ∈ passed := by
  have hfst : (passed.zip (w :: passed)).map Prod.fst = passed := List.map_fst_zip (by simp)
  rw [← hfst] at hx
  obtain ⟨⟨_, y⟩, hmem, rfl⟩ := List.mem_map.1 hx
  refine ⟨y, mem_of_mem_zip_steps h.steps _ hmem, ?_⟩
  rcases List.mem_cons.1 (List.of_mem_zip hmem).2 with rfl | hy
  · exact hw
  · exact hy

/-- A path that comes back to its start, read forwards, is a loop of hull
sides. -/
theorem Path.mem_of_mem_loop {start : Nat} {passed : List Nat}
    (h : Path hull start start passed) (hne : passed ≠ []) :
    ∀ side ∈ passed.reverse.zip (passed.reverse.rotate 1), side ∈ hull := by
  have hsplit : passed = passed.dropLast ++ [start] := by
    rw [← h.getLast_eq hne, List.dropLast_append_getLast]
  have hturn : passed.reverse.rotate 1 = (start :: passed.dropLast).reverse := by
    conv_lhs => rw [hsplit]
    rw [List.reverse_append, List.reverse_singleton, List.singleton_append,
      List.rotate_cons_succ, List.rotate_zero, List.reverse_cons]
  have hlength : passed.length = (start :: passed.dropLast).length := by
    conv_lhs => rw [hsplit]
    simp
  have hzip : passed.reverse.zip (passed.reverse.rotate 1) =
      (passed.zip (start :: passed.dropLast)).reverse := by
    rw [hturn]
    exact (List.reverse_zipWith hlength).symm
  have hprefix : passed.zip (start :: passed) = passed.zip (start :: passed.dropLast) := by
    calc passed.zip (start :: passed)
        = (passed ++ []).zip ((start :: passed.dropLast) ++ [start]) := by
          rw [List.append_nil, List.cons_append, ← hsplit]
      _ = passed.zip (start :: passed.dropLast) ++ [].zip [start] := List.zip_append hlength
      _ = passed.zip (start :: passed.dropLast) := List.append_nil _
  intro side hside
  rw [hzip, List.mem_reverse, ← hprefix] at hside
  exact mem_of_mem_zip_steps h.steps side hside

/-! ## The check -/

/-- The check accepts if following the hull from its first side passes every
vertex where a hull side starts. -/
theorem checkLoop_eq_ok_of_follow {start next : Nat} {rest : List HullSide}
    {passed : List Nat} (hfollow : follow start [] ((start, next) :: rest) = .ok passed) :
    checkLoop ((start, next) :: rest) = .ok () ↔
      ∀ side ∈ (start, next) :: rest, side.1 ∈ passed := by
  unfold checkLoop
  simp only [hfollow, bind, Except.bind]
  split
  · next v w hfound =>
      have hmem := List.mem_of_find?_eq_some hfound
      have hout : v ∉ passed := by simpa using List.find?_some hfound
      simp only [reduceCtorEq, false_iff]
      exact fun h => hout (h (v, w) hmem)
  · next hnone =>
      simp only [true_iff]
      intro side hside
      simpa using List.find?_eq_none.1 hnone side hside

/-- The check of a hull that passes no vertex twice, and leaves exactly the
vertices it comes to, accepts exactly the single loops. -/
theorem checkLoop_eq_ok_iff (hleft : (hull.map Prod.fst).Nodup)
    (hentered : (hull.map Prod.snd).Nodup)
    (hends : ∀ v, v ∈ hull.map Prod.fst ↔ v ∈ hull.map Prod.snd) :
    checkLoop hull = .ok () ↔ IsLoop hull := by
  cases hhull : hull with
  | nil => exact ⟨fun _ => ⟨[], List.nodup_nil, List.Perm.refl _⟩, fun _ => rfl⟩
  | cons first rest =>
    obtain ⟨start, next⟩ := first
    rw [← hhull]
    have hunique : ∀ v b c, (v, b) ∈ hull → (v, c) ∈ hull → b = c := fun v b c hb hc =>
      congrArg Prod.snd (List.inj_on_of_nodup_map hleft hb hc rfl)
    have hfirst : start ∈ hull.map Prod.fst := by rw [hhull]; exact List.mem_cons_self
    have hleaves : ∀ side ∈ hull, side.2 ∈ hull.map Prod.fst := fun side hside =>
      (hends _).2 (List.mem_map_of_mem hside)
    obtain ⟨passed, w, hfollow, hw, hpath⟩ := exists_follow_from hleaves hfirst
    have hcheck : checkLoop hull = .ok () ↔ ∀ side ∈ hull, side.1 ∈ passed := by
      rw [hhull] at hfollow ⊢
      exact checkLoop_eq_ok_of_follow hfollow
    rw [hcheck]
    constructor
    · -- the path closes where it began, and every hull side starts on it
      intro hall
      obtain rfl := hpath.eq_start hentered hw
      have hloop := hpath.mem_of_mem_loop (List.ne_nil_of_mem hw)
      have hnodup : passed.reverse.Nodup := List.nodup_reverse.2 hpath.nodup
      refine ⟨passed.reverse, hnodup, ?_⟩
      have hzip : (passed.reverse.zip (passed.reverse.rotate 1)).Nodup :=
        List.Nodup.of_map Prod.fst (by rw [Loop.map_fst_zip]; exact hnodup)
      refine (List.perm_ext_iff_of_nodup (List.Nodup.of_map Prod.fst hleft) hzip).2 ?_
      refine fun side => ⟨fun hside => ?_, hloop side⟩
      have hstart : side.1 ∈ (passed.reverse.zip (passed.reverse.rotate 1)).map Prod.fst := by
        rw [Loop.map_fst_zip]
        exact List.mem_reverse.2 (hall side hside)
      obtain ⟨⟨_, b⟩, hmem, rfl⟩ := List.mem_map.1 hstart
      have hend : side.2 = b := hunique _ _ _ hside (hloop _ hmem)
      rw [← hend] at hmem
      exact hmem
    · -- the vertices of the path are closed under the sides of the loop, hence all
      rintro ⟨loop, _, hperm⟩ side hside
      have hvertices : (hull.map Prod.fst).Perm loop := by
        rw [← Loop.map_fst_zip loop]
        exact hperm.map Prod.fst
      refine Loop.forall_mem_of_closed (hvertices.mem_iff.1 hfirst) ?_ ?_ side.1
        (hvertices.mem_iff.1 (List.mem_map_of_mem hside))
      · rw [← hpath.getLast_eq (List.ne_nil_of_mem hw)]
        exact List.getLast_mem _
      · intro x y hxy hx
        obtain ⟨z, hxz, hz⟩ := hpath.exists_step hw hx
        rwa [hunique x y z (hperm.mem_iff.2 hxy) hxz]

end Hull

end TinFaces
