import TinFaces.Proofs.Acceptance

/-!
# Which pairs are flagged

A pair is flagged by constraints and by nothing else. Every operation that makes
up a build leaves a pool without flags (`EdgePool.IsPlain`), so a mesh has none
when it is built (`Mesh.isPlain_closedMesh`). Registering a constraint then sets
the flags of the pairs along it and no others (`EdgePool.pair?_constrain`), which
comes to the same in whatever order it is done (`EdgePool.constrain_comm`,
`EdgePool.constrain_perm`).
-/

namespace TinFaces

/-- Whether no constraint has flagged the pair. -/
def EdgePair.IsPlain (pair : EdgePair) : Prop :=
  pair.constrained = false ∧ pair.regionBorder = false

namespace EdgePool

/-! ## Pools without flags -/

/-- Whether no pair of the pool is flagged, in use or not. -/
def IsPlain (pool : EdgePool) : Prop :=
  ∀ (slot : Nat) (pair : EdgePair), pool.pairs[slot]? = some pair → pair.IsPlain

theorem isPlain_empty : IsPlain {} := by
  intro slot pair h
  simp at h

variable {pool : EdgePool}

/-- A slot may be filled with any pair that is not flagged. -/
private theorem IsPlain.set (h : pool.IsPlain) {new : EdgePair} (hnew : new.IsPlain)
    (slot : Nat) (free : List Nat) :
    IsPlain { pairs := pool.pairs.setIfInBounds slot new, free } := by
  intro i pair hpair
  rw [Array.getElem?_setIfInBounds] at hpair
  split at hpair
  · split at hpair
    · rw [← Option.some.inj hpair]
      exact hnew
    · cases hpair
  · exact h i pair hpair

theorem IsPlain.allocate (h : pool.IsPlain) (a b : Corner) : (pool.allocate a b).2.IsPlain := by
  unfold EdgePool.allocate
  split
  · exact h.set ⟨rfl, rfl⟩ _ _
  · intro i pair hpair
    simp only [Array.getElem?_push] at hpair
    split at hpair
    · rw [← Option.some.inj hpair]
      exact ⟨rfl, rfl⟩
    · exact h i pair hpair

theorem IsPlain.deallocate (h : pool.IsPlain) (e : EdgeId) : (pool.deallocate e).IsPlain := by
  unfold EdgePool.deallocate
  split
  · exact h.set ⟨rfl, rfl⟩ _ _
  · exact h

theorem IsPlain.foldl_deallocate (h : pool.IsPlain) (es : List EdgeId) :
    (es.foldl EdgePool.deallocate pool).IsPlain := by
  induction es generalizing pool with
  | nil => exact h
  | cons e es ih => exact ih (h.deallocate e)

theorem IsPlain.linkSide (h : pool.IsPlain) (e forward reverse : EdgeId) :
    (pool.linkSide e forward reverse).IsPlain := by
  intro i pair hpair
  simp only [EdgePool.linkSide, modifyPair, Array.getElem?_modify] at hpair
  split at hpair
  · obtain ⟨old, hold, rfl⟩ := Option.map_eq_some_iff.1 hpair
    -- a link is a matter of one side; the flags belong to the pair
    have hplain := h i old hold
    unfold EdgePair.modifySide
    split
    · exact hplain
    · exact hplain
  · exact h i pair hpair

theorem IsPlain.linkFace (h : pool.IsPlain) (t : Triangle EdgeId) : (pool.linkFace t).IsPlain :=
  ((h.linkSide _ _ _).linkSide _ _ _).linkSide _ _ _

theorem IsPlain.reserve (h : pool.IsPlain) (n : Nat) : (pool.reserve n).2.IsPlain := by
  induction n generalizing pool with
  | zero => exact h
  | succ n ih => exact ih (h.allocate none none)

end EdgePool

/-! ## Building -/

namespace Assembly

theorem isPlain_connectSide {s : Assembly} (h : s.pool.IsPlain) (side : Side) :
    (s.connectSide side).2.pool.IsPlain := by
  unfold connectSide
  split
  · exact h
  · exact h.allocate _ _

theorem isPlain_connect {s : Assembly} (h : s.pool.IsPlain) (face : Triangle Corner) :
    (s.connect face).pool.IsPlain :=
  (isPlain_connectSide (isPlain_connectSide (isPlain_connectSide h _) _) _).linkFace _

theorem isPlain_foldl_connect {s : Assembly} (h : s.pool.IsPlain)
    (faces : List (Triangle Corner)) : (faces.foldl connect s).pool.IsPlain := by
  induction faces generalizing s with
  | nil => exact h
  | cons face faces ih =>
      rw [List.foldl_cons]
      exact ih (isPlain_connect h face)

end Assembly

/-- A build flags no pair, not even those that it gives back. -/
theorem Mesh.isPlain_closedMesh (points : Array Point) (triangles : List (Triangle Nat))
    (options : BuildOptions) : (closedMesh points triangles options).pool.IsPlain :=
  (Assembly.isPlain_foldl_connect (EdgePool.isPlain_empty.reserve options.reservedPairs)
    (closedFaces triangles)).foldl_deallocate _

/-! ## Constraining -/

namespace EdgePool

/-- Constraining the pairs of some edges flags these pairs, as borders too if that is
asked for, and leaves everything else as it was. -/
theorem pair?_constrain (pool : EdgePool) (es : List EdgeId) (border : Bool) (e : EdgeId) :
    (pool.constrain es border).pair? e = (pool.pair? e).map fun pair =>
      { pair with
        constrained := pair.constrained || es.any (·.slot == e.slot)
        regionBorder := pair.regionBorder || (border && es.any (·.slot == e.slot)) } := by
  induction es generalizing pool with
  | nil => simp [constrain]
  | cons d es ih =>
      have hstep : (pool.constrain (d :: es) border).pair? e =
          ((pool.modifyPair d (·.constrain border)).constrain es border).pair? e := rfl
      rw [hstep, ih, pair?_modifyPair, List.any_cons]
      by_cases hslot : d.slot = e.slot
      · rw [if_pos hslot, Option.map_map, beq_iff_eq.2 hslot]
        congr 1
        funext pair
        cases border <;> simp [EdgePair.constrain]
      · rw [if_neg hslot, beq_eq_false_iff_ne.2 hslot, Bool.false_or]

theorem free_constrain (pool : EdgePool) (es : List EdgeId) (border : Bool) :
    (pool.constrain es border).free = pool.free := by
  induction es generalizing pool with
  | nil => rfl
  | cons e es ih => exact ih (pool.modifyPair e (·.constrain border))

/-- A pool is its pairs and the slots that it would hand out again. -/
theorem ext_pair? {pool pool' : EdgePool} (hpair : ∀ e, pool.pair? e = pool'.pair? e)
    (hfree : pool.free = pool'.free) : pool = pool' := by
  obtain ⟨pairs, free⟩ := pool
  obtain ⟨pairs', free'⟩ := pool'
  obtain rfl : free = free' := hfree
  have hpairs : pairs = pairs' :=
    Array.ext_getElem? fun slot => by simpa [pair?] using hpair (.ofSlot slot)
  rw [hpairs]

/-- Flags are only ever added, so it does not matter in which order. -/
theorem constrain_comm (pool : EdgePool) (es es' : List EdgeId) (border border' : Bool) :
    (pool.constrain es border).constrain es' border' =
      (pool.constrain es' border').constrain es border := by
  refine ext_pair? (fun e => ?_) (by simp only [free_constrain])
  simp only [pair?_constrain, Option.map_map]
  congr 1
  funext pair
  simp only [Function.comp_apply, Bool.or_right_comm]

theorem constrain_perm (pool : EdgePool) {es es' : List EdgeId} (h : es.Perm es')
    (border : Bool) : pool.constrain es border = pool.constrain es' border := by
  refine ext_pair? (fun e => ?_) (by simp only [free_constrain])
  rw [pair?_constrain, pair?_constrain, h.any_eq]

end EdgePool

end TinFaces
