import TinFaces.Index
import TinFaces.Triangle

/-!
# Edge pools

A pool stores undirected edges as pairs of directed ones, a slot for each pair.
A freed slot is handed out again, the one freed last first; the pool itself
never shrinks. So the largest edge index tells how many pairs were ever in use
at once, not how many are now.

The faces are threaded through the pairs: each side knows where it starts and
its neighbours around the face on its left.
-/

namespace TinFaces

/-- One direction of a pair. -/
structure EdgeSide where
  /-- Where the side starts; `none` is the ghost vertex. -/
  origin : Option VertexId
  /-- The next side around the face on the left. -/
  forward : EdgeId
  /-- The previous side around the face on the left. -/
  reverse : EdgeId
deriving DecidableEq, Repr

/-- An undirected edge: its two directions and what they have in common. -/
structure EdgePair where
  base : EdgeSide
  dual : EdgeSide
  /-- Whether the pair is in use. -/
  live : Bool := false
  /-- Whether a constraint runs along the pair. -/
  constrained : Bool := false
  /-- Whether the pair borders a constrained region. -/
  regionBorder : Bool := false
deriving DecidableEq, Repr

namespace EdgePair

/-- A pair that belongs to no face: each side loops onto itself. -/
def detached (slot : Nat) : EdgePair :=
  let e := EdgeId.ofSlot slot
  { base := ⟨none, e, e⟩, dual := ⟨none, e.dual, e.dual⟩ }

/-- A live pair from `a` to `b` that belongs to no face yet. -/
def joining (slot : Nat) (a b : Option VertexId) : EdgePair :=
  let pair := detached slot
  { pair with
    base := { pair.base with origin := a }
    dual := { pair.dual with origin := b }
    live := true }

/-- The direction `e` of its pair. -/
def side (pair : EdgePair) (e : EdgeId) : EdgeSide := if e.isBase then pair.base else pair.dual

/-- Changes the direction `e` of its pair. -/
def modifySide (pair : EdgePair) (e : EdgeId) (f : EdgeSide → EdgeSide) : EdgePair :=
  if e.isBase then { pair with base := f pair.base } else { pair with dual := f pair.dual }

/-- Marks the pair as a segment of a constraint. -/
def constrain (pair : EdgePair) (border : Bool) : EdgePair :=
  { pair with constrained := true, regionBorder := pair.regionBorder || border }

end EdgePair

/-- Storage for edge pairs. -/
structure EdgePool where
  pairs : Array EdgePair := #[]
  /-- The slots that are not in use, the one freed last first. -/
  free : List Nat := []
deriving DecidableEq, Repr

namespace EdgePool

/-! ## Handing out and taking back -/

/-- Takes a pair from `a` to `b` into use and gives its base side. -/
def allocate (pool : EdgePool) (a b : Option VertexId) : EdgeId × EdgePool :=
  match pool.free with
  | slot :: free =>
      (.ofSlot slot,
        { pairs := pool.pairs.setIfInBounds slot (.joining slot a b), free })
  | [] =>
      let slot := pool.pairs.size
      (.ofSlot slot, { pool with pairs := pool.pairs.push (.joining slot a b) })

/-- Whether the pair in a slot is in use. -/
def isLive (pool : EdgePool) (slot : Nat) : Bool :=
  match pool.pairs[slot]? with
  | some pair => pair.live
  | none => false

/-- Takes the pair of `e` out of use; nothing happens if it is not in use. -/
def deallocate (pool : EdgePool) (e : EdgeId) : EdgePool :=
  if pool.isLive e.slot then
    { pairs := pool.pairs.setIfInBounds e.slot (.detached e.slot), free := e.slot :: pool.free }
  else pool

/-- Takes pairs into use that join nothing. -/
def reserve (pool : EdgePool) : Nat → List EdgeId × EdgePool
  | 0 => ([], pool)
  | n + 1 =>
      let (e, pool) := pool.allocate none none
      let (es, pool) := pool.reserve n
      (e :: es, pool)

/-! ## Looking up -/

/-- How many pairs are in use. -/
def numLivePairs (pool : EdgePool) : Nat := pool.pairs.size - pool.free.length

/-- The largest edge index ever handed out, 0 if there was none. -/
def maxIndex (pool : EdgePool) : Nat := 2 * pool.pairs.size - 1

/-- The base sides of the pairs in use, in the order of their slots. -/
def baseEdges (pool : EdgePool) : List EdgeId :=
  ((List.range pool.pairs.size).filter pool.isLive).map EdgeId.ofSlot

/-- The pair of `e`, if the pool has the slot. -/
def pair? (pool : EdgePool) (e : EdgeId) : Option EdgePair := pool.pairs[e.slot]?

/-- The side `e`, if the pool has the slot. -/
def side? (pool : EdgePool) (e : EdgeId) : Option EdgeSide := (pool.pair? e).map (·.side e)

/-- The pair of `e`; faults beyond the last slot. -/
def pair (pool : EdgePool) (e : EdgeId) : Except Fault EdgePair := readAt pool.pairs e.slot

/-- The side `e`; faults beyond the last slot. -/
def side (pool : EdgePool) (e : EdgeId) : Except Fault EdgeSide := (·.side e) <$> pool.pair e

/-! ## Changing what is stored -/

/-- Changes the pair of `e`. -/
def modifyPair (pool : EdgePool) (e : EdgeId) (f : EdgePair → EdgePair) : EdgePool :=
  { pool with pairs := pool.pairs.modify e.slot f }

/-- Makes `forward` and `reverse` the neighbours of `e`. -/
def linkSide (pool : EdgePool) (e forward reverse : EdgeId) : EdgePool :=
  pool.modifyPair e fun pair => pair.modifySide e fun side => { side with forward, reverse }

/-- Makes three sides a face, in forward order. -/
def linkFace (pool : EdgePool) (t : Triangle EdgeId) : EdgePool :=
  ((pool.linkSide t.first t.second t.third).linkSide t.second t.third t.first).linkSide
    t.third t.first t.second

/-- Marks the pairs of the edges as segments of a constraint. -/
def constrain (pool : EdgePool) (es : List EdgeId) (border : Bool) : EdgePool :=
  es.foldl (fun pool e => pool.modifyPair e (·.constrain border)) pool

/-! ## What the operations do to the pairs -/

theorem pair?_modifyPair (pool : EdgePool) (e e' : EdgeId) (f : EdgePair → EdgePair) :
    (pool.modifyPair e f).pair? e' =
      if e.slot = e'.slot then (pool.pair? e').map f else pool.pair? e' := by
  simp [modifyPair, pair?, Array.getElem?_modify]

/-- A recycled slot holds the new pair, and no other slot changes. -/
theorem pair?_allocate_of_free {pool : EdgePool} {slot : Nat} {free : List Nat}
    (hfree : pool.free = slot :: free) (hslot : slot < pool.pairs.size)
    (a b : Option VertexId) (e : EdgeId) :
    (pool.allocate a b).2.pair? e =
      if slot = e.slot then some (.joining slot a b) else pool.pair? e := by
  by_cases h : slot = e.slot
  · rw [h] at hslot
    simp [allocate, hfree, pair?, h, hslot]
  · simp [allocate, hfree, pair?, h]

/-- With no slot to recycle, the new pair comes after all others. -/
theorem pair?_allocate_of_free_eq_nil {pool : EdgePool} (hfree : pool.free = [])
    (a b : Option VertexId) (e : EdgeId) :
    (pool.allocate a b).2.pair? e =
      if e.slot = pool.pairs.size then some (.joining pool.pairs.size a b) else pool.pair? e := by
  simp only [allocate, hfree, pair?, Array.getElem?_push]

theorem mem_baseEdges {pool : EdgePool} {e : EdgeId} :
    e ∈ pool.baseEdges ↔ e.isBase = true ∧ pool.isLive e.slot = true := by
  simp only [baseEdges, List.mem_map, List.mem_filter, List.mem_range]
  constructor
  · rintro ⟨slot, ⟨_, hlive⟩, rfl⟩
    simpa using hlive
  · rintro ⟨hbase, hlive⟩
    refine ⟨e.slot, ⟨?_, hlive⟩, EdgeId.ofSlot_slot hbase⟩
    unfold isLive at hlive
    split at hlive
    · next h => exact (Array.getElem?_eq_some_iff.1 h).1
    · cases hlive

end EdgePool

end TinFaces
