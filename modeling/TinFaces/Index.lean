import TinFaces.Fault

/-!
# Ids of vertices, edges and constraints

Each kind of id wraps an index. Directed edges come in pairs: the *base* side of
a pair has an even index, its *dual* the odd index that follows, and half the
index is the pair's *slot* in the edge pool.

Inside the library an index is any natural number. An id that is made from an
outside number is checked against an `IndexWidth` first.
-/

namespace TinFaces

/-! ## Ids -/

/-- Identifies a vertex. There is no id for the ghost vertex: it is `none`
wherever an optional vertex is reported. -/
structure VertexId where
  index : Nat
deriving DecidableEq, Repr

/-- Identifies one direction of an edge pair. -/
structure EdgeId where
  index : Nat
deriving DecidableEq, Repr

/-- Identifies a constraint registered with a mesh. -/
structure ConstraintId where
  index : Nat
deriving DecidableEq, Repr

instance : ToString VertexId where
  toString v := s!"V({v.index})"

instance : ToString EdgeId where
  toString e := s!"E({e.index})"

instance : ToString ConstraintId where
  toString c := s!"C({c.index})"

/-! ## The two sides of a pair -/

namespace EdgeId

/-- Whether `e` is the base side of its pair. -/
def isBase (e : EdgeId) : Bool := e.index % 2 == 0

/-- The same pair in the opposite direction. -/
def dual (e : EdgeId) : EdgeId :=
  if e.isBase then ⟨e.index + 1⟩ else ⟨e.index - 1⟩

/-- The base side of the pair of `e`. -/
def base (e : EdgeId) : EdgeId := ⟨e.index - e.index % 2⟩

/-- The slot of the pair of `e`. -/
def slot (e : EdgeId) : Nat := e.index / 2

/-- The base side of the pair in a slot. -/
def ofSlot (slot : Nat) : EdgeId := ⟨2 * slot⟩

/-- The distinct ids of a list, in ascending order. -/
def ascending (es : List EdgeId) : List EdgeId :=
  (es.mergeSort fun a b => a.index ≤ b.index).eraseReps

@[simp] theorem dual_dual (e : EdgeId) : e.dual.dual = e := by
  rcases e with ⟨n⟩
  by_cases h : n % 2 = 0
  · have h' : ¬ (n + 1) % 2 = 0 := by omega
    simp [dual, isBase, h, h']
  · have h' : (n - 1) % 2 = 0 := by omega
    have hn : n - 1 + 1 = n := by omega
    simp [dual, isBase, h, h', hn]

@[simp] theorem slot_dual (e : EdgeId) : e.dual.slot = e.slot := by
  rcases e with ⟨n⟩
  by_cases h : n % 2 = 0 <;> simp [dual, isBase, slot, h] <;> omega

theorem dual_ne (e : EdgeId) : e.dual ≠ e := by
  rcases e with ⟨n⟩
  by_cases h : n % 2 = 0 <;> simp [dual, isBase, h]
  omega

@[simp] theorem slot_ofSlot (slot : Nat) : (ofSlot slot).slot = slot := by
  simp [ofSlot, EdgeId.slot]

theorem ofSlot_slot {e : EdgeId} (h : e.isBase = true) : ofSlot e.slot = e := by
  rcases e with ⟨n⟩
  have hn : n % 2 = 0 := by simpa [isBase] using h
  simp only [ofSlot, slot, EdgeId.mk.injEq]
  omega

@[simp] theorem isBase_ofSlot (slot : Nat) : (ofSlot slot).isBase = true := by
  simp [ofSlot, isBase]

end EdgeId

/-! ## Making ids of a width -/

/-- How many bits an id has. -/
inductive IndexWidth where
  | bits32
  | bits64
deriving DecidableEq, Repr

namespace IndexWidth

def bits : IndexWidth → Nat
  | bits32 => 32
  | bits64 => 64

/-- The largest index of the width. -/
def max (w : IndexWidth) : Nat := Nat.pow 2 w.bits - 1

/-- The number itself, if an id of the width can hold it. -/
def check (w : IndexWidth) (n : Nat) : Except Fault Nat :=
  if n ≤ w.max then .ok n else .error (.doesNotFit n w.bits)

def vertex (w : IndexWidth) (n : Nat) : Except Fault VertexId := VertexId.mk <$> w.check n

def edge (w : IndexWidth) (n : Nat) : Except Fault EdgeId := EdgeId.mk <$> w.check n

def constraint (w : IndexWidth) (n : Nat) : Except Fault ConstraintId :=
  ConstraintId.mk <$> w.check n

/-- The base side of the pair in a slot. The slot is doubled in a 64-bit word,
which loses the top bit. -/
def baseOfSlot (w : IndexWidth) (slot : Nat) : Except Fault EdgeId :=
  w.edge (2 * slot % UInt64.size)

end IndexWidth

end TinFaces
