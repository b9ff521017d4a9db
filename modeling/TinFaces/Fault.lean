/-!
# Faults and outcomes

A *fault* is the end of a computation that was asked for something it cannot do
at all: make an id that its width cannot hold, read past the end of a list,
count past a 64-bit word, or set aside more bytes than can be addressed. It is
not an answer about the mesh; those are in `TinFaces.Error`.

Some operations take several steps and keep the effect of those that came
before a fault. They return an `Outcome`: the value that was reached, and the
fault that broke the work off, if one did.
-/

namespace TinFaces

/-! ## Faults -/

/-- Why a computation could not go on. -/
inductive Fault where
  /-- An id of the given width in bits cannot hold this index. -/
  | doesNotFit (index bits : Nat)
  /-- A list of this length has no such position. -/
  | outOfBounds (length index : Nat)
  /-- A sum is above the largest count. -/
  | addOverflow
  /-- The room that was asked for takes more bytes than can be addressed. -/
  | capacityOverflow
deriving DecidableEq, Repr

/-- The text of a fault. -/
def Fault.message : Fault → String
  | .doesNotFit index bits => s!"index {index} does not fit in u{bits}"
  | .outOfBounds length index =>
      s!"index out of bounds: the len is {length} but the index is {index}"
  | .addOverflow => "attempt to add with overflow"
  | .capacityOverflow => "capacity overflow"

/-- The element at `i`, or the fault of reading past the end. -/
def readAt {α : Type} (xs : Array α) (i : Nat) : Except Fault α :=
  match xs[i]? with
  | some x => .ok x
  | none => .error (.outOfBounds xs.size i)

/-! ## Counts -/

/-- Counts are kept in 64 bits. -/
def maxCount : Nat := UInt64.size - 1

/-- The sum of two counts, if it is still a count. -/
def addCounts (a b : Nat) : Except Fault Nat :=
  if a + b ≤ maxCount then .ok (a + b) else .error .addOverflow

/-! ## Room -/

/-- How many bytes one list can take: an offset into it has to fit a signed
64-bit word. -/
def maxBytes : Nat := UInt64.size / 2 - 1

/-- How many bytes a 64-bit word takes. -/
def wordBytes : Nat := 8

/-- Sets aside room for some items of one size. Whether there is so much memory
is not asked, only whether it could be addressed. -/
def checkRoom (count itemBytes : Nat) : Except Fault Unit :=
  if count * itemBytes ≤ maxBytes then .ok () else .error .capacityOverflow

/-! ## Outcomes -/

/-- How far a computation came: the value it reached, and the fault that broke
it off there, if any did. -/
structure Outcome (α : Type) where
  value : α
  fault? : Option Fault := none
deriving DecidableEq, Repr

/-- Takes the steps in turn, up to the first that faults; what the earlier ones
did stays done. -/
def Outcome.ofSteps {α : Type} (start : α) : List (α → Except Fault α) → Outcome α
  | [] => { value := start }
  | step :: rest =>
      match step start with
      | .ok next => ofSteps next rest
      | .error fault => { value := start, fault? := some fault }

/-! ## Basic laws -/

theorem bind_eq_ok_iff {ε α β : Type} {x : Except ε α} {f : α → Except ε β} {b : β} :
    (x >>= f) = .ok b ↔ ∃ a, x = .ok a ∧ f a = .ok b := by
  cases x <;> simp [bind, Except.bind]

theorem addCounts_eq_ok_iff {a b c : Nat} :
    addCounts a b = .ok c ↔ a + b ≤ maxCount ∧ c = a + b := by
  unfold addCounts
  split
  · next h => simp [h, eq_comm]
  · next h => simp [h]

theorem addCounts_eq_error_iff {a b : Nat} {fault : Fault} :
    addCounts a b = .error fault ↔ maxCount < a + b ∧ fault = .addOverflow := by
  unfold addCounts
  split
  · next h => simp [Nat.not_lt.2 h]
  · next h => simp [Nat.not_le.1 h, eq_comm]

theorem checkRoom_eq_ok_iff {count itemBytes : Nat} :
    checkRoom count itemBytes = .ok () ↔ count * itemBytes ≤ maxBytes := by
  unfold checkRoom
  split
  · next h => simp [h]
  · next h => simp [h]

theorem checkRoom_eq_error_iff {count itemBytes : Nat} {fault : Fault} :
    checkRoom count itemBytes = .error fault ↔
      maxBytes < count * itemBytes ∧ fault = .capacityOverflow := by
  unfold checkRoom
  split
  · next h => simp [Nat.not_lt.2 h]
  · next h => simp [Nat.not_le.1 h, eq_comm]

theorem readAt_eq_ok_iff {α : Type} {xs : Array α} {i : Nat} {x : α} :
    readAt xs i = .ok x ↔ xs[i]? = some x := by
  unfold readAt
  split <;> simp_all

end TinFaces
