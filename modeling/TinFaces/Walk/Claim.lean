import TinFaces.Triangulation
import TinFaces.Walk.Trace

/-!
# Claiming a face

Every traversal asks whether the face on the left of an edge has been claimed,
and claims it if not. A claim marks all three edges of the face, so that none of
them leads to the face again; `free_lt_of_claim` says that each claim uses up at
least one clear flag, whatever the mesh answers.
-/

namespace TinFaces

namespace Triangulation

variable {V E : Type}

/-- Whether the face on the left of `e` has been claimed. -/
def isClaimed (T : Triangulation V E) (marks : MarkSet) (e : E) : Except Fault Bool := do
  marks.isMarked (← T.edgeIndex e)

/-- Claims the face on the left of `e`: reads its edges, marks them in forward
order, then reads where they start. -/
def claim (T : Triangulation V E) (marks : MarkSet) (e : E) :
    Except Fault (Face V E × MarkSet) := do
  let edges : Triangle E := ⟨e, ← T.forward e, ← T.reverse e⟩
  let indices ← edges.mapM T.edgeIndex
  let marks ← marks.mark indices.first
  let marks ← marks.mark indices.second
  let marks ← marks.mark indices.third
  let origins ← edges.mapM T.origin
  return (⟨edges, origins⟩, marks)

/-! ## A claim uses up flags -/

/-- The marks that a claim leaves come from those before by setting the flags of
the three edges. -/
theorem marks_of_claim {T : Triangulation V E} {marks marks' : MarkSet} {e : E}
    {face : Face V E} (h : T.claim marks e = .ok (face, marks')) :
    ∃ i j k m₁ m₂, T.edgeIndex e = .ok i ∧ marks.mark i = .ok m₁ ∧ m₁.mark j = .ok m₂ ∧
      m₂.mark k = .ok marks' := by
  simp only [claim, Triangle.mapM, bind_eq_ok_iff, pure, Except.pure, Except.ok.injEq] at h
  obtain ⟨f, hf, r, hr, indices, ⟨i, hi, j, hj, k, hk, rfl⟩, m₁, h₁, m₂, h₂, m₃, h₃, h⟩ := h
  obtain ⟨origins, _, heq⟩ := h
  cases heq
  exact ⟨i, j, k, m₁, m₂, hi, h₁, h₂, h₃⟩

/-- A face that was open takes at least one clear flag. -/
theorem free_lt_of_claim {T : Triangulation V E} {marks marks' : MarkSet} {e : E}
    {face : Face V E} (hopen : T.isClaimed marks e = .ok false)
    (h : T.claim marks e = .ok (face, marks')) : marks'.free < marks.free := by
  obtain ⟨i, hi, hclear⟩ := bind_eq_ok_iff.1 hopen
  obtain ⟨i', j, k, m₁, m₂, hi', h₁, h₂, h₃⟩ := marks_of_claim h
  cases hi.symm.trans hi'
  have hlt := MarkSet.free_lt_of_mark hclear h₁
  have hle₂ := MarkSet.free_le_of_mark h₂
  have hle₃ := MarkSet.free_le_of_mark h₃
  omega

end Triangulation

end TinFaces
