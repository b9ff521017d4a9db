import TinFaces.Proofs.Courses
import TinFaces.Proofs.Lawful

/-!
# Depth-first search

The recursive search that a region walk comes down to (`Triangulation.visit`): to visit an edge is
to claim its left face, unless that was claimed before, and then to visit what lies beyond the
reverse side and after that what lies beyond the forward side, borders excepted.

A walk decides what to put on its stack as soon as a face is claimed; the search decides when it
comes to a side, after a subtree may have claimed the face beyond. That makes no difference, since
flags are only ever set (`Triangulation.visitBeyond_of_look`): a walk that comes to its end claims
the faces that the search claims, in its order (`Triangulation.explore_eq_visitAll`,
`Triangulation.walkFrom_eq_search`). No law of the mesh is needed for it.
-/

namespace TinFaces

/-- Flags that were set from others on. -/
structure MarkSet.Grown (before after : MarkSet) : Prop where
  isSet : ∀ i, before.isSet i = true → after.isSet i = true
  size_eq : after.words.size = before.words.size
  free_le : after.free ≤ before.free

namespace MarkSet.Grown

variable {marks marks' marks'' : MarkSet}

theorem refl (marks : MarkSet) : marks.Grown marks :=
  ⟨fun _ hset => hset, rfl, Nat.le_refl _⟩

theorem trans (h : marks.Grown marks') (h' : marks'.Grown marks'') : marks.Grown marks'' where
  isSet i hset := h'.isSet i (h.isSet i hset)
  size_eq := h'.size_eq.trans h.size_eq
  free_le := Nat.le_trans h'.free_le h.free_le

end MarkSet.Grown

/-- What a search did from some flags on: the faces that it claimed, in order, and the flags that
were set in the end. -/
structure Visit (V E : Type) (before : MarkSet) where
  faces : List (Face V E)
  marks : MarkSet
  grown : before.Grown marks

namespace Visit

variable {V E : Type} {before : MarkSet}

/-- Nothing was claimed. -/
def nothing (before : MarkSet) : Visit V E before := ⟨[], before, .refl before⟩

/-- The face on the left of an edge was claimed. -/
def ofClaim {T : Triangulation V E} {marked : MarkSet} {e : E} {face : Face V E}
    (hopen : T.isClaimed before e = .ok false) (hclaim : T.claim before e = .ok (face, marked)) :
    Visit V E before where
  faces := [face]
  marks := marked
  grown :=
    { isSet := (Triangulation.flags_of_claim hclaim).1
      size_eq := (Triangulation.flags_of_claim hclaim).2.2
      free_le := Nat.le_of_lt (Triangulation.free_lt_of_claim hopen hclaim) }

/-- One search after the other. -/
def andThen (visit : Visit V E before) (next : Visit V E visit.marks) : Visit V E before where
  faces := visit.faces ++ next.faces
  marks := next.marks
  grown := visit.grown.trans next.grown

@[simp] theorem andThen_nothing (visit : Visit V E before) :
    visit.andThen (nothing visit.marks) = visit := by
  simp [andThen, nothing]

theorem andThen_assoc (a : Visit V E before) (b : Visit V E a.marks) (c : Visit V E b.marks) :
    (a.andThen b).andThen c = a.andThen (b.andThen c) := by
  simp [andThen, List.append_assoc]

end Visit

namespace Triangulation

variable {V E : Type} {T : Triangulation V E} {border : E → Bool}
  {marks marks' marked : MarkSet} {e side : E} {face : Face V E}

/-! ## The search -/

mutual

/-- Claims the face on the left of `e` and all that can be reached from it, unless the face was
claimed before. -/
def visit (T : Triangulation V E) (border : E → Bool) (marks : MarkSet) (e : E) :
    Except Fault (Visit V E marks) :=
  match hopen : T.isClaimed marks e with
  | .error fault => .error fault
  | .ok true => .ok (.nothing marks)
  | .ok false =>
      match hclaim : T.claim marks e with
      | .error fault => .error fault
      | .ok (face, marked) =>
          match T.visitBeyond border marked face.edges.third with
          | .error fault => .error fault
          | .ok first =>
              match T.visitBeyond border first.marks face.edges.second with
              | .error fault => .error fault
              | .ok second => .ok ((Visit.ofClaim hopen hclaim).andThen (first.andThen second))
termination_by 2 * marks.free
decreasing_by
  · have hlt := free_lt_of_claim hopen hclaim
    omega
  · have hlt := free_lt_of_claim hopen hclaim
    have hle := first.grown.free_le
    omega

/-- Visits the edge beyond a side, unless the side is a border. -/
def visitBeyond (T : Triangulation V E) (border : E → Bool) (marks : MarkSet) (side : E) :
    Except Fault (Visit V E marks) :=
  if border side then .ok (.nothing marks)
  else
    match T.dual side with
    | .error fault => .error fault
    | .ok next => T.visit border marks next
termination_by 2 * marks.free + 1

end

/-- Visits some edges in turn. -/
def visitAll (T : Triangulation V E) (border : E → Bool) (marks : MarkSet) :
    List E → Except Fault (Visit V E marks)
  | [] => .ok (.nothing marks)
  | e :: rest => do
      let first ← T.visit border marks e
      let others ← T.visitAll border first.marks rest
      return first.andThen others

/-- The faces of the region that is searched from a linking edge, in preorder. -/
def search (T : Triangulation V E) (border : E → Bool) (link : E) (options : WalkOptions) :
    Except Fault (List (Face V E)) := do
  let marks ← MarkSet.ofMaxIndex T.maxEdgeIndex options.markSlack
  let visit ← T.visit border marks link
  return visit.faces

theorem visit_of_claimed (h : T.isClaimed marks e = .ok true) :
    T.visit border marks e = .ok (.nothing marks) := by
  rw [visit]
  split
  · next hfault => cases h.symm.trans hfault
  · rfl
  · next hopen => cases h.symm.trans hopen

theorem visit_of_open (hopen : T.isClaimed marks e = .ok false)
    (hclaim : T.claim marks e = .ok (face, marked)) {first : Visit V E marked}
    (hfirst : T.visitBeyond border marked face.edges.third = .ok first)
    {second : Visit V E first.marks}
    (hsecond : T.visitBeyond border first.marks face.edges.second = .ok second) :
    T.visit border marks e =
      .ok ((Visit.ofClaim hopen hclaim).andThen (first.andThen second)) := by
  rw [visit]
  split
  · next hfault => cases hopen.symm.trans hfault
  · next hclaimed => cases hopen.symm.trans hclaimed
  · split
    · next hfault => cases hclaim.symm.trans hfault
    · next hclaim' =>
        cases hclaim.symm.trans hclaim'
        simp only [hfirst, hsecond]

theorem visitAll_cons_eq_ok {rest : List E} {visit : Visit V E marks} :
    T.visitAll border marks (e :: rest) = .ok visit ↔
      ∃ first, T.visit border marks e = .ok first ∧
        ∃ others, T.visitAll border first.marks rest = .ok others ∧
          first.andThen others = visit := by
  simp only [visitAll, bind_eq_ok_iff, pure, Except.pure, Except.ok.injEq]

/-- What some edges lead to is what the first of them lead to, and then what the others do. -/
theorem visitAll_append {xs ys : List E} {visit : Visit V E marks}
    (h : T.visitAll border marks (xs ++ ys) = .ok visit) :
    ∃ first, T.visitAll border marks xs = .ok first ∧
      ∃ others, T.visitAll border first.marks ys = .ok others ∧
        first.andThen others = visit := by
  induction xs generalizing marks with
  | nil => exact ⟨.nothing marks, rfl, visit, h, rfl⟩
  | cons e rest ih =>
      rw [List.cons_append, visitAll_cons_eq_ok] at h
      obtain ⟨a, ha, b, hb, rfl⟩ := h
      obtain ⟨c, hc, d, hd, rfl⟩ := ih hb
      refine ⟨a.andThen c, visitAll_cons_eq_ok.2 ⟨a, ha, c, hc, rfl⟩, d, hd, ?_⟩
      exact Visit.andThen_assoc a c d

/-! ## The walk -/

variable {events : List (Event V E)} {way : Option E}

/-- A face stays claimed. -/
theorem isClaimed_of_grown (h : marks.Grown marks') (hclaimed : T.isClaimed marks e = .ok true) :
    T.isClaimed marks' e = .ok true := by
  obtain ⟨i, hi, hsize, hset⟩ := isClaimed_eq_ok_iff.1 hclaimed
  exact isClaimed_eq_ok_iff.2 ⟨i, hi, h.size_eq ▸ hsize, h.isSet i hset⟩

/-- To visit later what a look across a side has shown is to visit then what lies beyond. -/
theorem visitBeyond_of_look (hborder : ∀ s b, T.isRegionBorder s = .ok b → border s = b)
    (hlook : T.lookAcross marks side = .ok (events, way)) (hgrown : marks.Grown marks')
    {visit : Visit V E marks'} (hvisit : T.visitAll border marks' way.toList = .ok visit) :
    T.visitBeyond border marks' side = .ok visit := by
  obtain ⟨next, hnext, ⟨hclaimed, -, rfl⟩ | ⟨b, hopen, hb, -, rfl⟩⟩ := lookAcross_eq_ok hlook
  · -- the face beyond is claimed, so a visit finds nothing to do
    cases hvisit
    rw [visitBeyond]
    split
    · rfl
    · simp only [hnext, visit_of_claimed (isClaimed_of_grown hgrown hclaimed)]
  · rw [visitBeyond, hborder side b hb]
    cases b with
    | true =>
        cases hvisit
        rfl
    | false =>
        obtain ⟨first, hfirst, others, hothers, rfl⟩ := visitAll_cons_eq_ok.1 hvisit
        cases hothers
        simp [hnext, hfirst]

/-- A walk that comes to its end visits the edges on its stack in turn. -/
theorem explore_eq_visitAll (hborder : ∀ s b, T.isRegionBorder s = .ok b → border s = b)
    (marks : MarkSet) (stack : List E) (hends : (T.explore marks stack).fault? = none) :
    ∃ visit, T.visitAll border marks stack = .ok visit ∧
      visit.faces = Event.faces (T.explore marks stack).events ∧
      visit.marks = (T.explore marks stack).marks := by
  fun_induction Triangulation.explore T marks stack with
  | case1 marks => exact ⟨.nothing marks, rfl, rfl, rfl⟩
  | case2 | case4 | case5 | case6 => cases hends
  | case3 marks e rest hclaimed ih =>
      obtain ⟨visit, hvisit, hfaces, hmarks⟩ := ih hends
      exact ⟨visit, visitAll_cons_eq_ok.2 ⟨_, visit_of_claimed hclaimed, visit, hvisit, rfl⟩,
        hfaces, hmarks⟩
  | case7 marks e rest hopen face marked hclaim events₁ way₁ hlook₁ events₂ way₂ hlook₂ ih =>
      obtain ⟨visit, hvisit, hfaces, hmarks⟩ := ih hends
      obtain ⟨both, hboth, others, hothers, rfl⟩ := visitAll_append hvisit
      obtain ⟨first, hfirst, second, hsecond, rfl⟩ := visitAll_append hboth
      have hat := visit_of_open hopen hclaim
        (visitBeyond_of_look hborder hlook₂ (.refl marked) hfirst)
        (visitBeyond_of_look hborder hlook₁ first.grown hsecond)
      refine ⟨_, visitAll_cons_eq_ok.2 ⟨_, hat, others, hothers, rfl⟩, ?_, hmarks⟩
      obtain ⟨_, _, hfaces₁, _⟩ := course_lookAcross hlook₁
      obtain ⟨_, _, hfaces₂, _⟩ := course_lookAcross hlook₂
      show face :: (first.faces ++ second.faces) ++ others.faces = _
      have hclaimed : Event.faces (.claimed face :: (events₁ ++ events₂)) = [face] := by
        show face :: Event.faces (events₁ ++ events₂) = [face]
        rw [Event.faces_append, hfaces₁, hfaces₂, List.append_nil]
      rw [Trace.events_after, Event.faces_append, hclaimed, ← hfaces]
      rfl

variable {options : WalkOptions} {link : E} {summary : Summary}

/-- A region walk that comes to its end claims the faces that the recursive search claims, in its
order, and reports those of them that touch no ghost. -/
theorem walkFrom_eq_search (hborder : ∀ s b, T.isRegionBorder s = .ok b → border s = b)
    (hends : (T.walkFrom link options).result = .ok summary) :
    ∃ faces, T.search border link options = .ok faces ∧
      Event.entries (T.walkFrom link options).events = faces.map (·.edges.first) ∧
      (T.walkFrom link options).triangles = faces.filterMap Face.vertices? ∧
      (T.walkFrom link options).edgeTriangles =
        (faces.filter fun face => !face.isGhost).map Face.edges := by
  unfold walkFrom at hends ⊢
  cases hroom : T.prepareWalk options with
  | error fault =>
      rw [hroom] at hends
      cases hends
  | ok marks =>
      simp only [hroom] at hends ⊢
      have hfault : (T.explore marks [link]).fault? = none := by
        cases hfault : (T.explore marks [link]).fault? with
        | none => rfl
        | some fault =>
            simp only [Report.ofTrace, hfault] at hends
            cases hends
      obtain ⟨visit, hvisit, hfaces, -⟩ := explore_eq_visitAll hborder marks [link] hfault
      obtain ⟨first, hfirst, others, hothers, rfl⟩ := visitAll_cons_eq_ok.1 hvisit
      cases hothers
      rw [Visit.andThen_nothing] at hfaces
      refine ⟨first.faces, ?_, ?_⟩
      · simp [search, ofMaxIndex_of_prepareWalk hroom, hfirst, bind, Except.bind, pure, Except.pure]
      · simp only [Event.entries, Report.triangles, Report.edgeTriangles, Event.triangles,
          Event.edgeTriangles, Event.realFaces, Report.events_ofTrace, hfaces, and_self]

end Triangulation

/-! ## A lawless table -/

namespace Table

/-- Three faces around a corner and one more behind a border. Two of them lead to the face of 3,
the dual of 8 does not lead back, and 5 is its own dual. -/
def corner : Table where
  isBootstrapped := true
  maxEdgeIndex := 11
  baseEdges := [0, 3, 6, 9]
  rows := #[⟨some 0, 8, 1, 2, false, 0⟩, ⟨some 1, 3, 2, 0, false, 1⟩, ⟨some 2, 6, 0, 1, false, 2⟩,
    ⟨some 2, 1, 4, 5, false, 3⟩, ⟨some 1, 7, 5, 3, false, 4⟩, ⟨some 3, 5, 3, 4, false, 5⟩,
    ⟨some 0, 2, 7, 8, false, 6⟩, ⟨some 2, 4, 8, 6, false, 7⟩, ⟨none, 9, 6, 7, true, 8⟩,
    ⟨some 4, 0, 10, 11, false, 9⟩, ⟨some 5, 10, 11, 9, false, 10⟩, ⟨some 6, 11, 9, 10, false, 11⟩]
  positions := #[]
  links := #[]

theorem border_of_isRegionBorder (table : Table) {s : Nat} {b : Bool}
    (h : table.surface.isRegionBorder s = .ok b) : (table.rowAt s).border = b := by
  cases hrow : readAt table.rows s with
  | error fault =>
      simp only [surface, hrow] at h
      cases h
  | ok row =>
      simp only [surface, hrow] at h
      cases h
      simp [rowAt, readAt_eq_ok_iff.1 hrow]

/-- From 0 on, the face beyond 2 is claimed before the one beyond 1, which it leads to. -/
theorem corner_walk_eq_search :
    let T := corner.surface.toTriangulation
    let border := fun s => (corner.rowAt s).border
    (∀ s b, T.isRegionBorder s = .ok b → border s = b) ∧
      (T.walkFrom 0 {}).result = .ok ⟨3, 2, 1, 1, 1⟩ ∧
      Event.entries (T.walkFrom 0 {}).events = [0, 6, 4] ∧
      ∃ faces, T.search border 0 {} = .ok faces ∧
        Event.entries (T.walkFrom 0 {}).events = faces.map (·.edges.first) ∧
        (T.walkFrom 0 {}).triangles = faces.filterMap Face.vertices? ∧
        (T.walkFrom 0 {}).edgeTriangles =
          (faces.filter fun face => !face.isGhost).map Face.edges := by
  have hborder : ∀ s b, corner.surface.isRegionBorder s = .ok b →
      (corner.rowAt s).border = b := fun _ _ h => corner.border_of_isRegionBorder h
  have hends : (corner.surface.walkFrom 0 {}).result = .ok ⟨3, 2, 1, 1, 1⟩ := by decide +kernel
  exact ⟨hborder, hends, by decide +kernel, Triangulation.walkFrom_eq_search hborder hends⟩

end Table

end TinFaces
