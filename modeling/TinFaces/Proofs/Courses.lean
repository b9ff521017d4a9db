import Mathlib.Data.List.Basic
import TinFaces.Walk.Region
import TinFaces.Walk.Scan

/-!
# Courses of events

What a traversal does follows from the flags that are set, event by event, whatever the mesh
answers. `Triangulation.Happens` says what it takes for one event to happen and which flags it
leaves; a `Triangulation.Course` is a list of events that happen one after the other. Walks and
scans take such courses, also those that break off (`Triangulation.course_explore`,
`Triangulation.course_scanEdges`), so what holds of every course holds of every traversal, and
no law of the mesh is needed for it:

* flags are only ever set (`Course.isSet`), and each claim uses up a clear one
  (`Course.free_add_length_le`);
* no two claims are made at edges with one index (`Course.distinct`);
* a claimed face is as the mesh tells it (`Course.readFrom`).
-/

namespace TinFaces

variable {V E : Type}

namespace MarkSet

variable {marks marks' : MarkSet} {i : Nat}

theorem isSet_of_mark (h : marks.mark i = .ok marks') {j : Nat} (hj : marks.isSet j = true) :
    marks'.isSet j = true := by
  rw [isSet_mark h, hj, Bool.or_true]

theorem isSet_marked (h : marks.mark i = .ok marks') : marks'.isSet i = true := by
  simp [isSet_mark h]

end MarkSet

/-! ## Edges of events -/

namespace Event

/-- The edges at which faces were claimed, in order. -/
def entries (events : List (Event V E)) : List E := (faces events).map (·.edges.first)

/-- The edge whose left face was tried, if the event is a trial. -/
def tried? : Event V E → Option E
  | claimed face => some face.edges.first
  | passed edge => some edge
  | tested _ _ => none

/-- The edges whose left faces were tried, in order. For a region walk these are the edges that
it took off its stack. -/
def tried (events : List (Event V E)) : List E := events.filterMap tried?

@[simp] theorem entries_claimed (face : Face V E) (events : List (Event V E)) :
    entries (claimed face :: events) = face.edges.first :: entries events := rfl

@[simp] theorem entries_passed (e : E) (events : List (Event V E)) :
    entries (passed e :: events) = entries events := rfl

@[simp] theorem tried_claimed (face : Face V E) (events : List (Event V E)) :
    tried (claimed face :: events) = face.edges.first :: tried events := rfl

@[simp] theorem tried_passed (e : E) (events : List (Event V E)) :
    tried (passed e :: events) = e :: tried events := rfl

theorem entries_of_faces {events : List (Event V E)} (h : faces events = []) :
    entries events = [] := by
  rw [entries, h, List.map_nil]

theorem entries_append (xs ys : List (Event V E)) :
    entries (xs ++ ys) = entries xs ++ entries ys := by
  simp [entries, faces_append]

theorem tried_append (xs ys : List (Event V E)) : tried (xs ++ ys) = tried xs ++ tried ys :=
  List.filterMap_append

theorem length_entries (events : List (Event V E)) :
    (entries events).length = (faces events).length :=
  List.length_map _

/-! What is handed over -/

/-- A reported triangle is a claimed face without a ghost vertex, in vertices and in edges. -/
theorem length_triangles (events : List (Event V E)) :
    (triangles events).length = (realFaces events).length := by
  rw [triangles, realFaces, List.length_filterMap_eq_countP, List.countP_eq_length_filter]
  congr 1
  refine List.filter_congr fun face _ => ?_
  cases h : face.vertices? <;> simp [Face.isGhost, h]

theorem length_edgeTriangles (events : List (Event V E)) :
    (edgeTriangles events).length = (realFaces events).length :=
  List.length_map _

/-- A claimed face is reported or touches the ghost vertex. -/
theorem length_faces (events : List (Event V E)) : (faces events).length =
    (realFaces events).length + ((faces events).filter Face.isGhost).length := by
  rw [List.length_eq_length_filter_add Face.isGhost, Nat.add_comm]
  rfl

end Event

theorem Report.events_ofTrace (started : Record V E) (finished : Summary → Record V E)
    (regionsWalked : Nat) (trace : Trace V E) :
    (ofTrace started finished regionsWalked trace).events = trace.events := by
  unfold ofTrace
  split <;> rfl

/-- A face as the mesh tells it: its edges follow from the first, and its origins from its
edges. -/
structure Face.ReadFrom (T : Triangulation V E) (face : Face V E) : Prop where
  forward_eq : T.forward face.edges.first = .ok face.edges.second
  reverse_eq : T.reverse face.edges.first = .ok face.edges.third
  origins_eq : face.edges.mapM T.origin = .ok face.origins

namespace Triangulation

variable {T : Triangulation V E} {marks marks' marks'' : MarkSet} {e : E} {face : Face V E}

/-! ## One event -/

theorem isClaimed_eq_ok_iff {b : Bool} : T.isClaimed marks e = .ok b ↔
    ∃ i, T.edgeIndex e = .ok i ∧ i / 64 < marks.words.size ∧ marks.isSet i = b := by
  simp only [isClaimed, bind_eq_ok_iff, MarkSet.isMarked_eq_ok_iff]

/-- A claim reads the face at its edge from the mesh. -/
theorem readFrom_of_claim (h : T.claim marks e = .ok (face, marks')) :
    face.edges.first = e ∧ face.ReadFrom T := by
  simp only [claim, bind_eq_ok_iff, pure, Except.pure, Except.ok.injEq] at h
  obtain ⟨f, hf, r, hr, _, _, _, _, _, _, _, _, origins, horigins, heq⟩ := h
  obtain ⟨rfl, rfl⟩ := Prod.mk.inj heq
  exact ⟨rfl, hf, hr, horigins⟩

/-- A claim clears no flag, sets that of its edge, and leaves room for as many. -/
theorem flags_of_claim (h : T.claim marks e = .ok (face, marks')) :
    (∀ i, marks.isSet i = true → marks'.isSet i = true) ∧
      (∃ i, T.edgeIndex e = .ok i ∧ marks'.isSet i = true) ∧
      marks'.words.size = marks.words.size := by
  obtain ⟨i, j, k, m₁, m₂, hi, h₁, h₂, h₃⟩ := marks_of_claim h
  have hlater : ∀ n, m₁.isSet n = true → marks'.isSet n = true := fun n hn =>
    MarkSet.isSet_of_mark h₃ (MarkSet.isSet_of_mark h₂ hn)
  refine ⟨fun n hn => hlater n (MarkSet.isSet_of_mark h₁ hn),
    ⟨i, hi, hlater i (MarkSet.isSet_marked h₁)⟩, ?_⟩
  rw [MarkSet.size_of_mark h₃, MarkSet.size_of_mark h₂, MarkSet.size_of_mark h₁]

/-- What it takes for an event to happen when some flags are set, and the flags that are set
afterwards. -/
inductive Happens (T : Triangulation V E) : MarkSet → Event V E → MarkSet → Prop
  /-- A face is claimed at an edge whose flag is clear. -/
  | claimed {marks marks' : MarkSet} {e : E} {face : Face V E} :
      T.isClaimed marks e = .ok false → T.claim marks e = .ok (face, marks') →
      Happens T marks (.claimed face) marks'
  | passed {marks : MarkSet} {e : E} : T.isClaimed marks e = .ok true →
      Happens T marks (.passed e) marks
  /-- A side is tested if the flag of the edge beyond it is clear. -/
  | tested {marks : MarkSet} {side next : E} {border : Bool} : T.dual side = .ok next →
      T.isClaimed marks next = .ok false → T.isRegionBorder side = .ok border →
      Happens T marks (.tested side border) marks

variable {event : Event V E} {events more : List (Event V E)}

theorem Happens.isSet (h : T.Happens marks event marks') {i : Nat} (hi : marks.isSet i = true) :
    marks'.isSet i = true := by
  cases h with
  | claimed _ hclaim => exact (flags_of_claim hclaim).1 i hi
  | passed _ => exact hi
  | tested _ _ _ => exact hi

theorem Happens.size_eq (h : T.Happens marks event marks') :
    marks'.words.size = marks.words.size := by
  cases h with
  | claimed _ hclaim => exact (flags_of_claim hclaim).2.2
  | passed _ => rfl
  | tested _ _ _ => rfl

/-! ## Courses -/

/-- Events that happen one after the other, from some flags on, and the flags that are set in
the end. -/
inductive Course (T : Triangulation V E) : MarkSet → List (Event V E) → MarkSet → Prop
  | nil {marks : MarkSet} : Course T marks [] marks
  | cons {marks marks' marks'' : MarkSet} {event : Event V E} {events : List (Event V E)} :
      T.Happens marks event marks' → Course T marks' events marks'' →
      Course T marks (event :: events) marks''

theorem Course.single (h : T.Happens marks event marks') : T.Course marks [event] marks' :=
  .cons h .nil

theorem Course.append (h : T.Course marks events marks') (hmore : T.Course marks' more marks'') :
    T.Course marks (events ++ more) marks'' := by
  induction h with
  | nil => exact hmore
  | cons hevent _ ih => exact .cons hevent (ih hmore)

theorem Course.isSet (h : T.Course marks events marks') {i : Nat} (hi : marks.isSet i = true) :
    marks'.isSet i = true := by
  induction h with
  | nil => exact hi
  | cons hevent _ ih => exact ih (hevent.isSet hi)

theorem Course.size_eq (h : T.Course marks events marks') :
    marks'.words.size = marks.words.size := by
  induction h with
  | nil => rfl
  | cons hevent _ ih => rw [ih, hevent.size_eq]

/-- The flag of an edge at which a face is claimed was clear at first and is set in the end. -/
theorem Course.flag_of_mem_entries (h : T.Course marks events marks')
    (he : e ∈ Event.entries events) :
    ∃ i, T.edgeIndex e = .ok i ∧ marks.isSet i = false ∧ marks'.isSet i = true := by
  induction h with
  | nil => exact absurd he List.not_mem_nil
  | @cons marks marked marks' event events hevent hrest ih =>
      -- an edge of the rest is clear after the event, so it was before
      have hlater : e ∈ Event.entries events → ∃ i, T.edgeIndex e = .ok i ∧
          marks.isSet i = false ∧ marks'.isSet i = true := fun hmem => by
        obtain ⟨i, hi, hclear, hset⟩ := ih hmem
        refine ⟨i, hi, Bool.eq_false_iff.2 fun hold => ?_, hset⟩
        exact Bool.false_ne_true (hclear.symm.trans (hevent.isSet hold))
      cases hevent with
      | passed _ => exact hlater he
      | tested _ _ _ => exact hlater he
      | claimed hopen hclaim =>
          rw [Event.entries_claimed, (readFrom_of_claim hclaim).1] at he
          rcases List.mem_cons.1 he with rfl | he
          · obtain ⟨i, hi, _, hclear⟩ := isClaimed_eq_ok_iff.1 hopen
            obtain ⟨_, ⟨j, hj, hset⟩, _⟩ := flags_of_claim hclaim
            cases hi.symm.trans hj
            exact ⟨i, hi, hclear, hrest.isSet hset⟩
          · exact hlater he

/-- No two faces are claimed at edges with one index. -/
theorem Course.distinct (h : T.Course marks events marks') :
    (Event.entries events).Pairwise fun a b => T.edgeIndex a ≠ T.edgeIndex b := by
  induction h with
  | nil => exact List.Pairwise.nil
  | cons hevent hrest ih =>
      cases hevent with
      | passed _ => exact ih
      | tested _ _ _ => exact ih
      | claimed hopen hclaim =>
          rw [Event.entries_claimed, (readFrom_of_claim hclaim).1]
          refine List.pairwise_cons.2 ⟨fun b hb => ?_, ih⟩
          -- the claim sets the flag of its edge, and that of `b` is clear afterwards
          obtain ⟨_, ⟨i, hi, hset⟩, _⟩ := flags_of_claim hclaim
          obtain ⟨j, hj, hclear, _⟩ := hrest.flag_of_mem_entries hb
          intro heq
          cases hi.symm.trans (heq.trans hj)
          exact Bool.false_ne_true (hclear.symm.trans hset)

/-- Each claim uses up a clear flag. -/
theorem Course.free_add_length_le (h : T.Course marks events marks') :
    marks'.free + (Event.entries events).length ≤ marks.free := by
  induction h with
  | nil => exact Nat.le_refl _
  | cons hevent _ ih =>
      cases hevent with
      | passed _ => exact ih
      | tested _ _ _ => exact ih
      | claimed hopen hclaim =>
          have hlt := free_lt_of_claim hopen hclaim
          rw [Event.entries_claimed, List.length_cons]
          omega

/-- The claimed faces are as the mesh tells them. -/
theorem Course.readFrom (h : T.Course marks events marks') :
    ∀ face ∈ Event.faces events, face.ReadFrom T := by
  induction h with
  | nil => exact fun _ hface => absurd hface List.not_mem_nil
  | cons hevent _ ih =>
      cases hevent with
      | passed _ => exact ih
      | tested _ _ _ => exact ih
      | claimed _ hclaim =>
          intro face hface
          rcases List.mem_cons.1 hface with rfl | hface
          · exact (readFrom_of_claim hclaim).2
          · exact ih face hface

/-! ## Traversals take courses -/

/-- A look across a side finds the face beyond claimed, or else tests the side and shows the edge
beyond it unless the side is a border. -/
theorem lookAcross_eq_ok {side : E} {way : Option E}
    (h : T.lookAcross marks side = .ok (events, way)) : ∃ next, T.dual side = .ok next ∧
      (T.isClaimed marks next = .ok true ∧ events = [] ∧ way = none ∨
        ∃ border, T.isClaimed marks next = .ok false ∧ T.isRegionBorder side = .ok border ∧
          events = [.tested side border] ∧ way = if border then none else some next) := by
  simp only [lookAcross, bind_eq_ok_iff] at h
  obtain ⟨next, hnext, b, hb, h⟩ := h
  refine ⟨next, hnext, ?_⟩
  cases b with
  | true =>
      simp only [if_true, pure, Except.pure, Except.ok.injEq, Prod.mk.injEq] at h
      exact .inl ⟨hb, h.1.symm, h.2.symm⟩
  | false =>
      simp only [Bool.false_eq_true, if_false, bind_eq_ok_iff, pure, Except.pure, Except.ok.injEq,
        Prod.mk.injEq] at h
      obtain ⟨border, hborder, hevents, hway⟩ := h
      exact .inr ⟨border, hb, hborder, hevents.symm, hway.symm⟩

/-- A look is one event at most, and neither claims nor tries a face. -/
theorem course_lookAcross {side : E} {way : Option E}
    (h : T.lookAcross marks side = .ok (events, way)) :
    T.Course marks events marks ∧ events.length ≤ 1 ∧ Event.faces events = [] ∧
      Event.tried events = [] := by
  obtain ⟨next, hnext, ⟨_, rfl, _⟩ | ⟨border, hopen, hborder, rfl, _⟩⟩ := lookAcross_eq_ok h
  · exact ⟨.nil, Nat.zero_le _, rfl, rfl⟩
  · exact ⟨.single (.tested hnext hopen hborder), Nat.le_refl _, rfl, rfl⟩

theorem course_explore (T : Triangulation V E) (marks : MarkSet) (stack : List E) :
    T.Course marks (T.explore marks stack).events (T.explore marks stack).marks := by
  fun_induction Triangulation.explore T marks stack with
  | case1 | case2 | case4 => exact .nil
  | case3 marks e rest hpassed ih => exact .cons (.passed hpassed) ih
  | case5 marks e rest hopen face marked hface => exact .single (.claimed hopen hface)
  | case6 marks e rest hopen face marked hface events₁ _ hlook₁ =>
      have hcourse := Course.cons (.claimed hopen hface) (course_lookAcross hlook₁).1
      simpa [Trace.broken] using hcourse
  | case7 marks e rest hopen face marked hface events₁ _ hlook₁ events₂ _ hlook₂ ih =>
      exact .cons (.claimed hopen hface)
        (((course_lookAcross hlook₁).1.append (course_lookAcross hlook₂).1).append ih)

theorem course_scanSides (T : Triangulation V E) (es : List E) (marks : MarkSet) :
    T.Course marks (T.scanSides es marks).events (T.scanSides es marks).marks := by
  induction es generalizing marks with
  | nil => exact .nil
  | cons e rest ih =>
      unfold scanSides
      split
      · exact .nil
      · next hpassed => exact .cons (.passed hpassed) (ih marks)
      · next hopen =>
          split
          · exact .nil
          · next hclaim => exact .cons (.claimed hopen hclaim) (ih _)

theorem course_andThen {trace : Trace V E} {next : MarkSet → Trace V E}
    (h : T.Course marks trace.events trace.marks)
    (hnext : T.Course trace.marks (next trace.marks).events (next trace.marks).marks) :
    T.Course marks (trace.andThen next).events (trace.andThen next).marks := by
  unfold Trace.andThen
  split
  · exact h
  · exact h.append hnext

theorem course_scanEdges (T : Triangulation V E) (es : List E) (marks : MarkSet) :
    T.Course marks (T.scanEdges es marks).events (T.scanEdges es marks).marks := by
  induction es generalizing marks with
  | nil => exact .nil
  | cons e rest ih =>
      unfold scanEdges
      split
      · exact .nil
      · exact course_andThen (T.course_scanSides _ marks) (ih _)

end Triangulation

end TinFaces
