import TinFaces.Proofs.Courses
import TinFaces.Proofs.RegionTour

/-!
# Triangles handed over

A caller gives a traversal a sink, which takes each real triangle as soon as its face is claimed,
and is told the counters at the end. Here the traversals are written that way, as loops over the
flags, the counters and what the sink was given (`Triangulation.exploreInto`,
`Triangulation.scanEdgesInto`). Whatever a sink makes of a triangle, the loop goes as the report
says and hands over the triangles of the report, no more and no fewer if it breaks off
(`Triangulation.scanInto_eq`, `Constraint.walkInto_eq`).

So a sink that takes vertices and one that takes edges are given the same triangles, and on any
mesh the edges tell the vertices (`Triangulation.outputs_agree`).
-/

namespace TinFaces

variable {V E α : Type}

namespace Event

/-- The triangles that were reported, in some form made of their edges and vertices. -/
def handed (form : Triangle E → Triangle V → α) (events : List (Event V E)) : List α :=
  (faces events).filterMap fun face => face.vertices?.map (form face.edges)

theorem handed_append (form : Triangle E → Triangle V → α) (xs ys : List (Event V E)) :
    handed form (xs ++ ys) = handed form xs ++ handed form ys := by
  simp [handed, faces_append]

theorem summary_append (xs ys : List (Event V E)) :
    summary (xs ++ ys) 0 = summary xs 0 + summary ys 0 := by
  simp only [summary, realFaces, faces_append, List.filter_append, List.filterMap_append,
    List.length_append, List.count_append]
  rfl

theorem summary_add (events : List (Event V E)) (regionsWalked : Nat) :
    { regionsWalked } + summary events 0 = summary events regionsWalked := by
  show Summary.mk (0 + _) (0 + _) (0 + _) (0 + _) _ = _
  simp only [Nat.zero_add]
  rfl

end Event

/-- Where a traversal with a sink stands: the flags, what the sink was given, the counters. -/
structure Handing (α : Type) where
  marks : MarkSet
  items : List α
  counted : Summary

namespace Handing

/-- A face was claimed. It goes to the sink unless it touches the ghost vertex. -/
def take (h : Handing α) (form : Triangle E → Triangle V → α) (face : Face V E)
    (marks : MarkSet) : Handing α :=
  let counted := { h.counted with facesVisited := h.counted.facesVisited + 1 }
  match face.vertices? with
  | some vertices =>
      ⟨marks, h.items ++ [form face.edges vertices],
        { counted with trianglesEmitted := counted.trianglesEmitted + 1 }⟩
  | none => ⟨marks, h.items, { counted with ghostsSuppressed := counted.ghostsSuppressed + 1 }⟩

/-- A crossing was refused. -/
def refuse (h : Handing α) : Handing α :=
  { h with counted := { h.counted with
      borderCrossingsRefused := h.counted.borderCrossingsRefused + 1 } }

/-- Where the traversal stands after some events. -/
def after (h : Handing α) (form : Triangle E → Triangle V → α) (events : List (Event V E))
    (marks : MarkSet) : Handing α where
  marks
  items := h.items ++ Event.handed form events
  counted := h.counted + Event.summary events 0

variable {form : Triangle E → Triangle V → α} {marks marks' : MarkSet}

@[simp] theorem after_nil (h : Handing α) (form : Triangle E → Triangle V → α) :
    h.after form [] h.marks = h := by
  unfold after
  rw [show Event.handed form [] = [] from rfl, List.append_nil]
  rfl

@[simp] theorem marks_after (h : Handing α) (form : Triangle E → Triangle V → α)
    (events : List (Event V E)) (marks : MarkSet) : (h.after form events marks).marks = marks := rfl

@[simp] theorem after_append (h : Handing α) (events more : List (Event V E)) :
    (h.after form events marks).after form more marks' = h.after form (events ++ more) marks' := by
  simp [after, Event.handed_append, Event.summary_append, Summary.add_assoc]

@[simp] theorem after_passed (h : Handing α) (e : E) (events : List (Event V E)) :
    h.after form (.passed e :: events) marks = h.after form events marks := rfl

@[simp] theorem take_eq (h : Handing α) (form : Triangle E → Triangle V → α) (face : Face V E)
    (marks : MarkSet) : h.take form face marks = h.after form [.claimed face] marks := by
  unfold take after
  cases hvertices : face.vertices? with
  | some vertices =>
      simp [Event.handed, Event.faces, Event.face?, Event.summary, Event.realFaces, Face.isGhost,
        hvertices]
      rfl
  | none =>
      simp [Event.handed, Event.faces, Event.face?, Event.summary, Event.realFaces, Face.isGhost,
        hvertices]
      rfl

theorem refuse_eq (h : Handing α) (form : Triangle E → Triangle V → α) (side : E) :
    h.refuse = h.after form [.tested side true] h.marks := by
  unfold after
  rw [show Event.handed form [Event.tested side true] = [] from rfl, List.append_nil]
  rfl

theorem after_crossed (h : Handing α) (form : Triangle E → Triangle V → α) (side : E) :
    h.after form [.tested side false] h.marks = h :=
  h.after_nil form

end Handing

namespace Triangulation

variable {T : Triangulation V E} {form : Triangle E → Triangle V → α} {h h' : Handing α}
  {e : E} {rest stack' : List E}

/-! ## Region walks with a sink -/

/-- Looks across the sides of a claimed face in turn. A crossing is refused at a border; else the
edge beyond is put on the stack. -/
def crossInto (T : Triangulation V E) : List E → Handing α → List E →
    Handing α × Except Fault (List E)
  | [], h, stack => (h, .ok stack)
  | side :: sides, h, stack =>
      match T.dual side with
      | .error fault => (h, .error fault)
      | .ok next =>
          match T.isClaimed h.marks next with
          | .error fault => (h, .error fault)
          | .ok true => T.crossInto sides h stack
          | .ok false =>
              match T.isRegionBorder side with
              | .error fault => (h, .error fault)
              | .ok true => T.crossInto sides h.refuse stack
              | .ok false => T.crossInto sides h (next :: stack)

/-- Takes an edge off the stack, and claims its left face if that is open. -/
def stepInto (T : Triangulation V E) (form : Triangle E → Triangle V → α) (h : Handing α) (e : E)
    (rest : List E) : Handing α × Except Fault (List E) :=
  match T.isClaimed h.marks e with
  | .error fault => (h, .error fault)
  | .ok true => (h, .ok rest)
  | .ok false =>
      match T.claim h.marks e with
      | .error fault => (h, .error fault)
      | .ok (face, marks) =>
          T.crossInto [face.edges.second, face.edges.third] (h.take form face marks) rest

@[simp] theorem crossInto_nil (T : Triangulation V E) (h : Handing α) (stack : List E) :
    T.crossInto [] h stack = (h, .ok stack) := rfl

theorem crossInto_cons (form : Triangle E → Triangle V → α) (side : E) (sides : List E)
    (h : Handing α) (stack : List E) : T.crossInto (side :: sides) h stack =
      match T.lookAcross h.marks side with
      | .error fault => (h, .error fault)
      | .ok (events, way) =>
          T.crossInto sides (h.after form events h.marks) (way.toList ++ stack) := by
  simp only [crossInto, lookAcross, bind, Except.bind, pure, Except.pure]
  cases T.dual side with
  | error fault => rfl
  | ok next =>
      simp only []
      cases T.isClaimed h.marks next with
      | error fault => rfl
      | ok claimed =>
          cases claimed with
          | true => simp
          | false =>
              cases T.isRegionBorder side with
              | error fault => rfl
              | ok border =>
                  cases border <;> simp [Handing.refuse_eq h form side, Handing.after_crossed]

theorem crossInto_bounds {sides stack : List E}
    (hcross : T.crossInto sides h stack = (h', .ok stack')) :
    h'.marks = h.marks ∧ stack'.length ≤ stack.length + sides.length := by
  induction sides generalizing h stack with
  | nil =>
      cases hcross
      exact ⟨rfl, Nat.le_refl _⟩
  | cons side sides ih =>
      -- each way on adds one edge to the stack at most
      have hway : ∀ {h₁ : Handing α} {stack₁ : List E}, h₁.marks = h.marks →
          stack₁.length ≤ stack.length + 1 → T.crossInto sides h₁ stack₁ = (h', .ok stack') →
          h'.marks = h.marks ∧ stack'.length ≤ stack.length + (side :: sides).length := by
        intro h₁ stack₁ hmarks₁ hlength₁ hrest
        obtain ⟨hmarks, hlength⟩ := ih hrest
        rw [List.length_cons]
        exact ⟨hmarks.trans hmarks₁, by omega⟩
      unfold crossInto at hcross
      split at hcross
      · cases hcross
      · split at hcross
        · cases hcross
        · exact hway rfl (Nat.le_succ _) hcross
        · split at hcross
          · cases hcross
          · exact @hway h.refuse stack rfl (Nat.le_succ _) hcross
          · exact hway rfl (Nat.le_refl _) hcross

theorem stepInto_measure (hstep : T.stepInto form h e rest = (h', .ok stack')) :
    3 * h'.marks.free + stack'.length < 3 * h.marks.free + (e :: rest).length := by
  unfold stepInto at hstep
  split at hstep
  · cases hstep
  · cases hstep
    simp
  · next hopen =>
      split at hstep
      · cases hstep
      · next face marks hclaim =>
          obtain ⟨hmarks, hlength⟩ := crossInto_bounds hstep
          have hfree := free_lt_of_claim hopen hclaim
          rw [Handing.take_eq] at hmarks
          rw [hmarks, List.length_cons]
          simp only [Handing.after, List.length_cons, List.length_nil] at hlength ⊢
          omega

/-- A region walk with a sink. -/
def exploreInto (T : Triangulation V E) (form : Triangle E → Triangle V → α) (h : Handing α)
    (stack : List E) : Handing α × Option Fault :=
  match stack with
  | [] => (h, none)
  | e :: rest =>
      match _hstep : T.stepInto form h e rest with
      | (h, .error fault) => (h, some fault)
      | (h, .ok stack) => T.exploreInto form h stack
termination_by 3 * h.marks.free + stack.length
decreasing_by exact stepInto_measure _hstep

theorem exploreInto_cons : T.exploreInto form h (e :: rest) =
    match T.stepInto form h e rest with
    | (h, .error fault) => (h, some fault)
    | (h, .ok stack) => T.exploreInto form h stack := by
  rw [exploreInto]
  split <;> simp_all

/-- It goes as the walk does. -/
theorem exploreInto_eq (T : Triangulation V E) (form : Triangle E → Triangle V → α)
    (marks : MarkSet) (stack : List E) (h : Handing α) (hmarks : h.marks = marks) :
    T.exploreInto form h stack =
      (h.after form (T.explore marks stack).events (T.explore marks stack).marks,
        (T.explore marks stack).fault?) := by
  fun_induction Triangulation.explore T marks stack generalizing h with
  | case1 marks =>
      subst hmarks
      rw [exploreInto]
      simp [Trace.done]
  | case2 marks e rest _ hfault =>
      subst hmarks
      simp [exploreInto_cons, stepInto, hfault, Trace.broken]
  | case3 marks e rest hpassed ih =>
      subst hmarks
      simp [exploreInto_cons, stepInto, hpassed, ih h rfl]
  | case4 marks e rest hopen _ hfault =>
      subst hmarks
      simp [exploreInto_cons, stepInto, hopen, hfault, Trace.broken]
  | case5 marks e rest hopen face marked hface _ hfault =>
      subst hmarks
      simp [exploreInto_cons, stepInto, hopen, hface, crossInto_cons form, hfault, Trace.broken]
  | case6 marks e rest hopen face marked hface events₁ _ hlook₁ _ hfault =>
      subst hmarks
      simp [exploreInto_cons, stepInto, hopen, hface, crossInto_cons form, hlook₁, hfault,
        Trace.broken]
  | case7 marks e rest hopen face marked hface events₁ way₁ hlook₁ events₂ way₂ hlook₂ ih =>
      subst hmarks
      have hrest := ih (h.after form (.claimed face :: (events₁ ++ events₂)) marked) rfl
      simpa [exploreInto_cons, stepInto, hopen, hface, crossInto_cons form, hlook₁, hlook₂]
        using hrest

/-! ## Scans with a sink -/

/-- Tries the face on the left of each edge in turn. -/
def scanSidesInto (T : Triangulation V E) (form : Triangle E → Triangle V → α) :
    List E → Handing α → Handing α × Option Fault
  | [], h => (h, none)
  | e :: rest, h =>
      match T.isClaimed h.marks e with
      | .error fault => (h, some fault)
      | .ok true => T.scanSidesInto form rest h
      | .ok false =>
          match T.claim h.marks e with
          | .error fault => (h, some fault)
          | .ok (face, marks) => T.scanSidesInto form rest (h.take form face marks)

/-- Tries both sides of each base edge in turn. -/
def scanEdgesInto (T : Triangulation V E) (form : Triangle E → Triangle V → α) :
    List E → Handing α → Handing α × Option Fault
  | [], h => (h, none)
  | e :: rest, h =>
      match T.dual e with
      | .error fault => (h, some fault)
      | .ok d =>
          match T.scanSidesInto form [e, d] h with
          | (h, some fault) => (h, some fault)
          | (h, none) => T.scanEdgesInto form rest h

theorem scanSidesInto_eq (T : Triangulation V E) (form : Triangle E → Triangle V → α)
    (es : List E) (h : Handing α) :
    T.scanSidesInto form es h =
      (h.after form (T.scanSides es h.marks).events (T.scanSides es h.marks).marks,
        (T.scanSides es h.marks).fault?) := by
  induction es generalizing h with
  | nil => simp [scanSidesInto, scanSides, Trace.done]
  | cons e rest ih =>
      unfold scanSidesInto scanSides
      cases hclaimed : T.isClaimed h.marks e with
      | error fault => simp [Trace.broken]
      | ok claimed =>
          cases claimed with
          | true => simp [ih h]
          | false =>
              cases hclaim : T.claim h.marks e with
              | error fault => simp [Trace.broken]
              | ok claim => simp [ih]

theorem scanEdgesInto_eq (T : Triangulation V E) (form : Triangle E → Triangle V → α)
    (es : List E) (h : Handing α) :
    T.scanEdgesInto form es h =
      (h.after form (T.scanEdges es h.marks).events (T.scanEdges es h.marks).marks,
        (T.scanEdges es h.marks).fault?) := by
  induction es generalizing h with
  | nil => simp [scanEdgesInto, scanEdges, Trace.done]
  | cons e rest ih =>
      unfold scanEdgesInto scanEdges
      cases hdual : T.dual e with
      | error fault => simp [Trace.broken]
      | ok d =>
          simp only [T.scanSidesInto_eq form [e, d] h, Trace.andThen]
          cases hfault : (T.scanSides [e, d] h.marks).fault? with
          | some fault => simp [hfault]
          | none => simp [ih]

end Triangulation

/-! ## What the caller gets -/

/-- What the caller of a traversal with a sink gets: what the sink was given, in order, and the
summary or the reason why there is none. -/
structure Handed (α : Type) where
  items : List α
  result : Except Failure Summary

/-- What a sink gets that is given the triangles of a report. -/
def Report.handed (report : Report V E) (form : Triangle E → Triangle V → α) : Handed α :=
  ⟨Event.handed form report.events, report.result⟩

namespace Handing

/-- A traversal begins: no flag is set and nothing was given to the sink. -/
def start (marks : MarkSet) (regionsWalked : Nat) : Handing α := ⟨marks, [], { regionsWalked }⟩

/-- A traversal is over. -/
def finish (h : Handing α) (fault? : Option Fault) : Handed α where
  items := h.items
  result :=
    match fault? with
    | some fault => .error (.fault fault)
    | none => .ok h.counted

theorem finish_after_start (form : Triangle E → Triangle V → α) (marks : MarkSet)
    (started : Record V E) (finished : Summary → Record V E) (regionsWalked : Nat)
    (trace : Trace V E) :
    ((start marks regionsWalked).after form trace.events trace.marks).finish trace.fault? =
      (Report.ofTrace started finished regionsWalked trace).handed form := by
  simp only [start, after, finish, Report.ofTrace, Report.handed, Event.summary_add,
    List.nil_append]
  cases trace.fault? <;> rfl

end Handing

namespace Triangulation

/-- The region that is reached from a linking edge, with a sink. -/
def walkFromInto (T : Triangulation V E) (form : Triangle E → Triangle V → α) (link : E)
    (options : WalkOptions) : Handed α :=
  match T.prepareWalk options with
  | .error fault => ⟨[], .error (.fault fault)⟩
  | .ok marks =>
      let (h, fault?) := T.exploreInto form (.start marks 1) [link]
      h.finish fault?

/-- A scan with a sink. -/
def scanInto (T : Triangulation V E) (form : Triangle E → Triangle V → α)
    (options : WalkOptions) : Handed α :=
  if T.isBootstrapped then
    match MarkSet.ofMaxIndex T.maxEdgeIndex options.markSlack with
    | .error fault => ⟨[], .error (.fault fault)⟩
    | .ok marks =>
        let (h, fault?) := T.scanEdgesInto form T.baseEdges (.start marks 0)
        h.finish fault?
  else ⟨[], .ok {}⟩

/-- Whatever the sink makes of a triangle, a region walk hands over what its report says. -/
theorem walkFromInto_eq (T : Triangulation V E) (form : Triangle E → Triangle V → α) (link : E)
    (options : WalkOptions) :
    T.walkFromInto form link options = (T.walkFrom link options).handed form := by
  unfold walkFromInto walkFrom
  cases T.prepareWalk options with
  | error fault => rfl
  | ok marks =>
      simp only [T.exploreInto_eq form marks [link] (.start marks 1) rfl]
      exact Handing.finish_after_start form ..

theorem scanInto_eq (T : Triangulation V E) (form : Triangle E → Triangle V → α)
    (options : WalkOptions) : T.scanInto form options = (T.scan options).handed form := by
  unfold scanInto scan
  split
  · cases MarkSet.ofMaxIndex T.maxEdgeIndex options.markSlack with
    | error fault => rfl
    | ok marks =>
        simp only [T.scanEdgesInto_eq form T.baseEdges (.start marks 0)]
        exact Handing.finish_after_start form ..
  · rfl

end Triangulation

/-- The triangles of the region that a constraint bounds, with a sink. -/
def Constraint.walkInto (c : Constraint V E) (form : Triangle E → Triangle V → α)
    (options : WalkOptions) : Handed α :=
  match c.mesh? with
  | none => ⟨[], .error (.error (.invalidArgument .unmanaged))⟩
  | some T =>
      if c.definesRegion then
        match c.linkingEdge? with
        | none => ⟨[], .error (.error (.invalidArgument .missingLinkingEdge))⟩
        | some link => if T.isBootstrapped then T.walkFromInto form link options else ⟨[], .ok {}⟩
      else ⟨[], .error (.error (.invalidArgument .notARegion))⟩

theorem Constraint.walkInto_eq (c : Constraint V E) (form : Triangle E → Triangle V → α)
    (options : WalkOptions) : c.walkInto form options = (c.walk options).handed form := by
  obtain ⟨mesh?, definesRegion, link?⟩ := c
  cases mesh? with
  | none => rfl
  | some T =>
      cases definesRegion with
      | false => rfl
      | true =>
          cases link? with
          | none => rfl
          | some link =>
              simp only [walkInto, walk, if_true]
              split
              · exact T.walkFromInto_eq form link options
              · rfl

/-! ## Vertices and edges -/

/-- The vertices of a claimed face can be read again from its edges. -/
theorem Face.ReadFrom.vertices_eq {T : Triangulation V E} {face : Face V E}
    (h : face.ReadFrom T) : T.vertices face.edges = .ok face.vertices? := by
  have horigins := h.origins_eq
  simp only [Triangle.mapM, bind_eq_ok_iff, pure, Except.pure, Except.ok.injEq] at horigins
  obtain ⟨a, ha, b, hb, c, hc, heq⟩ := horigins
  simp only [Triangulation.vertices, ha, hb, hc, Face.vertices?, ← heq, bind, Except.bind, pure,
    Except.pure]
  cases a <;> cases b <;> cases c <;> rfl

/-- The two forms of output, triangle by triangle. -/
theorem Event.map_some_triangles (events : List (Event V E)) :
    (triangles events).map some = (realFaces events).map Face.vertices? := by
  unfold triangles realFaces
  induction faces events with
  | nil => rfl
  | cons face rest ih =>
      cases hvertices : face.vertices? with
      | none => simp [Face.isGhost, hvertices, ih]
      | some vertices => simp [Face.isGhost, hvertices, ih]

/-- All claimed faces are as the mesh tells them; without a mesh there are none. -/
def Report.ReadFrom (report : Report V E) (mesh? : Option (Triangulation V E)) : Prop :=
  ∀ face ∈ Event.faces report.events, ∃ T ∈ mesh?, face.ReadFrom T

theorem Triangulation.readFrom_ofTrace {T : Triangulation V E} {marks : MarkSet}
    {trace : Trace V E} (h : T.Course marks trace.events trace.marks) (started : Record V E)
    (finished : Summary → Record V E) (regionsWalked : Nat) :
    (Report.ofTrace started finished regionsWalked trace).ReadFrom (some T) := by
  intro face hface
  rw [Report.events_ofTrace] at hface
  exact ⟨T, rfl, h.readFrom face hface⟩

theorem Report.readFrom_of_events {report : Report V E} (h : report.events = [])
    (mesh? : Option (Triangulation V E)) : report.ReadFrom mesh? := by
  intro face hface
  rw [h] at hface
  cases hface

theorem Triangulation.readFrom_walkFrom (T : Triangulation V E) (link : E)
    (options : WalkOptions) : (T.walkFrom link options).ReadFrom (some T) := by
  unfold walkFrom
  split
  · exact Report.readFrom_of_events rfl _
  · exact readFrom_ofTrace (T.course_explore _ _) _ _ _

theorem Triangulation.readFrom_scan (T : Triangulation V E) (options : WalkOptions) :
    (T.scan options).ReadFrom (some T) := by
  unfold scan
  split
  · split
    · exact Report.readFrom_of_events rfl _
    · exact readFrom_ofTrace (T.course_scanEdges _ _) _ _ _
  · exact Report.readFrom_of_events rfl _

theorem Constraint.readFrom_walk (c : Constraint V E) (options : WalkOptions) :
    (c.walk options).ReadFrom c.mesh? := by
  obtain ⟨mesh?, definesRegion, link?⟩ := c
  unfold walk
  cases mesh? with
  | none => exact Report.readFrom_of_events rfl _
  | some T =>
      simp only []
      split
      · split
        · exact Report.readFrom_of_events rfl _
        · split
          · exact T.readFrom_walkFrom _ options
          · exact Report.readFrom_of_events rfl _
      · exact Report.readFrom_of_events rfl _

/-- How the triangles of one report, handed over as vertices and as edges, go together. -/
structure Report.SameTriangles (report : Report V E) (mesh? : Option (Triangulation V E))
    (byVertices : Handed (Triangle V)) (byEdges : Handed (Triangle E)) : Prop where
  byVertices_eq : byVertices = ⟨report.triangles, report.result⟩
  byEdges_eq : byEdges = ⟨report.edgeTriangles, report.result⟩
  result_eq : byVertices.result = byEdges.result
  length_eq : byVertices.items.length = byEdges.items.length
  /-- The edges in one place are those around a face of the mesh, whose vertices stand in that
  place. -/
  tells : ∀ (i : Nat) vertices edges, byVertices.items[i]? = some vertices →
    byEdges.items[i]? = some edges → ∃ T ∈ mesh?, T.forward edges.first = .ok edges.second ∧
      T.reverse edges.first = .ok edges.third ∧ T.vertices edges = .ok (some vertices)

/-- A sink for vertices. -/
def Triangle.intoVertices (_ : Triangle E) (vertices : Triangle V) : Triangle V := vertices

/-- A sink for edges. -/
def Triangle.intoEdges (edges : Triangle E) (_ : Triangle V) : Triangle E := edges

theorem Report.handed_intoVertices (report : Report V E) :
    report.handed Triangle.intoVertices = ⟨report.triangles, report.result⟩ := by
  have hform : ∀ face : Face V E,
      face.vertices?.map (Triangle.intoVertices face.edges) = face.vertices? :=
    fun _ => Option.map_id'
  simp only [handed, Event.handed, hform]
  rfl

theorem Report.handed_intoEdges (report : Report V E) :
    report.handed Triangle.intoEdges = ⟨report.edgeTriangles, report.result⟩ := by
  have hitems : Event.handed Triangle.intoEdges report.events = report.edgeTriangles := by
    unfold Event.handed edgeTriangles Event.edgeTriangles Event.realFaces
    induction Event.faces report.events with
    | nil => rfl
    | cons face rest ih =>
        cases hvertices : face.vertices? with
        | none => simp [Face.isGhost, hvertices, ih]
        | some vertices => simp [Face.isGhost, hvertices, ih, Triangle.intoEdges]
  rw [handed, hitems]

theorem Report.sameTriangles {report : Report V E} {mesh? : Option (Triangulation V E)}
    (h : report.ReadFrom mesh?) : report.SameTriangles mesh?
      (report.handed Triangle.intoVertices) (report.handed Triangle.intoEdges) := by
  rw [report.handed_intoVertices, report.handed_intoEdges]
  constructor
  case byVertices_eq => rfl
  case byEdges_eq => rfl
  case result_eq => rfl
  case length_eq =>
    show report.triangles.length = report.edgeTriangles.length
    rw [triangles, edgeTriangles, Event.length_triangles, Event.length_edgeTriangles]
  case tells =>
    intro i vertices edges hvertices hedges
    obtain ⟨face, hface, rfl⟩ : ∃ face, (Event.realFaces report.events)[i]? = some face ∧
        face.edges = edges := by
      simpa [edgeTriangles, Event.edgeTriangles] using hedges
    -- the same face stands in that place of both lists
    have hsame : face.vertices? = some vertices := by
      have hplace := congrArg (·[i]?) (Event.map_some_triangles report.events)
      simp only [List.getElem?_map, hface, Option.map_some] at hplace
      change report.triangles[i]? = some vertices at hvertices
      change report.triangles[i]?.map some = _ at hplace
      rw [hvertices] at hplace
      exact (Option.some.inj hplace).symm
    have hmem := List.mem_of_getElem? hface
    obtain ⟨T, hT, hread⟩ := h face (List.mem_of_mem_filter hmem)
    exact ⟨T, hT, hread.forward_eq, hread.reverse_eq, hread.vertices_eq.trans (by rw [hsame])⟩

/-- A sink for vertices and a sink for edges get the same triangles and the same result, from any
scan and any walk. -/
theorem Triangulation.outputs_agree (T : Triangulation V E) (c : Constraint V E)
    (options : WalkOptions) :
    (T.scan options).SameTriangles (some T) (T.scanInto Triangle.intoVertices options)
        (T.scanInto Triangle.intoEdges options) ∧
      (c.walk options).SameTriangles c.mesh? (c.walkInto Triangle.intoVertices options)
        (c.walkInto Triangle.intoEdges options) := by
  rw [scanInto_eq, scanInto_eq, Constraint.walkInto_eq, Constraint.walkInto_eq]
  exact ⟨Report.sameTriangles (T.readFrom_scan options),
    Report.sameTriangles (c.readFrom_walk options)⟩

end TinFaces
