import TinFaces.Proofs.FullScan
import TinFaces.Proofs.LiveEdges
import TinFaces.Proofs.Sinks

/-!
# A scan in two cases

One can tell ghost faces by the pair at hand: both faces of a pair that ends at the ghost vertex
are ghost faces, so they are marked and nothing is reported; of any other pair, each side begins a
face whose first two corners are vertices, so that the third corner alone decides whether the face
is reported (`Triangulation.scanInCases`).

A scan does not look at the pair. It claims every open face alike and asks for all three corners.
On a lawful mesh in which the next edge starts where an edge ends, both come to the same
(`Lawful.Joins.scanPair_eq`): a ghost pair may be marked again, as marking a claimed face changes
no flag (`Lawful.Marked.markLeft_of_claimed`). So the two report the same faces in the same order
and leave the same marks, on every mesh that can come about
(`Mesh.Reachable.scan_eq_scanInCases`).
-/

namespace TinFaces

variable {V E : Type}

/-! ## Two cases -/

namespace Triangulation

/-- The edges of the face on the left of `e`, from `e` on. -/
def leftEdges (T : Triangulation V E) (e : E) : Except Fault (Triangle E) := do
  return ⟨e, ← T.forward e, ← T.reverse e⟩

/-- Sets the flags of the face on the left of `e`. -/
def markLeft (T : Triangulation V E) (marks : MarkSet) (e : E) : Except Fault MarkSet := do
  let indices ← (← T.leftEdges e).mapM T.edgeIndex
  let marks ← marks.mark indices.first
  let marks ← marks.mark indices.second
  marks.mark indices.third

/-- Marks the face on the left of a side, if it is unmarked, and gives it, unless the next edge
ends at the ghost vertex. -/
def trySide (T : Triangulation V E) (marks : MarkSet) (side : E) :
    Except Fault (List (Face V E) × MarkSet) := do
  if ← T.isClaimed marks side then
    return ([], marks)
  let marks ← T.markLeft marks side
  let edges ← T.leftEdges side
  match ← T.destination edges.second with
  | none => return ([], marks)
  | some _ => return ([⟨edges, ← edges.mapM T.origin⟩], marks)

/-- The two cases: a pair that ends at the ghost vertex has its faces marked, of any other pair
both sides are tried. -/
def scanPair (T : Triangulation V E) (marks : MarkSet) (e : E) :
    Except Fault (List (Face V E) × MarkSet) := do
  let d ← T.dual e
  if ← T.isGhostEdge e then
    let marks ← T.markLeft marks e
    let marks ← T.markLeft marks d
    return ([], marks)
  else
    let (first, marks) ← T.trySide marks e
    let (second, marks) ← T.trySide marks d
    return (first ++ second, marks)

/-- Takes pairs in turn. Gives the faces that are reported and the marks that are left. -/
def scanPairs (T : Triangulation V E) :
    List E → MarkSet → Except Fault (List (Face V E) × MarkSet)
  | [], marks => return ([], marks)
  | e :: rest, marks => do
      let (faces, marks) ← T.scanPair marks e
      let (more, marks) ← T.scanPairs rest marks
      return (faces ++ more, marks)

/-- A scan in two cases. -/
def scanInCases (T : Triangulation V E) (options : WalkOptions) :
    Except Fault (List (Face V E) × MarkSet) := do
  let marks ← MarkSet.ofMaxIndex T.maxEdgeIndex options.markSlack
  T.scanPairs T.baseEdges marks

end Triangulation

/-! ## What a walk comes to -/

namespace Event

theorem realFaces_claimed (face : Face V E) :
    realFaces [.claimed face] = if face.isGhost then [] else [face] := by
  cases hghost : face.isGhost <;> simp [realFaces, faces, face?, hghost]

end Event

namespace Trace

/-- The faces that are reported and the marks that are left, unless the walk broke off. -/
def result (trace : Trace V E) : Except Fault (List (Face V E) × MarkSet) :=
  match trace.fault? with
  | some fault => .error fault
  | none => .ok (Event.realFaces trace.events, trace.marks)

theorem result_eq_ok {trace : Trace V E} (h : trace.fault? = none) :
    trace.result = .ok (Event.realFaces trace.events, trace.marks) := by
  rw [result, h]

/-- One walk after another reports the faces of both. -/
theorem result_andThen (trace : Trace V E) (next : MarkSet → Trace V E) :
    (trace.andThen next).result = (do
      let (faces, marks) ← trace.result
      let (more, marks) ← (next marks).result
      return (faces ++ more, marks)) := by
  cases hfault : trace.fault? with
  | some fault =>
      simp only [andThen, result, hfault]
      rfl
  | none =>
      have hthen : trace.andThen next = (next trace.marks).after trace.events := by
        rw [andThen, hfault]
      rw [hthen, result_eq_ok hfault]
      show _ = (next trace.marks).result >>= _
      cases hnext : (next trace.marks).fault? with
      | some fault =>
          simp only [result, fault?_after, hnext]
          rfl
      | none =>
          rw [result_eq_ok hnext, result_eq_ok (by simpa using hnext), events_after,
            Event.realFaces_append]
          rfl

end Trace

/-- A scan of sides, as one stretch after another. -/
theorem Triangulation.scanSides_cons (T : Triangulation V E) (e : E) (rest : List E)
    (marks : MarkSet) :
    T.scanSides (e :: rest) marks = (T.scanSides [e] marks).andThen (T.scanSides rest) := by
  simp only [scanSides]
  cases T.isClaimed marks e with
  | error fault => rfl
  | ok claimed =>
      cases claimed with
      | true => rfl
      | false => cases T.claim marks e <;> rfl

namespace Lawful

variable {T : Triangulation V E} {edges : Set E} {L : Lawful T edges} {marks : MarkSet}
  {entries : List E} {e : E}

/-! ## Marking a face -/

theorem leftEdges_eq (L : Lawful T edges) (he : e ∈ edges) : T.leftEdges e = .ok (L.sides e) := by
  unfold Triangulation.leftEdges
  rw [L.forward_eq e he, L.reverse_eq e he]
  rfl

theorem destination_eq (L : Lawful T edges) (he : e ∈ edges) :
    T.destination e = .ok (L.origin (L.dual e)) := by
  unfold Triangulation.destination
  rw [L.dual_eq e he]
  exact L.origin_eq _ (L.dual_mem e he)

theorem mapM_sides {α : Type} (L : Lawful T edges) {f : E → Except Fault α} {g : E → α}
    (hfg : ∀ x ∈ edges, f x = .ok (g x)) (he : e ∈ edges) :
    (L.sides e).mapM f = .ok ((L.sides e).map g) := by
  have hf := L.forward_mem e he
  simp only [Triangle.mapM, sides, hfg e he, hfg _ hf, hfg _ (L.forward_mem _ hf)]
  rfl

/-- Marking a face is what a claim does to the flags. -/
theorem markLeft_of_claim {face : Face V E} {marks' : MarkSet}
    (h : T.claim marks e = .ok (face, marks')) : T.markLeft marks e = .ok marks' := by
  simp only [Triangulation.claim, bind_eq_ok_iff, pure, Except.pure, Except.ok.injEq] at h
  obtain ⟨f, hf, r, hr, indices, hindices, m₁, h₁, m₂, h₂, m₃, h₃, _, _, heq⟩ := h
  cases heq
  unfold Triangulation.markLeft Triangulation.leftEdges
  simp only [hf, hr, bind, Except.bind, pure, Except.pure, hindices, h₁, h₂, h₃]

/-- Marking a claimed face again changes no flag. -/
theorem Marked.markLeft_of_claimed (h : L.Marked marks entries)
    (hentries : ∀ c ∈ entries, c ∈ edges) (he : e ∈ edges) (hclaimed : L.Claimed entries e) :
    T.markLeft marks e = .ok marks := by
  have hset : ∀ x ∈ edges, L.SameFace e x → marks.mark (L.index x) = .ok marks := fun x hx hface =>
    MarkSet.mark_of_isSet ((h.isSet_iff x hx).2 (hclaimed.trans hentries hface))
  have hf := L.forward_mem e he
  have hr := L.forward_mem _ hf
  unfold Triangulation.markLeft
  rw [L.leftEdges_eq he]
  show ((L.sides e).mapM T.edgeIndex >>= _) = _
  rw [L.mapM_sides L.index_eq he]
  show (marks.mark (L.index e) >>= _) = _
  rw [hset e he (L.sameFace_refl e)]
  show (marks.mark (L.index (L.forward e)) >>= _) = _
  rw [hset _ hf (L.sameFace_forward e)]
  exact hset _ hr (.inr (.inr rfl))

/-! ## One side -/

/-- The next edge around a face starts where an edge ends. -/
def Joins (L : Lawful T edges) : Prop := ∀ e ∈ edges, L.origin (L.forward e) = L.origin (L.dual e)

/-- What a scan does at one side. -/
theorem Marked.scanSides_singleton (h : L.Marked marks entries) (he : e ∈ edges) :
    (L.Claimed entries e ∧ T.isClaimed marks e = .ok true ∧
      T.scanSides [e] marks = ⟨[.passed e], marks, none⟩) ∨
    (T.isClaimed marks e = .ok false ∧ ∃ marks', T.claim marks e = .ok (L.face e, marks') ∧
      T.scanSides [e] marks = ⟨[.claimed (L.face e)], marks', none⟩) := by
  obtain ⟨b, hb, hclaimed⟩ := h.isClaimed_eq he
  cases b with
  | true =>
      refine .inl ⟨hclaimed.1 rfl, hb, ?_⟩
      simp only [Triangulation.scanSides, hb]
      rfl
  | false =>
      obtain ⟨marks', hclaim, _⟩ := h.claim_eq he
      refine .inr ⟨hb, marks', hclaim, ?_⟩
      simp only [Triangulation.scanSides, hb, hclaim]
      rfl

/-- Whether the face is open or not, to mark it leaves the marks that a scan leaves. -/
theorem Marked.markLeft_eq (h : L.Marked marks entries) (hentries : ∀ c ∈ entries, c ∈ edges)
    (he : e ∈ edges) : T.markLeft marks e = .ok (T.scanSides [e] marks).marks := by
  rcases h.scanSides_singleton he with ⟨hclaimed, _, hscan⟩ | ⟨_, marks', hclaim, hscan⟩
  · rw [hscan]
    exact h.markLeft_of_claimed hentries he hclaimed
  · rw [hscan]
    exact markLeft_of_claim hclaim

/-- A scan reports nothing at a side of a ghost face. -/
theorem Marked.realFaces_of_ghost (h : L.Marked marks entries) (he : e ∈ edges)
    (hghost : L.isReal e = false) : Event.realFaces (T.scanSides [e] marks).events = [] := by
  rcases h.scanSides_singleton he with ⟨_, _, hscan⟩ | ⟨_, marks', _, hscan⟩
  · rw [hscan]
    rfl
  · rw [hscan, Event.realFaces_claimed, L.isGhost_face, hghost]
    rfl

/-- At a side that joins vertices, where the next edge ends tells whether the face is a ghost. -/
theorem Marked.trySide_eq (h : L.Marked marks entries) (hjoins : L.Joins) (he : e ∈ edges)
    (hstart : (L.origin e).isSome) (hend : (L.origin (L.dual e)).isSome) :
    T.trySide marks e = (T.scanSides [e] marks).result := by
  have hf := L.forward_mem e he
  have hdestination : T.destination (L.sides e).second =
      .ok (L.origin (L.forward (L.forward e))) := by
    rw [hjoins _ hf]
    exact L.destination_eq hf
  have hreal : L.isReal e = (L.origin (L.forward (L.forward e))).isSome := by
    rw [isReal, hjoins e he, hstart, hend]
    rfl
  unfold Triangulation.trySide
  rcases h.scanSides_singleton he with ⟨_, hb, hscan⟩ | ⟨hb, marks', hclaim, hscan⟩
  · rw [hb, hscan]
    rfl
  · rw [hb, hscan, Trace.result_eq_ok rfl, Event.realFaces_claimed, L.isGhost_face, hreal]
    simp only [bind, Except.bind, Bool.false_eq_true, if_false, markLeft_of_claim hclaim,
      L.leftEdges_eq he, hdestination, L.mapM_sides L.origin_eq he]
    cases L.origin (L.forward (L.forward e)) <;> rfl

/-! ## One pair -/

/-- The entries of a stretch of a scan are edges. -/
theorem mem_of_mem_append_firsts (hentries : ∀ c ∈ entries, c ∈ edges) {es : List E}
    (hes : ∀ e ∈ es, e ∈ edges) : ∀ c ∈ entries ++ L.firsts entries es, c ∈ edges := by
  intro c hc
  rcases List.mem_append.1 hc with hc | hc
  · exact hentries c hc
  · exact hes c (L.mem_of_mem_firsts hc)

theorem isGhostEdge_eq (L : Lawful T edges) (he : e ∈ edges) :
    T.isGhostEdge e = .ok ((L.origin e).isNone || (L.origin (L.dual e)).isNone) := by
  unfold Triangulation.isGhostEdge
  rw [L.origin_eq e he, L.destination_eq he]
  cases L.origin e <;> rfl

/-- Both faces of a pair that ends at the ghost vertex are ghosts. -/
theorem Joins.isReal_of_ghostEdge (hjoins : L.Joins) (he : e ∈ edges)
    (hghost : (L.origin e).isNone = true ∨ (L.origin (L.dual e)).isNone = true) :
    L.isReal e = false ∧ L.isReal (L.dual e) = false := by
  have hnext := hjoins e he
  have hback := hjoins _ (L.dual_mem e he)
  rw [L.dual_dual e he] at hback
  -- each of the faces has both ends of the pair among its corners
  rcases hghost with hnone | hnone <;> rw [Option.isNone_iff_eq_none] at hnone <;>
    simp [isReal, hnext, hback, hnone]

/-- The two cases come to what a scan of both sides comes to. -/
theorem Marked.scanPair_eq (h : L.Marked marks entries) (hentries : ∀ c ∈ entries, c ∈ edges)
    (hjoins : L.Joins) (he : e ∈ edges) :
    T.scanPair marks e = (T.scanSides [e, L.dual e] marks).result := by
  have hd := L.dual_mem e he
  have hside : ∀ x ∈ [e], x ∈ edges := by simpa using he
  have hother : ∀ x ∈ [L.dual e], x ∈ edges := by simpa using hd
  have hfirst := swept_scanSides hside h
  have hmarked := hfirst.marked
  have hsecond := swept_scanSides hother hmarked
  rw [T.scanSides_cons, Trace.result_andThen]
  unfold Triangulation.scanPair
  rw [L.dual_eq e he, L.isGhostEdge_eq he]
  simp only [bind, Except.bind]
  by_cases hghost : ((L.origin e).isNone || (L.origin (L.dual e)).isNone) = true
  case pos =>
    obtain ⟨hleft, hright⟩ := hjoins.isReal_of_ghostEdge he (Bool.or_eq_true_iff.1 hghost)
    rw [if_pos hghost, h.markLeft_eq hentries he, Trace.result_eq_ok hfirst.fault?_eq,
      h.realFaces_of_ghost he hleft]
    dsimp only
    rw [hmarked.markLeft_eq (mem_of_mem_append_firsts hentries hside) hd,
      Trace.result_eq_ok hsecond.fault?_eq, hmarked.realFaces_of_ghost hd hright]
    rfl
  case neg =>
    have hends : (L.origin e).isSome = true ∧ (L.origin (L.dual e)).isSome = true := by
      simpa [Option.isSome_iff_ne_none] using hghost
    have hback : (L.origin (L.dual (L.dual e))).isSome = true := by
      rw [L.dual_dual e he]
      exact hends.1
    rw [if_neg hghost, h.trySide_eq hjoins he hends.1 hends.2,
      Trace.result_eq_ok hfirst.fault?_eq]
    dsimp only
    rw [hmarked.trySide_eq hjoins hd hends.2 hback]

/-! ## All pairs -/

/-- Pair by pair, the two cases come to what a scan comes to. -/
theorem Joins.scanPairs_eq (hjoins : L.Joins) {es : List E} (hes : ∀ e ∈ es, e ∈ edges)
    (h : L.Marked marks entries) (hentries : ∀ c ∈ entries, c ∈ edges) :
    T.scanPairs es marks = (T.scanEdges es marks).result := by
  -- on the list; the marks always stand for the entries claimed so far
  induction es generalizing marks entries with
  | nil => rfl
  | cons e rest ih =>
      have he : e ∈ edges := hes e List.mem_cons_self
      have hrest : ∀ x ∈ rest, x ∈ edges := fun x hx => hes x (List.mem_cons_of_mem _ hx)
      have hpair : ∀ x ∈ [e, L.dual e], x ∈ edges := by
        simpa using ⟨he, L.dual_mem e he⟩
      have hsides := swept_scanSides hpair h
      rw [Triangulation.scanPairs, Triangulation.scanEdges, L.dual_eq e he]
      dsimp only
      rw [h.scanPair_eq hentries hjoins he, Trace.result_andThen,
        Trace.result_eq_ok hsides.fault?_eq]
      simp only [bind, Except.bind]
      rw [ih hrest hsides.marked (mem_of_mem_append_firsts hentries hpair)]

/-- With room for the marks, the scan in two cases comes to what a scan comes to. -/
theorem Joins.scanInCases_eq (hjoins : L.Joins) (hbase : ∀ e ∈ T.baseEdges, e ∈ edges)
    {options : WalkOptions} (hroom : T.maxEdgeIndex + 1 + options.markSlack ≤ maxCount) :
    T.scanInCases options = (T.scanEdges T.baseEdges
      (.withCapacity (T.maxEdgeIndex + 1 + options.markSlack))).result := by
  unfold Triangulation.scanInCases
  rw [MarkSet.ofMaxIndex_eq_ok hroom]
  exact hjoins.scanPairs_eq hbase (L.marked_nil options.markSlack) (by simp)

end Lawful

/-! ## Meshes that can come about -/

namespace Mesh

variable {m : Mesh} {triangles : List (Triangle Nat)}

theorem Realizes.joins (h : m.Realizes triangles) : h.lawful.Joins := by
  intro e he
  obtain ⟨f, _, hlinks⟩ := h.exists_linksTriangle he
  obtain ⟨v, horigin, hdestination⟩ := hlinks.joins
  have hforward : h.lawful.forward e = f :=
    Except.ok.inj ((h.lawful.forward_eq e he).symm.trans hlinks.forward_eq)
  have hnext := h.lawful.origin_eq _ (h.lawful.forward_mem e he)
  have hdual := h.lawful.origin_eq _ (h.lawful.dual_mem e he)
  rw [hforward] at hnext ⊢
  exact (Except.ok.inj (hnext.symm.trans horigin)).trans
    (Except.ok.inj (hdual.symm.trans hdestination)).symm

/-- On a mesh with triangles that can come about, a scan reports the faces that the scan in two
cases reports, in the same order, and leaves the same marks. If there are too many flags to count,
neither begins. -/
theorem Reachable.scan_eq_scanInCases (h : m.Reachable) (hbootstrapped : m.isBootstrapped = true)
    (options : WalkOptions) :
    let T := m.surface.toTriangulation
    let capacity := T.maxEdgeIndex + 1 + options.markSlack
    let trace := T.scanEdges T.baseEdges (.withCapacity capacity)
    (capacity ≤ maxCount →
      T.scan options = .ofTrace (.scanStarted T.maxEdgeIndex capacity) .scanFinished 0 trace ∧
      (T.scan options).result = .ok (Event.summary (T.scan options).events 0) ∧
      ∃ faces, T.scanInCases options = .ok (faces, trace.marks) ∧
        (T.scan options).edgeTriangles = faces.map Face.edges ∧
        (T.scan options).triangles.map some = faces.map Face.vertices?) ∧
    (maxCount < capacity →
      T.scan options = .broken .addOverflow ∧ T.scanInCases options = .error .addOverflow) := by
  intro T capacity trace
  obtain ⟨triangles, hrealizes⟩ := h.exists_realizes
  have hbegun : T.isBootstrapped = true := hbootstrapped
  have hbase : ∀ e ∈ T.baseEdges, m.pool.isLive e.slot = true :=
    fun _ he => (EdgePool.mem_baseEdges.1 he).2
  constructor
  · intro hroom
    have hswept := Lawful.swept_scanEdges (L := hrealizes.lawful) hbase
      (Lawful.marked_nil options.markSlack)
    have hscan : T.scan options =
        .ofTrace (.scanStarted T.maxEdgeIndex capacity) .scanFinished 0 trace :=
      Lawful.scan_eq_ofTrace hbegun hroom
    have hevents : (T.scan options).events = trace.events := by
      rw [hscan, Report.events_ofTrace]
    obtain ⟨_, _, hresult⟩ := hrealizes.lawful.scan_eq hbegun hbase hroom
    refine ⟨hscan, hresult, Event.realFaces trace.events, ?_, ?_, ?_⟩
    · rw [hrealizes.joins.scanInCases_eq hbase hroom]
      exact Trace.result_eq_ok hswept.fault?_eq
    · rw [Report.edgeTriangles, hevents]
      rfl
    · rw [Report.triangles, hevents]
      exact Event.map_some_triangles _
  · intro hfull
    have hnone := MarkSet.ofMaxIndex_eq_error hfull
    unfold Triangulation.scan Triangulation.scanInCases
    rw [if_pos hbegun, hnone]
    exact ⟨rfl, rfl⟩

/-- The square with its diagonal as a constraint: one triangle is reported at its first pair, the
other at the dual of the diagonal. -/
theorem square_scan_eq_scanInCases :
    let T := (squareMesh.edit (.addConstraint (.line [⟨0⟩, ⟨2⟩]))).surface.toTriangulation
    let trace := T.scanEdges T.baseEdges (.withCapacity (T.maxEdgeIndex + 1 + 2))
    ∃ faces, T.scanInCases {} = .ok (faces, trace.marks) ∧
      (T.scan {}).edgeTriangles = faces.map Face.edges ∧
      (T.scan {}).triangles.map some = faces.map Face.vertices? := by
  intro T trace
  have hreachable := (Reachable.build build_square).edit (.addConstraint (.line [⟨0⟩, ⟨2⟩]))
  obtain ⟨_, _, hcases⟩ :=
    (hreachable.scan_eq_scanInCases (by decide +kernel) {}).1 (by decide +kernel)
  exact hcases

end Mesh

end TinFaces
