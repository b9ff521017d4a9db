import TinFaces.Proofs.Orbits
import TinFaces.Proofs.RegionReach
import TinFaces.Proofs.ScanFaces

/-!
# Traversals under other labels

A traversal knows the edges of a mesh by their labels, but what it does depends only on how
they hang together. `Lawful.Relabels L L' f` says that `f` carries the edges of one lawful
mesh to edges of another, no two to the same, and keeps duals, the way round the faces and
where the edges start. A traversal of the second mesh from the images of some edges then
does what a traversal of the first does from the edges, event by event
(`Relabels.scan`, `Relabels.walkFrom`).

Borders need not be kept throughout. A walk asks only for those around the faces it claims,
so it is enough if these are the same.

The two runs are followed side by side: `Synced` says that their marks stand for the same
claims, and each question is then answered alike (`Synced.isClaimed`, `Synced.claim`,
`Synced.lookAcross`).
-/

namespace TinFaces

variable {V E E' : Type}

/-! ## Events under other labels -/

/-- The face with its edges under other labels. -/
def Face.relabel (f : E → E') (face : Face V E) : Face V E' := ⟨face.edges.map f, face.origins⟩

namespace Event

/-- The event with its edges under other labels. -/
def relabel (f : E → E') : Event V E → Event V E'
  | claimed face => claimed (face.relabel f)
  | passed edge => passed (f edge)
  | tested side border => tested (f side) border

theorem relabel_id : (relabel id : Event V E → Event V E) = id := by
  funext event
  cases event <;> rfl

variable (f : E → E') (events : List (Event V E))

theorem faces_map_relabel :
    faces (events.map (relabel f)) = (faces events).map (Face.relabel f) := by
  unfold faces
  rw [List.filterMap_map, List.map_filterMap]
  refine List.filterMap_congr fun event _ => ?_
  cases event <;> rfl

/-- The labels of the edges do not show in the vertices. -/
theorem triangles_map_relabel : triangles (events.map (relabel f)) = triangles events := by
  rw [triangles, faces_map_relabel, List.filterMap_map]
  rfl

/-- Nor in the counters. -/
theorem summary_map_relabel (regionsWalked : Nat) :
    summary (events.map (relabel f)) regionsWalked = summary events regionsWalked := by
  have hborders : (events.map (relabel f)).filterMap border? = events.filterMap border? := by
    rw [List.filterMap_map]
    refine List.filterMap_congr fun event _ => ?_
    cases event <;> rfl
  have hghost : (Face.isGhost ∘ Face.relabel f : Face V E → Bool) = Face.isGhost := rfl
  unfold summary realFaces
  rw [hborders, faces_map_relabel, List.filter_map, List.filter_map, hghost]
  simp only [List.length_map]
  rfl

end Event

/-! ## Meshes under other labels -/

namespace Lawful

variable {T : Triangulation V E} {T' : Triangulation V E'} {edges : Set E} {edges' : Set E'}

/-- Edges of one mesh under the labels of another, which keep how they hang together. -/
structure Relabels (L : Lawful T edges) (L' : Lawful T' edges') (f : E → E') : Prop where
  mem : ∀ e ∈ edges, f e ∈ edges'
  injOn : Set.InjOn f edges
  dual_eq : ∀ e ∈ edges, L'.dual (f e) = f (L.dual e)
  forward_eq : ∀ e ∈ edges, L'.forward (f e) = f (L.forward e)
  origin_eq : ∀ e ∈ edges, L'.origin (f e) = L.origin e

variable {L : Lawful T edges} {L' : Lawful T' edges'} {f : E → E'}

theorem Relabels.face_eq (h : L.Relabels L' f) {e : E} (he : e ∈ edges) :
    L'.face (f e) = (L.face e).relabel f := by
  have hf := L.forward_mem e he
  have hr := L.forward_mem _ hf
  simp only [face, sides, Face.relabel, Triangle.map, h.forward_eq e he, h.forward_eq _ hf,
    h.origin_eq e he, h.origin_eq _ hf, h.origin_eq _ hr]

theorem Relabels.sameFace_iff (h : L.Relabels L' f) {a b : E} (ha : a ∈ edges) (hb : b ∈ edges) :
    L'.SameFace (f a) (f b) ↔ L.SameFace a b := by
  have hf := L.forward_mem a ha
  have hr := L.forward_mem _ hf
  unfold SameFace
  rw [h.forward_eq a ha, h.forward_eq _ hf, h.injOn.eq_iff hb ha, h.injOn.eq_iff hb hf,
    h.injOn.eq_iff hb hr]

theorem Relabels.claimed_iff (h : L.Relabels L' f) {entries : List E}
    (hentries : ∀ c ∈ entries, c ∈ edges) {e : E} (he : e ∈ edges) :
    L'.Claimed (entries.map f) (f e) ↔ L.Claimed entries e := by
  unfold Claimed
  simp only [List.mem_map, exists_exists_and_eq_and]
  exact exists_congr fun c => and_congr_right fun hc => h.sameFace_iff (hentries c hc) he

/-! ## Two runs side by side -/

/-- Marks of two meshes that stand for the same claims. -/
structure Synced (L : Lawful T edges) (L' : Lawful T' edges') (f : E → E') (entries : List E)
    (marks marks' : MarkSet) : Prop where
  mem : ∀ e ∈ entries, e ∈ edges
  marked : L.Marked marks entries
  marked' : L'.Marked marks' (entries.map f)

/-- Stretches of two traversals that went alike, to the end. -/
structure Alike (L : Lawful T edges) (L' : Lawful T' edges') (f : E → E') (trace : Trace V E)
    (trace' : Trace V E') : Prop where
  fault?_eq : trace.fault? = none
  fault?_eq' : trace'.fault? = none
  events_eq : trace'.events = trace.events.map (Event.relabel f)
  synced : ∃ entries, Synced L L' f entries trace.marks trace'.marks

variable {entries : List E} {marks marks' : MarkSet}

theorem Synced.done (h : Synced L L' f entries marks marks') :
    Alike L L' f (.done marks) (.done marks' : Trace V E') :=
  ⟨rfl, rfl, rfl, entries, h⟩

/-- Events that were alike before leave the traces alike. -/
theorem Alike.after {trace : Trace V E} {trace' : Trace V E'} (h : Alike L L' f trace trace')
    (events : List (Event V E)) :
    Alike L L' f (trace.after events) (trace'.after (events.map (Event.relabel f))) where
  fault?_eq := h.fault?_eq
  fault?_eq' := h.fault?_eq'
  events_eq := by simp [h.events_eq]
  synced := h.synced

/-- Both find the face on the left of an edge claimed, or both find it open. -/
theorem Synced.isClaimed (h : Synced L L' f entries marks marks') (hf : L.Relabels L' f) {e : E}
    (he : e ∈ edges) : ∃ b, T.isClaimed marks e = .ok b ∧ T'.isClaimed marks' (f e) = .ok b := by
  obtain ⟨b, hb, hclaimed⟩ := h.marked.isClaimed_eq he
  obtain ⟨b', hb', hclaimed'⟩ := h.marked'.isClaimed_eq (hf.mem e he)
  have hiff : b' = true ↔ b = true := by
    rw [hclaimed, hclaimed', hf.claimed_iff h.mem he]
  obtain rfl : b' = b := Bool.eq_iff_iff.2 hiff
  exact ⟨b', hb, hb'⟩

/-- A claim reports the same face to both. -/
theorem Synced.claim (h : Synced L L' f entries marks marks') (hf : L.Relabels L' f) {e : E}
    (he : e ∈ edges) : ∃ marked marked', T.claim marks e = .ok (L.face e, marked) ∧
      T'.claim marks' (f e) = .ok ((L.face e).relabel f, marked') ∧
      Synced L L' f (entries ++ [e]) marked marked' := by
  obtain ⟨marked, hclaim, hmarked⟩ := h.marked.claim_eq he
  obtain ⟨marked', hclaim', hmarked'⟩ := h.marked'.claim_eq (hf.mem e he)
  rw [hf.face_eq he] at hclaim'
  refine ⟨marked, marked', hclaim, hclaim', fun x hx => ?_, hmarked, ?_⟩
  · rcases List.mem_append.1 hx with hx | hx
    · exact h.mem x hx
    · rw [List.mem_singleton.1 hx]
      exact he
  · rw [List.map_append]
    exact hmarked'

/-- A look across a side shows both the same, if the side is a border to both or to none. -/
theorem Synced.lookAcross (h : Synced L L' f entries marks marks') (hf : L.Relabels L' f) {s : E}
    (hs : s ∈ edges) (hborder : L'.border (f s) = L.border s) : ∃ events way,
      T.lookAcross marks s = .ok (events, way) ∧
      T'.lookAcross marks' (f s) = .ok (events.map (Event.relabel f), way.map f) ∧
      ∀ e ∈ way.toList, e ∈ edges := by
  have hdual := L.dual_mem s hs
  obtain ⟨b, hb, hb'⟩ := h.isClaimed hf hdual
  rw [← hf.dual_eq s hs] at hb'
  cases b with
  | true =>
      exact ⟨[], none, L.lookAcross_of_claimed hs hb, L'.lookAcross_of_claimed (hf.mem s hs) hb',
        by simp⟩
  | false =>
      refine ⟨_, _, L.lookAcross_of_open hs hb, ?_, ?_⟩
      · rw [L'.lookAcross_of_open (hf.mem s hs) hb', hborder, hf.dual_eq s hs]
        cases L.border s <;> rfl
      · intro e he
        cases hopen : L.border s with
        | true => simp [hopen] at he
        | false =>
            obtain rfl : e = L.dual s := by simpa [hopen] using he
            exact hdual

end Lawful

/-! ## Walks -/

namespace Lawful

variable {T : Triangulation V E} {T' : Triangulation V E'} {edges : Set E} {edges' : Set E'}
  {L : Lawful T edges} {L' : Lawful T' edges'} {f : E → E'} {entries stack : List E}
  {marks marks' : MarkSet}

/-- From marks for the same claims and the same stack, two walks go alike if the borders
around the faces that are claimed are the same. -/
theorem Synced.explore (h : Synced L L' f entries marks marks') (hf : L.Relabels L' f)
    (hstack : ∀ e ∈ stack, e ∈ edges)
    (hborder : ∀ face ∈ Event.faces (T.explore marks stack).events, ∀ s ∈ face.edges.toList,
      L'.border (f s) = L.border s) :
    Alike L L' f (T.explore marks stack) (T'.explore marks' (stack.map f)) := by
  -- along the walk of the first mesh; the laws rule out the four ways to end in a fault
  fun_induction Triangulation.explore T marks stack generalizing entries marks' with
  | case1 marks =>
      rw [List.map_nil, Triangulation.explore]
      exact h.done
  | case2 marks e rest fault hfault =>
      obtain ⟨b, hb, _⟩ := h.isClaimed hf (hstack e List.mem_cons_self)
      cases hfault.symm.trans hb
  | case3 marks e rest hpassed ih =>
      obtain ⟨b, hb, hb'⟩ := h.isClaimed hf (hstack e List.mem_cons_self)
      cases hpassed.symm.trans hb
      rw [List.map_cons, Triangulation.explore_of_claimed hb']
      exact (ih h (fun x hx => hstack x (List.mem_cons_of_mem _ hx)) hborder).after [.passed e]
  | case4 marks e rest hopen fault hfault =>
      obtain ⟨_, _, hclaim, _⟩ := h.claim hf (hstack e List.mem_cons_self)
      cases hfault.symm.trans hclaim
  | case5 marks e rest hopen face marked hface fault hfault =>
      have he := hstack e List.mem_cons_self
      obtain ⟨_, _, hclaim, _, hsynced⟩ := h.claim hf he
      cases hface.symm.trans hclaim
      obtain ⟨_, _, hlook, _⟩ := hsynced.marked.lookAcross_eq (L.forward_mem e he)
      cases hfault.symm.trans hlook
  | case6 marks e rest hopen face marked hface _ _ _ fault hfault =>
      have he := hstack e List.mem_cons_self
      obtain ⟨_, _, hclaim, _, hsynced⟩ := h.claim hf he
      cases hface.symm.trans hclaim
      obtain ⟨_, _, hlook, _⟩ :=
        hsynced.marked.lookAcross_eq (L.forward_mem _ (L.forward_mem e he))
      cases hfault.symm.trans hlook
  | case7 marks e rest hopen face marked hface events₁ way₁ hlook₁ events₂ way₂ hlook₂ ih =>
      have he := hstack e List.mem_cons_self
      obtain ⟨b, hb, hb'⟩ := h.isClaimed hf he
      cases hopen.symm.trans hb
      obtain ⟨_, marked', hclaim, hclaim', hsynced⟩ := h.claim hf he
      cases hface.symm.trans hclaim
      -- the two looks are across sides of the face that was claimed
      obtain ⟨_, _, h₁, h₁', hmem₁⟩ := hsynced.lookAcross hf (L.forward_mem e he)
        (hborder (L.face e) (by simp [Event.faces, Event.face?]) _
          (L.mem_face_iff.2 (L.sameFace_forward e)))
      cases hlook₁.symm.trans h₁
      obtain ⟨_, _, h₂, h₂', hmem₂⟩ :=
        hsynced.lookAcross hf (L.forward_mem _ (L.forward_mem e he))
          (hborder (L.face e) (by simp [Event.faces, Event.face?]) _
            (L.mem_face_iff.2 (.inr (.inr rfl))))
      cases hlook₂.symm.trans h₂
      rw [List.map_cons, Triangulation.explore_of_open hb' hclaim' h₁' h₂']
      have hrest : Alike L L' f (T.explore marked (way₂.toList ++ way₁.toList ++ rest))
          (T'.explore marked' ((way₂.toList ++ way₁.toList ++ rest).map f)) := by
        apply ih hsynced
        · intro x hx
          simp only [List.mem_append] at hx
          rcases hx with (hx | hx) | hx
          · exact hmem₂ x hx
          · exact hmem₁ x hx
          · exact hstack x (List.mem_cons_of_mem _ hx)
        · intro face hface
          refine hborder face ?_
          rw [Trace.events_after, Event.faces_append]
          exact List.mem_append_right _ hface
      rw [List.map_append, List.map_append, ← Option.toList_map, ← Option.toList_map] at hrest
      have hevents := hrest.after (.claimed (L.face e) :: (events₁ ++ events₂))
      rw [List.map_cons, List.map_append] at hevents
      exact hevents

/-! ## Scans -/

/-- Two scans of the same sides, from marks for the same claims, go alike. -/
theorem Synced.scanSides {es : List E} (hf : L.Relabels L' f)
    (h : Synced L L' f entries marks marks') (hes : ∀ e ∈ es, e ∈ edges) :
    Alike L L' f (T.scanSides es marks) (T'.scanSides (es.map f) marks') := by
  induction es generalizing entries marks marks' with
  | nil => exact h.done
  | cons e rest ih =>
      have he := hes e List.mem_cons_self
      have hrest : ∀ x ∈ rest, x ∈ edges := fun x hx => hes x (List.mem_cons_of_mem _ hx)
      obtain ⟨b, hb, hb'⟩ := h.isClaimed hf he
      cases b with
      | true =>
          rw [List.map_cons, Triangulation.scanSides, Triangulation.scanSides, hb, hb']
          exact (ih h hrest).after [.passed e]
      | false =>
          obtain ⟨marked, marked', hclaim, hclaim', hsynced⟩ := h.claim hf he
          rw [List.map_cons, Triangulation.scanSides, Triangulation.scanSides, hb, hb']
          simp only [hclaim, hclaim']
          exact (ih hsynced hrest).after [.claimed (L.face e)]

/-- One stretch after another. -/
theorem Alike.andThen {trace : Trace V E} {trace' : Trace V E'} (h : Alike L L' f trace trace')
    {next : MarkSet → Trace V E} {next' : MarkSet → Trace V E'}
    (hnext : ∀ entries, Synced L L' f entries trace.marks trace'.marks →
      Alike L L' f (next trace.marks) (next' trace'.marks)) :
    Alike L L' f (trace.andThen next) (trace'.andThen next') := by
  obtain ⟨entries, hsynced⟩ := h.synced
  unfold Trace.andThen
  rw [h.fault?_eq, h.fault?_eq', h.events_eq]
  exact (hnext entries hsynced).after trace.events

theorem Synced.scanEdges {es : List E} (hf : L.Relabels L' f)
    (h : Synced L L' f entries marks marks') (hes : ∀ e ∈ es, e ∈ edges) :
    Alike L L' f (T.scanEdges es marks) (T'.scanEdges (es.map f) marks') := by
  induction es generalizing entries marks marks' with
  | nil => exact h.done
  | cons e rest ih =>
      have he := hes e List.mem_cons_self
      have hrest : ∀ x ∈ rest, x ∈ edges := fun x hx => hes x (List.mem_cons_of_mem _ hx)
      have hpair : ∀ x ∈ [e, L.dual e], x ∈ edges := by simp [he, L.dual_mem e he]
      rw [List.map_cons, Triangulation.scanEdges, Triangulation.scanEdges, L.dual_eq e he,
        L'.dual_eq _ (hf.mem e he), hf.dual_eq e he]
      exact (h.scanSides hf hpair).andThen fun _ hsynced => ih hsynced hrest

end Lawful

/-! ## Reports -/

/-- Reports of one course of events, but for the labels of the edges. -/
structure Report.SameCourse (f : E → E') (report : Report V E) (report' : Report V E') :
    Prop where
  events_eq : report'.events = report.events.map (Event.relabel f)
  result_eq : report'.result = report.result

theorem Report.SameCourse.triangles_eq {f : E → E'} {report : Report V E} {report' : Report V E'}
    (h : report.SameCourse f report') : report'.triangles = report.triangles := by
  unfold Report.triangles
  rw [h.events_eq, Event.triangles_map_relabel]

namespace Lawful

variable {T : Triangulation V E} {T' : Triangulation V E'} {edges : Set E} {edges' : Set E'}
  {L : Lawful T edges} {L' : Lawful T' edges'} {f : E → E'}

theorem Alike.ofTrace {trace : Trace V E} {trace' : Trace V E'} (h : Alike L L' f trace trace')
    (started : Record V E) (started' : Record V E') (finished : Summary → Record V E)
    (finished' : Summary → Record V E') (regionsWalked : Nat) :
    (Report.ofTrace started finished regionsWalked trace).SameCourse f
      (.ofTrace started' finished' regionsWalked trace') := by
  unfold Report.ofTrace
  simp only [h.fault?_eq, h.fault?_eq', h.events_eq, Event.summary_map_relabel]
  exact ⟨rfl, rfl⟩

/-- Under the same labels the reports are the same. -/
theorem Alike.ofTrace_eq {T₂ : Triangulation V E} {edges₂ : Set E} {L₂ : Lawful T₂ edges₂}
    {trace trace₂ : Trace V E} (h : Alike L L₂ id trace trace₂) (started : Record V E)
    (finished : Summary → Record V E) (regionsWalked : Nat) :
    Report.ofTrace started finished regionsWalked trace₂ =
      .ofTrace started finished regionsWalked trace := by
  have hevents : trace₂.events = trace.events := by
    rw [h.events_eq, Event.relabel_id, List.map_id]
  unfold Report.ofTrace
  rw [h.fault?_eq, h.fault?_eq', hevents]

/-- With no claim made, marks of any capacity stand for the same claims. -/
theorem synced_nil (slack : Nat) : Synced L L' f [] (.withCapacity (T.maxEdgeIndex + 1 + slack))
    (.withCapacity (T'.maxEdgeIndex + 1 + slack)) :=
  ⟨by simp, marked_nil slack, marked_nil slack⟩

/-- Scans of a mesh and of the mesh under other labels take the same course, if the edges are
enumerated in the same order. -/
theorem Relabels.scan (h : L.Relabels L' f) (hbase : ∀ e ∈ T.baseEdges, e ∈ edges)
    (hbase' : T'.baseEdges = T.baseEdges.map f)
    (hbootstrapped : T'.isBootstrapped = T.isBootstrapped) {options : WalkOptions}
    (hroom : T.maxEdgeIndex + 1 + options.markSlack ≤ maxCount)
    (hroom' : T'.maxEdgeIndex + 1 + options.markSlack ≤ maxCount) :
    (T.scan options).SameCourse f (T'.scan options) := by
  cases hempty : T.isBootstrapped with
  | false =>
      rw [hempty] at hbootstrapped
      unfold Triangulation.scan
      rw [hempty, hbootstrapped]
      exact ⟨rfl, rfl⟩
  | true =>
      rw [hempty] at hbootstrapped
      rw [scan_eq_ofTrace hempty hroom, scan_eq_ofTrace hbootstrapped hroom', hbase']
      exact ((synced_nil options.markSlack).scanEdges h hbase).ofTrace _ _ _ _ _

/-- The edges of the faces that a walk claims are edges of the mesh. -/
theorem mem_of_mem_claimedEdges (L : Lawful T edges) {link e : E} (hlink : link ∈ edges)
    {options : WalkOptions} (he : e ∈ (T.walkFrom link options).claimedEdges) : e ∈ edges := by
  obtain ⟨entries, hentries, hfaces⟩ := L.exists_faces_walkFrom hlink options
  obtain ⟨c, hc, hface⟩ := (mem_claimedEdges_iff hfaces).1 he
  exact L.sameFace_mem (hentries c hc) hface

/-- A walk from an edge and one from its image go alike, if the borders around the faces that
the first claims are the same. -/
theorem Relabels.explore (h : L.Relabels L' f) {link : E} (hlink : link ∈ edges)
    {options : WalkOptions} (hroom : T.maxEdgeIndex + 1 + options.markSlack ≤ maxCount)
    (hstack : options.stackCapacity * T.edgeBytes ≤ maxBytes)
    (hborder : ∀ e ∈ (T.walkFrom link options).claimedEdges, L'.border (f e) = L.border e) :
    Alike L L' f (T.explore (.withCapacity (T.maxEdgeIndex + 1 + options.markSlack)) [link])
      (T'.explore (.withCapacity (T'.maxEdgeIndex + 1 + options.markSlack)) [f link]) := by
  have hevents : (T.walkFrom link options).events =
      (T.explore (.withCapacity (T.maxEdgeIndex + 1 + options.markSlack)) [link]).events := by
    rw [walkFrom_eq_ofTrace hroom hstack]
    unfold Report.ofTrace
    split <;> rfl
  have hentry : ∀ e ∈ [link], e ∈ edges := by simp [hlink]
  refine (synced_nil options.markSlack).explore h hentry fun face hface s hs => ?_
  rw [← hevents] at hface
  exact hborder s ⟨face, hface, hs⟩

/-- Their reports take the same course, if the edges take the same room. -/
theorem Relabels.walkFrom (h : L.Relabels L' f) {link : E} (hlink : link ∈ edges)
    {options : WalkOptions} (hroom : T.maxEdgeIndex + 1 + options.markSlack ≤ maxCount)
    (hroom' : T'.maxEdgeIndex + 1 + options.markSlack ≤ maxCount)
    (hbytes : T'.edgeBytes = T.edgeBytes)
    (hborder : ∀ e ∈ (T.walkFrom link options).claimedEdges, L'.border (f e) = L.border e) :
    (T.walkFrom link options).SameCourse f (T'.walkFrom (f link) options) := by
  by_cases hstack : options.stackCapacity * T.edgeBytes ≤ maxBytes
  case pos =>
    have hstack' : options.stackCapacity * T'.edgeBytes ≤ maxBytes := hbytes ▸ hstack
    have halike := h.explore hlink hroom hstack hborder
    rw [walkFrom_eq_ofTrace hroom hstack, walkFrom_eq_ofTrace hroom' hstack']
    exact halike.ofTrace _ _ _ _ _
  case neg =>
    -- neither walk can begin
    have hshort : maxBytes < options.stackCapacity * T.edgeBytes := Nat.not_le.1 hstack
    have hshort' : maxBytes < options.stackCapacity * T'.edgeBytes := hbytes ▸ hshort
    rw [Triangulation.walkFrom_of_short hroom hshort,
      Triangulation.walkFrom_of_short hroom' hshort']
    exact ⟨rfl, rfl⟩

end Lawful

end TinFaces
