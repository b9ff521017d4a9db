import TinFaces.Proofs.Lawful
import TinFaces.Walk.Scan

/-!
# What a scan claims

A scan tries the sides of a mesh in the order of their enumeration. On a lawful
mesh it claims a face at the first of its sides to come up, and passes the
others: the entries of a scan are the `firsts` of the enumeration. Hence each
face with an enumerated side is claimed once.

`Swept` is what one stretch of a scan does to the entries; stretches compose
(`Swept.andThen`), so the scan of all edges follows from that of one.
-/

namespace TinFaces

namespace Lawful

variable {V E : Type} {T : Triangulation V E} {edges : Set E} (L : Lawful T edges)

/-! ## First sides -/

open Classical in
/-- The edges of a list that are the first of their face in it, faces claimed at
the edges in `seen` left out. -/
noncomputable def firsts (seen : List E) : List E → List E
  | [] => []
  | e :: rest =>
      if L.Claimed seen e then firsts seen rest else e :: firsts (seen ++ [e]) rest

theorem firsts_cons_of_claimed {seen : List E} {e : E} (h : L.Claimed seen e) (rest : List E) :
    L.firsts seen (e :: rest) = L.firsts seen rest := by
  rw [firsts, if_pos h]

theorem firsts_cons_of_not_claimed {seen : List E} {e : E} (h : ¬ L.Claimed seen e)
    (rest : List E) : L.firsts seen (e :: rest) = e :: L.firsts (seen ++ [e]) rest := by
  rw [firsts, if_neg h]

theorem firsts_append (seen xs ys : List E) :
    L.firsts seen (xs ++ ys) =
      L.firsts seen xs ++ L.firsts (seen ++ L.firsts seen xs) ys := by
  induction xs generalizing seen with
  | nil => simp [firsts]
  | cons x xs ih =>
      by_cases h : L.Claimed seen x
      · rw [List.cons_append, L.firsts_cons_of_claimed h, L.firsts_cons_of_claimed h, ih]
      · have hseen : seen ++ x :: L.firsts (seen ++ [x]) xs =
            seen ++ [x] ++ L.firsts (seen ++ [x]) xs := List.append_cons _ _ _
        rw [List.cons_append, L.firsts_cons_of_not_claimed h, L.firsts_cons_of_not_claimed h,
          ih, List.cons_append, hseen]

theorem mem_of_mem_firsts {seen es : List E} {e : E} (h : e ∈ L.firsts seen es) : e ∈ es := by
  induction es generalizing seen with
  | nil => exact absurd h (by simp [firsts])
  | cons x xs ih =>
      by_cases hx : L.Claimed seen x
      · rw [L.firsts_cons_of_claimed hx] at h
        exact List.mem_cons_of_mem _ (ih h)
      · rw [L.firsts_cons_of_not_claimed hx] at h
        rcases List.mem_cons.1 h with rfl | h
        · exact List.mem_cons_self
        · exact List.mem_cons_of_mem _ (ih h)

/-- No face of the edges in `seen` comes up again. -/
theorem not_claimed_of_mem_firsts {seen es : List E} {e : E} (h : e ∈ L.firsts seen es) :
    ¬ L.Claimed seen e := by
  induction es generalizing seen with
  | nil => exact absurd h (by simp [firsts])
  | cons x xs ih =>
      by_cases hx : L.Claimed seen x
      · rw [L.firsts_cons_of_claimed hx] at h
        exact ih h
      · rw [L.firsts_cons_of_not_claimed hx] at h
        rcases List.mem_cons.1 h with rfl | h
        · exact hx
        · exact fun hseen => ih h (claimed_append.2 (.inl hseen))

/-- Two first sides bound different faces. -/
theorem firsts_pairwise (seen es : List E) :
    (L.firsts seen es).Pairwise fun a b => ¬ L.SameFace a b := by
  induction es generalizing seen with
  | nil => exact List.Pairwise.nil
  | cons x xs ih =>
      by_cases hx : L.Claimed seen x
      · rw [L.firsts_cons_of_claimed hx]
        exact ih seen
      · rw [L.firsts_cons_of_not_claimed hx]
        refine List.pairwise_cons.2 ⟨?_, ih _⟩
        intro e he hface
        exact L.not_claimed_of_mem_firsts he (claimed_append.2 (.inr hface))

/-- Every listed edge bounds the face of a first side. -/
theorem claimed_firsts {seen es : List E} {e : E} (h : e ∈ es) :
    L.Claimed (seen ++ L.firsts seen es) e := by
  induction es generalizing seen with
  | nil => cases h
  | cons x xs ih =>
      by_cases hx : L.Claimed seen x
      · rw [L.firsts_cons_of_claimed hx]
        rcases List.mem_cons.1 h with rfl | h
        · obtain ⟨c, hc, hface⟩ := hx
          exact ⟨c, List.mem_append_left _ hc, hface⟩
        · exact ih h
      · rw [L.firsts_cons_of_not_claimed hx]
        rcases List.mem_cons.1 h with rfl | h
        · exact ⟨e, List.mem_append_right _ List.mem_cons_self, L.sameFace_refl e⟩
        · have hrest : L.Claimed (seen ++ [x] ++ L.firsts (seen ++ [x]) xs) e := ih h
          rwa [List.append_assoc, List.singleton_append] at hrest

/-! ## Stretches of a scan -/

/-- A stretch of a scan that found the faces at the listed edges, after those at
`entries`, and asked for no border. -/
structure Swept (entries found : List E) (trace : Trace V E) : Prop where
  fault?_eq : trace.fault? = none
  faces_eq : Event.faces trace.events = found.map L.face
  untested : trace.events.filterMap Event.border? = []
  marked : L.Marked trace.marks (entries ++ found)

variable {L}

/-- One stretch after another. -/
theorem Swept.andThen {entries found more : List E} {trace : Trace V E}
    {next : MarkSet → Trace V E} (h : L.Swept entries found trace)
    (hnext : L.Swept (entries ++ found) more (next trace.marks)) :
    L.Swept entries (found ++ more) (trace.andThen next) := by
  have hthen : trace.andThen next = (next trace.marks).after trace.events := by
    unfold Trace.andThen
    rw [h.fault?_eq]
  rw [hthen]
  refine ⟨hnext.fault?_eq, ?_, ?_, ?_⟩
  · rw [Trace.events_after, Event.faces_append, h.faces_eq, hnext.faces_eq, List.map_append]
  · rw [Trace.events_after, List.filterMap_append, h.untested, hnext.untested, List.append_nil]
  · rw [Trace.marks_after, ← List.append_assoc]
    exact hnext.marked

theorem swept_done {marks : MarkSet} {entries : List E} (h : L.Marked marks entries) :
    L.Swept entries [] (.done marks) := by
  refine ⟨rfl, rfl, rfl, ?_⟩
  rw [List.append_nil]
  exact h

/-- The sides of a list are claimed at the first side of each open face. -/
theorem swept_scanSides {es : List E} (hes : ∀ e ∈ es, e ∈ edges) {marks : MarkSet}
    {entries : List E} (h : L.Marked marks entries) :
    L.Swept entries (L.firsts entries es) (T.scanSides es marks) := by
  -- on the list; the marks always stand for the entries claimed so far
  induction es generalizing marks entries with
  | nil => exact swept_done h
  | cons e rest ih =>
      have he : e ∈ edges := hes e List.mem_cons_self
      have hrest : ∀ x ∈ rest, x ∈ edges := fun x hx => hes x (List.mem_cons_of_mem _ hx)
      obtain ⟨b, hb, hclaimed⟩ := h.isClaimed_eq he
      cases b with
      | true =>
          rw [L.firsts_cons_of_claimed (hclaimed.1 rfl), Triangulation.scanSides, hb]
          obtain ⟨hfault, hfaces, huntested, hmarked⟩ := ih hrest h
          exact ⟨hfault, hfaces, huntested, hmarked⟩
      | false =>
          have hopen : ¬ L.Claimed entries e := fun hc => Bool.false_ne_true (hclaimed.2 hc)
          obtain ⟨marks', hclaim, hmarked'⟩ := h.claim_eq he
          rw [L.firsts_cons_of_not_claimed hopen, Triangulation.scanSides, hb]
          simp only [hclaim]
          obtain ⟨hfault, hfaces, huntested, hmarked⟩ := ih hrest hmarked'
          refine ⟨hfault, ?_, huntested, ?_⟩
          · show L.face e :: Event.faces (T.scanSides rest marks').events = _
            rw [hfaces, List.map_cons]
          · rw [List.append_assoc, List.singleton_append] at hmarked
            exact hmarked

/-- Both sides of each edge, in turn. -/
def bothSides (L : Lawful T edges) (es : List E) : List E := es.flatMap fun e => [e, L.dual e]

/-- A scan of edges claims the open faces at the first of their two-sided
enumeration. -/
theorem swept_scanEdges {es : List E} (hes : ∀ e ∈ es, e ∈ edges) {marks : MarkSet}
    {entries : List E} (h : L.Marked marks entries) :
    L.Swept entries (L.firsts entries (L.bothSides es)) (T.scanEdges es marks) := by
  induction es generalizing marks entries with
  | nil => exact swept_done h
  | cons e rest ih =>
      have he : e ∈ edges := hes e List.mem_cons_self
      have hrest : ∀ x ∈ rest, x ∈ edges := fun x hx => hes x (List.mem_cons_of_mem _ hx)
      have hpair : ∀ x ∈ [e, L.dual e], x ∈ edges := by
        intro x hx
        rcases List.mem_cons.1 hx with rfl | hx
        · exact he
        · rw [List.mem_singleton.1 hx]
          exact L.dual_mem e he
      have hsides := swept_scanSides hpair h
      have hsplit : L.bothSides (e :: rest) = [e, L.dual e] ++ L.bothSides rest := rfl
      rw [hsplit, L.firsts_append, Triangulation.scanEdges, L.dual_eq e he]
      exact hsides.andThen (ih hrest hsides.marked)

/-- If there is room for the marks, a scan begins with none set. -/
theorem scan_eq_ofTrace (hbootstrapped : T.isBootstrapped = true) {options : WalkOptions}
    (hroom : T.maxEdgeIndex + 1 + options.markSlack ≤ maxCount) :
    T.scan options = .ofTrace
      (.scanStarted T.maxEdgeIndex (T.maxEdgeIndex + 1 + options.markSlack)) .scanFinished 0
      (T.scanEdges T.baseEdges (.withCapacity (T.maxEdgeIndex + 1 + options.markSlack))) := by
  unfold Triangulation.scan
  rw [if_pos hbootstrapped, MarkSet.ofMaxIndex_eq_ok hroom]
  rfl

/-- A scan of a lawful mesh ends, and claims the left face of every side it
enumerates at the first side of that face. -/
theorem scan_eq (hbootstrapped : T.isBootstrapped = true)
    (hbase : ∀ e ∈ T.baseEdges, e ∈ edges) {options : WalkOptions}
    (hroom : T.maxEdgeIndex + 1 + options.markSlack ≤ maxCount) :
    Event.faces (T.scan options).events =
        (L.firsts [] (L.bothSides T.baseEdges)).map L.face ∧
      (T.scan options).events.filterMap Event.border? = [] ∧
      (T.scan options).result = .ok (Event.summary (T.scan options).events 0) := by
  have hswept := swept_scanEdges (L := L) hbase (marked_nil options.markSlack)
  rw [scan_eq_ofTrace hbootstrapped hroom]
  simp only [Report.ofTrace, hswept.fault?_eq]
  exact ⟨hswept.faces_eq, hswept.untested, trivial⟩

/-- Whether there is room for the marks or not, a scan claims left faces of edges of the
mesh and nothing else. -/
theorem exists_faces_scan (hbase : ∀ e ∈ T.baseEdges, e ∈ edges) (options : WalkOptions) :
    ∃ entries : List E, (∀ e ∈ entries, e ∈ edges) ∧
      Event.faces (T.scan options).events = entries.map L.face := by
  by_cases hbootstrapped : T.isBootstrapped = true
  case neg => exact ⟨[], by simp, by simp [Triangulation.scan, hbootstrapped, Report.idle,
    Event.faces]⟩
  case pos =>
    by_cases hroom : T.maxEdgeIndex + 1 + options.markSlack ≤ maxCount
    · refine ⟨_, fun e he => ?_, (scan_eq (L := L) hbootstrapped hbase hroom).1⟩
      obtain ⟨b, hb, hside⟩ := List.mem_flatMap.1 (L.mem_of_mem_firsts he)
      rcases List.mem_cons.1 hside with rfl | hside
      · exact hbase e hb
      · rw [List.mem_singleton.1 hside]
        exact L.dual_mem b (hbase b hb)
    · have hnone := MarkSet.ofMaxIndex_eq_error (Nat.not_le.1 hroom)
      exact ⟨[], by simp, by simp [Triangulation.scan, hbootstrapped, hnone, Report.broken,
        Event.faces]⟩

end Lawful

end TinFaces
