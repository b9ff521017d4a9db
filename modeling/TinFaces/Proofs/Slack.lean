import TinFaces.Proofs.Lawless
import TinFaces.Proofs.Regions

/-!
# The slack of the marks and the room for the stack

The options of a traversal show in no outcome, as long as what they ask for can be had. The room
for the stack of a region walk decides once, before the first claim, whether the walk begins, and
nothing after that: if it takes more bytes than can be addressed, the walk breaks off there
(`Triangulation.walkFrom_of_short`). A scan has no stack.

The slack is how many flags there are past the largest index, so with more of it there may be more
words, and a question for a flag that faulted before may get an answer. But a traversal that came
to its end had all its questions answered, and wider marks on which the same flags are set
(`MarkSet.Within`) answer them alike. So it takes the same course again (`Trace.Repeats`), step by
step and on any mesh at all.

No slack is needed where the indices of the edges are at most the largest
(`Triangulation.IndexedOn`): then every edge has a flag, also in the last word, and a traversal
that lacks no flag comes to its end. The meshes that can come about are such, whatever slots their
pools have free.
-/

namespace TinFaces

variable {V E : Type}

/-! ## Wider marks -/

namespace MarkSet

/-- Whether the same flags are set in other marks, of which there may be more words. -/
structure Within (marks wider : MarkSet) : Prop where
  size_le : marks.words.size ≤ wider.words.size
  isSet_eq : ∀ i, wider.isSet i = marks.isSet i

variable {marks wider marked : MarkSet} {i : Nat}

theorem within_withCapacity {capacity capacity' : Nat} (h : capacity ≤ capacity') :
    (withCapacity capacity).Within (withCapacity capacity') where
  size_le := by
    rw [size_words_withCapacity, size_words_withCapacity]
    omega
  isSet_eq i := by rw [isSet_withCapacity, isSet_withCapacity]

/-- A flag that can be read reads the same. -/
theorem Within.isMarked (h : marks.Within wider) {b : Bool} (hread : marks.isMarked i = .ok b) :
    wider.isMarked i = .ok b := by
  obtain ⟨hroom, hset⟩ := isMarked_eq_ok_iff.1 hread
  exact isMarked_eq_ok_iff.2 ⟨hroom.trans_le h.size_le, (h.isSet_eq i).trans hset⟩

/-- A flag that can be set can be set in both. -/
theorem Within.mark (h : marks.Within wider) (hmark : marks.mark i = .ok marked) :
    ∃ wider', wider.mark i = .ok wider' ∧ marked.Within wider' := by
  have hroom : i / 64 < marks.words.size := by
    unfold MarkSet.mark at hmark
    split at hmark
    · assumption
    · cases hmark
  obtain ⟨wider', hwider⟩ := exists_mark (hroom.trans_le h.size_le)
  refine ⟨wider', hwider, ?_, fun j => ?_⟩
  · rw [size_of_mark hmark, size_of_mark hwider]
    exact h.size_le
  · rw [isSet_mark hmark, isSet_mark hwider, h.isSet_eq]

end MarkSet

/-! ## The same course again -/

/-- Whether a stretch of a traversal came to its end as another did, on marks that may be wider. -/
structure Trace.Repeats (again trace : Trace V E) : Prop where
  fault?_eq : again.fault? = none
  events_eq : again.events = trace.events
  within : trace.marks.Within again.marks

theorem Trace.Repeats.after {again trace : Trace V E} (h : again.Repeats trace)
    (events : List (Event V E)) : (again.after events).Repeats (trace.after events) where
  fault?_eq := h.fault?_eq
  events_eq := congrArg (events ++ ·) h.events_eq
  within := h.within

/-- One stretch after another. -/
theorem Trace.Repeats.andThen {again trace : Trace V E} {next : MarkSet → Trace V E}
    (h : trace.fault? = none → again.Repeats trace)
    (hnext : trace.marks.Within again.marks → (next trace.marks).fault? = none →
      (next again.marks).Repeats (next trace.marks))
    (hends : (trace.andThen next).fault? = none) :
    (again.andThen next).Repeats (trace.andThen next) := by
  unfold Trace.andThen at hends ⊢
  cases hfault : trace.fault? with
  | some fault =>
      simp only [hfault] at hends
      cases hends
  | none =>
      have hrepeats := h hfault
      simp only [hfault] at hends
      rw [hrepeats.fault?_eq, hrepeats.events_eq]
      exact (hnext hrepeats.within hends).after trace.events

namespace Triangulation

variable {T : Triangulation V E} {marks wider marked : MarkSet} {e : E}

theorem isClaimed_of_within (h : marks.Within wider) {b : Bool}
    (hclaimed : T.isClaimed marks e = .ok b) : T.isClaimed wider e = .ok b := by
  simp only [isClaimed, bind_eq_ok_iff] at hclaimed ⊢
  obtain ⟨i, hi, hread⟩ := hclaimed
  exact ⟨i, hi, h.isMarked hread⟩

theorem claim_of_within (h : marks.Within wider) {face : Face V E}
    (hclaim : T.claim marks e = .ok (face, marked)) :
    ∃ wider', T.claim wider e = .ok (face, wider') ∧ marked.Within wider' := by
  simp only [claim, bind_eq_ok_iff, pure, Except.pure, Except.ok.injEq] at hclaim ⊢
  obtain ⟨f, hf, r, hr, indices, hindices, m₁, h₁, m₂, h₂, m₃, h₃, origins, horigins, heq⟩ := hclaim
  obtain ⟨rfl, rfl⟩ := Prod.mk.inj heq
  obtain ⟨w₁, hw₁, h⟩ := h.mark h₁
  obtain ⟨w₂, hw₂, h⟩ := h.mark h₂
  obtain ⟨w₃, hw₃, h⟩ := h.mark h₃
  exact ⟨w₃, ⟨f, hf, r, hr, indices, hindices, w₁, hw₁, w₂, hw₂, w₃, hw₃, origins, horigins, rfl⟩,
    h⟩

theorem lookAcross_of_within (h : marks.Within wider) {side : E}
    {look : List (Event V E) × Option E} (hlook : T.lookAcross marks side = .ok look) :
    T.lookAcross wider side = .ok look := by
  simp only [lookAcross, bind_eq_ok_iff] at hlook ⊢
  obtain ⟨next, hnext, b, hclaimed, hrest⟩ := hlook
  exact ⟨next, hnext, b, isClaimed_of_within h hclaimed, hrest⟩

/-- A walk that came to its end takes the same course on wider marks. -/
theorem explore_of_within (h : marks.Within wider) (stack : List E)
    (hends : (T.explore marks stack).fault? = none) :
    (T.explore wider stack).Repeats (T.explore marks stack) := by
  -- along the walk that came to its end, which rules out the four ways to break off
  fun_induction Triangulation.explore T marks stack generalizing wider with
  | case1 marks =>
      rw [explore]
      exact ⟨rfl, rfl, h⟩
  | case2 | case4 | case5 | case6 => cases hends
  | case3 marks e rest hpassed ih =>
      rw [explore_of_claimed (isClaimed_of_within h hpassed)]
      exact (ih h hends).after [.passed e]
  | case7 marks e rest hopen face marked hface events₁ way₁ hlook₁ events₂ way₂ hlook₂ ih =>
      obtain ⟨wider', hface', hwithin⟩ := claim_of_within h hface
      rw [explore_of_open (isClaimed_of_within h hopen) hface'
        (lookAcross_of_within hwithin hlook₁) (lookAcross_of_within hwithin hlook₂)]
      exact (ih hwithin hends).after _

theorem scanSides_of_within (h : marks.Within wider) (es : List E)
    (hends : (T.scanSides es marks).fault? = none) :
    (T.scanSides es wider).Repeats (T.scanSides es marks) := by
  induction es generalizing marks wider with
  | nil => exact ⟨rfl, rfl, h⟩
  | cons e rest ih =>
      unfold scanSides at hends ⊢
      cases hclaimed : T.isClaimed marks e with
      | error fault =>
          simp only [hclaimed] at hends
          cases hends
      | ok b =>
          rw [isClaimed_of_within h hclaimed]
          cases b with
          | true =>
              simp only [hclaimed] at hends
              exact (ih h hends).after [.passed e]
          | false =>
              cases hclaim : T.claim marks e with
              | error fault =>
                  simp only [hclaimed, hclaim] at hends
                  cases hends
              | ok found =>
                  obtain ⟨wider', hclaim', hwithin⟩ := claim_of_within h hclaim
                  simp only [hclaimed, hclaim] at hends
                  simp only [hclaim']
                  exact (ih hwithin hends).after [.claimed found.1]

/-- So does a scan. -/
theorem scanEdges_of_within (h : marks.Within wider) (es : List E)
    (hends : (T.scanEdges es marks).fault? = none) :
    (T.scanEdges es wider).Repeats (T.scanEdges es marks) := by
  induction es generalizing marks wider with
  | nil => exact ⟨rfl, rfl, h⟩
  | cons e rest ih =>
      unfold scanEdges at hends ⊢
      cases hdual : T.dual e with
      | error fault =>
          simp only [hdual] at hends
          cases hends
      | ok d =>
          simp only [hdual] at hends ⊢
          exact .andThen (scanSides_of_within h [e, d]) (fun hwithin => ih hwithin) hends

end Triangulation

/-! ## Reports -/

namespace Report

variable {report again : Report V E}

/-- Whether a traversal did not break off. It may have been refused. -/
def Faultless (report : Report V E) : Prop := ∀ fault, report.result ≠ .error (.fault fault)

/-- Whether two traversals did the same, one after the other, and came to the same result. What
they hand over and what they return follows from that. -/
structure SameOutcome (again report : Report V E) : Prop where
  events_eq : again.events = report.events
  result_eq : again.result = report.result

/-- Whether a traversal came to its end, with counters that fit a word. -/
def Completes (report : Report V E) : Prop :=
  ∃ summary, report.result = .ok summary ∧ summary.Fits

theorem completes_idle (record : Record V E) : (idle record).Completes :=
  ⟨{}, rfl, Nat.zero_le _, Nat.zero_le _, Nat.zero_le _, Nat.zero_le _, Nat.zero_le _⟩

/-- Whether a traversal came to its end, or was refused before it began. -/
def Ends (report : Report V E) : Prop := report.Completes ∨ ∃ defect, report = .refused defect

theorem fault?_of_faultless {trace : Trace V E} {started : Record V E}
    {finished : Summary → Record V E} {regionsWalked : Nat}
    (h : (ofTrace started finished regionsWalked trace).Faultless) : trace.fault? = none := by
  cases hfault : trace.fault? with
  | none => rfl
  | some fault =>
      refine absurd ?_ (h fault)
      unfold ofTrace
      rw [hfault]

end Report

theorem Trace.Repeats.sameOutcome {again trace : Trace V E} (h : again.Repeats trace)
    (hends : trace.fault? = none) (started started' : Record V E)
    (finished : Summary → Record V E) (regionsWalked : Nat) :
    (Report.ofTrace started' finished regionsWalked again).SameOutcome
      (Report.ofTrace started finished regionsWalked trace) := by
  unfold Report.ofTrace
  rw [hends, h.fault?_eq, h.events_eq]
  exact ⟨rfl, rfl⟩

/-! ## Room for the stack -/

namespace Triangulation

variable {T : Triangulation V E} {options : WalkOptions} {link : E}

/-- A walk that came to its end had the room that it asked for. -/
theorem room_of_faultless (h : (T.walkFrom link options).Faultless) :
    T.maxEdgeIndex + 1 + options.markSlack ≤ maxCount ∧
      options.stackCapacity * T.edgeBytes ≤ maxBytes := by
  cases hprepare : T.prepareWalk options with
  | ok marks => exact room_of_prepareWalk hprepare
  | error fault =>
      rw [walkFrom_eq_broken hprepare] at h
      exact absurd rfl (h fault)

end Triangulation

/-! ## More slack -/

section MoreSlack

variable {T : Triangulation V E} {options options' : WalkOptions}

/-- A scan that came to its end has the same outcome with more slack. -/
theorem Triangulation.scan_of_le (hslack : options.markSlack ≤ options'.markSlack)
    (hroom : T.maxEdgeIndex + 1 + options'.markSlack < 2 ^ 62)
    (hends : (T.scan options).Faultless) : (T.scan options').SameOutcome (T.scan options) := by
  have hroom' : T.maxEdgeIndex + 1 + options.markSlack < 2 ^ 62 := by omega
  cases hbootstrapped : T.isBootstrapped with
  | false =>
      have hidle : ∀ options, T.scan options = .idle .noTriangles := by simp [scan, hbootstrapped]
      rw [hidle, hidle]
      exact ⟨rfl, rfl⟩
  | true =>
      rw [Lawful.scan_eq_ofTrace hbootstrapped (le_maxCount hroom')] at hends ⊢
      rw [Lawful.scan_eq_ofTrace hbootstrapped (le_maxCount hroom)]
      have hfault := Report.fault?_of_faultless hends
      have hwithin := MarkSet.within_withCapacity (Nat.add_le_add_left hslack (T.maxEdgeIndex + 1))
      exact (scanEdges_of_within hwithin T.baseEdges hfault).sameOutcome hfault _ _ _ _

/-- So has a region walk, if the room for its stack can still be addressed. -/
theorem Triangulation.walkFrom_of_le (hslack : options.markSlack ≤ options'.markSlack)
    (hroom : T.maxEdgeIndex + 1 + options'.markSlack < 2 ^ 62)
    (hstack : options'.stackCapacity * T.edgeBytes ≤ maxBytes) {link : E}
    (hends : (T.walkFrom link options).Faultless) :
    (T.walkFrom link options').SameOutcome (T.walkFrom link options) := by
  obtain ⟨hroom', hstack'⟩ := room_of_faultless hends
  rw [Lawful.walkFrom_eq_ofTrace hroom' hstack'] at hends ⊢
  rw [Lawful.walkFrom_eq_ofTrace (le_maxCount hroom) hstack]
  have hfault := Report.fault?_of_faultless hends
  have hwithin := MarkSet.within_withCapacity (Nat.add_le_add_left hslack (T.maxEdgeIndex + 1))
  exact (explore_of_within hwithin [link] hfault).sameOutcome hfault _ _ _ _

/-- The walk of a constraint is the same under all options, or one from its linking edge. -/
theorem Constraint.walk_cases (c : Constraint V E) :
    (∃ report : Report V E, report.Ends ∧ ∀ options, c.walk options = report) ∨
      ∃ T link, c.mesh? = some T ∧ c.linkingEdge? = some link ∧
        ∀ options, c.walk options = T.walkFrom link options := by
  unfold walk
  cases hmesh : c.mesh? with
  | none => exact .inl ⟨_, .inr ⟨_, rfl⟩, fun _ => rfl⟩
  | some T =>
      cases hregion : c.definesRegion with
      | false => exact .inl ⟨_, .inr ⟨_, rfl⟩, fun _ => rfl⟩
      | true =>
          cases hlink : c.linkingEdge? with
          | none => exact .inl ⟨_, .inr ⟨_, rfl⟩, fun _ => rfl⟩
          | some link =>
              cases hbootstrapped : T.isBootstrapped with
              | false =>
                  refine .inl ⟨_, .inl (Report.completes_idle .noRegion), fun _ => ?_⟩
                  simp [hbootstrapped]
              | true => exact .inr ⟨T, link, rfl, rfl, fun _ => by simp [hbootstrapped]⟩

theorem Constraint.walk_of_le {c : Constraint V E}
    (hslack : options.markSlack ≤ options'.markSlack)
    (hroom : ∀ T, c.mesh? = some T → T.maxEdgeIndex + 1 + options'.markSlack < 2 ^ 62 ∧
      options'.stackCapacity * T.edgeBytes ≤ maxBytes)
    (hends : (c.walk options).Faultless) : (c.walk options').SameOutcome (c.walk options) := by
  rcases c.walk_cases with ⟨report, _, hsame⟩ | ⟨T, link, hmesh, _, hwalk⟩
  · rw [hsame, hsame]
    exact ⟨rfl, rfl⟩
  · rw [hwalk] at hends
    rw [hwalk, hwalk]
    exact Triangulation.walkFrom_of_le hslack (hroom T hmesh).1 (hroom T hmesh).2 hends

/-- So have the walks of several constraints, one after the other. -/
theorem Constraint.walkEach_of_le {constraints : List (Constraint V E)}
    (hslack : options.markSlack ≤ options'.markSlack)
    (hroom : ∀ c ∈ constraints, ∀ T, c.mesh? = some T →
      T.maxEdgeIndex + 1 + options'.markSlack < 2 ^ 62 ∧
        options'.stackCapacity * T.edgeBytes ≤ maxBytes) (total : Summary)
    (hends : (walkEach options total constraints).Faultless) :
    (walkEach options' total constraints).SameOutcome (walkEach options total constraints) := by
  induction constraints generalizing total with
  | nil => exact ⟨rfl, rfl⟩
  | cons c rest ih =>
      have hrest := ih fun c hc => hroom c (List.mem_cons_of_mem _ hc)
      unfold walkEach at hends ⊢
      cases hregion : c.definesRegion with
      | false =>
          simp only [hregion] at hends
          exact hrest total hends
      | true =>
          simp only [hregion, if_true] at hends ⊢
          have hwalk : (c.walk options').SameOutcome (c.walk options) := by
            refine walk_of_le hslack (hroom c List.mem_cons_self) fun fault hfault => ?_
            simp only [hfault] at hends
            exact hends fault hfault
          rw [hwalk.result_eq]
          cases hresult : (c.walk options).result with
          | error failure => exact hwalk
          | ok summary =>
              simp only [hresult] at hends ⊢
              rcases hmerge : total.merge summary with ⟨next, _ | fault⟩
              · simp only [hmerge] at hends ⊢
                obtain ⟨hevents, hresult⟩ := hrest next hends
                exact ⟨congrArg₂ (· ++ ·) hwalk.events_eq hevents, hresult⟩
              · simp only [hmerge] at hends
                exact absurd rfl (hends fault)

theorem Triangulation.walkRegions_of_le {constraints : List (Constraint V E)}
    (hslack : options.markSlack ≤ options'.markSlack)
    (hroom : ∀ c ∈ constraints, ∀ T, c.mesh? = some T →
      T.maxEdgeIndex + 1 + options'.markSlack < 2 ^ 62 ∧
        options'.stackCapacity * T.edgeBytes ≤ maxBytes)
    (hends : (T.walkRegions constraints options).Faultless) :
    (T.walkRegions constraints options').SameOutcome (T.walkRegions constraints options) := by
  unfold walkRegions at hends ⊢
  cases hbootstrapped : T.isBootstrapped with
  | false => exact ⟨rfl, rfl⟩
  | true =>
      simp only [hbootstrapped, if_true] at hends ⊢
      exact Constraint.walkEach_of_le hslack hroom {} hends

end MoreSlack

/-! ## No slack -/

namespace Triangulation

/-- A mesh that has an answer to every question about some edges, its base edges among them, and
no index above the largest. It may lead anywhere among them. -/
structure IndexedOn (T : Triangulation V E) (edges : Set E) : Prop extends T.TotalOn edges where
  base_mem : ∀ e ∈ T.baseEdges, e ∈ edges
  index_le : ∀ e ∈ edges, ∀ i, T.edgeIndex e = .ok i → i ≤ T.maxEdgeIndex

variable {T : Triangulation V E} {edges : Set E} {options : WalkOptions}

/-- Every edge has a flag, if there are flags up to the largest index. -/
theorem IndexedOn.not_lacksFlag (h : T.IndexedOn edges) {capacity : Nat}
    (hcapacity : T.maxEdgeIndex < capacity) {entries : List E} {e : E} (he : e ∈ edges)
    {fault : Fault} :
    ¬ T.LacksFlag (MarkSet.withCapacity capacity).words.size entries e fault := by
  have hflag : ∀ x ∈ edges, ¬ T.NoFlag (MarkSet.withCapacity capacity).words.size x fault := by
    intro x hx hnone
    obtain ⟨i, hi, hout, _⟩ := hnone
    have hle := h.index_le x hx i hi
    rw [MarkSet.size_words_withCapacity] at hout
    omega
  intro hlacks
  cases hlacks with
  | here hnone => exact hflag e he hnone
  | around _ hside hnone => exact hflag _ (h.mem_of_side he hside) hnone
  | beyond _ hside hdual hnone =>
      obtain ⟨_, hd, heq⟩ := h.dual _ (h.mem_of_side he hside)
      cases heq.symm.trans hdual
      exact hflag _ hd hnone

theorem completes_ofTrace {regionsWalked : Nat} {trace : Trace V E}
    (hends : ∀ fault, trace.fault? ≠ some fault)
    (hfits : (Event.summary trace.events regionsWalked).Fits) (started : Record V E)
    (finished : Summary → Record V E) :
    (Report.ofTrace started finished regionsWalked trace).Completes := by
  unfold Report.ofTrace
  rw [Option.eq_none_iff_forall_ne_some.2 hends]
  exact ⟨_, rfl, hfits⟩

theorem IndexedOn.walkFrom_completes (h : T.IndexedOn edges) {link : E} (hlink : link ∈ edges)
    (hroom : T.maxEdgeIndex + 1 + options.markSlack ≤ 2 ^ 62)
    (hstack : options.stackCapacity * T.edgeBytes ≤ maxBytes) :
    (T.walkFrom link options).Completes := by
  have hcount : maxCount = 2 ^ 64 - 1 := rfl
  rw [Lawful.walkFrom_eq_ofTrace (by omega) hstack]
  refine completes_ofTrace (fun fault hfault => ?_) ?_ _ _
  · obtain ⟨e, he, _, hlacks⟩ := h.explore_lacksFlag (by simpa using hlink) hfault
    exact h.not_lacksFlag (by omega) he hlacks
  · exact (T.course_explore _ [link]).fits (T.length_tests_explore _ [link]) hroom (Nat.le_refl 1)

theorem IndexedOn.scan_completes (h : T.IndexedOn edges)
    (hroom : T.maxEdgeIndex + 1 + options.markSlack ≤ 2 ^ 62) : (T.scan options).Completes := by
  have hcount : maxCount = 2 ^ 64 - 1 := rfl
  cases hbootstrapped : T.isBootstrapped with
  | false =>
      have hidle : T.scan options = .idle .noTriangles := by simp [scan, hbootstrapped]
      rw [hidle]
      exact Report.completes_idle _
  | true =>
      rw [Lawful.scan_eq_ofTrace hbootstrapped (by omega)]
      refine completes_ofTrace (fun fault hfault => ?_) ?_ _ _
      · obtain ⟨e, he, _, hlacks⟩ := h.scanEdges_lacksFlag h.base_mem hfault
        exact h.not_lacksFlag (by omega) he hlacks
      · refine (T.course_scanEdges _ _).fits ?_ hroom (Nat.zero_le 1)
        rw [tests_scanEdges]
        exact Nat.zero_le _

theorem IndexedOn.walk_ends (h : T.IndexedOn edges)
    (hroom : T.maxEdgeIndex + 1 + options.markSlack ≤ 2 ^ 62)
    (hstack : options.stackCapacity * T.edgeBytes ≤ maxBytes) {c : Constraint V E}
    (hmesh : c.mesh? = some T) (hlink : ∀ link, c.linkingEdge? = some link → link ∈ edges) :
    (c.walk options).Ends := by
  rcases c.walk_cases with ⟨report, hends, hsame⟩ | ⟨U, link, hmesh', hlink', hwalk⟩
  · rw [hsame]
    exact hends
  · cases hmesh.symm.trans hmesh'
    rw [hwalk]
    exact .inl (h.walkFrom_completes (hlink link hlink') hroom hstack)

end Triangulation

theorem Lawful.indexedOn {T : Triangulation V E} {edges : Set E} (L : Lawful T edges)
    (hbase : ∀ e ∈ T.baseEdges, e ∈ edges) : T.IndexedOn edges where
  edgeIndex e he := ⟨_, L.index_eq e he⟩
  origin e he := ⟨_, L.origin_eq e he⟩
  dual e he := ⟨_, L.dual_mem e he, L.dual_eq e he⟩
  forward e he := ⟨_, L.forward_mem e he, L.forward_eq e he⟩
  reverse e he := ⟨_, L.forward_mem _ (L.forward_mem e he), L.reverse_eq e he⟩
  isRegionBorder e he := ⟨_, L.border_eq e he⟩
  base_mem := hbase
  index_le e he i hi := by
    cases hi.symm.trans (L.index_eq e he)
    exact L.index_le e he

namespace Mesh

variable {m : Mesh}

/-- A mesh that can come about answers every question about its edges. -/
theorem Reachable.indexedOn (h : m.Reachable) :
    m.surface.toTriangulation.IndexedOn {e | m.pool.isLive e.slot = true} := by
  obtain ⟨triangles, hrealizes⟩ := h.exists_realizes
  exact hrealizes.lawful.indexedOn fun e he => (EdgePool.mem_baseEdges.1 he).2

/-- So the walk of a chain that it has registered comes to its end, or is refused as it bounds no
region. -/
theorem Reachable.walk_ends (h : m.Reachable) {id : ConstraintId} {chain : Chain}
    (hchain : m.chain? id = some chain) {options : WalkOptions}
    (hroom : m.pool.maxIndex + 1 + options.markSlack ≤ 2 ^ 62)
    (hstack : options.stackCapacity * wordBytes ≤ maxBytes) :
    if chain.closed then ((m.constraintOf chain).walk options).Completes
    else (m.constraintOf chain).walk options = .refused .notARegion := by
  cases hclosed : chain.closed with
  | false => simp [Constraint.walk, constraintOf, hclosed]
  | true =>
      obtain ⟨triangles, hrealizes⟩ := h.exists_realizes
      obtain ⟨link, hlink, hlive, _⟩ := h.registered.link_isRegionBorder hchain hclosed
      rw [if_pos rfl, hrealizes.walk_constraintOf hclosed hlink hlive]
      exact h.indexedOn.walkFrom_completes hlive hroom hstack

end Mesh

/-- Options show in no outcome. What comes to its end with some slack comes to the same end with
more slack, on any mesh, and whatever room a region walk sets aside for its stack, as long as that
can be addressed. No slack at all is needed on a mesh whose indices are at most the largest, nor on
one that can come about. -/
theorem Triangulation.options_show_in_no_outcome {V E : Type} :
    (∀ options options' : WalkOptions, options.markSlack ≤ options'.markSlack →
      (∀ T : Triangulation V E, T.maxEdgeIndex + 1 + options'.markSlack < 2 ^ 62 →
        (T.scan options).Faultless → (T.scan options').SameOutcome (T.scan options)) ∧
      (∀ c : Constraint V E,
        (∀ T, c.mesh? = some T → T.maxEdgeIndex + 1 + options'.markSlack < 2 ^ 62 ∧
          options'.stackCapacity * T.edgeBytes ≤ maxBytes) →
        (c.walk options).Faultless → (c.walk options').SameOutcome (c.walk options)) ∧
      ∀ (T : Triangulation V E) (constraints : List (Constraint V E)),
        (∀ c ∈ constraints, ∀ U, c.mesh? = some U →
          U.maxEdgeIndex + 1 + options'.markSlack < 2 ^ 62 ∧
            options'.stackCapacity * U.edgeBytes ≤ maxBytes) →
        (T.walkRegions constraints options).Faultless →
        (T.walkRegions constraints options').SameOutcome (T.walkRegions constraints options)) ∧
    ∀ options : WalkOptions, options.markSlack = 0 →
      (∀ (T : Triangulation V E) (edges : Set E), T.IndexedOn edges → T.maxEdgeIndex < 2 ^ 62 →
        (T.scan options).Completes ∧
        (options.stackCapacity * T.edgeBytes ≤ maxBytes →
          (∀ link ∈ edges, (T.walkFrom link options).Completes) ∧
          ∀ c : Constraint V E, c.mesh? = some T →
            (∀ link, c.linkingEdge? = some link → link ∈ edges) → (c.walk options).Ends)) ∧
      ∀ m : Mesh, m.Reachable → m.pool.maxIndex < 2 ^ 62 →
        (m.surface.toTriangulation.scan options).Completes ∧
        (options.stackCapacity * wordBytes ≤ maxBytes →
          (∀ link, m.pool.isLive link.slot = true →
            (m.surface.toTriangulation.walkFrom link options).Completes) ∧
          ∀ id chain, m.chain? id = some chain →
            if chain.closed then ((m.constraintOf chain).walk options).Completes
            else (m.constraintOf chain).walk options = .refused .notARegion) := by
  refine ⟨fun options options' hslack => ⟨?_, ?_, ?_⟩, fun options hnone => ⟨?_, ?_⟩⟩
  · exact fun T hroom hends => scan_of_le hslack hroom hends
  · exact fun c hroom hends => c.walk_of_le hslack hroom hends
  · exact fun T constraints hroom hends => T.walkRegions_of_le hslack hroom hends
  · intro T edges h hmax
    have hroom : T.maxEdgeIndex + 1 + options.markSlack ≤ 2 ^ 62 := by omega
    exact ⟨h.scan_completes hroom, fun hstack =>
      ⟨fun link hlink => h.walkFrom_completes hlink hroom hstack,
        fun c hmesh hlink => h.walk_ends hroom hstack hmesh hlink⟩⟩
  · intro m h hmax
    have hroom : m.pool.maxIndex + 1 + options.markSlack ≤ 2 ^ 62 := by omega
    exact ⟨h.indexedOn.scan_completes hroom, fun hstack =>
      ⟨fun link hlive => h.indexedOn.walkFrom_completes hlive hroom hstack,
        fun id chain hchain => h.walk_ends hchain hroom hstack⟩⟩

/-- Where that room cannot be addressed the walk of a ring no longer comes to its end, though it
asks for no more flags than before. -/
theorem Mesh.constrainedSquare_walk_overflows :
    let m := constrainedSquare
    let chain : Chain := ⟨[⟨0⟩, ⟨1⟩, ⟨2⟩], true, some ⟨0⟩, some ⟨2⟩, [⟨2⟩, ⟨4⟩, ⟨6⟩]⟩
    let options : WalkOptions := ⟨2, 64⟩
    let options' : WalkOptions := ⟨2, maxCount⟩
    m.Reachable ∧ m.chain? ⟨0⟩ = some chain ∧ options.markSlack ≤ options'.markSlack ∧
      m.pool.maxIndex + 1 + options'.markSlack < 2 ^ 62 ∧
      ((m.constraintOf chain).walk options).Faultless ∧
      ((m.constraintOf chain).walk options').result = .error (.fault .capacityOverflow) ∧
      ¬ ((m.constraintOf chain).walk options').SameOutcome ((m.constraintOf chain).walk options) := by
  intro m chain options options'
  have hchain : m.chain? ⟨0⟩ = some chain := by decide +kernel
  have hmax : m.surface.maxEdgeIndex + 1 + 2 < 2 ^ 62 := by decide +kernel
  have hends : ((m.constraintOf chain).walk options).Completes :=
    reachable_constrainedSquare.walk_ends hchain hmax.le (by decide)
  obtain ⟨summary, hresult, _⟩ := hends
  have hoverflow : (m.constraintOf chain).walk options' = .broken .capacityOverflow := by
    obtain ⟨triangles, hrealizes⟩ := reachable_constrainedSquare.exists_realizes
    have hlink : chain.linkingEdge? = some ⟨2⟩ := rfl
    rw [hrealizes.walk_constraintOf rfl hlink (by decide +kernel)]
    exact m.surface.walkFrom_of_short (Triangulation.le_maxCount hmax) (by decide) ⟨2⟩
  refine ⟨reachable_constrainedSquare, hchain, le_rfl, hmax, fun fault hfault => ?_,
    congrArg Report.result hoverflow, fun hsame => ?_⟩
  · cases hresult.symm.trans hfault
  · rw [hoverflow] at hsame
    cases hsame.result_eq.trans hresult

/-! ## Lawless tables -/

namespace Table

/-- The lawless table, with a largest index that is one. -/
def unrulyIndexed : Table := { unruly with maxEdgeIndex := 200 }

theorem unrulyIndexed_indexedOn :
    unrulyIndexed.surface.toTriangulation.IndexedOn {e | e < unrulyIndexed.rows.size} := by
  have hclosed : unrulyIndexed.IsClosed := by decide +kernel
  have hindices : ∀ e < unrulyIndexed.rows.size, (unrulyIndexed.rowAt e).index ≤ 200 := by
    decide +kernel
  refine ⟨hclosed.totalOn, by decide, fun e he i hi => ?_⟩
  cases hi.symm.trans (unrulyIndexed.map_readAt_rows he _)
  exact hindices e he

/-- With slack 130 there is a flag for 200, although the largest index is said to be 70; and half
of what can be addressed is room enough for the stack. -/
theorem unruly_options_show_in_no_outcome :
    let T := unruly.surface.toTriangulation
    let c : Constraint Nat Nat := ⟨some T, true, some 0⟩
    let U := unrulyIndexed.surface.toTriangulation
    let m := Mesh.constrainedSquare
    70 + 1 + 1000 < 2 ^ 62 ∧ 2 ^ 59 * wordBytes ≤ maxBytes ∧
      (T.scan ⟨130, 64⟩).Faultless ∧ (c.walk ⟨130, 64⟩).Faultless ∧
      (T.scan ⟨1000, 2 ^ 59⟩).SameOutcome (T.scan ⟨130, 64⟩) ∧
      (c.walk ⟨1000, 2 ^ 59⟩).SameOutcome (c.walk ⟨130, 64⟩) ∧
      U.IndexedOn {e | e < unrulyIndexed.rows.size} ∧ 200 < 2 ^ 62 ∧ 0 * wordBytes ≤ maxBytes ∧
      (U.scan ⟨0, 0⟩).Completes ∧ (U.walkFrom 0 ⟨0, 0⟩).Completes ∧
      m.Reachable ∧ m.pool.maxIndex < 2 ^ 62 ∧
      (m.surface.toTriangulation.scan ⟨0, 0⟩).Completes ∧
      ∃ chain, m.chain? ⟨0⟩ = some chain ∧ ((m.constraintOf chain).walk ⟨0, 0⟩).Completes := by
  intro T c U m
  have hfaultless : ∀ (report : Report Nat Nat) (summary : Summary),
      report.result = .ok summary → report.Faultless := by
    intro report summary hresult fault hfault
    cases hresult.symm.trans hfault
  have hscan : (T.scan ⟨130, 64⟩).Faultless := hfaultless _ ⟨3, 2, 1, 0, 0⟩ (by decide +kernel)
  have hwalk : (c.walk ⟨130, 64⟩).Faultless := hfaultless _ ⟨3, 2, 1, 0, 1⟩ (by decide +kernel)
  have hroom : T.maxEdgeIndex + 1 + 1000 < 2 ^ 62 := by decide
  have hstack : 2 ^ 59 * wordBytes ≤ maxBytes := by decide
  have hroom' : ∀ U, c.mesh? = some U → U.maxEdgeIndex + 1 + 1000 < 2 ^ 62 ∧
      2 ^ 59 * U.edgeBytes ≤ maxBytes := by
    intro U hU
    cases hU
    exact ⟨hroom, hstack⟩
  obtain ⟨hmore, hnone⟩ := Triangulation.options_show_in_no_outcome (V := Nat) (E := Nat)
  have hmore := hmore ⟨130, 64⟩ ⟨1000, 2 ^ 59⟩ (by decide)
  have hnone := hnone ⟨0, 0⟩ rfl
  have hmax : U.maxEdgeIndex < 2 ^ 62 := by decide
  have hmax' : m.pool.maxIndex < 2 ^ 62 := by decide +kernel
  have hempty : 0 * wordBytes ≤ maxBytes := by decide
  have hlink : 0 < unrulyIndexed.rows.size := by decide
  have hchain : m.chain? ⟨0⟩ = some ⟨[⟨0⟩, ⟨1⟩, ⟨2⟩], true, some ⟨0⟩, some ⟨2⟩,
      [⟨2⟩, ⟨4⟩, ⟨6⟩]⟩ := by decide +kernel
  obtain ⟨hscanned, hwalks⟩ := hnone.1 U _ unrulyIndexed_indexedOn hmax
  obtain ⟨hscanned', hwalks'⟩ := hnone.2 m Mesh.reachable_constrainedSquare hmax'
  exact ⟨hroom, hstack, hscan, hwalk, hmore.1 T hroom hscan, hmore.2.1 c hroom' hwalk,
    unrulyIndexed_indexedOn, hmax, hempty, hscanned, (hwalks hempty).1 0 hlink,
    Mesh.reachable_constrainedSquare, hmax', hscanned', _, hchain, (hwalks' hempty).2 _ _ hchain⟩

end Table

end TinFaces
