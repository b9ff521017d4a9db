import TinFaces.Proofs.Courses

/-!
# How a traversal goes on

What the loop of a traversal does with its stack, on any mesh at all, whether the mesh keeps its
laws or answers its questions.

* A region walk takes the edges on its stack off it, and two more at most for each face that it
  claims (`Triangulation.length_tried_explore`); it tests two sides at most for each
  (`Triangulation.length_tests_explore`).
* Every edge at which it claims a face, but those that were on the stack at first, is the dual of
  a side next to an edge at which it claimed one before, and that side is no border
  (`Triangulation.explore_ledOn`). So what the stack has at first and a claim hands on, all these
  edges have (`Triangulation.forall_mem_entries_explore`).
* Where it breaks off it was reading a flag, claiming a face or looking across a side
  (`Triangulation.explore_stopsAt`, `Triangulation.scanEdges_stopsAt`).
-/

namespace TinFaces

namespace Triangulation

variable {V E : Type} {T : Triangulation V E} {marks marks' : MarkSet} {e : E} {fault : Fault}

/-! ## The stack -/

/-- Whether a claim at `c` leads a region walk on to `e`: across the forward or the reverse side
of `c`, if that is no border. -/
def LeadsOn (T : Triangulation V E) (c e : E) : Prop :=
  ∃ s, (T.forward c = .ok s ∨ T.reverse c = .ok s) ∧ T.isRegionBorder s = .ok false ∧
    T.dual s = .ok e

/-- What a look across a side shows lies beyond it, and the side is no border. -/
theorem of_mem_lookAcross {side : E} {events : List (Event V E)} {way : Option E}
    (h : T.lookAcross marks side = .ok (events, way)) (he : e ∈ way.toList) :
    T.isRegionBorder side = .ok false ∧ T.dual side = .ok e := by
  obtain ⟨next, hnext, ⟨_, _, rfl⟩ | ⟨border, _, hborder, _, rfl⟩⟩ := lookAcross_eq_ok h
  · simp at he
  · cases border with
    | true => simp at he
    | false =>
        obtain rfl : e = next := by simpa using he
        exact ⟨hborder, hnext⟩

/-- A claim leads on to the edges that it puts on the stack. -/
theorem leadsOn_of_mem {face : Face V E} {events₁ events₂ : List (Event V E)}
    {way₁ way₂ : Option E} (hface : face.ReadFrom T)
    (h₁ : T.lookAcross marks face.edges.second = .ok (events₁, way₁))
    (h₂ : T.lookAcross marks face.edges.third = .ok (events₂, way₂))
    (he : e ∈ way₂.toList ++ way₁.toList) : T.LeadsOn face.edges.first e := by
  rcases List.mem_append.1 he with he | he
  · exact ⟨_, .inr hface.reverse_eq, of_mem_lookAcross h₂ he⟩
  · exact ⟨_, .inl hface.forward_eq, of_mem_lookAcross h₁ he⟩

/-- A walk takes the edges on its stack off it, and two more at most for each face that it
claims. -/
theorem length_tried_explore (T : Triangulation V E) (marks : MarkSet) (stack : List E) :
    (Event.tried (T.explore marks stack).events).length ≤
      stack.length + 2 * (Event.entries (T.explore marks stack).events).length := by
  fun_induction Triangulation.explore T marks stack with
  | case1 | case2 | case4 => exact Nat.zero_le _
  | case3 marks e rest _ ih =>
      simp only [Trace.events_after, List.singleton_append, Event.tried_passed,
        Event.entries_passed, List.length_cons]
      omega
  | case5 marks e rest _ face =>
      simp [Trace.broken, Event.tried, Event.tried?]
      omega
  | case6 marks e rest _ face _ _ events₁ _ hlook₁ =>
      obtain ⟨_, _, _, htried⟩ := course_lookAcross hlook₁
      simp [Trace.broken, htried]
      omega
  | case7 marks e rest _ face marked _ events₁ way₁ hlook₁ events₂ way₂ hlook₂ ih =>
      obtain ⟨_, _, hfaces₁, htried₁⟩ := course_lookAcross hlook₁
      obtain ⟨_, _, hfaces₂, htried₂⟩ := course_lookAcross hlook₂
      have hway₁ : way₁.toList.length ≤ 1 := Option.length_toList_le
      have hway₂ : way₂.toList.length ≤ 1 := Option.length_toList_le
      simp only [Trace.events_after, List.cons_append, Event.tried_claimed, Event.entries_claimed,
        Event.tried_append, Event.entries_append, htried₁, htried₂, Event.entries_of_faces hfaces₁,
        Event.entries_of_faces hfaces₂, List.nil_append, List.length_cons]
      simp only [List.length_append] at ih
      omega

/-- A walk tests two sides at most for each face that it claims. -/
theorem length_tests_explore (T : Triangulation V E) (marks : MarkSet) (stack : List E) :
    ((T.explore marks stack).events.filterMap Event.border?).length ≤
      2 * (Event.entries (T.explore marks stack).events).length := by
  fun_induction Triangulation.explore T marks stack with
  | case1 | case2 | case4 => exact Nat.zero_le _
  | case3 marks e rest _ ih => exact ih
  | case5 marks e rest _ face => exact Nat.zero_le _
  | case6 marks e rest _ face _ _ events₁ _ hlook₁ =>
      have htests₁ := Nat.le_trans (List.length_filterMap_le Event.border? events₁)
        (course_lookAcross hlook₁).2.1
      simp only [Trace.events_after, Event.entries_claimed, List.length_cons, Trace.broken,
        List.append_nil, List.filterMap_cons, Event.border?]
      omega
  | case7 marks e rest _ face marked _ events₁ way₁ hlook₁ events₂ way₂ hlook₂ ih =>
      have htests₁ := Nat.le_trans (List.length_filterMap_le Event.border? events₁)
        (course_lookAcross hlook₁).2.1
      have htests₂ := Nat.le_trans (List.length_filterMap_le Event.border? events₂)
        (course_lookAcross hlook₂).2.1
      simp only [Trace.events_after, List.cons_append, Event.entries_claimed, List.length_cons,
        Event.entries_append, List.filterMap_cons, Event.border?, List.filterMap_append,
        List.length_append]
      omega

/-- The two ways to split a list with a head. -/
private theorem split_cons {d : E} {rest before after : List E}
    (h : d :: rest = before ++ e :: after) :
    e = d ∨ ∃ before', before = d :: before' ∧ rest = before' ++ e :: after := by
  rcases List.cons_eq_append_iff.1 h with ⟨_, hcons⟩ | hlater
  · exact .inl (List.cons.inj hcons).1
  · exact .inr hlater

/-- Every edge at which a walk claims a face was on its stack at first, or an edge at which it
claimed one before led on to it. -/
theorem explore_ledOn (T : Triangulation V E) (marks : MarkSet) (stack before after : List E)
    (h : Event.entries (T.explore marks stack).events = before ++ e :: after) :
    e ∈ stack ∨ ∃ c ∈ before, T.LeadsOn c e := by
  fun_induction Triangulation.explore T marks stack generalizing before with
  | case1 | case2 | case4 => simp [Trace.done, Trace.broken, Event.entries, Event.faces] at h
  | case3 marks d rest _ ih => exact (ih before h).imp_left (List.mem_cons_of_mem _)
  | case5 marks d rest _ face _ hface =>
      simp only [Trace.events_after, List.cons_append, Event.entries_claimed,
        (readFrom_of_claim hface).1] at h
      rcases split_cons h with rfl | ⟨_, _, hnil⟩
      · exact .inl List.mem_cons_self
      · simp [Trace.broken, Event.entries, Event.faces] at hnil
  | case6 marks d rest _ face _ hface events₁ _ hlook₁ =>
      obtain ⟨_, _, hfaces₁, _⟩ := course_lookAcross hlook₁
      simp only [Trace.events_after, List.cons_append, Event.entries_claimed,
        Event.entries_append, Event.entries_of_faces hfaces₁, (readFrom_of_claim hface).1] at h
      rcases split_cons h with rfl | ⟨_, _, hnil⟩
      · exact .inl List.mem_cons_self
      · simp [Trace.broken, Event.entries, Event.faces] at hnil
  | case7 marks d rest _ face marked hface events₁ way₁ hlook₁ events₂ way₂ hlook₂ ih =>
      obtain ⟨_, _, hfaces₁, _⟩ := course_lookAcross hlook₁
      obtain ⟨_, _, hfaces₂, _⟩ := course_lookAcross hlook₂
      obtain ⟨rfl, hread⟩ := readFrom_of_claim hface
      simp only [Trace.events_after, List.cons_append, Event.entries_claimed,
        Event.entries_append, Event.entries_of_faces hfaces₁, Event.entries_of_faces hfaces₂,
        List.nil_append] at h
      rcases split_cons h with rfl | ⟨before', rfl, hrest⟩
      · exact .inl List.mem_cons_self
      · rcases ih before' hrest with hmem | ⟨c, hc, hleads⟩
        · rcases List.mem_append.1 hmem with hway | hmem
          · exact .inr ⟨_, List.mem_cons_self, leadsOn_of_mem hread hlook₁ hlook₂ hway⟩
          · exact .inl (List.mem_cons_of_mem _ hmem)
        · exact .inr ⟨c, List.mem_cons_of_mem _ hc, hleads⟩

/-- What the edges on the stack have and a claim hands on, all edges have at which a walk claims
faces. -/
theorem forall_mem_entries_explore {P : E → Prop} {stack : List E} (hstack : ∀ e ∈ stack, P e)
    (hleads : ∀ c e, P c → T.LeadsOn c e → P e) :
    ∀ e ∈ Event.entries (T.explore marks stack).events, P e := by
  -- by the number of claims before the one at `e`
  have hall : ∀ n before e after, before.length = n →
      Event.entries (T.explore marks stack).events = before ++ e :: after → P e := by
    intro n
    induction n using Nat.strongRecOn with
    | ind n ih =>
        intro before e after hlength hsplit
        rcases T.explore_ledOn marks stack before after hsplit with he | ⟨c, hc, hled⟩
        · exact hstack e he
        · obtain ⟨earlier, later, rfl⟩ := List.append_of_mem hc
          refine hleads c e (ih earlier.length ?_ earlier c (later ++ e :: after) rfl ?_) hled
          · simp only [List.length_append, List.length_cons] at hlength
            omega
          · rw [hsplit, List.append_assoc, List.cons_append]
  intro e he
  obtain ⟨before, after, hsplit⟩ := List.append_of_mem he
  exact hall before.length before e after rfl hsplit

/-! ## Where a traversal breaks off -/

/-- How a traversal can break off at `e` when some flags are set, after claims at `entries`. -/
inductive StopsAt (T : Triangulation V E) (marks : MarkSet) (entries : List E) (e : E) :
    Fault → Prop
  /-- It asked whether the face at `e` is claimed. -/
  | reading {fault : Fault} : T.isClaimed marks e = .error fault → StopsAt T marks entries e fault
  /-- It found the face open and was about to claim it. -/
  | claiming {fault : Fault} : T.isClaimed marks e = .ok false → T.claim marks e = .error fault →
      StopsAt T marks entries e fault
  /-- It had just claimed the face, and looked across another side of it. -/
  | looking {fault : Fault} {s : E} : entries.getLast? = some e →
      (T.forward e = .ok s ∨ T.reverse e = .ok s) → T.lookAcross marks s = .error fault →
      StopsAt T marks entries e fault

/-- Claims that were made before do not matter. -/
theorem StopsAt.prepend {entries : List E} (h : T.StopsAt marks entries e fault)
    (before : List E) : T.StopsAt marks (before ++ entries) e fault := by
  cases h with
  | reading h => exact .reading h
  | claiming hopen h => exact .claiming hopen h
  | looking hlast hside h => exact .looking (by simp [hlast]) hside h

/-- A walk that breaks off does so at an edge that came up on its stack. -/
theorem explore_stopsAt (T : Triangulation V E) (marks : MarkSet) (stack : List E)
    (h : (T.explore marks stack).fault? = some fault) :
    ∃ e, (e ∈ stack ∨ ∃ c ∈ Event.entries (T.explore marks stack).events, T.LeadsOn c e) ∧
      T.StopsAt (T.explore marks stack).marks (Event.entries (T.explore marks stack).events) e
        fault := by
  fun_induction Triangulation.explore T marks stack with
  | case1 => cases h
  | case2 marks d rest _ hfault =>
      cases h
      exact ⟨d, .inl List.mem_cons_self, .reading hfault⟩
  | case3 marks d rest _ ih =>
      obtain ⟨e, hcame, hstops⟩ := ih h
      exact ⟨e, hcame.imp_left (List.mem_cons_of_mem _), hstops⟩
  | case4 marks d rest hopen _ hfault =>
      cases h
      exact ⟨d, .inl List.mem_cons_self, .claiming hopen hfault⟩
  | case5 marks d rest _ face marked hface _ hfault =>
      cases h
      obtain ⟨rfl, hread⟩ := readFrom_of_claim hface
      exact ⟨_, .inl List.mem_cons_self, .looking rfl (.inl hread.forward_eq) hfault⟩
  | case6 marks d rest _ face marked hface events₁ _ hlook₁ _ hfault =>
      cases h
      obtain ⟨_, _, hfaces₁, _⟩ := course_lookAcross hlook₁
      obtain ⟨rfl, hread⟩ := readFrom_of_claim hface
      refine ⟨_, .inl List.mem_cons_self, .looking ?_ (.inr hread.reverse_eq) hfault⟩
      simp [Trace.broken, Event.entries_of_faces hfaces₁]
  | case7 marks d rest _ face marked hface events₁ way₁ hlook₁ events₂ way₂ hlook₂ ih =>
      obtain ⟨_, _, hfaces₁, _⟩ := course_lookAcross hlook₁
      obtain ⟨_, _, hfaces₂, _⟩ := course_lookAcross hlook₂
      obtain ⟨rfl, hread⟩ := readFrom_of_claim hface
      obtain ⟨e, hcame, hstops⟩ := ih h
      simp only [Trace.events_after, Trace.marks_after, List.cons_append, Event.entries_claimed,
        Event.entries_append, Event.entries_of_faces hfaces₁, Event.entries_of_faces hfaces₂,
        List.nil_append]
      refine ⟨e, ?_, hstops.prepend [_]⟩
      rcases hcame with hmem | ⟨c, hc, hleads⟩
      · rcases List.mem_append.1 hmem with hway | hmem
        · exact .inr ⟨_, List.mem_cons_self, leadsOn_of_mem hread hlook₁ hlook₂ hway⟩
        · exact .inl (List.mem_cons_of_mem _ hmem)
      · exact .inr ⟨c, List.mem_cons_of_mem _ hc, hleads⟩

theorem scanSides_stopsAt (T : Triangulation V E) (es : List E) (marks : MarkSet)
    (h : (T.scanSides es marks).fault? = some fault) :
    ∃ e ∈ es, T.StopsAt (T.scanSides es marks).marks
      (Event.entries (T.scanSides es marks).events) e fault := by
  induction es generalizing marks with
  | nil => cases h
  | cons d rest ih =>
      unfold scanSides at h ⊢
      split at h
      · next hfault =>
          cases h
          exact ⟨d, List.mem_cons_self, .reading hfault⟩
      · obtain ⟨e, he, hstops⟩ := ih marks h
        exact ⟨e, List.mem_cons_of_mem _ he, hstops⟩
      · next hopen =>
          split at h
          · next hfault =>
              cases h
              exact ⟨d, List.mem_cons_self, .claiming hopen hfault⟩
          · next face marked hclaim =>
              obtain ⟨e, he, hstops⟩ := ih marked h
              exact ⟨e, List.mem_cons_of_mem _ he, hstops.prepend [_]⟩

/-- A scan breaks off at an edge that is listed or beyond one, or because it cannot be told what
lies beyond. -/
theorem scanEdges_stopsAt (T : Triangulation V E) (es : List E) (marks : MarkSet)
    (h : (T.scanEdges es marks).fault? = some fault) :
    (∃ b ∈ es, T.dual b = .error fault) ∨
      ∃ e, (e ∈ es ∨ ∃ b ∈ es, T.dual b = .ok e) ∧ T.StopsAt (T.scanEdges es marks).marks
        (Event.entries (T.scanEdges es marks).events) e fault := by
  induction es generalizing marks with
  | nil => cases h
  | cons b rest ih =>
      unfold scanEdges at h ⊢
      cases hdual : T.dual b with
      | error other =>
          rw [hdual] at h
          cases h
          exact .inl ⟨b, List.mem_cons_self, hdual⟩
      | ok d =>
          simp only [hdual, Trace.andThen] at h ⊢
          cases hfault : (T.scanSides [b, d] marks).fault? with
          | some other =>
              rw [hfault] at h
              cases hfault.symm.trans h
              obtain ⟨e, he, hstops⟩ := T.scanSides_stopsAt [b, d] marks hfault
              refine .inr ⟨e, ?_, hstops⟩
              rcases List.mem_cons.1 he with rfl | he
              · exact .inl List.mem_cons_self
              · rw [List.mem_singleton.1 he]
                exact .inr ⟨b, List.mem_cons_self, hdual⟩
          | none =>
              rw [hfault] at h
              simp only [Trace.events_after, Trace.marks_after, Event.entries_append]
              rcases ih _ h with ⟨c, hc, herror⟩ | ⟨e, hcame, hstops⟩
              · exact .inl ⟨c, List.mem_cons_of_mem _ hc, herror⟩
              · refine .inr ⟨e, ?_, hstops.prepend _⟩
                exact hcame.imp (List.mem_cons_of_mem _)
                  (Exists.imp fun _ => And.imp_left (List.mem_cons_of_mem _))

/-- A scan tests no side. -/
theorem tests_scanEdges (T : Triangulation V E) (es : List E) (marks : MarkSet) :
    (T.scanEdges es marks).events.filterMap Event.border? = [] := by
  have hsides : ∀ (es : List E) (marks : MarkSet),
      (T.scanSides es marks).events.filterMap Event.border? = [] := by
    intro es
    induction es with
    | nil => exact fun _ => rfl
    | cons e rest ih =>
        intro marks
        unfold scanSides
        split
        · rfl
        · exact ih marks
        · split
          · rfl
          · exact ih _
  induction es generalizing marks with
  | nil => rfl
  | cons e rest ih =>
      unfold scanEdges Trace.andThen
      split
      · rfl
      · split
        · exact hsides _ _
        · rw [Trace.events_after, List.filterMap_append, hsides, ih, List.append_nil]

end Triangulation

end TinFaces
