import TinFaces.Proofs.Progress
import TinFaces.Proofs.RegionTour

/-!
# Traversals of lawless meshes

A mesh need not keep any law for a traversal of it to end. Suppose only that it has an answer to
each question about the edges of some set, and that the answers stay in the set
(`Triangulation.TotalOn`): forward edges need not come round, duals need not pair up, and
indices may collide or be too large. Then a traversal comes to its end, or it asks for a flag
that does not exist (`Triangulation.LacksFlag`). In either case it has claimed no more faces than
there are flags, at edges with different indices, and counted what it handed over
(`Triangulation.Orderly`), and a region walk has gone where its claims led it and no further
(`Triangulation.Confined`).

The counters are numbers without a bound here. That they can be kept in a word is one of the
results.
-/

namespace TinFaces

variable {V E : Type}

/-! ## Missing flags -/

namespace MarkSet

/-- There are no more clear flags than flags. -/
theorem free_le (marks : MarkSet) : marks.free ≤ 64 * marks.words.size := by
  unfold free
  exact List.countP_le_length.trans_eq List.length_range

end MarkSet

namespace Triangulation

variable {T : Triangulation V E} {marks marks' : MarkSet} {edges : Set E} {e : E} {fault : Fault}

/-! ## Answers to every question -/

/-- Whether the mesh answers every question about some edges, and does not lead away from them.
The answers may be any at all. -/
structure TotalOn (T : Triangulation V E) (edges : Set E) : Prop where
  edgeIndex : ∀ e ∈ edges, ∃ i, T.edgeIndex e = .ok i
  origin : ∀ e ∈ edges, ∃ v, T.origin e = .ok v
  dual : ∀ e ∈ edges, ∃ d ∈ edges, T.dual e = .ok d
  forward : ∀ e ∈ edges, ∃ f ∈ edges, T.forward e = .ok f
  reverse : ∀ e ∈ edges, ∃ r ∈ edges, T.reverse e = .ok r
  isRegionBorder : ∀ e ∈ edges, ∃ b, T.isRegionBorder e = .ok b

variable {s : E}

theorem TotalOn.mem_of_side (h : T.TotalOn edges) (he : e ∈ edges)
    (hs : T.forward e = .ok s ∨ T.reverse e = .ok s) : s ∈ edges := by
  rcases hs with hs | hs
  · obtain ⟨f, hf, heq⟩ := h.forward e he
    cases heq.symm.trans hs
    exact hf
  · obtain ⟨r, hr, heq⟩ := h.reverse e he
    cases heq.symm.trans hs
    exact hr

theorem TotalOn.mem_of_leadsOn (h : T.TotalOn edges) {c : E} (hc : c ∈ edges)
    (hleads : T.LeadsOn c e) : e ∈ edges := by
  obtain ⟨s, hs, _, hdual⟩ := hleads
  obtain ⟨d, hd, heq⟩ := h.dual s (h.mem_of_side hc hs)
  cases heq.symm.trans hdual
  exact hd

/-- The fault of an index that has no flag among so many words. -/
def NoFlag (T : Triangulation V E) (words : Nat) (e : E) (fault : Fault) : Prop :=
  ∃ i, T.edgeIndex e = .ok i ∧ words ≤ i / 64 ∧ fault = .outOfBounds words (i / 64)

theorem TotalOn.isClaimed_eq_error (h : T.TotalOn edges) (he : e ∈ edges)
    (hfault : T.isClaimed marks e = .error fault) : T.NoFlag marks.words.size e fault := by
  obtain ⟨i, hi⟩ := h.edgeIndex e he
  simp only [isClaimed, hi, bind, Except.bind] at hfault
  exact ⟨i, hi, MarkSet.isMarked_eq_error_iff.1 hfault⟩

/-- A claim of an open face breaks off at another side of it. -/
theorem TotalOn.claim_eq_error (h : T.TotalOn edges) (he : e ∈ edges)
    (hopen : T.isClaimed marks e = .ok false) (hfault : T.claim marks e = .error fault) :
    ∃ s, (T.forward e = .ok s ∨ T.reverse e = .ok s) ∧ T.NoFlag marks.words.size s fault := by
  obtain ⟨i, hi, hroom, _⟩ := isClaimed_eq_ok_iff.1 hopen
  obtain ⟨f, hfmem, hf⟩ := h.forward e he
  obtain ⟨r, hrmem, hr⟩ := h.reverse e he
  obtain ⟨j, hj⟩ := h.edgeIndex f hfmem
  obtain ⟨k, hk⟩ := h.edgeIndex r hrmem
  obtain ⟨m₁, h₁⟩ := MarkSet.exists_mark hroom
  have hsize₁ := MarkSet.size_of_mark h₁
  simp only [claim, Triangle.mapM, hf, hr, hi, hj, hk, h₁, bind, Except.bind, pure,
    Except.pure] at hfault
  cases h₂ : m₁.mark j with
  | error other =>
      simp only [h₂] at hfault
      cases hfault
      exact ⟨f, .inl hf, j, hj, hsize₁ ▸ MarkSet.mark_eq_error_iff.1 h₂⟩
  | ok m₂ =>
      have hsize₂ := (MarkSet.size_of_mark h₂).trans hsize₁
      simp only [h₂] at hfault
      cases h₃ : m₂.mark k with
      | error other =>
          simp only [h₃] at hfault
          cases hfault
          exact ⟨r, .inr hr, k, hk, hsize₂ ▸ MarkSet.mark_eq_error_iff.1 h₃⟩
      | ok m₃ =>
          -- past the flags only the origins are asked for
          obtain ⟨a, ha⟩ := h.origin e he
          obtain ⟨b, hb⟩ := h.origin f hfmem
          obtain ⟨c, hc⟩ := h.origin r hrmem
          simp only [h₃, ha, hb, hc] at hfault
          cases hfault

theorem TotalOn.lookAcross_eq_error (h : T.TotalOn edges) {s : E} (hs : s ∈ edges)
    (hfault : T.lookAcross marks s = .error fault) :
    ∃ d, T.dual s = .ok d ∧ T.NoFlag marks.words.size d fault := by
  obtain ⟨d, hdmem, hd⟩ := h.dual s hs
  obtain ⟨border, hborder⟩ := h.isRegionBorder s hs
  refine ⟨d, hd, ?_⟩
  cases hclaimed : T.isClaimed marks d with
  | error other =>
      simp only [lookAcross, hd, hclaimed, bind, Except.bind] at hfault
      cases hfault
      exact h.isClaimed_eq_error hdmem hclaimed
  | ok b =>
      simp only [lookAcross, hd, hclaimed, hborder, bind, Except.bind, pure, Except.pure] at hfault
      cases b <;> cases hfault

/-- Where a traversal lacks a flag that it asks for, with so many words of flags and after claims
at `entries`. -/
inductive LacksFlag (T : Triangulation V E) (words : Nat) (entries : List E) (e : E)
    (fault : Fault) : Prop
  /-- The edge `e` has no flag. -/
  | here : T.NoFlag words e fault → LacksFlag T words entries e fault
  /-- The face of `e` is open, and no claim was made at its index; but another side of the face
  has no flag. -/
  | around {s : E} : (∀ c ∈ entries, T.edgeIndex c ≠ T.edgeIndex e) →
      (T.forward e = .ok s ∨ T.reverse e = .ok s) → T.NoFlag words s fault →
      LacksFlag T words entries e fault
  /-- The last claim was made at `e`, and the edge beyond another side of the face has no flag. -/
  | beyond {s d : E} : entries.getLast? = some e → (T.forward e = .ok s ∨ T.reverse e = .ok s) →
      T.dual s = .ok d → T.NoFlag words d fault → LacksFlag T words entries e fault

/-- If every question has an answer, a traversal breaks off for lack of a flag only. -/
theorem TotalOn.lacksFlag (h : T.TotalOn edges) {events : List (Event V E)}
    (hcourse : T.Course marks events marks') (he : e ∈ edges)
    (hstops : T.StopsAt marks' (Event.entries events) e fault) :
    T.LacksFlag marks.words.size (Event.entries events) e fault := by
  rw [← hcourse.size_eq]
  cases hstops with
  | reading hfault => exact .here (h.isClaimed_eq_error he hfault)
  | claiming hopen hfault =>
      obtain ⟨s, hs, hflag⟩ := h.claim_eq_error he hopen hfault
      refine .around (fun c hc heq => ?_) hs hflag
      -- the flag of every claimed edge is set by now
      obtain ⟨i, hi, _, hclear⟩ := isClaimed_eq_ok_iff.1 hopen
      obtain ⟨j, hj, _, hset⟩ := hcourse.flag_of_mem_entries hc
      cases hi.symm.trans (heq.symm.trans hj)
      exact Bool.false_ne_true (hclear.symm.trans hset)
  | looking hlast hside hfault =>
      obtain ⟨d, hd, hflag⟩ := h.lookAcross_eq_error (h.mem_of_side he hside) hfault
      exact .beyond hlast hside hd hflag

/-- A walk breaks off for lack of a flag only, at an edge that came up on its stack. -/
theorem TotalOn.explore_lacksFlag (h : T.TotalOn edges) {stack : List E}
    (hstack : ∀ e ∈ stack, e ∈ edges) (hfault : (T.explore marks stack).fault? = some fault) :
    ∃ e ∈ edges,
      (e ∈ stack ∨ ∃ c ∈ Event.entries (T.explore marks stack).events, T.LeadsOn c e) ∧
      T.LacksFlag marks.words.size (Event.entries (T.explore marks stack).events) e fault := by
  obtain ⟨e, hcame, hstops⟩ := T.explore_stopsAt _ stack hfault
  have he : e ∈ edges := by
    rcases hcame with hmem | ⟨c, hc, hled⟩
    · exact hstack e hmem
    · exact h.mem_of_leadsOn (forall_mem_entries_explore hstack
        (fun _ _ hc hled => h.mem_of_leadsOn hc hled) c hc) hled
  exact ⟨e, he, hcame, h.lacksFlag (T.course_explore _ stack) he hstops⟩

/-- So does a scan, at an edge that it was given or at the dual of one. -/
theorem TotalOn.scanEdges_lacksFlag (h : T.TotalOn edges) {es : List E}
    (hes : ∀ e ∈ es, e ∈ edges) (hfault : (T.scanEdges es marks).fault? = some fault) :
    ∃ e ∈ edges, (e ∈ es ∨ ∃ b ∈ es, T.dual b = .ok e) ∧
      T.LacksFlag marks.words.size (Event.entries (T.scanEdges es marks).events) e fault := by
  rcases T.scanEdges_stopsAt es marks hfault with ⟨b, hb, herror⟩ | ⟨e, hcame, hstops⟩
  · obtain ⟨d, _, hd⟩ := h.dual b (hes b hb)
    cases hd.symm.trans herror
  · have he : e ∈ edges := by
      rcases hcame with he | ⟨b, hb, hbeyond⟩
      · exact hes e he
      · obtain ⟨d, hd, heq⟩ := h.dual b (hes b hb)
        cases heq.symm.trans hbeyond
        exact hd
    exact ⟨e, he, hcame, h.lacksFlag (T.course_scanEdges _ _) he hstops⟩

/-! ## Traversals -/

/-- How many words of flags a traversal keeps. -/
def numWords (T : Triangulation V E) (options : WalkOptions) : Nat :=
  (T.maxEdgeIndex + 1 + options.markSlack + 63) / 64

/-- What a traversal with so many words of flags keeps to. Its counters are those of its events,
also if it breaks off. -/
structure Orderly (T : Triangulation V E) (words : Nat) (came : E → Prop) (report : Report V E)
    (counted : Summary) : Prop where
  /-- No two claims are made at edges with one index. -/
  distinct : (Event.entries report.events).Pairwise fun a b => T.edgeIndex a ≠ T.edgeIndex b
  length_entries : (Event.entries report.events).length = counted.facesVisited
  facesVisited_le : counted.facesVisited ≤ 64 * words
  facesVisited_eq : counted.facesVisited = counted.trianglesEmitted + counted.ghostsSuppressed
  /-- What is counted as a triangle is handed over, in either form. -/
  length_triangles : report.triangles.length = counted.trianglesEmitted
  length_edgeTriangles : report.edgeTriangles.length = counted.trianglesEmitted
  fits : counted.Fits
  /-- It comes to its end, or lacks a flag at an edge that came up. -/
  ends : report.result = .ok counted ∨ ∃ e fault, came e ∧
    T.LacksFlag words (Event.entries report.events) e fault ∧
    report.result = .error (.fault fault)

/-- What a region walk from `link` keeps to besides. -/
structure Confined (T : Triangulation V E) (link : E) (report : Report V E) : Prop where
  tried_le : (Event.tried report.events).length ≤ 1 + 2 * (Event.entries report.events).length
  /-- The first claim is made at the linking edge, and a claim leads on to each later one. -/
  ledOn : ∀ before e after, Event.entries report.events = before ++ e :: after →
    before = [] ∧ e = link ∨ ∃ c ∈ before, T.LeadsOn c e

/-- The counters of a course that begins with few enough flags fit a word. -/
theorem Course.fits {capacity regionsWalked : Nat} {events : List (Event V E)}
    (hcourse : T.Course (.withCapacity capacity) events marks')
    (htests : (events.filterMap Event.border?).length ≤ 2 * (Event.entries events).length)
    (hcapacity : capacity ≤ 2 ^ 62) (hregions : regionsWalked ≤ 1) :
    (Event.summary events regionsWalked).Fits := by
  have hfree := hcourse.free_add_length_le
  have hflags := (MarkSet.withCapacity capacity).free_le
  rw [MarkSet.size_words_withCapacity] at hflags
  have hentries := Event.length_entries events
  have hfaces := Event.length_faces events
  have hborders : (events.filterMap Event.border?).count true ≤
      (events.filterMap Event.border?).length := List.count_le_length
  have hcount : maxCount = 2 ^ 64 - 1 := rfl
  constructor <;> simp only [Event.summary] <;> omega

theorem orderly_ofTrace {capacity regionsWalked : Nat} {trace : Trace V E} {came : E → Prop}
    (hcourse : T.Course (.withCapacity capacity) trace.events trace.marks)
    (htests : (trace.events.filterMap Event.border?).length ≤
      2 * (Event.entries trace.events).length)
    (hcapacity : capacity < 2 ^ 62) (hregions : regionsWalked ≤ 1)
    (hstops : ∀ fault, trace.fault? = some fault → ∃ e, came e ∧
      T.LacksFlag ((capacity + 63) / 64) (Event.entries trace.events) e fault)
    (started : Record V E) (finished : Summary → Record V E) :
    T.Orderly ((capacity + 63) / 64) came (.ofTrace started finished regionsWalked trace)
      (Event.summary trace.events regionsWalked) := by
  have hfree := hcourse.free_add_length_le
  have hflags := (MarkSet.withCapacity capacity).free_le
  rw [MarkSet.size_words_withCapacity] at hflags
  have hentries := Event.length_entries trace.events
  have hfaces := Event.length_faces trace.events
  have hreport := Report.events_ofTrace started finished regionsWalked trace
  constructor
  case distinct => rw [hreport]; exact hcourse.distinct
  case length_entries => rw [hreport]; exact hentries
  case facesVisited_le => show (Event.faces trace.events).length ≤ _; omega
  case facesVisited_eq => exact hfaces
  case length_triangles =>
    rw [Report.triangles, hreport]
    exact Event.length_triangles trace.events
  case length_edgeTriangles =>
    rw [Report.edgeTriangles, hreport]
    exact Event.length_edgeTriangles trace.events
  case fits => exact hcourse.fits htests hcapacity.le hregions
  case ends =>
    rw [hreport]
    unfold Report.ofTrace
    cases hfault : trace.fault? with
    | none => exact .inl rfl
    | some fault =>
        obtain ⟨e, hcame, hlacks⟩ := hstops fault hfault
        exact .inr ⟨e, fault, hcame, hlacks, rfl⟩

variable {options : WalkOptions}

theorem le_maxCount {n : Nat} (h : n < 2 ^ 62) : n ≤ maxCount := by
  have hcount : maxCount = 2 ^ 64 - 1 := rfl
  omega

/-- A walk from an edge about which, and about all that it leads on to, every question has an
answer. -/
theorem TotalOn.orderly_walkFrom (h : T.TotalOn edges) {link : E} (hlink : link ∈ edges)
    (hroom : T.maxEdgeIndex + 1 + options.markSlack < 2 ^ 62)
    (hstack : options.stackCapacity * T.edgeBytes ≤ maxBytes) :
    T.Orderly (T.numWords options)
      (fun e => e = link ∨
        ∃ c ∈ Event.entries (T.walkFrom link options).events, T.LeadsOn c e)
      (T.walkFrom link options) (Event.summary (T.walkFrom link options).events 1) := by
  rw [Lawful.walkFrom_eq_ofTrace (le_maxCount hroom) hstack, Report.events_ofTrace]
  have hentry : ∀ e ∈ [link], e ∈ edges := by simp [hlink]
  refine orderly_ofTrace (T.course_explore _ [link]) (T.length_tests_explore _ [link]) hroom
    (Nat.le_refl 1) (fun fault hfault => ?_) _ _
  obtain ⟨e, _, hcame, hlacks⟩ := h.explore_lacksFlag hentry hfault
  rw [MarkSet.size_words_withCapacity] at hlacks
  exact ⟨e, hcame.imp_left List.mem_singleton.1, hlacks⟩

theorem TotalOn.orderly_scan (h : T.TotalOn edges) (hbase : ∀ e ∈ T.baseEdges, e ∈ edges)
    (hroom : T.maxEdgeIndex + 1 + options.markSlack < 2 ^ 62) :
    T.Orderly (T.numWords options)
      (fun e => e ∈ T.baseEdges ∨ ∃ b ∈ T.baseEdges, T.dual b = .ok e) (T.scan options)
      (Event.summary (T.scan options).events 0) := by
  cases hbootstrapped : T.isBootstrapped with
  | false =>
      have hidle : T.scan options = .idle .noTriangles := by simp [scan, hbootstrapped]
      rw [hidle]
      exact ⟨.nil, rfl, Nat.zero_le _, rfl, rfl, rfl,
        ⟨Nat.zero_le _, Nat.zero_le _, Nat.zero_le _, Nat.zero_le _, Nat.zero_le _⟩, .inl rfl⟩
  | true =>
      rw [Lawful.scan_eq_ofTrace hbootstrapped (le_maxCount hroom), Report.events_ofTrace]
      refine orderly_ofTrace (T.course_scanEdges _ _) ?_ hroom (Nat.zero_le 1)
        (fun fault hfault => ?_) _ _
      · rw [tests_scanEdges]
        exact Nat.zero_le _
      · obtain ⟨e, _, hcame, hlacks⟩ := h.scanEdges_lacksFlag hbase hfault
        rw [MarkSet.size_words_withCapacity] at hlacks
        exact ⟨e, hcame, hlacks⟩

/-- A region walk goes on only by steps across sides that are no borders, whatever the mesh
answers. -/
theorem confined_walkFrom (T : Triangulation V E) (link : E) (options : WalkOptions) :
    T.Confined link (T.walkFrom link options) := by
  cases hprepare : T.prepareWalk options with
  | error fault =>
      rw [walkFrom_eq_broken hprepare]
      refine ⟨Nat.zero_le _, fun before e after hnil => ?_⟩
      exact absurd hnil.symm (List.append_ne_nil_of_right_ne_nil before (List.cons_ne_nil e after))
  | ok marks =>
      obtain ⟨hroom, hstack⟩ := room_of_prepareWalk hprepare
      rw [Lawful.walkFrom_eq_ofTrace hroom hstack]
      constructor
      case tried_le =>
        rw [Report.events_ofTrace]
        exact T.length_tried_explore _ [link]
      case ledOn =>
        rw [Report.events_ofTrace]
        intro before e after hsplit
        rcases T.explore_ledOn _ [link] before after hsplit with he | hled
        · obtain rfl : e = link := List.mem_singleton.1 he
          cases before with
          | nil => exact .inl ⟨rfl, rfl⟩
          | cons c before =>
              -- the first claim is made at the linking edge, and no other at its index
              rcases T.explore_ledOn _ [e] [] (before ++ e :: after) hsplit with hc | ⟨_, hnil, _⟩
              · have hdistinct := (T.course_explore
                  (.withCapacity (T.maxEdgeIndex + 1 + options.markSlack)) [e]).distinct
                rw [hsplit, List.mem_singleton.1 hc] at hdistinct
                have hne := (List.pairwise_cons.1 hdistinct).1 e (by simp)
                exact absurd rfl hne
              · exact absurd hnil List.not_mem_nil
        · exact .inr hled

/-- If there is an answer to every question, a traversal comes to its end or lacks a flag, and
keeps within bounds in either case, whatever the answers are. A walk has to have room for its
stack, to begin at all. -/
theorem TotalOn.traversals_end (h : T.TotalOn edges) (hbase : ∀ e ∈ T.baseEdges, e ∈ edges)
    {link : E} (hlink : link ∈ edges)
    (hroom : T.maxEdgeIndex + 1 + options.markSlack < 2 ^ 62) :
    let walk := T.walkFrom link options
    let scan := T.scan options
    ((options.stackCapacity * T.edgeBytes ≤ maxBytes → T.Orderly (T.numWords options)
        (fun e => e = link ∨ ∃ c ∈ Event.entries walk.events, T.LeadsOn c e) walk
        (Event.summary walk.events 1)) ∧
      T.Confined link walk) ∧
      T.Orderly (T.numWords options)
        (fun e => e ∈ T.baseEdges ∨ ∃ b ∈ T.baseEdges, T.dual b = .ok e) scan
        (Event.summary scan.events 0) :=
  ⟨⟨h.orderly_walkFrom hlink hroom, T.confined_walkFrom link options⟩,
    h.orderly_scan hbase hroom⟩

end Triangulation

/-! ## Lawless tables -/

namespace Table

/-- Whether the rows of a table lead to rows. -/
def IsClosed (table : Table) : Prop :=
  ∀ e < table.rows.size, (table.rowAt e).dual < table.rows.size ∧
    (table.rowAt e).forward < table.rows.size ∧ (table.rowAt e).reverse < table.rows.size

instance (table : Table) : Decidable table.IsClosed :=
  inferInstanceAs (Decidable (∀ e < table.rows.size, _ ∧ _ ∧ _))

/-- Such a table has an answer to every question about its edges. -/
theorem IsClosed.totalOn {table : Table} (h : table.IsClosed) :
    table.surface.toTriangulation.TotalOn {e | e < table.rows.size} where
  edgeIndex _ he := ⟨_, table.map_readAt_rows he _⟩
  origin _ he := ⟨_, table.map_readAt_rows he _⟩
  dual e he := ⟨_, (h e he).1, table.map_readAt_rows he _⟩
  forward e he := ⟨_, (h e he).2.1, table.map_readAt_rows he _⟩
  reverse e he := ⟨_, (h e he).2.2, table.map_readAt_rows he _⟩
  isRegionBorder _ he := ⟨_, table.map_readAt_rows he _⟩

/-- A table that keeps no law: going forward from 0 one stays at 1, the duals of 0, 1 and 2 do not
lead back, 3 is its own dual and has the index of 1, and the index of 4 is too large. -/
def unruly : Table where
  isBootstrapped := true
  maxEdgeIndex := 70
  baseEdges := [3, 0]
  rows := #[⟨some 0, 4, 1, 3, false, 0⟩, ⟨some 1, 2, 1, 0, false, 65⟩, ⟨none, 3, 0, 1, false, 9⟩,
    ⟨some 2, 3, 2, 2, true, 65⟩, ⟨some 0, 4, 4, 4, false, 200⟩]
  positions := #[]
  links := #[]

/-- A walk claims the faces of 0 and of 2, and lacks the flag of 4 beyond the second. -/
theorem unruly_traversals_end :
    unruly.IsClosed ∧ (∀ e ∈ unruly.baseEdges, e < unruly.rows.size) ∧ 0 < unruly.rows.size ∧
      70 + 1 + 2 < 2 ^ 62 ∧ 64 * wordBytes ≤ maxBytes ∧
      let T := unruly.surface.toTriangulation
      let walk := T.walkFrom 0 {}
      let scan := T.scan {}
      walk.result = .error (.fault (.outOfBounds 2 3)) ∧
      (T.Orderly 2 (fun e => e = 0 ∨ ∃ c ∈ Event.entries walk.events, T.LeadsOn c e) walk
          (Event.summary walk.events 1) ∧
        T.Confined 0 walk) ∧
        T.Orderly 2 (fun e => e ∈ T.baseEdges ∨ ∃ b ∈ T.baseEdges, T.dual b = .ok e) scan
          (Event.summary scan.events 0) := by
  have hclosed : unruly.IsClosed := by decide +kernel
  have hbase : ∀ e ∈ unruly.baseEdges, e < unruly.rows.size := by decide
  have hlink : 0 < unruly.rows.size := by decide
  have hroom : unruly.maxEdgeIndex + 1 + ({} : WalkOptions).markSlack < 2 ^ 62 := by decide
  have hstack : 64 * wordBytes ≤ maxBytes := by decide
  obtain ⟨⟨horderly, hconfined⟩, hscan⟩ := hclosed.totalOn.traversals_end hbase hlink hroom
  exact ⟨hclosed, hbase, hlink, hroom, hstack, by decide +kernel,
    ⟨horderly hstack, hconfined⟩, hscan⟩

end Table

end TinFaces
