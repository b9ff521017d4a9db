import Mathlib.Data.Sym.Sym2
import TinFaces.Proofs.Courses
import TinFaces.Proofs.Regions

/-!
# Border tests

A region walk asks whether a side is a border only if the face beyond is still open. On a lawful
mesh where the two edges of a pair bound different faces, that comes to one test for each
undirected edge around the claimed faces (`Lawful.TestsOnce`):

* the face that is claimed first looks across it, and the other face finds the first one claimed;
* the side through which a face is entered is looked across from the other face alone;
* nothing looks across the linking edge, unless it is the only side of its face. Then the forward
  and the reverse side are both that edge, and the walk tests it twice.

`Tested` is what a walk keeps true of the tested sides and the entries. A claim with the looks that
follow it keeps it (`Tested.claim`, `Tested.step`), and so does a walk (`explore_tested`). If both
edges of a pair report the same flag, the refused crossings are the borders among the undirected
edges, whichever face came first (`Lawful.tests_each_pair_once`).
-/

namespace TinFaces

namespace Event

variable {V E : Type}

/-- The side that was tested, if the event is a border test. -/
def side? : Event V E → Option E
  | tested side _ => some side
  | _ => none

/-- The sides that were tested, in order. -/
def testedSides (events : List (Event V E)) : List E := events.filterMap side?

theorem testedSides_append (xs ys : List (Event V E)) :
    testedSides (xs ++ ys) = testedSides xs ++ testedSides ys :=
  List.filterMap_append

end Event

namespace Lawful

variable {V E : Type} {T : Triangulation V E} {edges : Set E} {L : Lawful T edges}
  {link e s : E} {entries rest sides more : List E} {marks marks' : MarkSet}

/-! ## Undirected edges -/

/-- The undirected edge of a directed one. -/
def pair (L : Lawful T edges) (e : E) : Sym2 E := s(e, L.dual e)

theorem pair_dual (he : e ∈ edges) : L.pair (L.dual e) = L.pair e := by
  rw [pair, L.dual_dual e he, Sym2.eq_swap]
  rfl

theorem eq_or_eq_dual_of_pair {a b : E} (h : L.pair a = L.pair b) : a = b ∨ a = L.dual b := by
  rcases Sym2.eq_iff.1 h with hsame | hswap
  · exact .inl hsame.1
  · exact .inr hswap.1

/-- Whether the two directed edges of each pair bound different faces. -/
def TwoSided (L : Lawful T edges) : Prop := ∀ e ∈ edges, ¬ L.SameFace e (L.dual e)

/-! ## What has been tested -/

/-- What a walk from `link` keeps true of the sides that it has tested, tests of the linking edge
in a face without another side apart. -/
structure Tested (L : Lawful T edges) (link : E) (entries sides : List E) : Prop where
  /-- The face on the left of a tested side was claimed. -/
  claimed : ∀ s ∈ sides, L.Claimed entries s
  /-- No undirected edge was tested twice. -/
  once : (sides.map L.pair).Nodup
  ne_link : ∀ s ∈ sides, L.pair s ≠ L.pair link
  all : ∀ e, L.Claimed entries e → L.pair e = L.pair link ∨ ∃ s ∈ sides, L.pair s = L.pair e

theorem tested_nil (L : Lawful T edges) (link : E) : L.Tested link [] [] where
  claimed _ hs := absurd hs List.not_mem_nil
  once := List.nodup_nil
  ne_link _ hs := absurd hs List.not_mem_nil
  all _ h := by
    obtain ⟨_, hc, _⟩ := h
    exact absurd hc List.not_mem_nil

/-- The linking edge is the first entry. -/
theorem link_mem_of_frontier (h : L.Frontier link entries (e :: rest)) :
    link ∈ entries ++ [e] := by
  rcases h.seeded with hseed | ⟨_, hstack⟩
  · exact List.mem_append_left _ hseed
  · rw [(List.cons.inj hstack).1]
    exact List.mem_append_right _ List.mem_cons_self

/-- After a claim at `e`, an undirected edge of the face has not been tested if the face beyond it
is open, and is not that of the linking edge. -/
theorem Tested.fresh (h : L.Tested link entries sides)
    (hfrontier : L.Frontier link entries (e :: rest)) (hfresh : ¬ L.Claimed entries e)
    (hlone : link ∈ entries ∨ L.forward link ≠ link)
    (hs : s = L.forward e ∨ s = L.forward (L.forward e))
    (hopen : ¬ L.Claimed (entries ++ [e]) (L.dual s)) :
    L.pair s ≠ L.pair link ∧ ∀ t ∈ sides, L.pair t ≠ L.pair s := by
  have he : e ∈ edges := hfrontier.stack_mem e List.mem_cons_self
  have hface : L.SameFace e s := .inr hs
  -- the face of `s` is the one that is claimed now, so it was open before
  have hnew : ¬ L.Claimed entries s := fun hclaimed =>
    hfresh (hclaimed.trans hfrontier.entries_mem (L.sameFace_symm he hface))
  have hlink : link ∈ entries ++ [e] := link_mem_of_frontier hfrontier
  constructor
  · intro hpair
    rcases eq_or_eq_dual_of_pair hpair with rfl | rfl
    · rcases hlone with hmem | hne
      · exact hnew ⟨s, hmem, L.sameFace_refl s⟩
      · exact hne ((hfrontier.isExit hfresh hs).resolve_left fun h => h rfl)
    · have hmem : link ∈ edges := by
        rcases List.mem_append.1 hlink with hmem | hmem
        · exact hfrontier.entries_mem link hmem
        · rw [List.mem_singleton.1 hmem]
          exact he
      rw [L.dual_dual link hmem] at hopen
      exact hopen ⟨link, hlink, L.sameFace_refl link⟩
  · intro t ht hpair
    have htclaimed := h.claimed t ht
    rcases eq_or_eq_dual_of_pair hpair with rfl | rfl
    · exact hnew htclaimed
    · exact hopen (claimed_append.2 (.inl htclaimed))

/-- The two sides that a walk looks across after a claim at `e` belong to different undirected
edges, if the face beyond one of them is open. -/
theorem Tested.pair_ne (htwo : L.TwoSided) (hfrontier : L.Frontier link entries (e :: rest))
    (hlone : link ∈ entries ∨ L.forward link ≠ link) (hfresh : ¬ L.Claimed entries e)
    (hopen : ¬ L.Claimed (entries ++ [e]) (L.dual (L.forward e))) :
    L.pair (L.forward e) ≠ L.pair (L.forward (L.forward e)) := by
  have he : e ∈ edges := hfrontier.stack_mem e List.mem_cons_self
  have hf : L.forward e ∈ edges := L.forward_mem e he
  intro hpair
  rcases eq_or_eq_dual_of_pair hpair with hsame | hdual
  · -- a face with one side only, entered through it
    have hlone' : L.forward e = e :=
      hsame.trans ((congrArg L.forward hsame).trans (L.forward_three e he))
    rw [hlone'] at hopen
    rcases hfrontier.entered e (.inr List.mem_cons_self) with rfl | ⟨c, hc, t, ht, _, rfl⟩
    · rcases hlone with hmem | hne
      · exact hfresh ⟨e, hmem, L.sameFace_refl e⟩
      · exact hne hlone'
    · rw [L.dual_dual t (L.sameFace_mem (hfrontier.entries_mem c hc) (.inr ht))] at hopen
      exact hopen (claimed_append.2 (.inl ⟨c, hc, .inr ht⟩))
  · refine htwo _ (L.forward_mem _ hf) ?_
    rw [← hdual]
    exact L.sameFace_symm hf (L.sameFace_forward _)

/-- A claim at `e`, and tests of those of its two sides beyond which the face is open. -/
theorem Tested.claim (htwo : L.TwoSided) (h : L.Tested link entries sides)
    (hfrontier : L.Frontier link entries (e :: rest)) (hfresh : ¬ L.Claimed entries e)
    (hlone : link ∈ entries ∨ L.forward link ≠ link)
    (hmore : ∀ s ∈ more, (s = L.forward e ∨ s = L.forward (L.forward e)) ∧
      ¬ L.Claimed (entries ++ [e]) (L.dual s))
    (honce : (more.map L.pair).Nodup)
    (hall : ∀ s, s = L.forward e ∨ s = L.forward (L.forward e) →
      L.Claimed (entries ++ [e]) (L.dual s) ∨ s ∈ more) :
    L.Tested link (entries ++ [e]) (sides ++ more) := by
  have he : e ∈ edges := hfrontier.stack_mem e List.mem_cons_self
  have hfreshSide := fun s hs =>
    h.fresh hfrontier hfresh hlone (hmore s hs).1 (hmore s hs).2
  constructor
  case claimed =>
    intro s hs
    rcases List.mem_append.1 hs with hs | hs
    · exact claimed_append.2 (.inl (h.claimed s hs))
    · exact claimed_append.2 (.inr (.inr (hmore s hs).1))
  case once =>
    rw [List.map_append]
    refine List.nodup_append.2 ⟨h.once, honce, ?_⟩
    intro p hp q hq
    obtain ⟨t, ht, rfl⟩ := List.mem_map.1 hp
    obtain ⟨s, hs, rfl⟩ := List.mem_map.1 hq
    exact (hfreshSide s hs).2 t ht
  case ne_link =>
    intro s hs
    rcases List.mem_append.1 hs with hs | hs
    · exact h.ne_link s hs
    · exact (hfreshSide s hs).1
  case all =>
    have hold : ∀ x, L.Claimed entries x →
        L.pair x = L.pair link ∨ ∃ s ∈ sides ++ more, L.pair s = L.pair x := fun x hx =>
      (h.all x hx).imp_right fun ⟨s, hs, hpair⟩ => ⟨s, List.mem_append_left _ hs, hpair⟩
    intro x hx
    rcases claimed_append.1 hx with hx | hside
    · exact hold x hx
    · have hxmem : x ∈ edges := L.sameFace_mem he hside
      rcases hside with rfl | hside
      · -- the side through which the face was entered
        rcases hfrontier.entered x (.inr List.mem_cons_self) with rfl | ⟨c, hc, t, ht, _, rfl⟩
        · exact .inl rfl
        · rw [pair_dual (L.sameFace_mem (hfrontier.entries_mem c hc) (.inr ht))]
          exact hold t ⟨c, hc, .inr ht⟩
      · rcases hall x hside with hbeyond | hmem
        · -- the face beyond is another one, so it was claimed before
          have happart : ¬ L.SameFace e (L.dual x) := fun hsame => htwo x hxmem
            (L.sameFace_trans hxmem (L.sameFace_symm he (.inr hside)) hsame)
          have hbefore := (claimed_append.1 hbeyond).resolve_right happart
          rw [← pair_dual hxmem]
          exact hold _ hbefore
        · exact .inr ⟨x, List.mem_append_right _ hmem, rfl⟩

/-! ## The walk -/

/-- A look across a side tests it if the face beyond is open. -/
theorem Marked.testedSides_lookAcross (h : L.Marked marks entries) (hs : s ∈ edges)
    {events : List (Event V E)} {way : Option E}
    (hlook : T.lookAcross marks s = .ok (events, way)) :
    L.Claimed entries (L.dual s) ∧ Event.testedSides events = [] ∨
      ¬ L.Claimed entries (L.dual s) ∧ Event.testedSides events = [s] := by
  obtain ⟨b, hb, hclaimed⟩ := h.isClaimed_eq (L.dual_mem s hs)
  cases b with
  | true =>
      cases hlook.symm.trans (L.lookAcross_of_claimed hs hb)
      exact .inl ⟨hclaimed.1 rfl, rfl⟩
  | false =>
      cases hlook.symm.trans (L.lookAcross_of_open hs hb)
      exact .inr ⟨fun hc => Bool.false_ne_true (hclaimed.2 hc), rfl⟩

/-- A claim at `e` and a look across its other sides keep the tests as they should be. -/
theorem Tested.step (htwo : L.TwoSided) (h : L.Tested link entries sides)
    (hfrontier : L.Frontier link entries (e :: rest)) (hfresh : ¬ L.Claimed entries e)
    (hlone : link ∈ entries ∨ L.forward link ≠ link) (hmarked : L.Marked marks (entries ++ [e]))
    {events₁ events₂ : List (Event V E)} {way₁ way₂ : Option E}
    (hlook₁ : T.lookAcross marks (L.forward e) = .ok (events₁, way₁))
    (hlook₂ : T.lookAcross marks (L.forward (L.forward e)) = .ok (events₂, way₂)) :
    L.Tested link (entries ++ [e]) (sides ++ Event.testedSides (events₁ ++ events₂)) := by
  have hf : L.forward e ∈ edges := L.forward_mem e (hfrontier.stack_mem e List.mem_cons_self)
  have htests₁ := hmarked.testedSides_lookAcross hf hlook₁
  have htests₂ := hmarked.testedSides_lookAcross (L.forward_mem _ hf) hlook₂
  have hpair := Tested.pair_ne htwo hfrontier hlone hfresh
  rw [Event.testedSides_append]
  refine h.claim htwo hfrontier hfresh hlone ?isOpen ?once ?all
  case isOpen =>
    intro s hs
    rcases List.mem_append.1 hs with hs | hs
    · rcases htests₁ with ⟨_, hnil⟩ | ⟨hopen₁, hone⟩
      · simp [hnil] at hs
      · obtain rfl : s = L.forward e := by simpa [hone] using hs
        exact ⟨.inl rfl, hopen₁⟩
    · rcases htests₂ with ⟨_, hnil⟩ | ⟨hopen₂, hone⟩
      · simp [hnil] at hs
      · obtain rfl : s = L.forward (L.forward e) := by simpa [hone] using hs
        exact ⟨.inr rfl, hopen₂⟩
  case once =>
    rcases htests₁ with ⟨_, h₁⟩ | ⟨hopen₁, h₁⟩
    · rcases htests₂ with ⟨_, h₂⟩ | ⟨_, h₂⟩ <;> simp [h₁, h₂]
    · rcases htests₂ with ⟨_, h₂⟩ | ⟨_, h₂⟩
      · simp [h₁, h₂]
      · simp [h₁, h₂, hpair hopen₁]
  case all =>
    rintro s (rfl | rfl)
    · exact htests₁.imp And.left fun hone => by simp [hone.2]
    · exact htests₂.imp And.left fun hone => by simp [hone.2]

theorem explore_tested (htwo : L.TwoSided) (hmarked : L.Marked marks entries) {stack : List E}
    (hfrontier : L.Frontier link entries stack) (h : L.Tested link entries sides)
    (hlone : link ∈ entries ∨ L.forward link ≠ link)
    (hends : (T.explore marks stack).fault? = none) : ∃ found,
      Event.faces (T.explore marks stack).events = found.map L.face ∧
      L.Frontier link (entries ++ found) [] ∧
      L.Tested link (entries ++ found)
        (sides ++ Event.testedSides (T.explore marks stack).events) := by
  fun_induction Triangulation.explore T marks stack generalizing entries sides with
  | case1 marks =>
      rw [← List.append_nil entries] at hfrontier h
      rw [← List.append_nil sides] at h
      exact ⟨[], rfl, hfrontier, h⟩
  | case2 | case4 | case5 | case6 => cases hends
  | case3 marks e rest hpassed ih =>
      obtain ⟨b, hb, hclaimed⟩ := hmarked.isClaimed_eq (hfrontier.stack_mem e List.mem_cons_self)
      cases hpassed.symm.trans hb
      exact ih hmarked (hfrontier.pass (hclaimed.1 rfl)) h hlone hends
  | case7 marks e rest hopen face marks' hface events₁ way₁ hlook₁ events₂ way₂ hlook₂ ih =>
      obtain ⟨rfl, hnone, hfresh, hmarked', hfrontier'⟩ :=
        hfrontier.step hmarked hopen hface hlook₁ hlook₂
      have htested := h.step htwo hfrontier hfresh hlone hmarked' hlook₁ hlook₂
      have hlone' : link ∈ entries ++ [e] ∨ L.forward link ≠ link :=
        .inl (link_mem_of_frontier hfrontier)
      obtain ⟨found, hfaces, hend, hfound⟩ := ih hmarked' hfrontier' htested hlone' hends
      refine ⟨e :: found, ?_, ?_, ?_⟩
      · show L.face e :: Event.faces (events₁ ++ events₂ ++ _) = _
        rw [Event.faces_append, hnone, hfaces]
        rfl
      · rwa [List.append_assoc, List.singleton_append] at hend
      · rw [List.append_assoc, List.append_assoc, ← Event.testedSides_append] at hfound
        exact hfound

/-! ## What a walk tests -/

/-- What a region walk from `link` tests and refuses, if it tests the linking edge itself as `own`
says. -/
structure TestsOnce (L : Lawful T edges) (link : E) (own : List E) (report : Report V E) :
    Prop where
  /-- The other tests are one for each undirected edge, but that of the linking edge, around the
  claimed faces. -/
  tests : ∃ sides, Event.testedSides report.events = own ++ sides ∧ (sides.map L.pair).Nodup ∧
    ∀ p, p ∈ sides.map L.pair ↔ p ∈ L.pair '' report.claimedEdges \ {L.pair link}
  /-- Those that are borders are refused. -/
  refused : ∃ summary, report.result = .ok summary ∧ summary.borderCrossingsRefused =
    own.countP L.border +
      (L.pair '' {e ∈ report.claimedEdges | L.border e = true} \ {L.pair link}).ncard

/-- The outcomes of the tests. -/
theorem borders_eq {events : List (Event V E)} (hcourse : T.Course marks events marks')
    (hmem : ∀ s ∈ Event.testedSides events, s ∈ edges) :
    events.filterMap Event.border? = (Event.testedSides events).map L.border := by
  induction hcourse with
  | nil => rfl
  | cons hevent _ ih =>
      cases hevent with
      | claimed _ _ => exact ih hmem
      | passed _ => exact ih hmem
      | @tested side _ border _ _ hborder =>
          obtain ⟨hside, hrest⟩ := List.forall_mem_cons.1 hmem
          cases hborder.symm.trans (L.border_eq side hside)
          exact congrArg (L.border side :: ·) (ih hrest)

/-- As many tested sides are borders as undirected edges around the claimed faces. -/
theorem Tested.countP_border (hborder : ∀ e ∈ edges, L.border (L.dual e) = L.border e)
    (h : L.Tested link entries sides) (hmem : ∀ e ∈ entries, e ∈ edges) :
    sides.countP L.border =
      (L.pair '' {e | L.Claimed entries e ∧ L.border e = true} \ {L.pair link}).ncard := by
  have hset : L.pair '' {e | L.Claimed entries e ∧ L.border e = true} \ {L.pair link} =
      {p | p ∈ (sides.filter L.border).map L.pair} := by
    ext p
    constructor
    · rintro ⟨⟨e, ⟨he, hflag⟩, rfl⟩, hne⟩
      obtain ⟨s, hs, hpair⟩ := (h.all e he).resolve_left hne
      refine List.mem_map.2 ⟨s, List.mem_filter.2 ⟨hs, ?_⟩, hpair⟩
      -- both edges of the pair report the same flag
      have hemem : e ∈ edges := by
        obtain ⟨c, hc, hface⟩ := he
        exact L.sameFace_mem (hmem c hc) hface
      rcases eq_or_eq_dual_of_pair hpair with rfl | rfl
      · exact hflag
      · rw [hborder e hemem, hflag]
    · intro hp
      obtain ⟨s, hs, rfl⟩ := List.mem_map.1 hp
      obtain ⟨hs, hflag⟩ := List.mem_filter.1 hs
      exact ⟨⟨s, ⟨h.claimed s hs, hflag⟩, rfl⟩, h.ne_link s hs⟩
  have hnodup : ((sides.filter L.border).map L.pair).Nodup :=
    h.once.sublist (List.filter_sublist.map L.pair)
  rw [hset, ncard_setOf_mem hnodup, List.length_map, List.countP_eq_length_filter]

variable {options : WalkOptions} {own : List E}

/-- What a walk has tested when its stack has run out, its own tests apart. -/
theorem Tested.testsOnce (hborder : ∀ e ∈ edges, L.border (L.dual e) = L.border e)
    (h : L.Tested link entries sides) (hfrontier : L.Frontier link entries [])
    (hown : ∀ s ∈ own, s ∈ edges)
    (hfault : (T.explore (.withCapacity (T.maxEdgeIndex + 1 + options.markSlack))
      [link]).fault? = none)
    (hfaces : Event.faces (T.walkFrom link options).events = entries.map L.face)
    (htests : Event.testedSides (T.walkFrom link options).events = own ++ sides)
    (hroom : T.maxEdgeIndex + 1 + options.markSlack ≤ maxCount)
    (hstack : options.stackCapacity * T.edgeBytes ≤ maxBytes) :
    L.TestsOnce link own (T.walkFrom link options) := by
  have hclaimed : ∀ e, e ∈ (T.walkFrom link options).claimedEdges ↔ L.Claimed entries e :=
    fun e => mem_claimedEdges_iff hfaces
  have hmem : ∀ s ∈ own ++ sides, s ∈ edges := by
    intro s hs
    rcases List.mem_append.1 hs with hs | hs
    · exact hown s hs
    · obtain ⟨c, hc, hface⟩ := h.claimed s hs
      exact L.sameFace_mem (hfrontier.entries_mem c hc) hface
  constructor
  case tests =>
    refine ⟨sides, htests, h.once, fun p => ⟨?_, ?_⟩⟩
    · intro hp
      obtain ⟨s, hs, rfl⟩ := List.mem_map.1 hp
      exact ⟨⟨s, (hclaimed s).2 (h.claimed s hs), rfl⟩, h.ne_link s hs⟩
    · rintro ⟨⟨e, he, rfl⟩, hne⟩
      obtain ⟨s, hs, hpair⟩ := (h.all e ((hclaimed e).1 he)).resolve_left hne
      exact List.mem_map.2 ⟨s, hs, hpair⟩
  case refused =>
    have hresult : (T.walkFrom link options).result =
        .ok (Event.summary (T.walkFrom link options).events 1) := by
      rw [walkFrom_eq_ofTrace hroom hstack]
      simp only [Report.ofTrace, hfault]
    refine ⟨_, hresult, ?_⟩
    have hborders : (T.walkFrom link options).events.filterMap Event.border? =
        (own ++ sides).map L.border := by
      rw [← htests] at hmem ⊢
      rw [walkFrom_eq_ofTrace hroom hstack, Report.events_ofTrace] at hmem ⊢
      exact borders_eq (T.course_explore _ _) hmem
    have hcount : (Event.summary (T.walkFrom link options).events 1).borderCrossingsRefused =
        own.countP L.border + sides.countP L.border := by
      show ((T.walkFrom link options).events.filterMap Event.border?).count true = _
      rw [hborders, List.count, List.countP_map, List.countP_append]
      simp [Function.comp_def]
    simp only [hcount, h.countP_border hborder hfrontier.entries_mem, hclaimed]

/-- A walk from an edge whose face has other sides does not test the undirected edge that it
starts at. -/
theorem walkFrom_testsOnce (htwo : L.TwoSided)
    (hborder : ∀ e ∈ edges, L.border (L.dual e) = L.border e) (hlink : link ∈ edges)
    (hroom : T.maxEdgeIndex + 1 + options.markSlack ≤ maxCount)
    (hstack : options.stackCapacity * T.edgeBytes ≤ maxBytes) (hside : L.forward link ≠ link) :
    L.TestsOnce link [] (T.walkFrom link options) := by
  have hmarked := L.marked_nil options.markSlack
  obtain ⟨_, hfault, _⟩ := explore_eq hmarked (frontier_start hlink)
  obtain ⟨found, hfaces, hfrontier, htested⟩ :=
    explore_tested htwo hmarked (frontier_start hlink) (L.tested_nil link) (.inr hside) hfault
  refine htested.testsOnce hborder hfrontier (by simp) hfault ?_ ?_ hroom hstack
  · rw [walkFrom_eq_ofTrace hroom hstack, Report.events_ofTrace, hfaces]
    rfl
  · rw [walkFrom_eq_ofTrace hroom hstack, Report.events_ofTrace]
    rfl

/-- A walk that starts in a face with one side looks across that side twice, and finds the face
beyond open both times. -/
theorem explore_lone (htwo : L.TwoSided) (hlink : link ∈ edges) (hside : L.forward link = link)
    (hmarked : L.Marked marks []) : ∃ marks' stack, L.Marked marks' [link] ∧
      L.Frontier link [link] stack ∧ T.explore marks [link] = (T.explore marks' stack).after
        [.claimed (L.face link), .tested link (L.border link), .tested link (L.border link)] := by
  obtain ⟨b, hopen, hclaimed⟩ := hmarked.isClaimed_eq hlink
  obtain rfl : b = false := by
    refine Bool.eq_false_iff.2 fun hb => ?_
    obtain ⟨_, hc, _⟩ := hclaimed.1 hb
    exact List.not_mem_nil hc
  obtain ⟨marks', hclaim, hmarked'⟩ := hmarked.claim_eq hlink
  obtain ⟨b', hb', hclaimed'⟩ := hmarked'.isClaimed_eq (L.dual_mem link hlink)
  -- the face beyond is another one
  obtain rfl : b' = false := by
    refine Bool.eq_false_iff.2 fun hb => ?_
    obtain ⟨c, hc, hface⟩ := hclaimed'.1 hb
    rw [List.mem_singleton.1 hc] at hface
    exact htwo link hlink hface
  have hlook : ∀ s, s = link → T.lookAcross marks' s = .ok ([.tested link (L.border link)],
      if L.border link then none else some (L.dual link)) := by
    rintro s rfl
    exact L.lookAcross_of_open hlink hb'
  have hlook₁ := hlook (L.face link).edges.second hside
  have hlook₂ := hlook (L.face link).edges.third ((congrArg L.forward hside).trans hside)
  obtain ⟨_, _, _, _, hfrontier⟩ :=
    (frontier_start hlink).step hmarked hopen hclaim hlook₁ hlook₂
  exact ⟨marks', _, hmarked', hfrontier,
    Triangulation.explore_of_open hopen hclaim hlook₁ hlook₂⟩

/-- The tests of the linking edge apart, nothing is tested with the first claim of such a walk. -/
theorem tested_lone (hside : L.forward link = link) : L.Tested link [link] [] where
  claimed _ hs := absurd hs List.not_mem_nil
  once := List.nodup_nil
  ne_link _ hs := absurd hs List.not_mem_nil
  all x hx := by
    obtain ⟨c, hc, hface⟩ := hx
    rw [List.mem_singleton.1 hc, SameFace, hside, hside, or_self, or_self] at hface
    exact .inl (congrArg L.pair hface)

/-- A walk that starts in a face with one side tests that side twice. -/
theorem walkFrom_testsOnce_of_lone (htwo : L.TwoSided)
    (hborder : ∀ e ∈ edges, L.border (L.dual e) = L.border e) (hlink : link ∈ edges)
    (hroom : T.maxEdgeIndex + 1 + options.markSlack ≤ maxCount)
    (hstack : options.stackCapacity * T.edgeBytes ≤ maxBytes) (hside : L.forward link = link) :
    L.TestsOnce link [link, link] (T.walkFrom link options) := by
  have hmarked := L.marked_nil options.markSlack
  obtain ⟨_, hfault, _⟩ := explore_eq hmarked (frontier_start hlink)
  obtain ⟨marks', stack, hmarked', hfrontier, hexplore⟩ := explore_lone htwo hlink hside hmarked
  have hends : (T.explore marks' stack).fault? = none := by
    rw [hexplore] at hfault
    exact hfault
  obtain ⟨found, hfaces, hend, htested⟩ := explore_tested htwo hmarked' hfrontier
    (tested_lone hside) (.inl List.mem_cons_self) hends
  refine htested.testsOnce hborder hend (by simp [hlink]) hfault ?_ ?_ hroom hstack
  · rw [walkFrom_eq_ofTrace hroom hstack, Report.events_ofTrace, hexplore, Trace.events_after,
      Event.faces_append, hfaces]
    rfl
  · rw [walkFrom_eq_ofTrace hroom hstack, Report.events_ofTrace, hexplore]
    rfl

end Lawful

/-! ## Walks over meshes -/

namespace Mesh

variable {m : Mesh} {triangles : List (Triangle Nat)} {link : EdgeId} {options : WalkOptions}

/-- The undirected edges of some edges that are region borders. -/
def borderPairs (m : Mesh) (S : Set EdgeId) : Set (Sym2 EdgeId) :=
  (fun e => s(e, e.dual)) '' {e ∈ S | m.isRegionBorder e = .ok true}

/-- Two edges of a pair bound different faces. -/
theorem Realizes.twoSided (h : m.Realizes triangles) : h.lawful.TwoSided := by
  intro e he hface
  obtain ⟨f, r, hlinks⟩ := h.exists_linksTriangle he
  have hf : h.lawful.forward e = f := (h.forward_eq_ok_iff he).1 hlinks.forward_eq
  have hr : h.lawful.forward f = r :=
    (h.forward_eq_ok_iff hlinks.live.1).1 hlinks.forward_forward
  rw [Lawful.SameFace, hf, hr] at hface
  obtain ⟨hne, hne', hne''⟩ := hlinks.dual_ne
  rcases hface with heq | heq | heq
  · exact hne heq
  · exact hne' heq
  · exact hne'' heq

/-- Both edges of a pair report the same flag. -/
theorem Realizes.border_dual (h : m.Realizes triangles) (e : EdgeId)
    (he : m.pool.isLive e.slot = true) : h.lawful.border e.dual = h.lawful.border e := by
  have hanswer : m.isRegionBorder e = .ok (h.lawful.border e) := h.lawful.border_eq e he
  have hanswer' : m.isRegionBorder e.dual = .ok (h.lawful.border e.dual) :=
    h.lawful.border_eq _ (h.lawful.dual_mem e he)
  rw [isRegionBorder_dual, hanswer] at hanswer'
  exact (Except.ok.inj hanswer').symm

/-- A walk refuses the borders around the faces that it claims, but for the pair that it starts
at. -/
theorem Realizes.refused_walkFrom (h : m.Realizes triangles)
    (hlive : m.pool.isLive link.slot = true)
    (hroom : m.pool.maxIndex + 1 + options.markSlack ≤ maxCount)
    (hstack : options.stackCapacity * wordBytes ≤ maxBytes) :
    let report := m.surface.toTriangulation.walkFrom link options
    ∃ summary, report.result = .ok summary ∧ summary.borderCrossingsRefused =
      (m.borderPairs report.claimedEdges \ {s(link, link.dual)}).ncard := by
  intro report
  have hlink : link ∈ {e : EdgeId | m.pool.isLive e.slot = true} := hlive
  obtain ⟨f, r, hlinks⟩ := h.exists_linksTriangle hlive
  have hside : h.lawful.forward link ≠ link := by
    rw [(h.forward_eq_ok_iff hlive).1 hlinks.forward_eq]
    exact hlinks.distinct.1.symm
  obtain ⟨summary, hresult, hrefused⟩ :=
    (Lawful.walkFrom_testsOnce h.twoSided h.border_dual hlink hroom hstack hside).refused
  refine ⟨summary, hresult, hrefused.trans ?_⟩
  -- the claimed edges are live, so the mesh has an answer for each
  obtain ⟨entries, hentries, hfaces⟩ := h.lawful.exists_faces_walkFrom hlink options
  have hflag : {e ∈ report.claimedEdges | h.lawful.border e = true} =
      {e ∈ report.claimedEdges | m.isRegionBorder e = .ok true} := by
    ext e
    refine and_congr_right fun he => ?_
    obtain ⟨c, hc, hface⟩ := (Lawful.mem_claimedEdges_iff hfaces).1 he
    have hanswer : m.isRegionBorder e = .ok (h.lawful.border e) :=
      h.lawful.border_eq e (h.lawful.sameFace_mem (hentries c hc) hface)
    rw [hanswer, Except.ok.injEq]
  rw [List.countP_nil, Nat.zero_add, hflag]
  rfl

/-- The claimed edges are finitely many. -/
theorem finite_claimedEdges (report : Report VertexId EdgeId) : report.claimedEdges.Finite := by
  refine (List.finite_toSet ((Event.faces report.events).flatMap fun face =>
    face.edges.toList)).subset fun e he => ?_
  obtain ⟨face, hface, he⟩ := he
  exact List.mem_flatMap.2 ⟨face, hface, he⟩

/-- A walk that starts at a border refuses all borders around the faces that it claims, but that
one. -/
theorem Realizes.refused_add_one (h : m.Realizes triangles)
    (hlive : m.pool.isLive link.slot = true) (hborder : m.isRegionBorder link = .ok true)
    (hroom : m.pool.maxIndex + 1 + options.markSlack ≤ maxCount)
    (hstack : options.stackCapacity * wordBytes ≤ maxBytes) :
    let report := m.surface.toTriangulation.walkFrom link options
    ∃ summary, report.result = .ok summary ∧
      summary.borderCrossingsRefused + 1 = (m.borderPairs report.claimedEdges).ncard := by
  intro report
  obtain ⟨summary, hresult, hrefused⟩ := h.refused_walkFrom hlive hroom hstack
  obtain ⟨entries, hwalks⟩ := h.walkFrom_represents hlive hborder hroom hstack
  have hlink : link ∈ report.claimedEdges := by
    rw [hwalks.claimedEdges_eq hlive]
    exact .start
  have hpair : s(link, link.dual) ∈ m.borderPairs report.claimedEdges :=
    ⟨link, ⟨hlink, hborder⟩, rfl⟩
  have hfinite : (m.borderPairs report.claimedEdges).Finite :=
    ((finite_claimedEdges report).subset fun _ he => he.1).image _
  exact ⟨summary, hresult,
    hrefused ▸ Set.ncard_sdiff_singleton_add_one hpair hfinite⟩

end Mesh

/-- A region walk tests each undirected edge around the claimed faces once, except the one that it
starts at. That one it does not test, unless it starts in a face with no other side; then it tests
it twice. So on a mesh that can come about the refused crossings are the borders around the claimed
faces, but for the one the walk starts at. -/
theorem Lawful.tests_each_pair_once {V E : Type} {T : Triangulation V E} {edges : Set E}
    (L : Lawful T edges) (htwo : L.TwoSided)
    (hborder : ∀ e ∈ edges, L.border (L.dual e) = L.border e) {link : E} (hlink : link ∈ edges)
    {options : WalkOptions} (hroom : T.maxEdgeIndex + 1 + options.markSlack ≤ maxCount)
    (hstack : options.stackCapacity * T.edgeBytes ≤ maxBytes) :
    ((L.forward link ≠ link → L.TestsOnce link [] (T.walkFrom link options)) ∧
      (L.forward link = link → L.TestsOnce link [link, link] (T.walkFrom link options))) ∧
    ∀ (m : Mesh) (options : WalkOptions), m.Reachable →
      m.pool.maxIndex + 1 + options.markSlack ≤ maxCount →
      options.stackCapacity * wordBytes ≤ maxBytes →
      (∀ link, m.pool.isLive link.slot = true →
        let report := m.surface.toTriangulation.walkFrom link options
        ∃ summary, report.result = .ok summary ∧ summary.borderCrossingsRefused =
          (m.borderPairs report.claimedEdges \ {s(link, link.dual)}).ncard) ∧
      ∀ id chain, m.chain? id = some chain → chain.closed = true →
        let report := (m.constraintOf chain).walk options
        ∃ summary, report.result = .ok summary ∧
          summary.borderCrossingsRefused + 1 = (m.borderPairs report.claimedEdges).ncard := by
  refine ⟨⟨walkFrom_testsOnce htwo hborder hlink hroom hstack,
    walkFrom_testsOnce_of_lone htwo hborder hlink hroom hstack⟩, ?_⟩
  intro m options hreachable hroom hstack
  obtain ⟨triangles, h⟩ := hreachable.exists_realizes
  refine ⟨fun link hlive => h.refused_walkFrom hlive hroom hstack,
    fun id chain hchain hclosed => ?_⟩
  obtain ⟨link, hlink, hlive, hborder⟩ :=
    hreachable.registered.link_isRegionBorder hchain hclosed
  rw [h.walk_constraintOf hclosed hlink hlive options]
  exact h.refused_add_one hlive hborder hroom hstack

/-! ## Tables -/

namespace Table

instance (table : Table) (h : table.KeepsLaws) (a b : Nat) :
    Decidable ((table.lawful h).SameFace a b) :=
  inferInstanceAs (Decidable (_ ∨ _ ∨ _))

/-- A triangle with a ghost face beyond each of its sides, where the pair of 0 is a border. -/
def innerWall : Table := { walledTriangle with
  rows := walledTriangle.rows.set! 1 ⟨some 1, 0, 6, 9, true, 1⟩ }

theorem innerWall_keepsLaws : innerWall.KeepsLaws := by decide +kernel

theorem innerWall_twoSided : (innerWall.lawful innerWall_keepsLaws).TwoSided := by
  have hall : ∀ e < innerWall.rows.size, ¬ (innerWall.lawful innerWall_keepsLaws).SameFace e
      ((innerWall.lawful innerWall_keepsLaws).dual e) := by decide +kernel
  exact hall

/-- From 2 on, the walk claims the faces on both sides of the wall and refuses to cross it once; so
it does at the ring around a triangle of a square. -/
theorem innerWall_tests_each_pair_once :
    let L := innerWall.lawful innerWall_keepsLaws
    let m := Mesh.constrainedSquare
    L.TwoSided ∧ (∀ e < innerWall.rows.size, L.border (L.dual e) = L.border e) ∧
      2 < innerWall.rows.size ∧ 11 + 1 + 2 ≤ maxCount ∧ 64 * wordBytes ≤ maxBytes ∧
      L.forward 2 ≠ 2 ∧
      L.TestsOnce 2 [] (innerWall.surface.toTriangulation.walkFrom 2 {}) ∧
      m.Reachable ∧ m.pool.maxIndex + 1 + 2 ≤ maxCount ∧
      ∃ chain, m.chain? ⟨0⟩ = some chain ∧ chain.closed = true ∧
        ∃ summary, ((m.constraintOf chain).walk {}).result = .ok summary ∧
          summary.borderCrossingsRefused + 1 =
            (m.borderPairs ((m.constraintOf chain).walk {}).claimedEdges).ncard := by
  intro L m
  have hborder : ∀ e < innerWall.rows.size, L.border (L.dual e) = L.border e := by
    decide +kernel
  have hlink : 2 < innerWall.rows.size := by decide +kernel
  have hroom' : innerWall.maxEdgeIndex + 1 + ({} : WalkOptions).markSlack ≤ maxCount := by decide
  have hstack : ({} : WalkOptions).stackCapacity * wordBytes ≤ maxBytes := by decide
  have hall := L.tests_each_pair_once innerWall_twoSided hborder hlink hroom' hstack
  have hroom : m.pool.maxIndex + 1 + 2 ≤ maxCount := by decide +kernel
  have hchain : m.chain? ⟨0⟩ = some ⟨[⟨0⟩, ⟨1⟩, ⟨2⟩], true, some ⟨0⟩, some ⟨2⟩,
      [⟨2⟩, ⟨4⟩, ⟨6⟩]⟩ := by decide +kernel
  have hside : L.forward 2 ≠ 2 := by decide +kernel
  exact ⟨innerWall_twoSided, hborder, hlink, hroom', hstack, hside, hall.1.1 hside,
    Mesh.reachable_constrainedSquare, hroom, _, hchain, rfl,
    (hall.2 m {} Mesh.reachable_constrainedSquare hroom hstack).2 _ _ hchain rfl⟩

/-- Two faces with one side each, and a border between them. -/
def walledMonogons : Table where
  isBootstrapped := true
  maxEdgeIndex := 1
  baseEdges := [0]
  rows := #[⟨some 0, 1, 0, 0, true, 0⟩, ⟨some 1, 0, 1, 1, true, 1⟩]
  positions := #[]
  links := #[⟨true, true, some 0⟩]

theorem walledMonogons_keepsLaws : walledMonogons.KeepsLaws := by decide +kernel

/-- No undirected edge but that of the linking edge bounds the one face that is claimed, and yet
two crossings are refused. -/
theorem walledMonogons_refuses_twice :
    let L := walledMonogons.lawful walledMonogons_keepsLaws
    (∀ e < walledMonogons.rows.size,
      ¬ L.SameFace e (L.dual e) ∧ L.border (L.dual e) = L.border e) ∧
      0 < walledMonogons.rows.size ∧ 1 + 1 + 2 ≤ maxCount ∧
      ¬ L.TestsOnce 0 [] (walledMonogons.surface.toTriangulation.walkFrom 0 {}) := by
  intro L
  refine ⟨by decide +kernel, by decide, by decide, fun h => ?_⟩
  obtain ⟨summary, hresult, hrefused⟩ := h.refused
  have hends : (walledMonogons.surface.walkFrom 0 {}).result = .ok ⟨1, 1, 0, 2, 1⟩ := by
    decide +kernel
  cases hends.symm.trans hresult
  have hfaces : Event.faces (walledMonogons.surface.walkFrom 0 {}).events =
      [0].map L.face := by decide +kernel
  have hnone : L.pair '' {e ∈ (walledMonogons.surface.walkFrom 0 {}).claimedEdges |
      L.border e = true} \ {L.pair 0} = ∅ := by
    refine Set.eq_empty_iff_forall_notMem.2 fun p hp => ?_
    obtain ⟨⟨e, ⟨he, _⟩, rfl⟩, hne⟩ := hp
    obtain ⟨c, hc, hface⟩ := (Lawful.mem_claimedEdges_iff hfaces).1 he
    rw [List.mem_singleton.1 hc] at hface
    have hforward : L.forward 0 = 0 := rfl
    have hzero : e = 0 := by simpa [Lawful.SameFace, hforward] using hface
    exact hne (congrArg L.pair hzero)
  rw [hnone, Set.ncard_empty] at hrefused
  exact absurd hrefused (by decide)

end Table

end TinFaces
