import TinFaces.Proofs.FullScan
import TinFaces.Proofs.LiveEdges
import TinFaces.Proofs.Orbits
import TinFaces.Proofs.RegionReach
import TinFaces.Proofs.Registry

/-!
# The regions of a mesh

The region of an edge is what can be reached from its left face without crossing a
region border (`Mesh.InRegion`). In a mesh that can come about this is an equivalence
of its live edges: a face is gone round in three steps, and a pair is a border in both
directions or in neither. So the regions of two edges are the same or have no face in
common.

The walk of a registered closed chain claims the region of its linking edge, one entry
for each face (`Mesh.Realizes.walk_represents`). The linking edge is itself a border,
which is why the walk need not care about the side it came in by. Two walks hence
claim the same faces or none in common (`Mesh.Reachable.regions_eq_or_disjoint`).
-/

namespace TinFaces

namespace Mesh

/-- The edges whose left faces are reached from that of `link` by steps across sides
that are no region borders. -/
inductive InRegion (m : Mesh) (link : EdgeId) : EdgeId → Prop
  | start : InRegion m link link
  | around {e f : EdgeId} : InRegion m link e → m.forward e = .ok f → InRegion m link f
  | across {e : EdgeId} : InRegion m link e → m.isRegionBorder e = .ok false →
      InRegion m link e.dual

/-- The edges of a region. -/
def region (m : Mesh) (link : EdgeId) : Set EdgeId := {e | m.InRegion link e}

variable {m : Mesh} {triangles : List (Triangle Nat)} {a b c : EdgeId}

/-! ## Regions as classes -/

theorem InRegion.trans (hab : m.InRegion a b) (hbc : m.InRegion b c) : m.InRegion a c := by
  induction hbc with
  | start => exact hab
  | around _ hforward ih => exact ih.around hforward
  | across _ hborder ih => exact ih.across hborder

/-- A pair is a border in both directions or in neither. -/
theorem isRegionBorder_dual (m : Mesh) (e : EdgeId) :
    m.isRegionBorder e.dual = m.isRegionBorder e := by
  unfold Mesh.isRegionBorder EdgePool.pair
  rw [EdgeId.slot_dual]

/-- Every live edge is a border or not. -/
theorem Realizes.isRegionBorder_or (h : m.Realizes triangles) {e : EdgeId}
    (he : m.pool.isLive e.slot = true) :
    m.isRegionBorder e = .ok true ∨ m.isRegionBorder e = .ok false := by
  have hanswer : m.isRegionBorder e = .ok (h.lawful.border e) := h.lawful.border_eq e he
  cases hflag : h.lawful.border e with
  | true => exact .inl (hanswer.trans (congrArg _ hflag))
  | false => exact .inr (hanswer.trans (congrArg _ hflag))

theorem Realizes.forward_eq_ok_iff (h : m.Realizes triangles) {e f : EdgeId}
    (he : m.pool.isLive e.slot = true) : m.forward e = .ok f ↔ h.lawful.forward e = f := by
  have hforward : m.forward e = .ok (h.lawful.forward e) := h.lawful.forward_eq e he
  rw [hforward, Except.ok.injEq]

/-- A region is made of live edges. -/
theorem InRegion.isLive (h : m.Realizes triangles) (hab : m.InRegion a b)
    (ha : m.pool.isLive a.slot = true) : m.pool.isLive b.slot = true := by
  induction hab with
  | start => exact ha
  | around _ hforward ih =>
      rw [← (h.forward_eq_ok_iff ih).1 hforward]
      exact h.lawful.forward_mem _ ih
  | across _ _ ih => exact h.lawful.dual_mem _ ih

theorem InRegion.sameFace (h : m.Realizes triangles) (hab : m.InRegion a b)
    (ha : m.pool.isLive a.slot = true) (hbc : h.lawful.SameFace b c) : m.InRegion a c := by
  have hb := hab.isLive h ha
  have hf := h.lawful.forward_mem b hb
  have hforward := hab.around ((h.forward_eq_ok_iff hb).2 rfl)
  rcases hbc with rfl | rfl | rfl
  · exact hab
  · exact hforward
  · exact hforward.around ((h.forward_eq_ok_iff hf).2 rfl)

/-- Each step of a region can be taken back: two more steps lead round the face, and
the dual of the dual is the edge. -/
theorem InRegion.symm (h : m.Realizes triangles) (hab : m.InRegion a b)
    (ha : m.pool.isLive a.slot = true) : m.InRegion b a := by
  induction hab with
  | start => exact .start
  | @around e f hae hforward ih =>
      have he := hae.isLive h ha
      rw [← (h.forward_eq_ok_iff he).1 hforward]
      have hback : h.lawful.SameFace (h.lawful.forward e) e :=
        h.lawful.sameFace_symm he (h.lawful.sameFace_forward e)
      have hround : m.InRegion (h.lawful.forward e) e :=
        InRegion.start.sameFace h (h.lawful.forward_mem e he) hback
      exact hround.trans ih
  | @across e hae hborder ih =>
      have hback : m.InRegion e.dual e.dual.dual :=
        InRegion.start.across ((m.isRegionBorder_dual e).trans hborder)
      rw [EdgeId.dual_dual] at hback
      exact hback.trans ih

/-- Two regions with a common edge are one. -/
theorem region_eq_of_common (h : m.Realizes triangles) (ha : m.pool.isLive a.slot = true)
    (hb : m.pool.isLive b.slot = true) (hac : m.InRegion a c) (hbc : m.InRegion b c) :
    m.region a = m.region b := by
  have hab : m.InRegion a b := hac.trans (hbc.symm h hb)
  ext e
  exact ⟨fun he => (hab.symm h ha).trans he, fun he => hab.trans he⟩

/-- The faces of two regions are the same, or none is in both. -/
theorem Realizes.orbits_region_eq_or_disjoint (h : m.Realizes triangles)
    (ha : m.pool.isLive a.slot = true) (hb : m.pool.isLive b.slot = true) :
    m.region a = m.region b ∨
      h.lawful.orbits (m.region a) ∩ h.lawful.orbits (m.region b) = ∅ := by
  by_cases hmeet : ∃ c, m.InRegion a c ∧ m.InRegion b c
  · obtain ⟨c, hac, hbc⟩ := hmeet
    exact .inl (region_eq_of_common h ha hb hac hbc)
  · refine .inr (Set.eq_empty_iff_forall_notMem.2 fun F hF => hmeet ?_)
    obtain ⟨⟨x, hx, rfl⟩, y, hy, heq⟩ := hF
    have hface := (h.lawful.orbit_eq_iff (InRegion.isLive h hy hb)).1 heq
    exact ⟨x, hx, InRegion.sameFace h hy hb hface⟩

/-! ## Walks -/

/-- From a border on, a walk that may cross any side but the linking edge reaches the
region of the linking edge. -/
theorem Realizes.reached_iff (h : m.Realizes triangles) {link e : EdgeId}
    (hlive : m.pool.isLive link.slot = true) (hborder : m.isRegionBorder link = .ok true) :
    h.lawful.Reached link (h.lawful.IsExit link) e ↔ m.InRegion link e := by
  constructor
  · intro hreached
    induction hreached with
    | start => exact .start
    | around _ ih => exact ih.around ((h.forward_eq_ok_iff (ih.isLive h hlive)).2 rfl)
    | across _ _ hopen ih =>
        have hanswer := h.lawful.border_eq _ (ih.isLive h hlive)
        rw [hopen] at hanswer
        exact ih.across hanswer
  · intro hregion
    induction hregion with
    | start => exact .start
    | @around e f he hforward ih =>
        rw [← (h.forward_eq_ok_iff (he.isLive h hlive)).1 hforward]
        exact ih.around
    | @across e he hopen ih =>
        have hne : e ≠ link := by
          rintro rfl
          cases hborder.symm.trans hopen
        have hanswer : m.isRegionBorder e = .ok (h.lawful.border e) :=
          h.lawful.border_eq e (he.isLive h hlive)
        exact .across ih (.inl hne) (Except.ok.inj (hanswer.symm.trans hopen))

/-- The edges of a registered closed chain are in use and borders. -/
theorem Registered.isRegionBorder_of_mem (h : m.Registered) {id : ConstraintId} {chain : Chain}
    (hchain : m.chain? id = some chain) (hclosed : chain.closed = true)
    {e : EdgeId} (he : e ∈ chain.edges) :
    m.pool.isLive e.slot = true ∧ m.isRegionBorder e = .ok true := by
  obtain ⟨segment, _, hrun⟩ := exists_mem_of_forall₂ (h.stores id chain hchain).runs he
  obtain ⟨pair, hpair, _⟩ := EdgePool.isLive_eq_true_iff.1 hrun.live
  refine ⟨hrun.live, ?_⟩
  rw [(flags_of_pair? hpair).2, (h.regionBorder_iff e pair hpair).2]
  exact ⟨chain, Array.mem_of_getElem? hchain, hclosed, e, he, rfl⟩

/-- The linking edge of a registered closed chain is in use and a border. -/
theorem Registered.link_isRegionBorder (h : m.Registered) {id : ConstraintId} {chain : Chain}
    (hchain : m.chain? id = some chain) (hclosed : chain.closed = true) : ∃ link,
      chain.linkingEdge? = some link ∧ m.pool.isLive link.slot = true ∧
      m.isRegionBorder link = .ok true := by
  obtain ⟨link, hhead, hlink⟩ := (h.stores id chain hchain).link
  exact ⟨link, hlink, h.isRegionBorder_of_mem hchain hclosed (List.mem_of_head? hhead)⟩

/-- What a walk from `link` leaves behind: entries that are one edge for each face of
the region, and the report that follows from them. -/
structure WalksRegion (h : m.Realizes triangles) (link : EdgeId)
    (report : Report VertexId EdgeId) (entries : List EdgeId) : Prop where
  represents : h.lawful.Represents entries (m.region link)
  faces_eq : Event.faces report.events = entries.map h.lawful.face
  result_eq : report.result = .ok (Event.summary report.events 1)

/-- A walk from a border ends, and claims the region of that edge. -/
theorem Realizes.walkFrom_represents (h : m.Realizes triangles) {link : EdgeId}
    (hlive : m.pool.isLive link.slot = true) (hborder : m.isRegionBorder link = .ok true)
    {options : WalkOptions} (hroom : m.pool.maxIndex + 1 + options.markSlack ≤ maxCount)
    (hstack : options.stackCapacity * wordBytes ≤ maxBytes) :
    ∃ entries, WalksRegion h link (m.surface.toTriangulation.walkFrom link options) entries := by
  have hmem : link ∈ {e : EdgeId | m.pool.isLive e.slot = true} := hlive
  obtain ⟨entries, hfrontier, hfaces, hresult⟩ :=
    Lawful.walkFrom_eq (L := h.lawful) hmem hroom hstack
  have hclaimed : ∀ e, h.lawful.Claimed entries e ↔ m.InRegion link e := fun e =>
    (hfrontier.claimed_iff e).trans (h.reached_iff hlive hborder)
  refine ⟨entries, ⟨?_, ?_, hfrontier.fresh, ?_⟩, hfaces, hresult⟩
  · exact fun e he => InRegion.isLive h he hlive
  · exact fun e he => (hclaimed e).1 ⟨e, he, h.lawful.sameFace_refl e⟩
  · exact fun e he => (hclaimed e).2 he

/-- The walk of a closed chain starts at its linking edge. -/
theorem Realizes.walk_constraintOf (h : m.Realizes triangles) {chain : Chain}
    (hclosed : chain.closed = true) {link : EdgeId} (hlink : chain.linkingEdge? = some link)
    (hlive : m.pool.isLive link.slot = true) (options : WalkOptions) :
    (m.constraintOf chain).walk options = m.surface.toTriangulation.walkFrom link options := by
  have hbootstrapped : m.surface.toTriangulation.isBootstrapped = true :=
    h.isBootstrapped_iff.2 ⟨link, hlive⟩
  simp only [Constraint.walk, constraintOf, hclosed, hlink, hbootstrapped, if_true]

/-- The walk of a registered closed chain ends, and claims the region of its linking
edge. -/
theorem Realizes.walk_represents (h : m.Realizes triangles) (hregistered : m.Registered)
    {id : ConstraintId} {chain : Chain} (hchain : m.chain? id = some chain)
    (hclosed : chain.closed = true) {options : WalkOptions}
    (hroom : m.pool.maxIndex + 1 + options.markSlack ≤ maxCount)
    (hstack : options.stackCapacity * wordBytes ≤ maxBytes) : ∃ link entries,
      chain.linkingEdge? = some link ∧ m.pool.isLive link.slot = true ∧
      WalksRegion h link ((m.constraintOf chain).walk options) entries := by
  obtain ⟨link, hlink, hlive, hborder⟩ := hregistered.link_isRegionBorder hchain hclosed
  obtain ⟨entries, hwalks⟩ := h.walkFrom_represents hlive hborder hroom hstack
  rw [h.walk_constraintOf hclosed hlink hlive options]
  exact ⟨link, entries, hlink, hlive, hwalks⟩

/-! ## Two walks -/

/-- The entries of two walks of one region match, face by face. -/
theorem Realizes.exists_perm_represents (h : m.Realizes triangles) {S : Set EdgeId}
    {entries entries' : List EdgeId} (hrep : h.lawful.Represents entries S)
    (hrep' : h.lawful.Represents entries' S) :
    ∃ es, es.Perm entries' ∧ List.Forall₂ (fun e e' =>
      (m.cornersAt e).IsRotation (m.cornersAt e')) entries es := by
  have hlive : ∀ e ∈ entries, m.pool.isLive e.slot = true := fun e he =>
    hrep.subset (hrep.mem e he)
  have hlive' : ∀ e ∈ entries', m.pool.isLive e.slot = true := fun e he =>
    hrep'.subset (hrep'.mem e he)
  refine exists_perm_forall₂ (List.Nodup.of_map _ hrep'.nodup_orbits) ?_ ?_ ?_ ?_
  -- the face of an entry was claimed by the other walk
  · intro e he
    obtain ⟨c, hc, hface⟩ := hrep'.claimed e (hrep.mem e he)
    have hrotation := (h.sameFace_iff (hlive' c hc) (hlive e he)).1 hface
    exact ⟨c, hc, hrotation.symm⟩
  -- at one edge only
  · intro e he c hc c' hc' hrotation hrotation'
    have hface := (h.sameFace_iff (hlive' c hc) (hlive' c' hc')).2
      (hrotation.symm.trans hrotation')
    exact List.inj_on_of_nodup_map hrep'.nodup_orbits hc hc'
      ((h.lawful.orbit_eq_iff (hlive' c hc)).2 hface)
  -- which is no other entry's
  · refine hrep.once.imp_of_mem fun {e e'} he he' hapart c _ hrotation hrotation' => hapart ?_
    exact (h.sameFace_iff (hlive e he) (hlive e' he')).2 (hrotation.trans hrotation'.symm)
  -- and the other walk claimed no more than that
  · intro c hc
    obtain ⟨e, he, hface⟩ := hrep.claimed c (hrep'.mem c hc)
    exact ⟨e, he, (h.sameFace_iff (hlive e he) (hlive' c hc)).1 hface⟩

section WalksRegion

variable {h : m.Realizes triangles} {link link' : EdgeId} {report report' : Report VertexId EdgeId}
  {entries entries' : List EdgeId}

/-- A region walk claims the faces of the region of its linking edge, whole and no
others. -/
theorem WalksRegion.claimedEdges_eq (hwalks : WalksRegion h link report entries)
    (hlive : m.pool.isLive link.slot = true) : report.claimedEdges = m.region link := by
  ext e
  rw [Lawful.mem_claimedEdges_iff hwalks.faces_eq]
  constructor
  · intro hclaimed
    obtain ⟨c, hc, hface⟩ := hclaimed
    exact InRegion.sameFace h (hwalks.represents.mem c hc) hlive hface
  · exact hwalks.represents.claimed e

/-- A reported triangle has the corners around an entry. -/
theorem WalksRegion.exists_cornersAt_eq (hwalks : WalksRegion h link report entries)
    {t : Triangle VertexId} (ht : t ∈ report.triangles) :
    ∃ e ∈ entries, m.cornersAt e = t.map some := by
  have hmem : t.map some ∈ report.triangles.map (Triangle.map some) :=
    List.mem_map_of_mem ht
  rw [Report.triangles, Lawful.triangles_eq hwalks.faces_eq] at hmem
  obtain ⟨e, he, hcorners⟩ := List.mem_map.1 hmem
  exact ⟨e, List.mem_of_mem_filter he, hcorners⟩

/-- Two walks of one region report the same triangles, in some order and each read
from some vertex on, and leave out as many ghost faces. -/
theorem WalksRegion.agree (hwalks : WalksRegion h link report entries)
    (hwalks' : WalksRegion h link' report' entries')
    (hregion : m.region link = m.region link') :
    (∃ ts, ts.Perm report'.triangles ∧
      List.Forall₂ Triangle.IsRotation report.triangles ts) ∧
    (Event.summary report.events 1).ghostsSuppressed =
      (Event.summary report'.events 1).ghostsSuppressed := by
  have hrep := hwalks.represents
  rw [hregion] at hrep
  obtain ⟨es, hperm, hforall⟩ := h.exists_perm_represents hrep hwalks'.represents
  have hvertices : Face.vertices? ∘ h.lawful.face = fun e => (m.cornersAt e).allSome := rfl
  refine ⟨⟨es.filterMap fun e => (m.cornersAt e).allSome, ?_, ?_⟩, ?_⟩
  · rw [Report.triangles, Event.triangles, hwalks'.faces_eq, List.filterMap_map, hvertices]
    exact hperm.filterMap _
  · rw [Report.triangles, Event.triangles, hwalks.faces_eq, List.filterMap_map, hvertices]
    exact List.rel_filterMap (fun _ _ hrotation => hrotation.allSome) hforall
  · rw [Lawful.summary_eq hwalks.faces_eq, Lawful.summary_eq hwalks'.faces_eq]
    exact hrep.ncard_ghosts.symm.trans hwalks'.represents.ncard_ghosts

end WalksRegion

/-- The walk of a chain that ended with the summary and claimed the region of the
linking edge. -/
structure ClaimsRegion (m : Mesh) (chain : Chain) (report : Report VertexId EdgeId)
    (summary : Summary) : Prop where
  result_eq : report.result = .ok summary
  claimed : ∃ link, chain.linkingEdge? = some link ∧ report.claimedEdges = m.region link

/-- Two reports that claim the same faces or none in common. If they have a triangle in
common they have the same triangles, in some order and each read from some vertex on,
and their summaries count as many ghost faces. -/
structure SameOrApart (report report' : Report VertexId EdgeId) (summary summary' : Summary) :
    Prop where
  faces : report.claimedFaces = report'.claimedFaces ∨
    report.claimedFaces ∩ report'.claimedFaces = ∅
  common : ∀ t ∈ report.triangles, ∀ t' ∈ report'.triangles, t.IsRotation t' →
    (∃ ts, ts.Perm report'.triangles ∧
      List.Forall₂ Triangle.IsRotation report.triangles ts) ∧
    summary.ghostsSuppressed = summary'.ghostsSuppressed

/-- The walks of two registered closed chains end, and claim the same faces or none in
common, those of the regions to the left of their linking edges. -/
theorem Reachable.regions_eq_or_disjoint (h : m.Reachable) {id id' : ConstraintId}
    {chain chain' : Chain} (hchain : m.chain? id = some chain) (hclosed : chain.closed = true)
    (hchain' : m.chain? id' = some chain') (hclosed' : chain'.closed = true)
    {options options' : WalkOptions}
    (hroom : m.pool.maxIndex + 1 + options.markSlack ≤ maxCount)
    (hroom' : m.pool.maxIndex + 1 + options'.markSlack ≤ maxCount)
    (hstack : options.stackCapacity * wordBytes ≤ maxBytes)
    (hstack' : options'.stackCapacity * wordBytes ≤ maxBytes) :
    let report := (m.constraintOf chain).walk options
    let report' := (m.constraintOf chain').walk options'
    ∃ summary summary', m.ClaimsRegion chain report summary ∧
      m.ClaimsRegion chain' report' summary' ∧ SameOrApart report report' summary summary' := by
  intro report report'
  obtain ⟨triangles, hrealizes⟩ := h.exists_realizes
  obtain ⟨link, entries, hlink, hlive, hwalks⟩ :=
    hrealizes.walk_represents h.registered hchain hclosed hroom hstack
  obtain ⟨link', entries', hlink', hlive', hwalks'⟩ :=
    hrealizes.walk_represents h.registered hchain' hclosed' hroom' hstack'
  refine ⟨_, _, ⟨hwalks.result_eq, link, hlink, hwalks.claimedEdges_eq hlive⟩,
    ⟨hwalks'.result_eq, link', hlink', hwalks'.claimedEdges_eq hlive'⟩, ?_, ?_⟩
  · rw [hwalks.represents.claimedFaces_eq hwalks.faces_eq,
      hwalks'.represents.claimedFaces_eq hwalks'.faces_eq]
    exact (hrealizes.orbits_region_eq_or_disjoint hlive hlive').imp_left fun heq => by rw [heq]
  · intro t ht t' ht' hrotation
    -- the common triangle is a face of both regions, so they are one
    obtain ⟨e, he, hcorners⟩ := hwalks.exists_cornersAt_eq ht
    obtain ⟨e', he', hcorners'⟩ := hwalks'.exists_cornersAt_eq ht'
    have hregion : m.InRegion link e := hwalks.represents.mem e he
    have hregion' : m.InRegion link' e' := hwalks'.represents.mem e' he'
    have hface : hrealizes.lawful.SameFace e e' := by
      rw [hrealizes.sameFace_iff (hregion.isLive hrealizes hlive)
        (hregion'.isLive hrealizes hlive'), hcorners, hcorners']
      exact hrotation.map some
    exact hwalks.agree hwalks' (region_eq_of_common hrealizes hlive hlive'
      (hregion.sameFace hrealizes hlive hface) hregion')

/-- The square with two rings around one of its triangles, from different vertices on. -/
def twiceRinged : Mesh :=
  squareMesh.editAll [.addConstraint (.ring [⟨0⟩, ⟨1⟩, ⟨2⟩]),
    .addConstraint (.ring [⟨1⟩, ⟨2⟩, ⟨0⟩])]

/-- Both walks report that triangle, each from the vertex its ring starts at. -/
theorem twiceRinged_regions :
    ∃ chain chain', twiceRinged.chain? ⟨0⟩ = some chain ∧ chain.closed = true ∧
      twiceRinged.chain? ⟨1⟩ = some chain' ∧ chain'.closed = true ∧
      twiceRinged.pool.maxIndex + 1 + 2 ≤ maxCount ∧ 64 * wordBytes ≤ maxBytes ∧
      let report := (twiceRinged.constraintOf chain).walk {}
      let report' := (twiceRinged.constraintOf chain').walk {}
      ∃ summary summary', twiceRinged.ClaimsRegion chain report summary ∧
        twiceRinged.ClaimsRegion chain' report' summary' ∧
        SameOrApart report report' summary summary' := by
  have hreachable : twiceRinged.Reachable := (Reachable.build build_square).editAll _
  have hchain : twiceRinged.chain? ⟨0⟩ = some ⟨[⟨0⟩, ⟨1⟩, ⟨2⟩], true, some ⟨0⟩, some ⟨2⟩,
      [⟨2⟩, ⟨4⟩, ⟨6⟩]⟩ := by decide +kernel
  have hchain' : twiceRinged.chain? ⟨1⟩ = some ⟨[⟨1⟩, ⟨2⟩, ⟨0⟩], true, some ⟨1⟩, some ⟨4⟩,
      [⟨4⟩, ⟨6⟩, ⟨2⟩]⟩ := by decide +kernel
  have hroom : twiceRinged.pool.maxIndex + 1 + 2 ≤ maxCount := by decide +kernel
  have hstack : 64 * wordBytes ≤ maxBytes := by decide
  exact ⟨_, _, hchain, rfl, hchain', rfl, hroom, hstack,
    hreachable.regions_eq_or_disjoint hchain rfl hchain' rfl hroom hroom hstack hstack⟩

end Mesh

end TinFaces
