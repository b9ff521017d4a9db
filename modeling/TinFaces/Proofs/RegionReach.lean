import TinFaces.Proofs.Lawful
import TinFaces.Walk.Region

/-!
# What a region walk claims

On a lawful mesh a region walk claims the faces that can be reached from the
left face of the linking edge, each once. A step leaves a face through a side
that is no border, into the face beyond; the walk never steps back through the
side it came in by.

The argument follows the stack. `Leads c e` says that a claim at `c` leads on to
`e`, and `Frontier` ties the entries and the stack together:

* **sound** — every entry, and every edge on the stack, is reached;
* **complete** — whatever an entry leads on to is claimed or still on the stack;
* **entered** — an entry other than the linking edge was led on to by an entry,
  so the face beyond it is claimed already.

It holds of the start (`frontier_start`), and each step keeps it
(`Frontier.pass`, `Frontier.claim`). When the stack has run out, the claimed
faces are the reached ones (`Frontier.claimed_iff`).

All this is about walks that begin. One that asks for more flags than can be
counted, or for more stack than can be addressed, reports nothing
(`Triangulation.walkFrom_eq_broken`).
-/

namespace TinFaces

/-! ## What a walk sets aside -/

namespace Triangulation

variable {V E : Type} {T : Triangulation V E} {options : WalkOptions}

/-- A walk can begin if its flags are a count and the room for its stack can be addressed. -/
theorem prepareWalk_eq_ok (hroom : T.maxEdgeIndex + 1 + options.markSlack ≤ maxCount)
    (hstack : options.stackCapacity * T.edgeBytes ≤ maxBytes) :
    T.prepareWalk options = .ok (.withCapacity (T.maxEdgeIndex + 1 + options.markSlack)) := by
  unfold prepareWalk
  rw [MarkSet.ofMaxIndex_eq_ok hroom, checkRoom_eq_ok_iff.2 hstack]
  rfl

/-- Too many flags are noticed first. -/
theorem prepareWalk_eq_addOverflow (hroom : maxCount < T.maxEdgeIndex + 1 + options.markSlack) :
    T.prepareWalk options = .error .addOverflow := by
  unfold prepareWalk
  rw [MarkSet.ofMaxIndex_eq_error hroom]
  rfl

theorem prepareWalk_eq_capacityOverflow
    (hroom : T.maxEdgeIndex + 1 + options.markSlack ≤ maxCount)
    (hstack : maxBytes < options.stackCapacity * T.edgeBytes) :
    T.prepareWalk options = .error .capacityOverflow := by
  unfold prepareWalk
  rw [MarkSet.ofMaxIndex_eq_ok hroom, checkRoom_eq_error_iff.2 ⟨hstack, rfl⟩]
  rfl

/-- A walk that could begin had the room for it. -/
theorem room_of_prepareWalk {marks : MarkSet} (h : T.prepareWalk options = .ok marks) :
    T.maxEdgeIndex + 1 + options.markSlack ≤ maxCount ∧
      options.stackCapacity * T.edgeBytes ≤ maxBytes := by
  by_cases hroom : T.maxEdgeIndex + 1 + options.markSlack ≤ maxCount
  · by_cases hstack : options.stackCapacity * T.edgeBytes ≤ maxBytes
    · exact ⟨hroom, hstack⟩
    · cases h.symm.trans (prepareWalk_eq_capacityOverflow hroom (Nat.not_le.1 hstack))
  · cases h.symm.trans (prepareWalk_eq_addOverflow (Nat.not_le.1 hroom))

/-- A walk that cannot begin reports nothing. -/
theorem walkFrom_eq_broken {fault : Fault} (h : T.prepareWalk options = .error fault) (link : E) :
    T.walkFrom link options = .broken fault := by
  simp only [walkFrom, h]

/-- That is so if there is room for its marks and not for its stack. -/
theorem walkFrom_of_short (hroom : T.maxEdgeIndex + 1 + options.markSlack ≤ maxCount)
    (hshort : maxBytes < options.stackCapacity * T.edgeBytes) (link : E) :
    T.walkFrom link options = .broken .capacityOverflow :=
  walkFrom_eq_broken (prepareWalk_eq_capacityOverflow hroom hshort) link

end Triangulation

/-! ## One step of a walk -/

namespace Triangulation

variable {V E : Type} {T : Triangulation V E} {marks marked : MarkSet} {e : E} {rest : List E}

/-- A walk passes over an edge whose face is claimed. -/
theorem explore_of_claimed (h : T.isClaimed marks e = .ok true) :
    T.explore marks (e :: rest) = (T.explore marks rest).after [.passed e] := by
  rw [explore]
  split
  · next hfault => cases h.symm.trans hfault
  · rfl
  · next hopen => cases h.symm.trans hopen

/-- At an edge whose face is open it claims the face, looks across two of its sides and puts
on the stack what lies beyond. -/
theorem explore_of_open {face : Face V E} {events₁ events₂ : List (Event V E)}
    {way₁ way₂ : Option E} (h : T.isClaimed marks e = .ok false)
    (hclaim : T.claim marks e = .ok (face, marked))
    (h₁ : T.lookAcross marked face.edges.second = .ok (events₁, way₁))
    (h₂ : T.lookAcross marked face.edges.third = .ok (events₂, way₂)) :
    T.explore marks (e :: rest) =
      (T.explore marked (way₂.toList ++ way₁.toList ++ rest)).after
        (.claimed face :: (events₁ ++ events₂)) := by
  rw [explore]
  split
  · next hfault => cases h.symm.trans hfault
  · next hclaimed => cases h.symm.trans hclaimed
  · split
    · next hfault => cases hclaim.symm.trans hfault
    · next hclaim' =>
        cases hclaim.symm.trans hclaim'
        simp only [h₁, h₂]

end Triangulation

namespace Lawful

variable {V E : Type} {T : Triangulation V E} {edges : Set E}

/-! ## Reachability -/

/-- The edges whose left face is reached from that of `link` by steps through
sides that satisfy `exit` and are no border. -/
inductive Reached (L : Lawful T edges) (link : E) (exit : E → Prop) : E → Prop
  | start : Reached L link exit link
  | around {e : E} : Reached L link exit e → Reached L link exit (L.forward e)
  | across {s : E} : Reached L link exit s → exit s → L.border s = false →
      Reached L link exit (L.dual s)

/-- Whether a walk may leave a face through `s`. The linking edge is the side it
came in by; only if that is the whole boundary of its face is it a way out. -/
def IsExit (L : Lawful T edges) (link s : E) : Prop := s ≠ link ∨ L.forward link = link

/-- Whether a claim at `c` leads on to `e`: across the forward or the reverse
side of `c`, if that is no border. -/
def Leads (L : Lawful T edges) (c e : E) : Prop :=
  ∃ s, (s = L.forward c ∨ s = L.forward (L.forward c)) ∧ L.border s = false ∧ e = L.dual s

variable {L : Lawful T edges}

theorem Reached.sameFace {link : E} {exit : E → Prop} {a b : E} (h : L.Reached link exit a)
    (hab : L.SameFace a b) : L.Reached link exit b := by
  rcases hab with rfl | rfl | rfl
  · exact h
  · exact h.around
  · exact h.around.around

/-- What is led on to from inside the mesh lies in the mesh. -/
theorem Leads.mem {c e : E} (hc : c ∈ edges) (h : L.Leads c e) : e ∈ edges := by
  obtain ⟨s, hs, _, rfl⟩ := h
  apply L.dual_mem
  rcases hs with rfl | rfl
  · exact L.forward_mem c hc
  · exact L.forward_mem _ (L.forward_mem c hc)

/-- A look across a side shows nothing if the face beyond is claimed. -/
theorem lookAcross_of_claimed (L : Lawful T edges) {marks : MarkSet} {side : E}
    (hside : side ∈ edges) (h : T.isClaimed marks (L.dual side) = .ok true) :
    T.lookAcross marks side = .ok ([], none) := by
  simp only [Triangulation.lookAcross, L.dual_eq side hside, bind, Except.bind, h]
  rfl

/-- If the face beyond is open, it tests the side and shows the edge beyond unless the side
is a border. -/
theorem lookAcross_of_open (L : Lawful T edges) {marks : MarkSet} {side : E}
    (hside : side ∈ edges) (h : T.isClaimed marks (L.dual side) = .ok false) :
    T.lookAcross marks side = .ok ([.tested side (L.border side)],
      if L.border side then none else some (L.dual side)) := by
  simp only [Triangulation.lookAcross, L.dual_eq side hside, L.border_eq side hside, bind,
    Except.bind, h]
  rfl

/-- Looking across a side shows the edge beyond, if its face is open and the
side is no border. -/
theorem Marked.lookAcross_eq {marks : MarkSet} {entries : List E} (h : L.Marked marks entries)
    {side : E} (hside : side ∈ edges) : ∃ events way,
      T.lookAcross marks side = .ok (events, way) ∧ Event.faces events = [] ∧
      (∀ e ∈ way.toList, L.border side = false ∧ e = L.dual side) ∧
      (L.border side = false → L.Claimed entries (L.dual side) ∨ L.dual side ∈ way.toList) := by
  obtain ⟨b, hb, hclaimed⟩ := h.isClaimed_eq (L.dual_mem side hside)
  cases b with
  | true =>
      refine ⟨[], none, L.lookAcross_of_claimed hside hb, rfl, ?_, ?_⟩
      · intro e he
        exact absurd he (by simp)
      · intro _
        exact .inl (hclaimed.1 rfl)
  | false =>
      refine ⟨_, _, L.lookAcross_of_open hside hb, rfl, ?_, ?_⟩
      · intro e he
        cases hborder : L.border side with
        | true => exact absurd he (by simp [hborder])
        | false => exact ⟨rfl, by simpa [hborder] using he⟩
      · intro hborder
        rw [hborder]
        exact .inr (by simp)

/-- After a claim at `e` a walk looks across two sides, and what it goes on to is
what the claim leads on to, less what is claimed. -/
theorem Marked.looks_eq {marks : MarkSet} {entries : List E} (h : L.Marked marks entries)
    {e : E} (he : e ∈ edges) : ∃ events₁ way₁ events₂ way₂,
      T.lookAcross marks (L.forward e) = .ok (events₁, way₁) ∧
      T.lookAcross marks (L.forward (L.forward e)) = .ok (events₂, way₂) ∧
      Event.faces events₁ = [] ∧ Event.faces events₂ = [] ∧
      (∀ x ∈ way₂.toList ++ way₁.toList, L.Leads e x) ∧
      ∀ x, L.Leads e x → L.Claimed entries x ∨ x ∈ way₂.toList ++ way₁.toList := by
  have hf : L.forward e ∈ edges := L.forward_mem e he
  obtain ⟨events₁, way₁, h₁, hfaces₁, hway₁, hopen₁⟩ := h.lookAcross_eq hf
  obtain ⟨events₂, way₂, h₂, hfaces₂, hway₂, hopen₂⟩ := h.lookAcross_eq (L.forward_mem _ hf)
  refine ⟨events₁, way₁, events₂, way₂, h₁, h₂, hfaces₁, hfaces₂, ?_, ?_⟩
  · intro x hx
    rcases List.mem_append.1 hx with hx | hx
    · obtain ⟨hborder, hdual⟩ := hway₂ x hx
      exact ⟨_, .inr rfl, hborder, hdual⟩
    · obtain ⟨hborder, hdual⟩ := hway₁ x hx
      exact ⟨_, .inl rfl, hborder, hdual⟩
  · rintro x ⟨s, rfl | rfl, hborder, rfl⟩
    · exact (hopen₁ hborder).imp_right (List.mem_append_right _)
    · exact (hopen₂ hborder).imp_right (List.mem_append_left _)

/-! ## The entries and the stack -/

/-- What a walk from `link` keeps true of the edges at which it has claimed faces
and of those on its stack. -/
structure Frontier (L : Lawful T edges) (link : E) (entries stack : List E) : Prop where
  entries_mem : ∀ e ∈ entries, e ∈ edges
  stack_mem : ∀ e ∈ stack, e ∈ edges
  /-- The entries bound different faces. -/
  fresh : entries.Pairwise fun a b => ¬ L.SameFace a b
  /-- The first claim is the one at the linking edge. -/
  seeded : link ∈ entries ∨ entries = [] ∧ stack = [link]
  reached : ∀ e, e ∈ entries ∨ e ∈ stack → L.Reached link (L.IsExit link) e
  entered : ∀ e, e ∈ entries ∨ e ∈ stack → e = link ∨ ∃ c ∈ entries, L.Leads c e
  complete : ∀ c ∈ entries, ∀ e, L.Leads c e → L.Claimed entries e ∨ e ∈ stack

theorem frontier_start {link : E} (hlink : link ∈ edges) : L.Frontier link [] [link] where
  entries_mem _ he := absurd he List.not_mem_nil
  stack_mem e he := by
    rw [List.mem_singleton.1 he]
    exact hlink
  fresh := List.Pairwise.nil
  seeded := .inr ⟨rfl, rfl⟩
  reached e he := by
    rcases he with he | he
    · exact absurd he List.not_mem_nil
    · rw [List.mem_singleton.1 he]
      exact .start
  entered e he := by
    rcases he with he | he
    · exact absurd he List.not_mem_nil
    · exact .inl (List.mem_singleton.1 he)
  complete _ hc := absurd hc List.not_mem_nil

/-- An edge whose face is claimed can be taken off the stack. -/
theorem Frontier.pass {link e : E} {entries rest : List E}
    (h : L.Frontier link entries (e :: rest)) (he : L.Claimed entries e) :
    L.Frontier link entries rest where
  entries_mem := h.entries_mem
  stack_mem x hx := h.stack_mem x (List.mem_cons_of_mem _ hx)
  fresh := h.fresh
  seeded := by
    rcases h.seeded with hlink | ⟨hnil, _⟩
    · exact .inl hlink
    · obtain ⟨c, hc, _⟩ := he
      rw [hnil] at hc
      exact absurd hc List.not_mem_nil
  reached x hx := h.reached x (hx.imp_right (List.mem_cons_of_mem _))
  entered x hx := h.entered x (hx.imp_right (List.mem_cons_of_mem _))
  complete c hc x hx := by
    rcases h.complete c hc x hx with hclaimed | hstack
    · exact .inl hclaimed
    · rcases List.mem_cons.1 hstack with rfl | hrest
      · exact .inl he
      · exact .inr hrest

/-- A side that a claim at `e` looks across is a way out: it is the linking edge
only if the walk has just begun there, in a face without another side. -/
theorem Frontier.isExit {link e s : E} {entries rest : List E}
    (h : L.Frontier link entries (e :: rest)) (he : ¬ L.Claimed entries e)
    (hs : s = L.forward e ∨ s = L.forward (L.forward e)) : L.IsExit link s := by
  by_cases hlink : s = link
  case neg => exact .inl hlink
  case pos =>
    have hmem : e ∈ edges := h.stack_mem e List.mem_cons_self
    have hface : L.SameFace e link := by
      rw [← hlink]
      exact .inr hs
    rcases h.seeded with hseed | ⟨_, hstack⟩
    · exact absurd ⟨link, hseed, L.sameFace_symm hmem hface⟩ he
    · obtain ⟨rfl, _⟩ := List.cons.inj hstack
      rw [hlink] at hs
      refine .inr ?_
      rcases hs with hs | hs
      · exact hs.symm
      · calc L.forward e = L.forward (L.forward (L.forward e)) := congrArg L.forward hs
          _ = e := L.forward_three e hmem

/-- Claiming the open face of the top of the stack, and putting on the stack
what the claim leads on to unless it is claimed. -/
theorem Frontier.claim {link e : E} {entries rest more : List E}
    (h : L.Frontier link entries (e :: rest)) (he : ¬ L.Claimed entries e)
    (hmore : ∀ x ∈ more, L.Leads e x)
    (hall : ∀ x, L.Leads e x → L.Claimed (entries ++ [e]) x ∨ x ∈ more) :
    L.Frontier link (entries ++ [e]) (more ++ rest) := by
  have hmem : e ∈ edges := h.stack_mem e List.mem_cons_self
  have hentries : ∀ x ∈ entries ++ [e], x ∈ edges := by
    intro x hx
    rcases List.mem_append.1 hx with hx | hx
    · exact h.entries_mem x hx
    · rw [List.mem_singleton.1 hx]
      exact hmem
  -- an edge the new state speaks of was spoken of before, or `e` leads on to it
  have hsplit : ∀ x, x ∈ entries ++ [e] ∨ x ∈ more ++ rest →
      (x ∈ entries ∨ x ∈ e :: rest) ∨ L.Leads e x := by
    intro x hx
    rcases hx with hx | hx <;> rcases List.mem_append.1 hx with hx | hx
    · exact .inl (.inl hx)
    · rw [List.mem_singleton.1 hx]
      exact .inl (.inr List.mem_cons_self)
    · exact .inr (hmore x hx)
    · exact .inl (.inr (List.mem_cons_of_mem _ hx))
  refine ⟨hentries, ?_, ?_, ?_, ?_, ?_, ?_⟩
  · intro x hx
    rcases List.mem_append.1 hx with hx | hx
    · exact (hmore x hx).mem hmem
    · exact h.stack_mem x (List.mem_cons_of_mem _ hx)
  · refine List.pairwise_append.2 ⟨h.fresh, List.pairwise_singleton _ _, ?_⟩
    intro c hc x hx hface
    rw [List.mem_singleton.1 hx] at hface
    exact he ⟨c, hc, hface⟩
  · refine .inl ?_
    rcases h.seeded with hseed | ⟨_, hstack⟩
    · exact List.mem_append_left _ hseed
    · obtain ⟨rfl, _⟩ := List.cons.inj hstack
      exact List.mem_append_right _ List.mem_cons_self
  · intro x hx
    rcases hsplit x hx with hold | ⟨s, hs, hborder, rfl⟩
    · exact h.reached x hold
    · have hreached : L.Reached link (L.IsExit link) e :=
        h.reached e (.inr List.mem_cons_self)
      exact .across (hreached.sameFace (.inr hs)) (h.isExit he hs) hborder
  · intro x hx
    rcases hsplit x hx with hold | hleads
    · exact (h.entered x hold).imp_right fun ⟨c, hc, hcx⟩ =>
        ⟨c, List.mem_append_left _ hc, hcx⟩
    · exact .inr ⟨e, List.mem_append_right _ List.mem_cons_self, hleads⟩
  · intro c hc x hx
    rcases List.mem_append.1 hc with hc | hc
    · rcases h.complete c hc x hx with hclaimed | hstack
      · exact .inl (claimed_append.2 (.inl hclaimed))
      · rcases List.mem_cons.1 hstack with rfl | hrest
        · exact .inl (claimed_append.2 (.inr (L.sameFace_refl x)))
        · exact .inr (List.mem_append_right _ hrest)
    · rw [List.mem_singleton.1 hc] at hx
      exact (hall x hx).imp_right (List.mem_append_left _)

/-- A claim at the top of the stack: the claim at `e` goes to the entries, and what it leads on
to, to the stack. -/
theorem Frontier.step {link e : E} {marks marks' : MarkSet} {entries rest : List E}
    {face : Face V E} {events₁ events₂ : List (Event V E)} {way₁ way₂ : Option E}
    (h : L.Frontier link entries (e :: rest)) (hmarked : L.Marked marks entries)
    (hopen : T.isClaimed marks e = .ok false) (hface : T.claim marks e = .ok (face, marks'))
    (hlook₁ : T.lookAcross marks' face.edges.second = .ok (events₁, way₁))
    (hlook₂ : T.lookAcross marks' face.edges.third = .ok (events₂, way₂)) :
    face = L.face e ∧ Event.faces (events₁ ++ events₂) = [] ∧ ¬ L.Claimed entries e ∧
      L.Marked marks' (entries ++ [e]) ∧
      L.Frontier link (entries ++ [e]) (way₂.toList ++ way₁.toList ++ rest) := by
  have he : e ∈ edges := h.stack_mem e List.mem_cons_self
  obtain ⟨b, hb, hclaimed⟩ := hmarked.isClaimed_eq he
  cases hopen.symm.trans hb
  have hfresh : ¬ L.Claimed entries e := fun hc => Bool.false_ne_true (hclaimed.2 hc)
  obtain ⟨_, hclaim, hmarked'⟩ := hmarked.claim_eq he
  cases hface.symm.trans hclaim
  obtain ⟨_, _, _, _, h₁, h₂, hfaces₁, hfaces₂, hmore, hall⟩ := hmarked'.looks_eq he
  cases hlook₁.symm.trans h₁
  cases hlook₂.symm.trans h₂
  refine ⟨rfl, ?_, hfresh, hmarked', h.claim hfresh hmore hall⟩
  rw [Event.faces_append, hfaces₁, hfaces₂, List.append_nil]

/-- When the stack has run out, the claimed faces are the reached ones. -/
theorem Frontier.claimed_iff {link : E} {entries : List E} (h : L.Frontier link entries [])
    (e : E) : L.Claimed entries e ↔ L.Reached link (L.IsExit link) e := by
  have hseed : link ∈ entries := by
    rcases h.seeded with hseed | ⟨_, hstack⟩
    · exact hseed
    · exact absurd hstack (by simp)
  have hleads : ∀ c ∈ entries, ∀ x, L.Leads c x → L.Claimed entries x := fun c hc x hx =>
    (h.complete c hc x hx).resolve_right List.not_mem_nil
  constructor
  · intro hclaimed
    obtain ⟨c, hc, hface⟩ := hclaimed
    exact (h.reached c (.inl hc)).sameFace hface
  · intro hreached
    induction hreached with
    | start => exact ⟨link, hseed, L.sameFace_refl link⟩
    | around _ ih => exact ih.trans h.entries_mem (L.sameFace_forward _)
    | across _ hexit hborder ih =>
        obtain ⟨c, hc, hface⟩ := ih
        rcases hface with rfl | hside
        · -- through the side at which the face was entered: back to a claimed
          -- face, unless that side is the linking edge
          rcases h.entered _ (.inl hc) with rfl | ⟨d, hd, s, hs, _, rfl⟩
          · have hlone : L.forward _ = _ := hexit.resolve_left fun hne => hne rfl
            exact hleads _ hc _ ⟨_, .inl hlone.symm, hborder, rfl⟩
          · have hsmem : s ∈ edges := L.sameFace_mem (h.entries_mem d hd) (.inr hs)
            rw [L.dual_dual s hsmem]
            exact ⟨d, hd, .inr hs⟩
        · exact hleads c hc _ ⟨_, hside, hborder, rfl⟩

/-! ## The walk -/

/-- A walk from a frontier ends, and leaves a frontier with an empty stack. -/
theorem explore_eq {link : E} {marks : MarkSet} {entries stack : List E}
    (hmarked : L.Marked marks entries) (h : L.Frontier link entries stack) : ∃ found,
      (T.explore marks stack).fault? = none ∧
      Event.faces (T.explore marks stack).events = found.map L.face ∧
      L.Frontier link (entries ++ found) [] := by
  -- one case for each way a step can go; the four that end in a fault cannot come
  -- up, because the laws answer every question the walk asks
  fun_induction Triangulation.explore T marks stack generalizing entries with
  | case1 marks => exact ⟨[], rfl, rfl, by rwa [List.append_nil]⟩
  | case2 marks e rest fault hfault =>
      obtain ⟨b, hb, _⟩ := hmarked.isClaimed_eq (h.stack_mem e List.mem_cons_self)
      rw [hfault] at hb
      cases hb
  | case3 marks e rest hpassed ih =>
      obtain ⟨b, hb, hclaimed⟩ := hmarked.isClaimed_eq (h.stack_mem e List.mem_cons_self)
      rw [hpassed] at hb
      cases hb
      exact ih hmarked (h.pass (hclaimed.1 rfl))
  | case4 marks e rest hopen fault hfault =>
      obtain ⟨marks', hclaim, _⟩ := hmarked.claim_eq (h.stack_mem e List.mem_cons_self)
      rw [hfault] at hclaim
      cases hclaim
  | case5 marks e rest hopen face marks' hface fault hfault =>
      have he : e ∈ edges := h.stack_mem e List.mem_cons_self
      obtain ⟨_, hclaim, hmarked'⟩ := hmarked.claim_eq he
      cases hface.symm.trans hclaim
      obtain ⟨_, _, _, _, h₁, _⟩ := hmarked'.looks_eq he
      cases hfault.symm.trans h₁
  | case6 marks e rest hopen face marks' hface _ _ _ fault hfault =>
      have he : e ∈ edges := h.stack_mem e List.mem_cons_self
      obtain ⟨_, hclaim, hmarked'⟩ := hmarked.claim_eq he
      cases hface.symm.trans hclaim
      obtain ⟨_, _, _, _, _, h₂, _⟩ := hmarked'.looks_eq he
      cases hfault.symm.trans h₂
  | case7 marks e rest hopen face marks' hface events₁ way₁ hlook₁ events₂ way₂ hlook₂ ih =>
      obtain ⟨rfl, hnone, _, hmarked', hfrontier⟩ := h.step hmarked hopen hface hlook₁ hlook₂
      obtain ⟨found, hfault, hfaces, hend⟩ := ih hmarked' hfrontier
      refine ⟨e :: found, hfault, ?_, ?_⟩
      · show L.face e :: Event.faces (events₁ ++ events₂ ++ _) = _
        rw [Event.faces_append, hnone, hfaces]
        rfl
      · rwa [List.append_assoc, List.singleton_append] at hend

/-- What a region walk from `link` reports, if it may leave faces through the sides
that satisfy `exit`. -/
structure Covers (L : Lawful T edges) (link : E) (exit : E → Prop) (report : Report V E)
    (entries : List E) : Prop where
  entries_mem : ∀ e ∈ entries, e ∈ edges
  /-- No face is claimed twice. -/
  once : entries.Pairwise fun a b => ¬ L.SameFace a b
  /-- The claimed faces are those that are reached. -/
  claimed_iff : ∀ e ∈ edges, L.Claimed entries e ↔ L.Reached link exit e
  faces_eq : Event.faces report.events = entries.map L.face
  edgeTriangles_eq : report.edgeTriangles = (entries.filter L.isReal).map L.sides
  triangles_eq : report.triangles.map (Triangle.map some) =
    (entries.filter L.isReal).map fun e => (L.sides e).map L.origin
  result_eq : ∃ refused, report.result = .ok
    { facesVisited := entries.length
      trianglesEmitted := (entries.filter L.isReal).length
      ghostsSuppressed := (entries.filter fun e => !L.isReal e).length
      borderCrossingsRefused := refused
      regionsWalked := 1 }

/-- If there is room for the marks and the stack, a walk begins with no mark set. -/
theorem walkFrom_eq_ofTrace {options : WalkOptions}
    (hroom : T.maxEdgeIndex + 1 + options.markSlack ≤ maxCount)
    (hstack : options.stackCapacity * T.edgeBytes ≤ maxBytes) (link : E) :
    T.walkFrom link options = .ofTrace
      (.regionStarted link T.maxEdgeIndex (T.maxEdgeIndex + 1 + options.markSlack))
      .regionFinished 1
      (T.explore (.withCapacity (T.maxEdgeIndex + 1 + options.markSlack)) [link]) := by
  unfold Triangulation.walkFrom
  rw [Triangulation.prepareWalk_eq_ok hroom hstack]
  rfl

/-- A walk from an edge of a lawful mesh leaves an empty stack, and its report is
that of its entries. -/
theorem walkFrom_eq {link : E} (hlink : link ∈ edges) {options : WalkOptions}
    (hroom : T.maxEdgeIndex + 1 + options.markSlack ≤ maxCount)
    (hstack : options.stackCapacity * T.edgeBytes ≤ maxBytes) : ∃ entries,
      L.Frontier link entries [] ∧
      Event.faces (T.walkFrom link options).events = entries.map L.face ∧
      (T.walkFrom link options).result =
        .ok (Event.summary (T.walkFrom link options).events 1) := by
  obtain ⟨found, hfault, hfaces, hfrontier⟩ :=
    explore_eq (marked_nil options.markSlack) (frontier_start hlink)
  refine ⟨found, hfrontier, ?_⟩
  rw [walkFrom_eq_ofTrace hroom hstack]
  simp only [Report.ofTrace, hfault]
  exact ⟨hfaces, trivial⟩

/-- Whether it can begin or not, a walk from an edge of the mesh claims left faces of edges of
the mesh and nothing else. -/
theorem exists_faces_walkFrom (L : Lawful T edges) {link : E} (hlink : link ∈ edges)
    (options : WalkOptions) : ∃ entries : List E, (∀ e ∈ entries, e ∈ edges) ∧
      Event.faces (T.walkFrom link options).events = entries.map L.face := by
  cases hprepare : T.prepareWalk options with
  | ok marks =>
      obtain ⟨hroom, hstack⟩ := Triangulation.room_of_prepareWalk hprepare
      obtain ⟨entries, hfrontier, hfaces, _⟩ := walkFrom_eq (L := L) hlink hroom hstack
      exact ⟨entries, hfrontier.entries_mem, hfaces⟩
  | error fault =>
      rw [Triangulation.walkFrom_eq_broken hprepare]
      exact ⟨[], by simp, rfl⟩

/-- A region walk claims exactly the reached faces, each once, and reports those
without a ghost vertex. -/
theorem walkFrom_covers_reached (L : Lawful T edges) {link : E} (hlink : link ∈ edges)
    (options : WalkOptions) (hroom : T.maxEdgeIndex + 1 + options.markSlack ≤ maxCount)
    (hstack : options.stackCapacity * T.edgeBytes ≤ maxBytes) :
    ∃ entries, L.Covers link (L.IsExit link) (T.walkFrom link options) entries := by
  obtain ⟨entries, hfrontier, hfaces, hresult⟩ := walkFrom_eq (L := L) hlink hroom hstack
  refine ⟨entries, hfrontier.entries_mem, hfrontier.fresh, fun e _ => hfrontier.claimed_iff e,
    hfaces, edgeTriangles_eq hfaces, triangles_eq hfaces, ?_⟩
  rw [hresult, summary_eq hfaces]
  exact ⟨_, rfl⟩

end Lawful

/-! ## Walks over tables -/

namespace Table

/-- One triangle with a ghost face beyond each of its sides; the side 0 is a
border, read from inside only. -/
def walledTriangle : Table where
  isBootstrapped := true
  maxEdgeIndex := 11
  baseEdges := [0, 2, 4, 6, 8, 10]
  rows := #[
    ⟨some 0, 1, 2, 4, true, 0⟩, ⟨some 1, 0, 6, 9, false, 1⟩,
    ⟨some 1, 3, 4, 0, false, 2⟩, ⟨some 2, 2, 8, 11, false, 3⟩,
    ⟨some 2, 5, 0, 2, false, 4⟩, ⟨some 0, 4, 10, 7, false, 5⟩,
    ⟨some 0, 7, 9, 1, false, 6⟩, ⟨none, 6, 5, 10, false, 7⟩,
    ⟨some 1, 9, 11, 3, false, 8⟩, ⟨none, 8, 1, 6, false, 9⟩,
    ⟨some 2, 11, 7, 5, false, 10⟩, ⟨none, 10, 3, 8, false, 11⟩]
  positions := #[]
  links := #[⟨true, true, some 0⟩]

theorem walledTriangle_keepsLaws : walledTriangle.KeepsLaws := by decide +kernel

/-- From inside the wall the walk goes out by the two other sides. -/
theorem walledTriangle_covers :
    0 ∈ {e | e < walledTriangle.rows.size} ∧ 11 + 1 + 2 ≤ maxCount ∧ 64 * wordBytes ≤ maxBytes ∧
      ∃ entries, (walledTriangle.lawful walledTriangle_keepsLaws).Covers 0
        ((walledTriangle.lawful walledTriangle_keepsLaws).IsExit 0)
        (walledTriangle.surface.toTriangulation.walkFrom 0 {}) entries :=
  ⟨by decide, by decide, by decide, Lawful.walkFrom_covers_reached
    (walledTriangle.lawful walledTriangle_keepsLaws) (by decide) {} (by decide) (by decide)⟩

/-- Two directed edges of one pair, each of which is the whole boundary of a
face. -/
def twoMonogons : Table where
  isBootstrapped := true
  maxEdgeIndex := 1
  baseEdges := [0]
  rows := #[⟨some 0, 1, 0, 0, false, 0⟩, ⟨some 1, 0, 1, 1, false, 1⟩]
  positions := #[]
  links := #[⟨true, true, some 0⟩]

theorem twoMonogons_keepsLaws : twoMonogons.KeepsLaws := by decide +kernel

/-- A face whose only side is the linking edge is left through it: the linking
edge is its own forward side. -/
theorem twoMonogons_leaves_through_link :
    ¬ ∃ entries, (twoMonogons.lawful twoMonogons_keepsLaws).Covers 0 (· ≠ 0)
      (twoMonogons.surface.toTriangulation.walkFrom 0 {}) entries := by
  intro hexists
  obtain ⟨entries, hcovers⟩ := hexists
  have hentries : entries = [0, 1] := by
    have hfirst := congrArg (List.map fun face => face.edges.first) hcovers.faces_eq
    rw [List.map_map] at hfirst
    calc entries = entries.map fun e => e := (List.map_id' entries).symm
      _ = (Event.faces (twoMonogons.surface.toTriangulation.walkFrom 0 {}).events).map
            fun face => face.edges.first := hfirst.symm
      _ = [0, 1] := by decide +kernel
  have honly : ∀ e, (twoMonogons.lawful twoMonogons_keepsLaws).Reached 0 (· ≠ 0) e → e = 0 := by
    intro e he
    induction he with
    | start => rfl
    | around _ ih =>
        rw [ih]
        rfl
    | across _ hexit _ ih => exact absurd ih hexit
  have hreached := (hcovers.claimed_iff 1 (by decide)).1
    ⟨1, by rw [hentries]; decide, Lawful.sameFace_refl _ 1⟩
  exact absurd (honly 1 hreached) (by decide)

end Table

end TinFaces
