import Mathlib.Data.List.TakeWhile
import TinFaces.Proofs.Regions

/-!
# Tours of the regions

A tour walks the regions of some constraints in turn. What it does is told by the walks
on their own: constraints without a region are passed over, and the tour goes on up to
the first constraint that cannot seed a walk (`Constraint.toured`,
`Constraint.firstDefect?`).

* A region constraint without a defect is walked to the end or to a fault
  (`Constraint.walk_ends`); one with a defect is refused (`Constraint.walk_of_defect`).
* As long as no walk faults and the counters can be added, a tour strings the walks
  together and adds their summaries (`Constraint.walkEach_eq`).
* The chains that a mesh has registered have no defect, and each closed one counts as one
  region (`Mesh.Realizes.walkRegions_eq`).

Both together are `Triangulation.walkRegions_sum_of_walks`.
-/

namespace TinFaces

/-! ## Sums of counters -/

namespace Summary

instance : Zero Summary := ⟨{}⟩

/-- The sum, counter by counter, whether it can be kept or not. -/
instance : Add Summary where
  add s t :=
    { facesVisited := s.facesVisited + t.facesVisited
      trianglesEmitted := s.trianglesEmitted + t.trianglesEmitted
      ghostsSuppressed := s.ghostsSuppressed + t.ghostsSuppressed
      borderCrossingsRefused := s.borderCrossingsRefused + t.borderCrossingsRefused
      regionsWalked := s.regionsWalked + t.regionsWalked }

/-- Whether all counters can be kept. -/
structure Fits (s : Summary) : Prop where
  facesVisited : s.facesVisited ≤ maxCount
  trianglesEmitted : s.trianglesEmitted ≤ maxCount
  ghostsSuppressed : s.ghostsSuppressed ≤ maxCount
  borderCrossingsRefused : s.borderCrossingsRefused ≤ maxCount
  regionsWalked : s.regionsWalked ≤ maxCount

instance (s : Summary) : Decidable s.Fits :=
  decidable_of_iff (s.facesVisited ≤ maxCount ∧ s.trianglesEmitted ≤ maxCount ∧
      s.ghostsSuppressed ≤ maxCount ∧ s.borderCrossingsRefused ≤ maxCount ∧
      s.regionsWalked ≤ maxCount)
    ⟨fun ⟨h₁, h₂, h₃, h₄, h₅⟩ => ⟨h₁, h₂, h₃, h₄, h₅⟩,
      fun ⟨h₁, h₂, h₃, h₄, h₅⟩ => ⟨h₁, h₂, h₃, h₄, h₅⟩⟩

variable {s t : Summary}

theorem zero_add (s : Summary) : 0 + s = s := by
  show Summary.mk (0 + _) (0 + _) (0 + _) (0 + _) (0 + _) = s
  simp only [Nat.zero_add]

theorem add_assoc (s t u : Summary) : s + t + u = s + (t + u) := by
  show Summary.mk (_ + _ + _) (_ + _ + _) (_ + _ + _) (_ + _ + _) (_ + _ + _) = _
  simp only [Nat.add_assoc]
  rfl

theorem Fits.left (h : (s + t).Fits) : s.Fits where
  facesVisited := (Nat.le_add_right _ _).trans h.facesVisited
  trianglesEmitted := (Nat.le_add_right _ _).trans h.trianglesEmitted
  ghostsSuppressed := (Nat.le_add_right _ _).trans h.ghostsSuppressed
  borderCrossingsRefused := (Nat.le_add_right _ _).trans h.borderCrossingsRefused
  regionsWalked := (Nat.le_add_right _ _).trans h.regionsWalked

/-- Merging adds the counters, as long as the sums can be kept. -/
theorem merge_eq (h : (s + t).Fits) : s.merge t = ⟨s + t, none⟩ := by
  have hcount : ∀ {a b : Nat}, a + b ≤ maxCount → addCounts a b = .ok (a + b) :=
    fun hle => addCounts_eq_ok_iff.2 ⟨hle, rfl⟩
  simp only [merge, Outcome.ofSteps, hcount h.facesVisited, hcount h.trianglesEmitted,
    hcount h.ghostsSuppressed, hcount h.borderCrossingsRefused, hcount h.regionsWalked, bind,
    Except.bind, pure, Except.pure]
  rfl

/-- As many regions as there are summaries of one region each. -/
theorem regionsWalked_sum {summaries : List Summary} (h : ∀ s ∈ summaries, s.regionsWalked = 1) :
    summaries.sum.regionsWalked = summaries.length := by
  induction summaries with
  | nil => rfl
  | cons s rest ih =>
      have hrest := ih fun t ht => h t (List.mem_cons_of_mem _ ht)
      show s.regionsWalked + rest.sum.regionsWalked = rest.length + 1
      rw [hrest, h s List.mem_cons_self]
      omega

end Summary

variable {V E : Type}

/-- The counters of a traversal that ended. -/
def Report.summary (report : Report V E) : Summary :=
  match report.result with
  | .ok summary => summary
  | .error _ => 0

/-! ## One walk -/

/-- A walk ends with a summary or breaks off. -/
theorem Triangulation.walkFrom_result (T : Triangulation V E) (link : E) (options : WalkOptions) :
    (∃ summary, (T.walkFrom link options).result = .ok summary) ∨
      ∃ fault, (T.walkFrom link options).result = .error (.fault fault) := by
  unfold Triangulation.walkFrom
  split
  · next fault _ => exact .inr ⟨fault, rfl⟩
  · next marks _ =>
      simp only [Report.ofTrace]
      split
      · next fault _ => exact .inr ⟨fault, rfl⟩
      · exact .inl ⟨_, rfl⟩

namespace Constraint

/-- Why the constraint cannot seed a walk, apart from having no region. -/
def defect? (c : Constraint V E) : Option ConstraintDefect :=
  match c.mesh?, c.linkingEdge? with
  | none, _ => some .unmanaged
  | some _, none => some .missingLinkingEdge
  | some _, some _ => none

/-- The region constraints before the first that has a defect. -/
def toured (constraints : List (Constraint V E)) : List (Constraint V E) :=
  (constraints.filter (·.definesRegion)).takeWhile (·.defect?.isNone)

/-- The defect of the first region constraint that has one. -/
def firstDefect? (constraints : List (Constraint V E)) : Option ConstraintDefect :=
  (constraints.filter (·.definesRegion)).findSome? defect?

/-- The sum of what the walks of the toured constraints count. -/
def tourSummary (constraints : List (Constraint V E)) (options : WalkOptions) : Summary :=
  ((toured constraints).map fun c => (c.walk options).summary).sum

variable {c : Constraint V E} {constraints : List (Constraint V E)} {options : WalkOptions}

theorem walk_of_defect {defect : ConstraintDefect} (hregion : c.definesRegion = true)
    (h : c.defect? = some defect) : c.walk options = .refused defect := by
  unfold defect? at h
  unfold walk
  cases hmesh : c.mesh? with
  | none =>
      rw [hmesh] at h
      cases h
      rfl
  | some T =>
      cases hlink : c.linkingEdge? with
      | some link => simp only [hmesh, hlink, reduceCtorEq] at h
      | none =>
          simp only [hmesh, hlink, Option.some.injEq] at h
          simp only [hregion, if_true, h]

theorem walk_ends (hregion : c.definesRegion = true) (h : c.defect? = none)
    (hfaultless : ∀ fault, (c.walk options).result ≠ .error (.fault fault)) :
    (c.walk options).result = .ok (c.walk options).summary := by
  have hends : ∃ summary, (c.walk options).result = .ok summary := by
    unfold defect? at h
    split at h
    · cases h
    · cases h
    · next T link hmesh hlink =>
        unfold walk at hfaultless ⊢
        simp only [hmesh, hregion, hlink, if_true] at hfaultless ⊢
        split at hfaultless
        · next hbootstrapped =>
            rw [if_pos hbootstrapped]
            exact (T.walkFrom_result link options).resolve_right fun ⟨fault, hfault⟩ =>
              hfaultless fault hfault
        · next hempty =>
            rw [if_neg hempty]
            exact ⟨{}, rfl⟩
  obtain ⟨summary, hsummary⟩ := hends
  rw [Report.summary, hsummary]

theorem of_mem_toured (h : c ∈ toured constraints) :
    c.definesRegion = true ∧ c.defect? = none := by
  have hmem := (List.takeWhile_sublist _).subset h
  have hsound := List.mem_takeWhile_imp (p := fun c : Constraint V E => c.defect?.isNone) h
  exact ⟨(List.mem_filter.1 hmem).2, by simpa using hsound⟩

/-! ## The tour -/

/-- A constraint without a region makes no difference. -/
theorem walkEach_cons_of_linear (hregion : c.definesRegion = false) (total : Summary)
    (rest : List (Constraint V E)) :
    walkEach options total (c :: rest) = walkEach options total rest := by
  simp [walkEach, hregion]

/-- A defect ends the tour. -/
theorem walkEach_cons_of_defect {defect : ConstraintDefect} (hregion : c.definesRegion = true)
    (h : c.defect? = some defect) (total : Summary) (rest : List (Constraint V E)) :
    walkEach options total (c :: rest) = .refused defect := by
  simp [walkEach, hregion, walk_of_defect hregion h, Report.refused]

/-- After a walk that ended the tour goes on, with the counters of the walk added. -/
theorem walkEach_cons_of_ends (hregion : c.definesRegion = true) {total summary : Summary}
    (hends : (c.walk options).result = .ok summary) (hfits : (total + summary).Fits)
    (rest : List (Constraint V E)) :
    walkEach options total (c :: rest) =
      (walkEach options (total + summary) rest).after (c.walk options) := by
  simp only [walkEach, hregion, if_true, hends, Summary.merge_eq hfits]

/-- What a tour does from some total on: the walks one after the other, and then the sum,
or the defect that ended it. -/
theorem walkEach_eq (constraints : List (Constraint V E)) (total : Summary)
    (hfaultless : ∀ c ∈ toured constraints, ∀ fault,
      (c.walk options).result ≠ .error (.fault fault))
    (hfits : (total + tourSummary constraints options).Fits) :
    (walkEach options total constraints).events =
        (toured constraints).flatMap (fun c => (c.walk options).events) ∧
      (walkEach options total constraints).result =
        match firstDefect? constraints with
        | some defect => .error (.error (.invalidArgument defect))
        | none => .ok (total + tourSummary constraints options) := by
  unfold tourSummary at hfits ⊢
  induction constraints generalizing total with
  | nil => exact ⟨rfl, rfl⟩
  | cons c rest ih =>
      cases hregion : c.definesRegion with
      | false =>
          -- passed over
          have htoured : toured (c :: rest) = toured rest := by simp [toured, hregion]
          have hfirst : firstDefect? (c :: rest) = firstDefect? rest := by
            simp [firstDefect?, hregion]
          rw [htoured] at hfaultless hfits ⊢
          rw [hfirst, walkEach_cons_of_linear hregion]
          exact ih total hfaultless hfits
      | true =>
          cases hdefect : c.defect? with
          | some defect =>
              -- refused
              have htoured : toured (c :: rest) = [] := by simp [toured, hregion, hdefect]
              have hfirst : firstDefect? (c :: rest) = some defect := by
                simp [firstDefect?, hregion, hdefect]
              rw [htoured, hfirst, walkEach_cons_of_defect hregion hdefect]
              exact ⟨rfl, rfl⟩
          | none =>
              -- walked to the end
              have htoured : toured (c :: rest) = c :: toured rest := by
                simp [toured, hregion, hdefect]
              have hfirst : firstDefect? (c :: rest) = firstDefect? rest := by
                simp [firstDefect?, hregion, hdefect]
              rw [htoured] at hfaultless hfits ⊢
              rw [List.map_cons, List.sum_cons, ← Summary.add_assoc] at hfits ⊢
              have hends := walk_ends hregion hdefect (hfaultless c List.mem_cons_self)
              obtain ⟨hevents, hresult⟩ := ih (total + (c.walk options).summary)
                (fun d hd => hfaultless d (List.mem_cons_of_mem _ hd)) hfits
              rw [hfirst, walkEach_cons_of_ends hregion hends hfits.left, List.flatMap_cons]
              exact ⟨congrArg _ hevents, hresult⟩

/-- A tour reports no triangle that is not reported by one of the walks. -/
theorem exists_walk_of_mem_walkEach {edges : Triangle E} {total : Summary}
    (h : edges ∈ (walkEach options total constraints).edgeTriangles) :
    ∃ c ∈ constraints, edges ∈ (c.walk options).edgeTriangles := by
  induction constraints generalizing total with
  | nil => exact absurd h List.not_mem_nil
  | cons c rest ih =>
      have hrest : ∀ {total : Summary}, edges ∈ (walkEach options total rest).edgeTriangles →
          ∃ d ∈ c :: rest, edges ∈ (d.walk options).edgeTriangles := fun h => by
        obtain ⟨d, hd, hmem⟩ := ih h
        exact ⟨d, List.mem_cons_of_mem _ hd, hmem⟩
      unfold walkEach at h
      split at h
      case isFalse => exact hrest h
      case isTrue =>
        dsimp only at h
        split at h
        · exact ⟨c, List.mem_cons_self, h⟩
        · split at h
          · exact ⟨c, List.mem_cons_self, h⟩
          · rw [Report.edgeTriangles, Report.after, Event.edgeTriangles_append] at h
            rcases List.mem_append.1 h with h | h
            · exact ⟨c, List.mem_cons_self, h⟩
            · exact hrest h

end Constraint

/-- The triangles of walks that are strung together. -/
theorem Event.triangles_flatMap {α : Type} (xs : List α) (events : α → List (Event V E)) :
    Event.triangles (xs.flatMap events) = xs.flatMap fun x => Event.triangles (events x) := by
  induction xs with
  | nil => rfl
  | cons x xs ih => rw [List.flatMap_cons, List.flatMap_cons, Event.triangles_append, ih]

/-- A tour by the walks on their own: each of them ends, their triangles follow one
another, and the result is the sum of the summaries or the defect of the first constraint
that cannot seed a walk. -/
structure SumsWalks (constraints : List (Constraint V E)) (options : WalkOptions)
    (report : Report V E) : Prop where
  walks_end : ∀ c ∈ Constraint.toured constraints,
    (c.walk options).result = .ok (c.walk options).summary
  triangles_eq : report.triangles =
    (Constraint.toured constraints).flatMap fun c => (c.walk options).triangles
  result_eq : report.result =
    match Constraint.firstDefect? constraints with
    | some defect => .error (.error (.invalidArgument defect))
    | none => .ok (Constraint.tourSummary constraints options)

theorem Triangulation.sumsWalks (T : Triangulation V E) (constraints : List (Constraint V E))
    (options : WalkOptions) (hbootstrapped : T.isBootstrapped = true)
    (hfaultless : ∀ c ∈ Constraint.toured constraints, ∀ fault,
      (c.walk options).result ≠ .error (.fault fault))
    (hfits : (Constraint.tourSummary constraints options).Fits) :
    SumsWalks constraints options (T.walkRegions constraints options) := by
  have htour : T.walkRegions constraints options = Constraint.walkEach options 0 constraints := by
    rw [Triangulation.walkRegions, if_pos hbootstrapped]
    rfl
  have hzero := Summary.zero_add (Constraint.tourSummary constraints options)
  rw [← hzero] at hfits
  obtain ⟨hevents, hresult⟩ := Constraint.walkEach_eq constraints 0 hfaultless hfits
  rw [hzero] at hresult
  refine ⟨fun c hc => ?_, ?_, ?_⟩
  · obtain ⟨hregion, hdefect⟩ := Constraint.of_mem_toured hc
    exact Constraint.walk_ends hregion hdefect (hfaultless c hc)
  · rw [htour, Report.triangles, hevents, Event.triangles_flatMap]
    rfl
  · rw [htour]
    exact hresult

/-! ## The tour of a mesh -/

namespace Mesh

variable {m : Mesh} {triangles : List (Triangle Nat)}

/-- The registered chains have no defect, so the closed ones are all toured. -/
theorem Registered.toured_eq (h : m.Registered) :
    Constraint.toured m.constraints =
        (m.chains.toList.filter (·.closed)).map m.constraintOf ∧
      Constraint.firstDefect? m.constraints = none := by
  have hregions : m.constraints.filter (·.definesRegion) =
      (m.chains.toList.filter (·.closed)).map m.constraintOf := List.filter_map
  have hsound : ∀ c ∈ (m.chains.toList.filter (·.closed)).map m.constraintOf,
      c.defect? = none := by
    intro c hc
    obtain ⟨chain, hchain, rfl⟩ := List.mem_map.1 hc
    obtain ⟨id, hid⟩ :=
      exists_chain?_of_mem (Array.mem_toList_iff.1 (List.mem_of_mem_filter hchain))
    obtain ⟨link, _, hlink⟩ := (h.stores id chain hid).link
    simp only [Constraint.defect?, constraintOf, hlink]
  unfold Constraint.toured Constraint.firstDefect?
  rw [hregions]
  refine ⟨List.takeWhile_eq_self_iff.2 fun c hc => ?_, List.findSome?_eq_none_iff.2 hsound⟩
  rw [hsound c hc]
  rfl

/-- The walk of a registered closed chain ends and counts as one region. -/
theorem Realizes.walk_regionsWalked (h : m.Realizes triangles) (hregistered : m.Registered)
    {options : WalkOptions} (hroom : m.pool.maxIndex + 1 + options.markSlack ≤ maxCount)
    (hstack : options.stackCapacity * wordBytes ≤ maxBytes)
    {chain : Chain} (hchain : chain ∈ m.chains.toList.filter (·.closed)) : ∃ summary,
      ((m.constraintOf chain).walk options).result = .ok summary ∧
        summary.regionsWalked = 1 ∧ m.surface.toTriangulation.isBootstrapped = true := by
  obtain ⟨hmem, hclosed⟩ := List.mem_filter.1 hchain
  obtain ⟨id, hid⟩ := exists_chain?_of_mem (Array.mem_toList_iff.1 hmem)
  obtain ⟨link, _, _, hlive, hwalk⟩ := h.walk_represents hregistered hid hclosed hroom hstack
  exact ⟨_, hwalk.result_eq, rfl, h.isBootstrapped_iff.2 ⟨link, hlive⟩⟩

/-- A tour of a mesh ends, and counts each closed chain. -/
theorem Realizes.walkRegions_eq (h : m.Realizes triangles) (hregistered : m.Registered)
    {options : WalkOptions} (hroom : m.pool.maxIndex + 1 + options.markSlack ≤ maxCount)
    (hstack : options.stackCapacity * wordBytes ≤ maxBytes)
    (hfits : (Constraint.tourSummary m.constraints options).Fits) : ∃ summary,
      (m.surface.toTriangulation.walkRegions m.constraints options).result = .ok summary ∧
      summary.regionsWalked = m.chains.toList.countP (·.closed) := by
  obtain ⟨htoured, hfirst⟩ := hregistered.toured_eq
  have hwalk : ∀ chain ∈ m.chains.toList.filter (·.closed), ∃ summary,
      ((m.constraintOf chain).walk options).result = .ok summary ∧
        summary.regionsWalked = 1 ∧ m.surface.toTriangulation.isBootstrapped = true :=
    fun _ hchain => h.walk_regionsWalked hregistered hroom hstack hchain
  cases hbootstrapped : m.surface.toTriangulation.isBootstrapped with
  | true =>
      have hfaultless : ∀ c ∈ Constraint.toured m.constraints, ∀ fault,
          (c.walk options).result ≠ .error (.fault fault) := by
        rw [htoured]
        intro c hc fault hfault
        obtain ⟨chain, hchain, rfl⟩ := List.mem_map.1 hc
        obtain ⟨_, hresult, _⟩ := hwalk chain hchain
        cases hresult.symm.trans hfault
      have hsums := m.surface.toTriangulation.sumsWalks _ options hbootstrapped hfaultless hfits
      refine ⟨Constraint.tourSummary m.constraints options, ?_, ?_⟩
      · rw [hsums.result_eq, hfirst]
      · rw [Constraint.tourSummary, htoured, Summary.regionsWalked_sum, List.length_map,
          List.length_map, List.countP_eq_length_filter]
        intro s hs
        obtain ⟨c, hc, rfl⟩ := List.mem_map.1 hs
        obtain ⟨chain, hchain, rfl⟩ := List.mem_map.1 hc
        obtain ⟨_, hresult, hone, _⟩ := hwalk chain hchain
        rw [Report.summary, hresult]
        exact hone
  | false =>
      -- where a closed chain is registered the mesh has triangles
      have hnone : m.chains.toList.countP (·.closed) = 0 := by
        rw [List.countP_eq_length_filter, List.length_eq_zero_iff,
          List.eq_nil_iff_forall_not_mem]
        intro chain hchain
        obtain ⟨_, _, _, htrue⟩ := hwalk chain hchain
        cases hbootstrapped.symm.trans htrue
      refine ⟨0, ?_, hnone.symm⟩
      rw [Triangulation.walkRegions, hbootstrapped]
      rfl

end Mesh

/-- A tour of the regions is the sum of the walks in it, on whatever answers the questions.
On a mesh that can come about it ends with a summary, which counts the registered closed
chains. -/
theorem Triangulation.walkRegions_sum_of_walks :
    (∀ {V E : Type} (T : Triangulation V E) (constraints : List (Constraint V E))
      (options : WalkOptions), T.isBootstrapped = true →
      (∀ c ∈ Constraint.toured constraints, ∀ fault,
        (c.walk options).result ≠ .error (.fault fault)) →
      (Constraint.tourSummary constraints options).Fits →
        SumsWalks constraints options (T.walkRegions constraints options)) ∧
    ∀ (m : Mesh) (options : WalkOptions), m.Reachable →
      m.pool.maxIndex + 1 + options.markSlack ≤ maxCount →
      options.stackCapacity * wordBytes ≤ maxBytes →
      (Constraint.tourSummary m.constraints options).Fits → ∃ summary,
        (m.surface.toTriangulation.walkRegions m.constraints options).result = .ok summary ∧
        summary.regionsWalked = m.chains.toList.countP (·.closed) := by
  refine ⟨fun {V E} T => T.sumsWalks, fun m options h hroom hstack hfits => ?_⟩
  obtain ⟨triangles, hrealizes⟩ := h.exists_realizes
  exact hrealizes.walkRegions_eq h.registered hroom hstack hfits

/-- The walled triangle with a constraint that has no region, two that have one, one
without a linking edge, and one that nothing manages. -/
def Table.touredTriangle : Table :=
  { Table.walledTriangle with
    links := #[⟨true, false, some 0⟩, ⟨true, true, some 0⟩, ⟨true, true, some 1⟩,
      ⟨true, true, none⟩, ⟨false, true, some 0⟩] }

/-- The tour of that table ends at the missing linking edge, that of a square with a ring
and a line comes to its end. -/
theorem touredTriangle_and_constrainedSquare_walkRegions :
    (Table.touredTriangle.surface.isBootstrapped = true ∧
      (∀ c ∈ Constraint.toured Table.touredTriangle.constraints, ∀ fault,
        (c.walk {}).result ≠ .error (.fault fault)) ∧
      (Constraint.tourSummary Table.touredTriangle.constraints {}).Fits ∧
      (Constraint.toured Table.touredTriangle.constraints).length = 2 ∧
      Constraint.firstDefect? Table.touredTriangle.constraints = some .missingLinkingEdge ∧
      SumsWalks Table.touredTriangle.constraints {}
        (Table.touredTriangle.surface.toTriangulation.walkRegions
          Table.touredTriangle.constraints {})) ∧
    Mesh.constrainedSquare.Reachable ∧
      Mesh.constrainedSquare.pool.maxIndex + 1 + 2 ≤ maxCount ∧ 64 * wordBytes ≤ maxBytes ∧
      (Constraint.tourSummary Mesh.constrainedSquare.constraints {}).Fits ∧ ∃ summary,
        (Mesh.constrainedSquare.surface.toTriangulation.walkRegions
          Mesh.constrainedSquare.constraints {}).result = .ok summary ∧
        summary.regionsWalked = Mesh.constrainedSquare.chains.toList.countP (·.closed) := by
  have hends : ∀ c ∈ Constraint.toured Table.touredTriangle.constraints,
      (c.walk {}).result.isOk = true := by decide +kernel
  have hfaultless : ∀ c ∈ Constraint.toured Table.touredTriangle.constraints, ∀ fault,
      (c.walk {}).result ≠ .error (.fault fault) := by
    intro c hc fault hfault
    have hok := hends c hc
    rw [hfault] at hok
    cases hok
  have hfits : (Constraint.tourSummary Table.touredTriangle.constraints {}).Fits := by
    decide +kernel
  have hroom : Mesh.constrainedSquare.pool.maxIndex + 1 + 2 ≤ maxCount := by decide +kernel
  have hstack : 64 * wordBytes ≤ maxBytes := by decide
  have hfits' : (Constraint.tourSummary Mesh.constrainedSquare.constraints {}).Fits := by
    decide +kernel
  exact ⟨⟨rfl, hfaultless, hfits, by decide +kernel, by decide +kernel,
      Triangulation.walkRegions_sum_of_walks.1 _ _ _ rfl hfaultless hfits⟩,
    Mesh.reachable_constrainedSquare, hroom, hstack, hfits',
    Triangulation.walkRegions_sum_of_walks.2 _ _ Mesh.reachable_constrainedSquare hroom hstack
      hfits'⟩

end TinFaces
