import Mathlib.Data.Set.Function
import TinFaces.Table
import TinFaces.Walk.Claim

/-!
# Lawful meshes

A traversal runs over whatever answers its questions. `Lawful T edges` says that
on a set of edges the answers are those of plain functions and keep the
quad-edge laws:

* **dual** is an involution, **forward** leads back after three steps, and the
  reverse edge is two steps forward;
* the set is closed under both, and no two of its edges share an index.

Then the left face of an edge is its forward orbit (`SameFace`), and a mark set
is as good as the list of the edges at which faces were claimed (`Marked`): a
flag is set exactly for the edges of those faces. The two questions that every
traversal puts to the marks are answered from that list alone
(`Marked.isClaimed_eq`, `Marked.claim_eq`).

That the set is finite need not be said: its indices are bounded and distinct.
-/

namespace TinFaces

namespace Triangle

variable {α : Type}

/-- The triangle of the values has the values that were there. -/
theorem map_some_of_allSome {t : Triangle (Option α)} {v : Triangle α} (h : t.allSome = some v) :
    v.map some = t := by
  obtain ⟨a, b, c⟩ := t
  cases a <;> cases b <;> cases c <;> simp [allSome, mapM] at h
  rw [← h]
  rfl

end Triangle

/-- The answers of `T` on a set of edges, as functions that keep the laws. -/
structure Lawful {V E : Type} (T : Triangulation V E) (edges : Set E) where
  dual : E → E
  forward : E → E
  origin : E → Option V
  index : E → Nat
  border : E → Bool
  dual_eq : ∀ e ∈ edges, T.dual e = .ok (dual e)
  forward_eq : ∀ e ∈ edges, T.forward e = .ok (forward e)
  reverse_eq : ∀ e ∈ edges, T.reverse e = .ok (forward (forward e))
  origin_eq : ∀ e ∈ edges, T.origin e = .ok (origin e)
  index_eq : ∀ e ∈ edges, T.edgeIndex e = .ok (index e)
  border_eq : ∀ e ∈ edges, T.isRegionBorder e = .ok (border e)
  dual_mem : ∀ e ∈ edges, dual e ∈ edges
  forward_mem : ∀ e ∈ edges, forward e ∈ edges
  dual_dual : ∀ e ∈ edges, dual (dual e) = e
  forward_three : ∀ e ∈ edges, forward (forward (forward e)) = e
  index_injOn : Set.InjOn index edges
  index_le : ∀ e ∈ edges, index e ≤ T.maxEdgeIndex

namespace MarkSet

/-- There is room for the indices up to the largest, and the slack beyond, if
their number is a count. -/
theorem ofMaxIndex_eq_ok {maxIndex slack : Nat} (h : maxIndex + 1 + slack ≤ maxCount) :
    ofMaxIndex maxIndex slack = .ok (withCapacity (maxIndex + 1 + slack)) := by
  have hfirst : addCounts maxIndex 1 = .ok (maxIndex + 1) :=
    addCounts_eq_ok_iff.2 ⟨by omega, rfl⟩
  have hsecond : addCounts (maxIndex + 1) slack = .ok (maxIndex + 1 + slack) :=
    addCounts_eq_ok_iff.2 ⟨h, rfl⟩
  unfold ofMaxIndex
  rw [hfirst]
  show withCapacity <$> addCounts (maxIndex + 1) slack = _
  rw [hsecond]
  rfl

/-- Without that room there are no marks. -/
theorem ofMaxIndex_eq_error {maxIndex slack : Nat} (h : maxCount < maxIndex + 1 + slack) :
    ofMaxIndex maxIndex slack = .error .addOverflow := by
  unfold ofMaxIndex
  by_cases hfits : maxIndex + 1 ≤ maxCount
  · have hfirst : addCounts maxIndex 1 = .ok (maxIndex + 1) := addCounts_eq_ok_iff.2 ⟨hfits, rfl⟩
    have hsecond : addCounts (maxIndex + 1) slack = .error .addOverflow :=
      addCounts_eq_error_iff.2 ⟨h, rfl⟩
    rw [hfirst]
    show withCapacity <$> addCounts (maxIndex + 1) slack = _
    rw [hsecond]
    rfl
  · have hfirst : addCounts maxIndex 1 = .error .addOverflow :=
      addCounts_eq_error_iff.2 ⟨by omega, rfl⟩
    rw [hfirst]
    rfl

theorem size_words_withCapacity (capacity : Nat) :
    (withCapacity capacity).words.size = (capacity + 63) / 64 :=
  (withCapacity capacity).size_words

variable {marks : MarkSet} {i : Nat} {fault : Fault}

/-- A flag is read unless it has no word. -/
theorem isMarked_eq_error_iff :
    marks.isMarked i = .error fault ↔
      marks.words.size ≤ i / 64 ∧ fault = .outOfBounds marks.words.size (i / 64) := by
  unfold isMarked readAt
  by_cases h : i / 64 < marks.words.size
  · simp [h, Functor.map, Except.map]
  · simp [h, Functor.map, Except.map, Nat.not_lt.1 h, eq_comm]

/-- A flag is set unless it has no word. -/
theorem mark_eq_error_iff :
    marks.mark i = .error fault ↔
      marks.words.size ≤ i / 64 ∧ fault = .outOfBounds marks.words.size (i / 64) := by
  unfold mark
  by_cases h : i / 64 < marks.words.size
  · simp [h]
  · simp [h, Nat.not_lt.1 h, eq_comm]

/-- Marking an index again changes nothing. -/
theorem mark_of_isSet (h : marks.isSet i = true) : marks.mark i = .ok marks := by
  unfold isSet at h
  split at h
  · next word hword =>
      obtain ⟨hi, rfl⟩ := Array.getElem?_eq_some_iff.1 hword
      have hsame : marks.words[i / 64] ||| BitVec.twoPow 64 (i % 64) = marks.words[i / 64] := by
        ext j hj
        simp only [BitVec.getElem_or, BitVec.getElem_twoPow]
        by_cases hij : j = i % 64
        · subst hij
          rw [← BitVec.getLsbD_eq_getElem, h, Bool.true_or]
        · simp [hij]
      unfold mark
      rw [dif_pos hi]
      obtain ⟨capacity, ws, hsize⟩ := marks
      simp [hsame]
  · cases h

/-- A flag that has a word can be set. -/
theorem exists_mark {marks : MarkSet} {i : Nat} (h : i / 64 < marks.words.size) :
    ∃ marks', marks.mark i = .ok marks' := by
  unfold mark
  rw [dif_pos h]
  exact ⟨_, rfl⟩

end MarkSet

namespace Lawful

variable {V E : Type} {T : Triangulation V E} {edges : Set E}

/-! ## Faces -/

/-- Whether `b` bounds the face on the left of `a`. -/
def SameFace (L : Lawful T edges) (a b : E) : Prop :=
  b = a ∨ b = L.forward a ∨ b = L.forward (L.forward a)

/-- The sides of the face on the left of `e`, from `e` on. -/
def sides (L : Lawful T edges) (e : E) : Triangle E :=
  ⟨e, L.forward e, L.forward (L.forward e)⟩

/-- The face on the left of `e`, as a claim at `e` reports it. -/
def face (L : Lawful T edges) (e : E) : Face V E := ⟨L.sides e, (L.sides e).map L.origin⟩

/-- Whether no side of the face on the left of `e` starts at the ghost vertex. -/
def isReal (L : Lawful T edges) (e : E) : Bool :=
  (L.origin e).isSome && (L.origin (L.forward e)).isSome &&
    (L.origin (L.forward (L.forward e))).isSome

variable (L : Lawful T edges)

theorem sameFace_refl (e : E) : L.SameFace e e := .inl rfl

theorem sameFace_forward (e : E) : L.SameFace e (L.forward e) := .inr (.inl rfl)

theorem sameFace_mem {a b : E} (ha : a ∈ edges) (h : L.SameFace a b) : b ∈ edges := by
  rcases h with rfl | rfl | rfl
  · exact ha
  · exact L.forward_mem a ha
  · exact L.forward_mem _ (L.forward_mem a ha)

theorem sameFace_symm {a b : E} (ha : a ∈ edges) (h : L.SameFace a b) : L.SameFace b a := by
  have hthree := L.forward_three a ha
  rcases h with rfl | rfl | rfl
  · exact .inl rfl
  · exact .inr (.inr hthree.symm)
  · exact .inr (.inl hthree.symm)

theorem sameFace_trans {a b c : E} (ha : a ∈ edges) (hab : L.SameFace a b)
    (hbc : L.SameFace b c) : L.SameFace a c := by
  have hthree := L.forward_three a ha
  rcases hab with rfl | rfl | rfl
  · exact hbc
  · rcases hbc with rfl | rfl | rfl
    · exact .inr (.inl rfl)
    · exact .inr (.inr rfl)
    · exact .inl hthree
  · rcases hbc with rfl | rfl | rfl
    · exact .inr (.inr rfl)
    · exact .inl hthree
    · exact .inr (.inl (congrArg L.forward hthree))

theorem isGhost_face (e : E) : (L.face e).isGhost = !L.isReal e := by
  cases ha : L.origin e <;> cases hb : L.origin (L.forward e) <;>
    cases hc : L.origin (L.forward (L.forward e)) <;>
    simp [Face.isGhost, Face.vertices?, face, isReal, sides, Triangle.map, Triangle.allSome,
      Triangle.mapM, ha, hb, hc]

/-! ## Marks -/

/-- Whether the face on the left of `e` was claimed at one of the listed edges. -/
def Claimed (L : Lawful T edges) (entries : List E) (e : E) : Prop :=
  ∃ c ∈ entries, L.SameFace c e

/-- The flags are those of the faces that were claimed at the listed edges. -/
structure Marked (L : Lawful T edges) (marks : MarkSet) (entries : List E) : Prop where
  /-- Every edge has a flag. -/
  room : ∀ e ∈ edges, L.index e / 64 < marks.words.size
  isSet_iff : ∀ e ∈ edges, marks.isSet (L.index e) = true ↔ L.Claimed entries e

variable {L}

/-- Before the first claim no flag is set. -/
theorem marked_nil (slack : Nat) :
    L.Marked (.withCapacity (T.maxEdgeIndex + 1 + slack)) [] where
  room e he := by
    have hle := L.index_le e he
    rw [(MarkSet.withCapacity (T.maxEdgeIndex + 1 + slack)).size_words]
    show L.index e / 64 < (T.maxEdgeIndex + 1 + slack + 63) / 64
    omega
  isSet_iff e _ := by simp [Claimed]

/-- Whether a face is claimed can be read off the list of entries. -/
theorem Marked.isClaimed_eq {marks : MarkSet} {entries : List E} (h : L.Marked marks entries)
    {e : E} (he : e ∈ edges) : ∃ b, T.isClaimed marks e = .ok b ∧
      (b = true ↔ L.Claimed entries e) := by
  refine ⟨marks.isSet (L.index e), ?_, h.isSet_iff e he⟩
  unfold Triangulation.isClaimed
  rw [L.index_eq e he]
  exact MarkSet.isMarked_eq_ok_iff.2 ⟨h.room e he, rfl⟩

/-- Setting the flag of one edge leaves room for all. -/
private theorem Marked.mark_edge {marks : MarkSet} (hroom : ∀ e ∈ edges,
    L.index e / 64 < marks.words.size) {e : E} (he : e ∈ edges) :
    ∃ marks', marks.mark (L.index e) = .ok marks' ∧
      (∀ x ∈ edges, L.index x / 64 < marks'.words.size) ∧
      ∀ x ∈ edges, marks'.isSet (L.index x) = true ↔ x = e ∨ marks.isSet (L.index x) = true := by
  obtain ⟨marks', hmark⟩ := MarkSet.exists_mark (hroom e he)
  refine ⟨marks', hmark, ?_, ?_⟩
  · intro x hx
    rw [MarkSet.size_of_mark hmark]
    exact hroom x hx
  · intro x hx
    have hindex : L.index x = L.index e ↔ x = e :=
      ⟨fun h => L.index_injOn hx he h, fun h => by rw [h]⟩
    rw [MarkSet.isSet_mark hmark, Bool.or_eq_true, decide_eq_true_eq, hindex]

/-- A claim at `e` reports the face on its left and adds it to the claimed ones. -/
theorem Marked.claim_eq {marks : MarkSet} {entries : List E} (h : L.Marked marks entries)
    {e : E} (he : e ∈ edges) : ∃ marks', T.claim marks e = .ok (L.face e, marks') ∧
      L.Marked marks' (entries ++ [e]) := by
  have hf : L.forward e ∈ edges := L.forward_mem e he
  have hr : L.forward (L.forward e) ∈ edges := L.forward_mem _ hf
  obtain ⟨m₁, h₁, hroom₁, hset₁⟩ := Marked.mark_edge h.room he
  obtain ⟨m₂, h₂, hroom₂, hset₂⟩ := Marked.mark_edge hroom₁ hf
  obtain ⟨m₃, h₃, hroom₃, hset₃⟩ := Marked.mark_edge hroom₂ hr
  refine ⟨m₃, ?_, hroom₃, ?_⟩
  · simp only [Triangulation.claim, Triangle.mapM, L.forward_eq e he, L.reverse_eq e he,
      L.index_eq e he, L.index_eq _ hf, L.index_eq _ hr, L.origin_eq e he, L.origin_eq _ hf,
      L.origin_eq _ hr, bind, Except.bind, pure, Except.pure, h₁, h₂, h₃]
    rfl
  · intro x hx
    rw [hset₃ x hx, hset₂ x hx, hset₁ x hx, h.isSet_iff x hx]
    simp only [Claimed, SameFace, List.mem_append, List.mem_singleton]
    constructor
    · intro hcase
      rcases hcase with hx | hx | hx | ⟨c, hc, hx⟩
      · exact ⟨e, .inr rfl, .inr (.inr hx)⟩
      · exact ⟨e, .inr rfl, .inr (.inl hx)⟩
      · exact ⟨e, .inr rfl, .inl hx⟩
      · exact ⟨c, .inl hc, hx⟩
    · intro hclaimed
      rcases hclaimed with ⟨c, hc | rfl, hx⟩
      · exact .inr (.inr (.inr ⟨c, hc, hx⟩))
      · rcases hx with hx | hx | hx
        · exact .inr (.inr (.inl hx))
        · exact .inr (.inl hx)
        · exact .inl hx

/-! ## Lists of entries -/

theorem claimed_append {entries : List E} {a e : E} :
    L.Claimed (entries ++ [a]) e ↔ L.Claimed entries e ∨ L.SameFace a e := by
  simp only [Claimed, List.mem_append, List.mem_singleton]
  constructor
  · intro hclaimed
    rcases hclaimed with ⟨c, hc | rfl, h⟩
    · exact .inl ⟨c, hc, h⟩
    · exact .inr h
  · intro hcase
    rcases hcase with ⟨c, hc, h⟩ | h
    · exact ⟨c, .inl hc, h⟩
    · exact ⟨a, .inr rfl, h⟩

/-- The claimed edges are whole faces. -/
theorem Claimed.trans {entries : List E} (hentries : ∀ c ∈ entries, c ∈ edges) {a b : E}
    (h : L.Claimed entries a) (hab : L.SameFace a b) : L.Claimed entries b := by
  obtain ⟨c, hc, hca⟩ := h
  exact ⟨c, hc, L.sameFace_trans (hentries c hc) hca hab⟩

/-! ## What is reported -/

/-- The faces that are claimed without being ghosts are those of the real
entries. -/
theorem realFaces_eq {events : List (Event V E)} {entries : List E}
    (h : Event.faces events = entries.map L.face) :
    Event.realFaces events = (entries.filter L.isReal).map L.face := by
  have hreal : ∀ e, (!(L.face e).isGhost) = L.isReal e := fun e => by
    rw [isGhost_face, Bool.not_not]
  rw [Event.realFaces, h, List.filter_map]
  exact congrArg (List.map L.face) (List.filter_congr fun e _ => hreal e)

theorem edgeTriangles_eq {events : List (Event V E)} {entries : List E}
    (h : Event.faces events = entries.map L.face) :
    Event.edgeTriangles events = (entries.filter L.isReal).map L.sides := by
  rw [Event.edgeTriangles, realFaces_eq h, List.map_map]
  rfl

/-- The reported vertices are the origins around the real faces. -/
theorem triangles_eq {events : List (Event V E)} {entries : List E}
    (h : Event.faces events = entries.map L.face) :
    (Event.triangles events).map (Triangle.map some) =
      (entries.filter L.isReal).map fun e => (L.sides e).map L.origin := by
  rw [Event.triangles, h]
  clear h
  induction entries with
  | nil => rfl
  | cons e rest ih =>
      have hghost := L.isGhost_face e
      cases hvertices : (L.face e).vertices? with
      | none =>
          have hreal : L.isReal e = false := by simpa [Face.isGhost, hvertices] using hghost
          rw [List.map_cons, List.filterMap_cons_none hvertices, ih,
            List.filter_cons_of_neg (by rw [hreal]; decide)]
      | some t =>
          have hreal : L.isReal e = true := by simpa [Face.isGhost, hvertices] using hghost
          rw [List.map_cons, List.filterMap_cons_some hvertices, List.map_cons, ih,
            List.filter_cons_of_pos hreal, List.map_cons, Triangle.map_some_of_allSome hvertices]
          rfl

/-- The counters of a traversal follow from its entries. -/
theorem summary_eq {events : List (Event V E)} {entries : List E}
    (h : Event.faces events = entries.map L.face) (regionsWalked : Nat) :
    Event.summary events regionsWalked =
      { facesVisited := entries.length
        trianglesEmitted := (entries.filter L.isReal).length
        ghostsSuppressed := (entries.filter fun e => !L.isReal e).length
        borderCrossingsRefused := (events.filterMap Event.border?).count true
        regionsWalked } := by
  have hghosts : ((entries.map L.face).filter Face.isGhost).length =
      (entries.filter fun e => !L.isReal e).length := by
    rw [List.filter_map, List.length_map]
    exact congrArg List.length (List.filter_congr fun e _ => L.isGhost_face e)
  rw [Event.summary, realFaces_eq h, h, List.length_map, List.length_map, hghosts]

end Lawful

/-! ## Lawful tables -/

namespace Table

/-- What a table says about the edge `e`. -/
def rowAt (table : Table) (e : Nat) : Row := table.rows.getD e ⟨none, e, e, e, false, e⟩

/-- Whether the rows of a table keep the laws. -/
def KeepsLaws (table : Table) : Prop :=
  ∀ e < table.rows.size,
    ((table.rowAt e).dual < table.rows.size ∧ (table.rowAt e).forward < table.rows.size) ∧
    (table.rowAt (table.rowAt e).dual).dual = e ∧
    (table.rowAt (table.rowAt (table.rowAt e).forward).forward).forward = e ∧
    (table.rowAt e).reverse = (table.rowAt (table.rowAt e).forward).forward ∧
    (table.rowAt e).index ≤ table.maxEdgeIndex ∧
    ∀ e' < table.rows.size, (table.rowAt e).index = (table.rowAt e').index → e = e'

instance (table : Table) : Decidable table.KeepsLaws :=
  inferInstanceAs (Decidable (∀ e < table.rows.size, _ ∧ _ ∧ _ ∧ _ ∧ _ ∧ _))

/-- A question about an edge with a row is answered from it. -/
theorem map_readAt_rows (table : Table) {e : Nat} (he : e < table.rows.size) {α : Type}
    (f : Row → α) : f <$> readAt table.rows e = .ok (f (table.rowAt e)) := by
  have hrow : table.rows[e]? = some (table.rowAt e) := by
    simp [rowAt, he]
  rw [readAt_eq_ok_iff.2 hrow]
  rfl

/-- A table whose rows keep the laws is a lawful mesh. -/
def lawful (table : Table) (h : table.KeepsLaws) :
    Lawful table.surface.toTriangulation {e | e < table.rows.size} where
  dual e := (table.rowAt e).dual
  forward e := (table.rowAt e).forward
  origin e := (table.rowAt e).origin
  index e := (table.rowAt e).index
  border e := (table.rowAt e).border
  dual_eq _ he := table.map_readAt_rows he _
  forward_eq _ he := table.map_readAt_rows he _
  reverse_eq e he := by
    rw [← (h e he).2.2.2.1]
    exact table.map_readAt_rows he _
  origin_eq _ he := table.map_readAt_rows he _
  index_eq _ he := table.map_readAt_rows he _
  border_eq _ he := table.map_readAt_rows he _
  dual_mem e he := (h e he).1.1
  forward_mem e he := (h e he).1.2
  dual_dual e he := (h e he).2.1
  forward_three e he := (h e he).2.2.1
  index_injOn e he e' he' heq := (h e he).2.2.2.2.2 e' he' heq
  index_le e he := (h e he).2.2.2.2.1

end Table

end TinFaces
