import TinFaces.Proofs.AddedBorders
import TinFaces.Proofs.Adjacency
import TinFaces.Proofs.FirstOffence

/-!
# Which chains are registered

Whether a mesh registers a chain can be told from the triangles that it was made from
(`Mesh.MadeFrom`) and from how many vertices it has now: the chain is to be long enough, to name
vertices of the mesh, and to join by each segment two vertices that are neighbours in some triangle
(`Mesh.Registrable`). If it is not registered, the error is the first of these that fails, at the
first place where it does (`Mesh.Refuses`), and the mesh stays what it was. If it is, the mesh has
one chain more, computed afresh, and the flags of the pairs along its segments; nothing else is new
(`Mesh.Registers`).

Nothing is assumed of the chain. It may pass a vertex twice, turn back, close itself by hand, or
bring the id and the edges that another mesh gave it.
-/

namespace TinFaces

namespace Mesh

variable {m : Mesh} {triangles : List (Triangle Nat)} {chain : Chain}

/-! ## The triangles that a mesh was made from -/

/-- The meshes that can come about, and the triangles that were given to the build of each. -/
inductive MadeFrom : Mesh → List (Triangle Nat) → Prop
  | empty : MadeFrom {} []
  | withCapacity {numVertices numTriangles : Nat} {m : Mesh}
      (h : withCapacity numVertices numTriangles = .ok m) : MadeFrom m []
  | build {points : Array Point} {triangles : List (Triangle Nat)} {options : BuildOptions}
      {built : Built} (h : build points triangles options = .ok built) :
      MadeFrom built.mesh triangles
  | edit {m : Mesh} {triangles : List (Triangle Nat)} (h : MadeFrom m triangles) (change : Edit) :
      MadeFrom (m.edit change) triangles

theorem reachable_iff_exists_madeFrom : m.Reachable ↔ ∃ triangles, m.MadeFrom triangles := by
  constructor
  · intro h
    induction h with
    | empty => exact ⟨[], .empty⟩
    | withCapacity h => exact ⟨[], .withCapacity h⟩
    | build h => exact ⟨_, .build h⟩
    | edit _ change ih =>
        obtain ⟨triangles, hmade⟩ := ih
        exact ⟨triangles, hmade.edit change⟩
  · rintro ⟨triangles, h⟩
    induction h with
    | empty => exact .empty
    | withCapacity h => exact .withCapacity h
    | build h => exact .build h
    | edit _ change ih => exact ih.edit change

theorem MadeFrom.editAll (h : m.MadeFrom triangles) (edits : List Edit) :
    (m.editAll edits).MadeFrom triangles := by
  induction edits generalizing m with
  | nil => exact h
  | cons change rest ih => exact ih (h.edit change)

/-- A mesh stores the triangles that it was made from. -/
theorem MadeFrom.realizes (h : m.MadeFrom triangles) : m.Realizes triangles := by
  induction h with
  | empty => exact realizes_empty
  | withCapacity h =>
      rw [eq_of_withCapacity_eq_ok h]
      exact realizes_empty
  | @build _ _ options _ h =>
      obtain ⟨hacceptable, rfl⟩ := build_eq_ok_iff.1 h
      exact realizes_closedMesh hacceptable options
  | edit _ change ih => exact ih.edit change

/-! ## The order of the checks -/

/-- Whether the ends of a segment are neighbours in some triangle. -/
def Adjacent (triangles : List (Triangle Nat)) (segment : VertexId × VertexId) : Prop :=
  (segment.1.index, segment.2.index) ∈ sidesOf triangles ∨
    (segment.2.index, segment.1.index) ∈ sidesOf triangles

/-- What it takes for a chain to be registered. -/
structure Registrable (m : Mesh) (triangles : List (Triangle Nat)) (chain : Chain) : Prop where
  required_le : chain.required ≤ chain.vertices.length
  inRange : ∀ v ∈ chain.vertices, v.index < m.numVertices
  adjacent : ∀ segment ∈ chain.segments, Adjacent triangles segment

/-- Why a chain is not registered. -/
inductive Refuses (m : Mesh) (triangles : List (Triangle Nat)) (chain : Chain) : Error → Prop
  /-- It is too short. -/
  | tooShort : chain.vertices.length < chain.required →
      Refuses m triangles chain (.constraintTooShort chain.required chain.vertices.length)
  /-- It is long enough, and `v` is the first of its vertices that the mesh does not have. -/
  | notAVertex {before : List VertexId} {v : VertexId} :
      chain.required ≤ chain.vertices.length →
      IsFirst (fun _ w => m.numVertices ≤ w.index) chain.vertices before v →
      Refuses m triangles chain (.notAVertex (toString v.index))
  /-- The mesh has all of its vertices, and `segment` is the first in the order of the chain whose
  ends are no neighbours. -/
  | missingEdge {before : List (VertexId × VertexId)} {segment : VertexId × VertexId} :
      chain.required ≤ chain.vertices.length →
      (∀ v ∈ chain.vertices, v.index < m.numVertices) →
      IsFirst (fun _ s => ¬ Adjacent triangles s) chain.segments before segment →
      Refuses m triangles chain (.missingConstraintEdge segment.1.index segment.2.index)

theorem Realizes.exists_segmentEdge_iff (h : m.Realizes triangles)
    {segment : VertexId × VertexId} :
    (∃ e, m.segmentEdge segment = .ok e) ↔ Adjacent triangles segment := by
  unfold Adjacent segmentEdge
  rw [← h.findEdge_isSome_iff]
  cases m.findEdge segment.1 segment.2 <;> simp

theorem Realizes.segmentEdge_eq_error_iff (h : m.Realizes triangles)
    {segment : VertexId × VertexId} {error : Error} : m.segmentEdge segment = .error error ↔
      ¬ Adjacent triangles segment ∧
        error = .missingConstraintEdge segment.1.index segment.2.index := by
  rw [← h.exists_segmentEdge_iff]
  unfold segmentEdge
  cases m.findEdge segment.1 segment.2 <;> simp [eq_comm]

/-- The checks of a chain succeed if nothing is wrong with it. -/
theorem Realizes.exists_chainEdges_iff (h : m.Realizes triangles) :
    (∃ edges, m.chainEdges chain = .ok edges) ↔ m.Registrable triangles chain := by
  simp only [chainEdges_eq_ok_iff, ← mapM_eq_ok_iff, exists_and_left, exists_mapM_eq_ok_iff,
    h.exists_segmentEdge_iff]
  exact ⟨fun ⟨hlong, hin, hadjacent⟩ => ⟨hlong, hin, hadjacent⟩,
    fun hregistrable => ⟨hregistrable.1, hregistrable.2, hregistrable.3⟩⟩

/-- The checks of a chain fail on its length, else on its first vertex that the mesh does not have,
else on a segment. -/
theorem chainEdges_eq_error_iff {error : Error} : m.chainEdges chain = .error error ↔
    (chain.vertices.length < chain.required ∧
      error = .constraintTooShort chain.required chain.vertices.length) ∨
    chain.required ≤ chain.vertices.length ∧
      ((∃ before v, IsFirst (fun _ w => m.numVertices ≤ w.index) chain.vertices before v ∧
        error = .notAVertex (toString v.index)) ∨
      (∀ v ∈ chain.vertices, v.index < m.numVertices) ∧
        chain.segments.mapM m.segmentEdge = .error error) := by
  have hforeign : ∀ v, (chain.vertices.find? fun w => m.numVertices ≤ w.index) = some v ↔
      ∃ before, IsFirst (fun _ w => m.numVertices ≤ w.index) chain.vertices before v := by
    simp [find?_eq_some_iff_isFirst]
  have hin : (∀ v ∈ chain.vertices, v.index < m.numVertices) ↔
      (chain.vertices.find? fun w => m.numVertices ≤ w.index) = none := by
    simp
  rw [exists_comm, hin]
  simp only [exists_and_right, ← hforeign]
  unfold chainEdges
  by_cases hshort : chain.vertices.length < chain.required
  · simp [hshort, Nat.not_le.2 hshort, throw, throwThe, MonadExceptOf.throw, bind, Except.bind,
      eq_comm]
  · cases chain.vertices.find? fun w => m.numVertices ≤ w.index with
    | some v =>
        simp [hshort, Nat.not_lt.1 hshort, throw, throwThe, MonadExceptOf.throw, bind, Except.bind,
          eq_comm]
    | none => simp [hshort, Nat.not_lt.1 hshort]

/-- They report the first thing that is wrong. -/
theorem Realizes.chainEdges_eq_error_iff (h : m.Realizes triangles) {error : Error} :
    m.chainEdges chain = .error error ↔ m.Refuses triangles chain error := by
  rw [Mesh.chainEdges_eq_error_iff]
  simp only [mapM_eq_error_iff, h.exists_segmentEdge_iff, h.segmentEdge_eq_error_iff]
  constructor
  · rintro (⟨hshort, rfl⟩ | ⟨hlong, ⟨_, _, hfirst, rfl⟩ | ⟨hin, _, _, hfirst, _, rfl⟩⟩)
    · exact .tooShort hshort
    · exact .notAVertex hlong hfirst
    · exact .missingEdge hlong hin hfirst
  · intro hrefuses
    cases hrefuses with
    | tooShort hshort => exact .inl ⟨hshort, rfl⟩
    | notAVertex hlong hfirst => exact .inr ⟨hlong, .inl ⟨_, _, hfirst, rfl⟩⟩
    | missingEdge hlong hin hfirst =>
        exact .inr ⟨hlong, .inr ⟨hin, _, _, hfirst, hfirst.wrong, rfl⟩⟩

/-! ## What a registration makes of the mesh -/

/-- A registration of a chain that adds to the mesh what it has to and nothing else. The pair of an
edge is all that the mesh knows of it: its ends and neighbours in both directions, whether it is in
use, and its flags. -/
structure Registers (m : Mesh) (chain : Chain) (r : Registration) : Prop where
  id_eq : r.id = ⟨m.chains.size⟩
  /-- Of the chain that was given, only the vertices and the kind are kept. -/
  chain_eq : r.chain = { chain with
    id? := some r.id
    linkingEdge? := r.chain.edges.head?
    edges := r.chain.edges }
  runs : List.Forall₂ m.RunsAlong r.chain.edges chain.segments
  chains_eq : r.mesh.chains = m.chains.push r.chain
  vertices_eq : r.mesh.vertices = m.vertices
  numTriangles_eq : r.mesh.numTriangles = m.numTriangles
  free_eq : r.mesh.pool.free = m.pool.free
  pair?_on : ∀ e, m.LiesOn e chain →
    r.mesh.pool.pair? e = (m.pool.pair? e).map (·.constrain chain.closed)
  pair?_off : ∀ e, ¬ m.LiesOn e chain → r.mesh.pool.pair? e = m.pool.pair? e

theorem Realizes.registers_store (h : m.Realizes triangles) {edges : List EdgeId}
    (hedges : m.chainEdges chain = .ok edges) : m.Registers chain (m.store chain edges) := by
  have hflags := EdgePool.pair?_constrain m.pool edges chain.closed
  constructor
  case id_eq | chain_eq | chains_eq | vertices_eq | numTriangles_eq => rfl
  case runs => exact (runsAlong_of_chainEdges hedges).1
  case free_eq => exact m.pool.free_constrain edges chain.closed
  case pair?_on =>
    intro e hlies
    refine (hflags e).trans ?_
    rw [(h.any_slot_iff hedges).2 hlies]
    simp only [Bool.or_true, Bool.and_true]
    rfl
  case pair?_off =>
    intro e hlies
    refine (hflags e).trans ?_
    rw [Bool.eq_false_iff.2 (mt (h.any_slot_iff hedges).1 hlies)]
    simp

/-- There is one such registration, as one edge runs along each segment. -/
theorem Realizes.registers_unique (h : m.Realizes triangles) {r r' : Registration}
    (hr : m.Registers chain r) (hr' : m.Registers chain r') : r = r' := by
  have hunique : Relator.LeftUnique m.RunsAlong := fun _ _ _ hd he => h.runsAlong_unique hd he
  have hedges : r.chain.edges = r'.chain.edges := List.left_unique_forall₂' hunique hr.runs hr'.runs
  have hid : r.id = r'.id := hr.id_eq.trans hr'.id_eq.symm
  have hchain : r.chain = r'.chain := by rw [hr.chain_eq, hr'.chain_eq, hedges, hid]
  have hvertices : r.mesh.vertices = r'.mesh.vertices := hr.vertices_eq.trans hr'.vertices_eq.symm
  have hpool : r.mesh.pool = r'.mesh.pool := by
    refine EdgePool.ext_pair? (fun e => ?_) (hr.free_eq.trans hr'.free_eq.symm)
    by_cases hlies : m.LiesOn e chain
    · rw [hr.pair?_on e hlies, hr'.pair?_on e hlies]
    · rw [hr.pair?_off e hlies, hr'.pair?_off e hlies]
  have hchains : r.mesh.chains = r'.mesh.chains := by rw [hr.chains_eq, hr'.chains_eq, hchain]
  have hcount : r.mesh.numTriangles = r'.mesh.numTriangles :=
    hr.numTriangles_eq.trans hr'.numTriangles_eq.symm
  obtain ⟨id, stored, vertices, pool, chains, count⟩ := r
  obtain ⟨id', stored', vertices', pool', chains', count'⟩ := r'
  obtain rfl : id = id' := hid
  obtain rfl : stored = stored' := hchain
  obtain rfl : vertices = vertices' := hvertices
  obtain rfl : pool = pool' := hpool
  obtain rfl : chains = chains' := hchains
  obtain rfl : count = count' := hcount
  rfl

theorem Realizes.register_eq_ok_iff (h : m.Realizes triangles) {r : Registration} :
    m.register chain = .ok r ↔ m.Registrable triangles chain ∧ m.Registers chain r := by
  rw [Mesh.register_eq_ok_iff, ← h.exists_chainEdges_iff]
  constructor
  · rintro ⟨edges, hedges, rfl⟩
    exact ⟨⟨edges, hedges⟩, h.registers_store hedges⟩
  · rintro ⟨⟨edges, hedges⟩, hregisters⟩
    exact ⟨edges, hedges, h.registers_unique hregisters (h.registers_store hedges)⟩

theorem register_eq_error_iff {error : Error} :
    m.register chain = .error error ↔ m.chainEdges chain = .error error := by
  unfold register
  cases m.chainEdges chain <;> simp [Functor.map, Except.map]

theorem edit_of_register {r : Registration} (h : m.register chain = .ok r) :
    m.edit (.addConstraint chain) = r.mesh := by
  simp only [Mesh.edit, h]

/-- A mesh that can come about was made from some triangles. It registers a chain if these and its
vertices allow it, and then changes by what the chain adds; otherwise it names the first thing that
is wrong and stays as it was. -/
theorem Reachable.registration_exact (h : m.Reachable) :
    (∃ triangles, m.MadeFrom triangles) ∧ ∀ triangles, m.MadeFrom triangles → ∀ chain : Chain,
      ((∃ r, m.register chain = .ok r) ↔ m.Registrable triangles chain) ∧
      (∀ r, m.register chain = .ok r ↔ m.Registrable triangles chain ∧ m.Registers chain r) ∧
      (∀ r, m.register chain = .ok r → m.edit (.addConstraint chain) = r.mesh) ∧
      ∀ error, (m.register chain = .error error ↔ m.Refuses triangles chain error) ∧
        (m.register chain = .error error → m.edit (.addConstraint chain) = m) := by
  refine ⟨reachable_iff_exists_madeFrom.1 h, fun triangles hmade chain => ?_⟩
  have hrealizes := hmade.realizes
  refine ⟨?_, fun r => hrealizes.register_eq_ok_iff, fun r => edit_of_register,
    fun error => ⟨?_, fun herror => edit_of_error (register_eq_error_iff.1 herror)⟩⟩
  · rw [← hrealizes.exists_chainEdges_iff]
    simp only [Mesh.register_eq_ok_iff]
    exact ⟨fun ⟨_, edges, hedges, _⟩ => ⟨edges, hedges⟩,
      fun ⟨edges, hedges⟩ => ⟨_, edges, hedges, rfl⟩⟩
  · rw [register_eq_error_iff, hrealizes.chainEdges_eq_error_iff]

/-- The ring of the square is registered once more, with the id and the edges that it has; a line
that goes on along the missing diagonal is refused there. -/
theorem constrainedSquare_registration_exact :
    let m := constrainedSquare
    let again : Chain := ⟨[⟨0⟩, ⟨1⟩, ⟨2⟩], true, some ⟨0⟩, some ⟨2⟩, [⟨2⟩, ⟨4⟩, ⟨6⟩]⟩
    let across : Chain := .line [⟨0⟩, ⟨2⟩, ⟨3⟩, ⟨1⟩]
    m.Reachable ∧ m.MadeFrom squareTriangles ∧ m.chain? ⟨0⟩ = some again ∧
      (∃ r, m.register again = .ok r ∧ m.Registers again r ∧ r.id = ⟨2⟩) ∧
      m.register across = .error (.missingConstraintEdge 3 1) ∧
      m.Refuses squareTriangles across (.missingConstraintEdge 3 1) ∧
      m.edit (.addConstraint across) = m := by
  intro m again across
  have hmade : m.MadeFrom squareTriangles := (MadeFrom.build build_square).editAll _
  obtain ⟨_, hexact⟩ := reachable_constrainedSquare.registration_exact
  obtain ⟨-, hok, -, -⟩ := hexact squareTriangles hmade again
  obtain ⟨-, -, -, herror⟩ := hexact squareTriangles hmade across
  have hagain : m.register again = .ok (m.store again [⟨2⟩, ⟨4⟩, ⟨6⟩]) := by decide +kernel
  have hacross : m.register across = .error (.missingConstraintEdge 3 1) := by decide +kernel
  have hregisters := ((hok _).1 hagain).2
  exact ⟨reachable_constrainedSquare, hmade, by decide +kernel,
    ⟨_, hagain, hregisters, hregisters.id_eq⟩, hacross, (herror _).1.1 hacross,
    (herror _).2 hacross⟩

end Mesh

end TinFaces
