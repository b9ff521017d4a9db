import TinFaces.Proofs.Regions

/-!
# The order of registrations

A chain is accepted for what the mesh is, not for what was registered before: the search
for an edge looks at the slots in use and at where their sides start, and a registration
changes neither (`Mesh.chainEdges_edit`). And the flags of an accepted chain are added to
those that are there, so two registrations can change places (`Mesh.edit_comm`).

Hence chains that are registered in another order get the same answers, and leave a mesh
that differs in the ids of its chains and in nothing else
(`Mesh.Reachable.registrations_commute`).
-/

namespace TinFaces

namespace Mesh

/-! ## Meshes that differ in their registries -/

/-- Meshes with the same vertices, edges and flags. Which chains they have registered, and
in which order, is left open. -/
structure SameSurface (m m' : Mesh) : Prop where
  vertices_eq : m.vertices = m'.vertices
  pool_eq : m.pool = m'.pool
  numTriangles_eq : m.numTriangles = m'.numTriangles

variable {m m' m'' : Mesh}

theorem sameSurface_refl (m : Mesh) : m.SameSurface m := ⟨rfl, rfl, rfl⟩

theorem SameSurface.trans (h : m.SameSurface m') (h' : m'.SameSurface m'') :
    m.SameSurface m'' where
  vertices_eq := h.vertices_eq.trans h'.vertices_eq
  pool_eq := h.pool_eq.trans h'.pool_eq
  numTriangles_eq := h.numTriangles_eq.trans h'.numTriangles_eq

/-- A traversal cannot tell them apart. -/
theorem SameSurface.surface_eq (h : m.SameSurface m') : m.surface = m'.surface := by
  obtain ⟨vertices, pool, chains, numTriangles⟩ := m
  obtain ⟨rfl, rfl, rfl⟩ := h
  rfl

/-- They accept the same chains. -/
theorem SameSurface.chainEdges_eq (h : m.SameSurface m') (chain : Chain) :
    m.chainEdges chain = m'.chainEdges chain := by
  obtain ⟨vertices, pool, chains, numTriangles⟩ := m
  obtain ⟨rfl, rfl, rfl⟩ := h
  rfl

theorem SameSurface.store (h : m.SameSurface m') (chain : Chain) (edges : List EdgeId) :
    (m.store chain edges).mesh.SameSurface (m'.store chain edges).mesh where
  vertices_eq := h.vertices_eq
  pool_eq := congrArg (·.constrain edges chain.closed) h.pool_eq
  numTriangles_eq := h.numTriangles_eq

/-- The same edit leaves them the same. -/
theorem SameSurface.edit (h : m.SameSurface m') (change : Edit) :
    (m.edit change).SameSurface (m'.edit change) := by
  cases change with
  | addVertex p => exact ⟨congrArg (·.push p) h.vertices_eq, h.pool_eq, h.numTriangles_eq⟩
  | addConstraint chain =>
      have hsame := h.chainEdges_eq chain
      cases hedges : m.chainEdges chain with
      | error error =>
          rw [edit_of_error hedges, edit_of_error (hsame.symm.trans hedges)]
          exact h
      | ok edges =>
          rw [edit_of_ok hedges, edit_of_ok (hsame.symm.trans hedges)]
          exact h.store chain edges

theorem SameSurface.editAll (h : m.SameSurface m') (edits : List Edit) :
    (m.editAll edits).SameSurface (m'.editAll edits) := by
  induction edits generalizing m m' with
  | nil => exact h
  | cons change rest ih => exact ih (h.edit change)

/-! ## One registration and another -/

/-- Flags make no difference to the search for an edge. -/
theorem findEdge_store (m : Mesh) (chain : Chain) (edges : List EdgeId) (a b : VertexId) :
    (m.store chain edges).mesh.findEdge a b = m.findEdge a b := by
  show (m.pool.constrain edges chain.closed).baseEdges.findSome? _ = _
  rw [(m.pool.baseEdges_constrain edges chain.closed).1]
  unfold Mesh.findEdge
  congr 1
  funext e
  show ((m.pool.constrain edges chain.closed).pair? e >>= _) = _
  rw [EdgePool.pair?_constrain]
  cases m.pool.pair? e <;> rfl

/-- Whether a chain is accepted, and along which edges, does not depend on the chains that
were registered before. -/
theorem chainEdges_edit (m : Mesh) (chain other : Chain) :
    (m.edit (.addConstraint other)).chainEdges chain = m.chainEdges chain := by
  rcases m.edit_addConstraint other with hsame | ⟨edges, _, hstored⟩
  · rw [hsame]
  · have hsegment : (m.store other edges).mesh.segmentEdge = m.segmentEdge := by
      funext segment
      unfold Mesh.segmentEdge
      rw [findEdge_store]
    rw [hstored]
    unfold Mesh.chainEdges
    rw [hsegment]
    rfl

/-- Two registrations can change places. -/
theorem edit_comm (m : Mesh) (a b : Chain) :
    ((m.edit (.addConstraint a)).edit (.addConstraint b)).SameSurface
      ((m.edit (.addConstraint b)).edit (.addConstraint a)) := by
  have hb := m.chainEdges_edit b a
  have ha := m.chainEdges_edit a b
  cases hedges : m.chainEdges a with
  | error error =>
      rw [edit_of_error (ha.trans hedges), edit_of_error hedges]
      exact sameSurface_refl _
  | ok es =>
      rw [edit_of_ok (ha.trans hedges)]
      cases hedges' : m.chainEdges b with
      | error error =>
          rw [edit_of_error (hb.trans hedges'), edit_of_error hedges', edit_of_ok hedges]
          exact sameSurface_refl _
      | ok es' =>
          rw [edit_of_ok (hb.trans hedges'), edit_of_ok hedges, edit_of_ok hedges']
          exact ⟨rfl, m.pool.constrain_comm es es' a.closed b.closed, rfl⟩

/-! ## Runs of registrations -/

/-- The mesh after registering some chains in turn. -/
def registerAll (m : Mesh) (chains : List Chain) : Mesh := m.editAll (chains.map .addConstraint)

/-- What the mesh answers to each of some chains that are registered in turn. -/
def registerEach (m : Mesh) : List Chain → List (Except Error Registration)
  | [] => []
  | chain :: rest => m.register chain :: (m.edit (.addConstraint chain)).registerEach rest

theorem registerAll_cons (m : Mesh) (chain : Chain) (rest : List Chain) :
    m.registerAll (chain :: rest) = (m.edit (.addConstraint chain)).registerAll rest := rfl

theorem SameSurface.registerAll (h : m.SameSurface m') (chains : List Chain) :
    (m.registerAll chains).SameSurface (m'.registerAll chains) :=
  h.editAll _

/-- In whatever order chains are registered, the surface that is left is the same. -/
theorem registerAll_perm (m : Mesh) {chains chains' : List Chain} (h : chains.Perm chains') :
    (m.registerAll chains).SameSurface (m.registerAll chains') := by
  induction h generalizing m with
  | nil => exact sameSurface_refl m
  | cons chain _ ih => exact ih (m.edit (.addConstraint chain))
  | swap a b rest =>
      simp only [registerAll_cons]
      exact (m.edit_comm b a).registerAll rest
  | trans _ _ ih ih' => exact (ih m).trans (ih' m)

/-- A registered chain stays registered, under its id. -/
theorem chain?_edit {id : ConstraintId} {chain : Chain} (h : m.chain? id = some chain)
    (change : Edit) : (m.edit change).chain? id = some chain := by
  cases change with
  | addVertex p => exact h
  | addConstraint other =>
      rcases m.edit_addConstraint other with hsame | ⟨edges, _, hstored⟩
      · rw [hsame]
        exact h
      · have hlt : id.index < m.chains.size := (Array.getElem?_eq_some_iff.1 h).1
        rw [hstored]
        show (m.chains.push _)[id.index]? = some chain
        rw [Array.getElem?_push_lt hlt]
        exact (Array.getElem?_eq_getElem hlt).symm.trans h

theorem chain?_editAll {id : ConstraintId} {chain : Chain} (h : m.chain? id = some chain)
    (edits : List Edit) : (m.editAll edits).chain? id = some chain := by
  induction edits generalizing m with
  | nil => exact h
  | cons change rest ih => exact ih (chain?_edit h change)

theorem chain?_store (m : Mesh) (chain : Chain) (edges : List EdgeId) :
    (m.store chain edges).mesh.chain? (m.store chain edges).id =
      some (m.store chain edges).chain := by
  show (m.chains.push _)[m.chains.size]? = some _
  rw [Array.getElem?_push_size]
  rfl

/-- The answer to a chain in a run: the refusal that the mesh had for it before the run, or
a registration that is still there at the end of the run, with the edges that the mesh had
for it. -/
theorem registerEach_spec (m : Mesh) {chains : List Chain} {i : Nat} {chain : Chain}
    (h : chains[i]? = some chain) : ∃ answer, (m.registerEach chains)[i]? = some answer ∧
      match m.chainEdges chain with
      | .error error => answer = .error error
      | .ok edges => ∃ r, answer = .ok r ∧ (m.registerAll chains).chain? r.id = some r.chain ∧
          r.chain = { chain with id? := some r.id, linkingEdge? := edges.head?, edges } := by
  induction chains generalizing m i with
  | nil => cases h
  | cons first rest ih =>
      cases i with
      | zero =>
          obtain rfl : first = chain := Option.some.inj h
          refine ⟨m.register first, rfl, ?_⟩
          cases hedges : m.chainEdges first with
          | error error =>
              show m.store first <$> m.chainEdges first = .error error
              rw [hedges]
              rfl
          | ok edges =>
              refine ⟨m.store first edges, ?_, ?_, rfl⟩
              · show m.store first <$> m.chainEdges first = _
                rw [hedges]
                rfl
              · rw [registerAll_cons, edit_of_ok hedges]
                exact chain?_editAll (m.chain?_store first edges) _
      | succ i =>
          have hrest := ih (m.edit (.addConstraint first)) h
          rw [chainEdges_edit] at hrest
          exact hrest

/-! ## The answers in two orders -/

/-- A chain that was registered in each of two meshes, with the same edges and the same
linking edge. Its walk is the same in both, and if the chain is closed it ends. -/
structure StoredAlike (m m' : Mesh) (r r' : Registration) : Prop where
  chain_eq : { r.chain with id? := none } = { r'.chain with id? := none }
  registered : m.chain? r.id = some r.chain
  registered' : m'.chain? r'.id = some r'.chain
  walk_eq : ∀ options,
    (m.constraintOf r.chain).walk options = (m'.constraintOf r'.chain).walk options
  walk_ends : ∀ options : WalkOptions, r.chain.closed = true →
    m.pool.maxIndex + 1 + options.markSlack ≤ maxCount →
    options.stackCapacity * wordBytes ≤ maxBytes →
      ∃ summary, ((m.constraintOf r.chain).walk options).result = .ok summary

/-- Answers to one chain in two runs of registrations, which have come to the meshes `m`
and `m'`: the chain was refused for the same reason, or stored alike. -/
inductive SameAnswer (m m' : Mesh) :
    Except Error Registration → Except Error Registration → Prop
  | refused (error : Error) : SameAnswer m m' (.error error) (.error error)
  | stored {r r' : Registration} (h : StoredAlike m m' r r') : SameAnswer m m' (.ok r) (.ok r')

/-- Chains that are registered in two orders get the same answers, wherever they stand, and
the two meshes are the same but for the ids of the chains. -/
theorem Reachable.registrations_commute (h : m.Reachable) {chains chains' : List Chain}
    (hperm : chains.Perm chains') :
    (m.registerAll chains).SameSurface (m.registerAll chains') ∧
      ∀ (i j : Nat) (chain : Chain), chains[i]? = some chain → chains'[j]? = some chain →
        ∃ answer answer', (m.registerEach chains)[i]? = some answer ∧
          (m.registerEach chains')[j]? = some answer' ∧
          SameAnswer (m.registerAll chains) (m.registerAll chains') answer answer' := by
  have hsurface := m.registerAll_perm hperm
  refine ⟨hsurface, fun i j chain hi hj => ?_⟩
  obtain ⟨answer, hanswer, hspec⟩ := m.registerEach_spec hi
  obtain ⟨answer', hanswer', hspec'⟩ := m.registerEach_spec hj
  refine ⟨answer, answer', hanswer, hanswer', ?_⟩
  cases hedges : m.chainEdges chain with
  | error error =>
      rw [hedges] at hspec hspec'
      rw [hspec, hspec']
      exact .refused error
  | ok edges =>
      rw [hedges] at hspec hspec'
      obtain ⟨r, rfl, hregistered, hchain⟩ := hspec
      obtain ⟨r', rfl, hregistered', hchain'⟩ := hspec'
      refine .stored ⟨?_, hregistered, hregistered', fun options => ?_, fun options hclosed => ?_⟩
      · rw [hchain, hchain']
      · unfold constraintOf
        rw [hsurface.surface_eq, hchain, hchain']
      · intro hroom hstack
        have hreachable : (m.registerAll chains).Reachable := h.editAll _
        obtain ⟨triangles, hrealizes⟩ := hreachable.exists_realizes
        obtain ⟨_, _, _, _, hwalks⟩ := hrealizes.walk_represents hreachable.registered
          hregistered hclosed hroom hstack
        exact ⟨_, hwalks.result_eq⟩

/-- On the square a ring and a line share the diagonal, in opposite directions. The line
along the other diagonal is refused, whether it comes between them or not. -/
theorem square_registrations_commute :
    let chains : List Chain :=
      [.ring [⟨0⟩, ⟨1⟩, ⟨2⟩], .line [⟨3⟩, ⟨1⟩], .line [⟨0⟩, ⟨2⟩, ⟨3⟩]]
    let chains' : List Chain :=
      [.line [⟨0⟩, ⟨2⟩, ⟨3⟩], .ring [⟨0⟩, ⟨1⟩, ⟨2⟩], .line [⟨3⟩, ⟨1⟩]]
    squareMesh.Reachable ∧ chains.Perm chains' ∧
      squareMesh.chainEdges (.line [⟨3⟩, ⟨1⟩]) = .error (.missingConstraintEdge 3 1) ∧
      (squareMesh.registerAll chains).SameSurface (squareMesh.registerAll chains') ∧
      ∀ (i j : Nat) (chain : Chain), chains[i]? = some chain → chains'[j]? = some chain →
        ∃ answer answer', (squareMesh.registerEach chains)[i]? = some answer ∧
          (squareMesh.registerEach chains')[j]? = some answer' ∧
          SameAnswer (squareMesh.registerAll chains) (squareMesh.registerAll chains')
            answer answer' := by
  intro chains chains'
  have hreachable : squareMesh.Reachable := .build build_square
  have hperm : chains.Perm chains' := by decide
  have hrefused : squareMesh.chainEdges (.line [⟨3⟩, ⟨1⟩]) =
      .error (.missingConstraintEdge 3 1) := by decide +kernel
  exact ⟨hreachable, hperm, hrefused, hreachable.registrations_commute hperm⟩

end Mesh

end TinFaces
