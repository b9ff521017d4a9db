import TinFaces.Proofs.ClosedSurface
import TinFaces.Proofs.PoolOps

/-!
# The invariant of an assembly

While faces are attached, a mesh is only half linked: the sides of a face get
their edges one after the other, and a side whose reverse has not come up yet
has a dual that belongs to no face. What is true all the time is said in two
parts:

* `Sound` ties the side table to the pool: an entry's edge is live and runs
  along its side, opposite sides have the two directions of one pair, and every
  slot beyond the reserved ones belongs to an entry. One side more keeps it
  (`Sound.connectSide`);
* `Linked` says that the three sides of a finished face point to each other.

`Holds` joins both for a list of faces. Connecting a face whose sides are all new
adds it to the list (`Holds.connect`), so connecting a list of faces adds the
list (`Holds.foldl_connect`).
-/

namespace TinFaces

namespace Assembly

/-- The directed sides that bound a face already, the latest first. -/
def keys (s : Assembly) : List Side := s.sides.map Prod.fst

theorem isTaken_iff {s : Assembly} {side : Side} : s.isTaken side = true ↔ side ∈ s.keys := by
  unfold isTaken edge? keys
  rw [List.lookup_isSome_iff, List.mem_map]
  constructor
  · intro htaken
    obtain ⟨entry, hentry, hkey⟩ := htaken
    exact ⟨entry, hentry, (beq_iff_eq.1 hkey).symm⟩
  · intro hmem
    obtain ⟨entry, hentry, rfl⟩ := hmem
    exact ⟨entry, hentry, beq_self_eq_true _⟩

theorem mem_keys_iff {s : Assembly} {side : Side} :
    side ∈ s.keys ↔ ∃ e, (side, e) ∈ s.sides := by
  simp [keys]

theorem edge?_eq_none_iff {s : Assembly} {side : Side} :
    s.edge? side = none ↔ side ∉ s.keys := by
  rw [← isTaken_iff, isTaken, Option.not_isSome_iff_eq_none]

theorem mem_of_edge?_eq_some {s : Assembly} {side : Side} {e : EdgeId}
    (h : s.edge? side = some e) : (side, e) ∈ s.sides := by
  obtain ⟨l₁, l₂, hsplit, _⟩ := List.lookup_eq_some_iff.1 h
  rw [hsplit]
  exact List.mem_append_right _ List.mem_cons_self

/-- A side has one entry. -/
theorem edge_unique {s : Assembly} (h : s.keys.Nodup) {side : Side} {e e' : EdgeId}
    (he : (side, e) ∈ s.sides) (he' : (side, e') ∈ s.sides) : e = e' :=
  congrArg Prod.snd (List.inj_on_of_nodup_map h he he' rfl)

theorem edge?_eq_some_iff {s : Assembly} (h : s.keys.Nodup) {side : Side} {e : EdgeId} :
    s.edge? side = some e ↔ (side, e) ∈ s.sides := by
  constructor
  · exact mem_of_edge?_eq_some
  · intro he
    cases hlookup : s.edge? side with
    | none => exact absurd (mem_keys_iff.2 ⟨e, he⟩) (edge?_eq_none_iff.1 hlookup)
    | some e' => rw [edge_unique h he (mem_of_edge?_eq_some hlookup)]

/-! ## The side table and the pool -/

/-- The side table and the pool agree, the pool having begun with some reserved
slots that no side uses. -/
structure Sound (reserved : Nat) (s : Assembly) : Prop where
  /-- There is no slot to recycle. -/
  free_eq : s.pool.free = []
  reserved_le : reserved ≤ s.pool.pairs.size
  nodup : s.keys.Nodup
  slot_ge : ∀ side e, (side, e) ∈ s.sides → reserved ≤ e.slot
  live : ∀ side e, (side, e) ∈ s.sides → s.pool.isLive e.slot = true
  origins : ∀ side e, (side, e) ∈ s.sides →
    (s.pool.side? e).map EdgeSide.origin = some side.1 ∧
      (s.pool.side? e.dual).map EdgeSide.origin = some side.2
  /-- Opposite sides share a pair. -/
  twin : ∀ side e e', (side, e) ∈ s.sides → (side.swap, e') ∈ s.sides → e' = e.dual
  used : ∀ slot, reserved ≤ slot → slot < s.pool.pairs.size →
    ∃ side e, (side, e) ∈ s.sides ∧ e.slot = slot

/-- An edge runs along one side. -/
theorem Sound.side_unique {reserved : Nat} {s : Assembly} (h : s.Sound reserved) {a b : Side}
    {e : EdgeId} (ha : (a, e) ∈ s.sides) (hb : (b, e) ∈ s.sides) : a = b := by
  obtain ⟨ha₁, ha₂⟩ := h.origins a e ha
  obtain ⟨hb₁, hb₂⟩ := h.origins b e hb
  exact Prod.ext (Option.some.inj (ha₁.symm.trans hb₁)) (Option.some.inj (ha₂.symm.trans hb₂))

theorem Sound.slot_lt {reserved : Nat} {s : Assembly} (h : s.Sound reserved) {side : Side}
    {e : EdgeId} (he : (side, e) ∈ s.sides) : e.slot < s.pool.pairs.size :=
  EdgePool.lt_size_of_isLive (h.live side e he)

/-- A pool of reserved pairs alone. -/
theorem sound_reserved {pool : EdgePool} (hfree : pool.free = []) :
    Sound pool.pairs.size { pool } where
  free_eq := hfree
  reserved_le := Nat.le_refl _
  nodup := List.nodup_nil
  slot_ge _ _ he := absurd he List.not_mem_nil
  live _ _ he := absurd he List.not_mem_nil
  origins _ _ he := absurd he List.not_mem_nil
  twin _ _ _ he := absurd he List.not_mem_nil
  used _ hge hlt := absurd hlt (Nat.not_lt.2 hge)

/-- What connecting a side to an edge does to an assembly: it adds the entry and
keeps what the pool had stored. -/
structure Connects (s : Assembly) (side : Side) (e : EdgeId) (s' : Assembly) : Prop where
  sides_eq : s'.sides = (side, e) :: s.sides
  stored : ∀ x : EdgeId, x.slot < s.pool.pairs.size → s'.pool.side? x = s.pool.side? x

/-- One entry more keeps the agreement, if its edge is live, runs along its side,
belongs to the pair of the reverse side and is all that is new in the pool. -/
theorem Sound.extend {reserved : Nat} {s s' : Assembly} {side : Side} {e : EdgeId}
    (h : s.Sound reserved) (hconnects : s.Connects side e s') (hnew : side ∉ s.keys)
    (hne : side.1 ≠ side.2) (hfree : s'.pool.free = [])
    (hlive : ∀ slot, s'.pool.isLive slot = true ↔ slot = e.slot ∨ s.pool.isLive slot = true)
    (hsize : ∀ slot, slot < s'.pool.pairs.size → slot = e.slot ∨ slot < s.pool.pairs.size)
    (hslot : reserved ≤ e.slot)
    (horigins : (s'.pool.side? e).map EdgeSide.origin = some side.1 ∧
      (s'.pool.side? e.dual).map EdgeSide.origin = some side.2)
    (htwin : ∀ e', (side.swap, e') ∈ s.sides → e = e'.dual) : s'.Sound reserved := by
  have hself : side.swap ≠ side := fun hswap => hne (congrArg Prod.snd hswap)
  have hlt : e.slot < s'.pool.pairs.size :=
    EdgePool.lt_size_of_isLive ((hlive _).2 (.inl rfl))
  obtain ⟨hsides, hstored⟩ := hconnects
  -- an entry is the new one or an old one
  have hsplit : ∀ {x : Side} {d : EdgeId}, (x, d) ∈ s'.sides →
      x = side ∧ d = e ∨ (x, d) ∈ s.sides := by
    intro x d hd
    rw [hsides] at hd
    rcases List.mem_cons.1 hd with heq | hd
    · exact .inl (Prod.mk.inj heq)
    · exact .inr hd
  refine ⟨hfree, by omega, ?_, ?_, ?_, ?_, ?_, ?_⟩
  · rw [keys, hsides]
    exact List.nodup_cons.2 ⟨hnew, h.nodup⟩
  · intro x d hd
    rcases hsplit hd with ⟨_, rfl⟩ | hd
    · exact hslot
    · exact h.slot_ge x d hd
  · intro x d hd
    rcases hsplit hd with ⟨_, rfl⟩ | hd
    · exact (hlive _).2 (.inl rfl)
    · exact (hlive _).2 (.inr (h.live x d hd))
  · intro x d hd
    rcases hsplit hd with ⟨rfl, rfl⟩ | hd
    · exact horigins
    · have hold : d.dual.slot < s.pool.pairs.size := by
        rw [EdgeId.slot_dual]
        exact h.slot_lt hd
      rw [hstored d (h.slot_lt hd), hstored d.dual hold]
      exact h.origins x d hd
  · intro x d d' hd hd'
    rcases hsplit hd with ⟨rfl, rfl⟩ | hd <;> rcases hsplit hd' with ⟨hx, rfl⟩ | hd'
    · -- both entries are the new one, which would be its own reverse
      exact absurd hx hself
    · rw [htwin d' hd', EdgeId.dual_dual]
    · rw [← hx, Prod.swap_swap] at htwin
      exact htwin d hd
    · exact h.twin x d d' hd hd'
  · intro slot hge hslotlt
    rw [hsides]
    rcases hsize slot hslotlt with rfl | hold
    · exact ⟨side, e, List.mem_cons_self, rfl⟩
    · obtain ⟨x, d, hd, hdslot⟩ := h.used slot hge hold
      exact ⟨x, d, List.mem_cons_of_mem _ hd, hdslot⟩

/-- A side whose reverse has an edge may take the dual of that edge. -/
theorem Sound.connect_twin {reserved : Nat} {s : Assembly} (h : s.Sound reserved) {side : Side}
    (hnew : side ∉ s.keys) (hne : side.1 ≠ side.2) {twin : EdgeId}
    (htwin : (side.swap, twin) ∈ s.sides) :
    Sound reserved { s with sides := (side, twin.dual) :: s.sides } ∧
      s.Connects side twin.dual { s with sides := (side, twin.dual) :: s.sides } := by
  have hconnects : s.Connects side twin.dual { s with sides := (side, twin.dual) :: s.sides } :=
    ⟨rfl, fun _ _ => rfl⟩
  have hlive : s.pool.isLive twin.dual.slot = true := by
    rw [EdgeId.slot_dual]
    exact h.live _ _ htwin
  refine ⟨h.extend hconnects hnew hne h.free_eq ?_ (fun _ hlt => .inr hlt) ?_ ?_ ?_, hconnects⟩
  · intro slot
    constructor
    · exact fun hslot => .inr hslot
    · intro hslot
      rcases hslot with rfl | hslot
      · exact hlive
      · exact hslot
  · rw [EdgeId.slot_dual]
    exact h.slot_ge _ _ htwin
  · rw [EdgeId.dual_dual]
    exact (h.origins _ _ htwin).symm
  · intro e' he'
    rw [edge_unique h.nodup he' htwin]

/-- A side whose reverse has no edge may take the base side of a new pair. -/
theorem Sound.connect_new {reserved : Nat} {s : Assembly} (h : s.Sound reserved) {side : Side}
    (hnew : side ∉ s.keys) (hne : side.1 ≠ side.2) (hreverse : side.swap ∉ s.keys)
    {e : EdgeId} {pool : EdgePool} (hallocate : s.pool.allocate side.1 side.2 = (e, pool)) :
    Sound reserved { pool, sides := (side, e) :: s.sides } ∧
      s.Connects side e { pool, sides := (side, e) :: s.sides } := by
  obtain ⟨hbase, hdual⟩ := EdgePool.side?_allocate h.free_eq side.1 side.2
  have hold := fun x hx => @EdgePool.side?_allocate_of_lt _ h.free_eq side.1 side.2 x hx
  have hused := EdgePool.isLive_allocate h.free_eq side.1 side.2
  simp only [hallocate] at hbase hdual hold hused
  obtain ⟨rfl, rfl⟩ := Prod.mk.inj ((EdgePool.allocate_eq h.free_eq _ _).symm.trans hallocate)
  have hconnects : s.Connects side (.ofSlot s.pool.pairs.size)
      { pool :=
          { pairs := s.pool.pairs.push (.joining s.pool.pairs.size side.1 side.2), free := [] }
        sides := (side, .ofSlot s.pool.pairs.size) :: s.sides } := ⟨rfl, hold⟩
  refine ⟨h.extend hconnects hnew hne rfl ?_ ?_ ?_ ?_ ?_, hconnects⟩
  · intro slot
    rw [hused slot, EdgeId.slot_ofSlot, Bool.or_eq_true, decide_eq_true_eq]
  · intro slot hlt
    rw [EdgeId.slot_ofSlot]
    simp only [Array.size_push] at hlt
    omega
  · rw [EdgeId.slot_ofSlot]
    exact h.reserved_le
  · exact ⟨by rw [hbase]; rfl, by rw [hdual]; rfl⟩
  · intro e' he'
    exact absurd (mem_keys_iff.2 ⟨e', he'⟩) hreverse

/-- Connecting a new side keeps the side table and the pool in agreement. -/
theorem Sound.connectSide {reserved : Nat} {s : Assembly} (h : s.Sound reserved) {side : Side}
    (hnew : side ∉ s.keys) (hne : side.1 ≠ side.2) :
    (s.connectSide side).2.Sound reserved ∧
      s.Connects side (s.connectSide side).1 (s.connectSide side).2 := by
  unfold Assembly.connectSide
  cases hreverse : s.edge? side.swap with
  | some twin => exact h.connect_twin hnew hne (mem_of_edge?_eq_some hreverse)
  | none => exact h.connect_new hnew hne (edge?_eq_none_iff.1 hreverse) rfl

/-! ## Finished faces -/

/-- The three sides of a face have edges, which point to each other. -/
def Linked (s : Assembly) (face : Triangle Corner) : Prop :=
  ∃ e₁ e₂ e₃ : EdgeId,
    ((face.first, face.second), e₁) ∈ s.sides ∧ ((face.second, face.third), e₂) ∈ s.sides ∧
    ((face.third, face.first), e₃) ∈ s.sides ∧
    s.pool.side? e₁ = some ⟨face.first, e₂, e₃⟩ ∧ s.pool.side? e₂ = some ⟨face.second, e₃, e₁⟩ ∧
    s.pool.side? e₃ = some ⟨face.third, e₁, e₂⟩

/-- A finished face stays so while other sides are connected. -/
theorem Linked.connects {s s' : Assembly} {side : Side} {e : EdgeId} {face : Triangle Corner}
    (h : s.Linked face) (hconnects : s.Connects side e s') : s'.Linked face := by
  obtain ⟨e₁, e₂, e₃, h₁, h₂, h₃, hlink₁, hlink₂, hlink₃⟩ := h
  have hkept : ∀ {x : EdgeId} {stored : EdgeSide}, s.pool.side? x = some stored →
      s'.pool.side? x = some stored := fun hx => by
    rw [hconnects.stored _ (EdgePool.lt_size_of_side? hx), hx]
  have hmem : ∀ {entry : Side × EdgeId}, entry ∈ s.sides → entry ∈ s'.sides := fun hentry => by
    rw [hconnects.sides_eq]
    exact List.mem_cons_of_mem _ hentry
  exact ⟨e₁, e₂, e₃, hmem h₁, hmem h₂, hmem h₃, hkept hlink₁, hkept hlink₂, hkept hlink₃⟩

/-- Linking a face keeps the side table and the pool in agreement. -/
theorem Sound.linkFace {reserved : Nat} {s : Assembly} (h : s.Sound reserved)
    (t : Triangle EdgeId) : Sound reserved { s with pool := s.pool.linkFace t } where
  free_eq := h.free_eq
  reserved_le := by
    rw [EdgePool.size_linkFace]
    exact h.reserved_le
  nodup := h.nodup
  slot_ge := h.slot_ge
  live x e he := by
    rw [EdgePool.isLive_linkFace]
    exact h.live x e he
  origins x e he := by
    rw [EdgePool.origin_linkFace, EdgePool.origin_linkFace]
    exact h.origins x e he
  twin := h.twin
  used slot hge hlt := by
    rw [EdgePool.size_linkFace] at hlt
    exact h.used slot hge hlt

/-- An edge of the table stores where its side starts. -/
theorem Sound.exists_stored {reserved : Nat} {s : Assembly} (h : s.Sound reserved) {side : Side}
    {e : EdgeId} (he : (side, e) ∈ s.sides) :
    ∃ forward reverse, s.pool.side? e = some ⟨side.1, forward, reverse⟩ := by
  obtain ⟨stored, hstored, horigin⟩ := Option.map_eq_some_iff.1 (h.origins side e he).1
  rw [← horigin]
  exact ⟨stored.forward, stored.reverse, hstored⟩

/-- Linking the edges of the sides of a face finishes it. -/
theorem Sound.linked_linkFace {reserved : Nat} {s : Assembly} (h : s.Sound reserved)
    {face : Triangle Corner} (hface : face.Distinct) {e₁ e₂ e₃ : EdgeId}
    (h₁ : ((face.first, face.second), e₁) ∈ s.sides)
    (h₂ : ((face.second, face.third), e₂) ∈ s.sides)
    (h₃ : ((face.third, face.first), e₃) ∈ s.sides) :
    Linked { s with pool := s.pool.linkFace ⟨e₁, e₂, e₃⟩ } face := by
  obtain ⟨hab, hbc, hac⟩ := hface
  -- an edge runs along one side, so the three edges differ as their sides do
  have h₁₂ : e₁ ≠ e₂ := by
    rintro rfl
    exact hab (congrArg Prod.fst (h.side_unique h₁ h₂))
  have h₂₃ : e₂ ≠ e₃ := by
    rintro rfl
    exact hbc (congrArg Prod.fst (h.side_unique h₂ h₃))
  have h₃₁ : e₃ ≠ e₁ := by
    rintro rfl
    exact hac (congrArg Prod.fst (h.side_unique h₃ h₁)).symm
  obtain ⟨f₁, r₁, hstored₁⟩ := h.exists_stored h₁
  obtain ⟨f₂, r₂, hstored₂⟩ := h.exists_stored h₂
  obtain ⟨f₃, r₃, hstored₃⟩ := h.exists_stored h₃
  obtain ⟨hlink₁, hlink₂, hlink₃⟩ := s.pool.side?_linkFace h₁₂ h₂₃ h₃₁
  refine ⟨e₁, e₂, e₃, h₁, h₂, h₃, ?_, ?_, ?_⟩
  · rw [hlink₁, hstored₁]
    rfl
  · rw [hlink₂, hstored₂]
    rfl
  · rw [hlink₃, hstored₃]
    rfl

/-- Linking other edges leaves a finished face finished. -/
theorem Linked.linkFace {s : Assembly} {face : Triangle Corner} (h : s.Linked face)
    {t : Triangle EdgeId} (hother : ∀ side ∈ face.sides, ∀ e, (side, e) ∈ s.sides →
      e ≠ t.first ∧ e ≠ t.second ∧ e ≠ t.third) :
    Linked { s with pool := s.pool.linkFace t } face := by
  obtain ⟨e₁, e₂, e₃, h₁, h₂, h₃, hlink₁, hlink₂, hlink₃⟩ := h
  have hkept : ∀ {side : Side} {e : EdgeId}, side ∈ face.sides → (side, e) ∈ s.sides →
      (s.pool.linkFace t).side? e = s.pool.side? e := fun hside he => by
    obtain ⟨hne₁, hne₂, hne₃⟩ := hother _ hside _ he
    exact s.pool.side?_linkFace_of_ne hne₁ hne₂ hne₃
  refine ⟨e₁, e₂, e₃, h₁, h₂, h₃, ?_, ?_, ?_⟩
  · exact (hkept (by simp [Triangle.sides]) h₁).trans hlink₁
  · exact (hkept (by simp [Triangle.sides]) h₂).trans hlink₂
  · exact (hkept (by simp [Triangle.sides]) h₃).trans hlink₃

/-! ## Faces in turn -/

/-- An assembly in which exactly the listed faces are finished, and no other side
has an edge. -/
structure Holds (reserved : Nat) (faces : List (Triangle Corner)) (s : Assembly) : Prop where
  sound : s.Sound reserved
  keys_eq : s.keys = (sidesOf faces).reverse
  linked : ∀ face ∈ faces, s.Linked face

theorem Connects.keys_eq {s s' : Assembly} {side : Side} {e : EdgeId}
    (h : s.Connects side e s') : s'.keys = side :: s.keys := by
  rw [keys, h.sides_eq]
  rfl

theorem Holds.mem_keys_iff {reserved : Nat} {faces : List (Triangle Corner)} {s : Assembly}
    (h : s.Holds reserved faces) {side : Side} : side ∈ s.keys ↔ side ∈ sidesOf faces := by
  rw [h.keys_eq, List.mem_reverse]

theorem holds_nil {pool : EdgePool} (hfree : pool.free = []) :
    Holds pool.pairs.size [] { pool } where
  sound := sound_reserved hfree
  keys_eq := rfl
  linked _ hface := absurd hface List.not_mem_nil

/-- Connecting a face whose sides are new finishes it. -/
theorem Holds.connect {reserved : Nat} {faces : List (Triangle Corner)} {s : Assembly}
    (h : s.Holds reserved faces) {face : Triangle Corner} (hface : face.Distinct)
    (hnew : ∀ side ∈ face.sides, side ∉ s.keys) :
    (s.connect face).Holds reserved (faces ++ [face]) := by
  have hdistinct := hface
  obtain ⟨a, b, c⟩ := face
  obtain ⟨hab, hbc, hac⟩ := hface
  have hnew₁ : (a, b) ∉ s.keys := hnew _ (by simp [Triangle.sides])
  have hnew₂ : (b, c) ∉ s.keys := hnew _ (by simp [Triangle.sides])
  have hnew₃ : (c, a) ∉ s.keys := hnew _ (by simp [Triangle.sides])
  -- the three sides get their edges in turn; each is new to what the others left
  obtain ⟨⟨e₁, s₁⟩, hconnect₁⟩ : ∃ r, s.connectSide (a, b) = r := ⟨_, rfl⟩
  obtain ⟨hsound₁, hstep₁⟩ := h.sound.connectSide hnew₁ hab
  rw [hconnect₁] at hsound₁ hstep₁
  have hfresh₂ : (b, c) ∉ s₁.keys := by
    rw [hstep₁.keys_eq]
    simp [hnew₂, hab.symm]
  obtain ⟨⟨e₂, s₂⟩, hconnect₂⟩ : ∃ r, s₁.connectSide (b, c) = r := ⟨_, rfl⟩
  obtain ⟨hsound₂, hstep₂⟩ := hsound₁.connectSide hfresh₂ hbc
  rw [hconnect₂] at hsound₂ hstep₂
  have hfresh₃ : (c, a) ∉ s₂.keys := by
    rw [hstep₂.keys_eq, hstep₁.keys_eq]
    simp [hnew₃, hac.symm, hbc.symm]
  obtain ⟨⟨e₃, s₃⟩, hconnect₃⟩ : ∃ r, s₂.connectSide (c, a) = r := ⟨_, rfl⟩
  obtain ⟨hsound₃, hstep₃⟩ := hsound₂.connectSide hfresh₃ hac.symm
  rw [hconnect₃] at hsound₃ hstep₃
  have hconnect : s.connect ⟨a, b, c⟩ = { s₃ with pool := s₃.pool.linkFace ⟨e₁, e₂, e₃⟩ } := by
    simp only [Assembly.connect, hconnect₁, hconnect₂, hconnect₃]
  have hsides : s₃.sides = ((c, a), e₃) :: ((b, c), e₂) :: ((a, b), e₁) :: s.sides := by
    rw [hstep₃.sides_eq, hstep₂.sides_eq, hstep₁.sides_eq]
  have hmem₁ : ((a, b), e₁) ∈ s₃.sides := by simp [hsides]
  have hmem₂ : ((b, c), e₂) ∈ s₃.sides := by simp [hsides]
  have hmem₃ : ((c, a), e₃) ∈ s₃.sides := by simp [hsides]
  rw [hconnect]
  refine ⟨hsound₃.linkFace _, ?_, ?_⟩
  · show s₃.keys = _
    rw [hstep₃.keys_eq, hstep₂.keys_eq, hstep₁.keys_eq, h.keys_eq, sidesOf_append,
      List.reverse_append]
    rfl
  · intro face hface
    rcases List.mem_append.1 hface with hface | hface
    · have hlinked := (((h.linked face hface).connects hstep₁).connects hstep₂).connects hstep₃
      refine hlinked.linkFace fun side hside e he => ?_
      -- the sides of a face that was finished before are not among the new ones
      have hold : side ∈ s.keys := h.mem_keys_iff.2 (mem_sidesOf.2 ⟨face, hface, hside⟩)
      have hne : ∀ {new : Side} {d : EdgeId}, (new, d) ∈ s₃.sides → new ∉ s.keys → e ≠ d := by
        rintro new d hd hnew rfl
        exact hnew (hsound₃.side_unique he hd ▸ hold)
      exact ⟨hne hmem₁ hnew₁, hne hmem₂ hnew₂, hne hmem₃ hnew₃⟩
    · rw [List.mem_singleton.1 hface]
      exact hsound₃.linked_linkFace hdistinct hmem₁ hmem₂ hmem₃

/-- If no side comes up twice, those of the next face are new. -/
theorem Holds.not_mem_keys {reserved : Nat} {faces more : List (Triangle Corner)} {s : Assembly}
    (h : s.Holds reserved faces) {face : Triangle Corner}
    (hnodup : (sidesOf (faces ++ [face] ++ more)).Nodup) :
    ∀ side ∈ face.sides, side ∉ s.keys := by
  intro side hside hkey
  rw [sidesOf_append, sidesOf_append] at hnodup
  have hdisjoint := List.disjoint_of_nodup_append (List.nodup_append'.1 hnodup).1
  exact hdisjoint (h.mem_keys_iff.1 hkey)
    (mem_sidesOf.2 ⟨face, List.mem_singleton_self _, hside⟩)

/-- Connecting faces one after the other finishes them all, if no side comes up
twice. -/
theorem Holds.foldl_connect {reserved : Nat} {faces more : List (Triangle Corner)} {s : Assembly}
    (h : s.Holds reserved faces) (hmore : ∀ face ∈ more, face.Distinct)
    (hnodup : (sidesOf (faces ++ more)).Nodup) :
    (more.foldl Assembly.connect s).Holds reserved (faces ++ more) := by
  induction more generalizing faces s with
  | nil =>
      rw [List.append_nil]
      exact h
  | cons face more ih =>
      have hsplit : faces ++ face :: more = faces ++ [face] ++ more := List.append_cons _ _ _
      rw [hsplit] at hnodup
      rw [hsplit, List.foldl_cons]
      have hconnected := h.connect (hmore face List.mem_cons_self) (h.not_mem_keys hnodup)
      exact ih hconnected (fun f hf => hmore f (List.mem_cons_of_mem _ hf)) hnodup

end Assembly

end TinFaces
