import ShadowMount.ImageCache.Model

/-!
# Image cache - representation invariant

Every public operation of the image cache is put together from three changes of
the table: a slot is zeroed, a slot is modified under its old mapping and
generation, or a slot is given a mapping no other slot owns together with a
fresh generation.  The invariant is proved once for each of the three changes
and then read off for the operations.

Main results:

- Theorem {lit}`run_representation`: uniqueness of the keys, the shape of each
  entry, freshness of the generations and protection of later attachments, over
  every sequence of operations.
-/

namespace ShadowMount.ImageCache

variable {n : Nat}
variable {j k : Fin n} {c : Cache n} {e : Entry} {path : Text} {generation : Nat}

/-! ## The invariant -/

/-- The relation between the state of a valid entry, its unit and its backend. -/
structure EntryShape (e : Entry) : Prop where
  released : e.state = .released →
    e.unitId < 0 ∧ e.backend = .none ∧ e.detachAttemptActive = false
  attaching : e.state = .attaching →
    (0 ≤ e.unitId ∧ attachBackendIsValid e.backend = true) ∨
      (e.unitId < 0 ∧ e.backend = .none)
  attached : e.state = .mounted ∨ e.state = .detachRequested →
    0 ≤ e.unitId ∧ attachBackendIsValid e.backend = true

/-- No two valid entries share a path, a mount point or a generation, and every
valid entry has the right shape. -/
structure Representation (c : Cache n) : Prop where
  path_unique : ∀ j k, (c.entries j).valid → (c.entries k).valid →
    (c.entries j).path = (c.entries k).path → j = k
  mountPoint_unique : ∀ j k, (c.entries j).valid → (c.entries k).valid →
    (c.entries j).mountPoint = (c.entries k).mountPoint → j = k
  generation_unique : ∀ j k, (c.entries j).valid → (c.entries k).valid →
    (c.entries j).generation = (c.entries k).generation → j = k
  shape : ∀ k, (c.entries k).valid → EntryShape (c.entries k)

/-- The invariant the operations keep: the representation clauses, zeroed free
slots, and generations that the counter has already passed. -/
structure WellFormed (c : Cache n) : Prop extends Representation c where
  free_zero : ∀ k, (c.entries k).valid = false → c.entries k = Entry.zero
  generation_le : ∀ k, (c.entries k).valid → (c.entries k).generation ≤ c.generation

/-! ## Table updates -/

@[simp]
theorem set_entries_self (c : Cache n) (k : Fin n) (e : Entry) :
    (c.set k e).entries k = e := by
  simp [Cache.set]

theorem set_entries_of_ne (c : Cache n) (e : Entry) (h : j ≠ k) :
    (c.set k e).entries j = c.entries j := by
  simp [Cache.set, h]

@[simp]
theorem set_generation (c : Cache n) (k : Fin n) (e : Entry) :
    (c.set k e).generation = c.generation :=
  rfl

/-- Below the wrap the counter just counts. -/
theorem nextCacheGeneration_eq {g : Nat} (h : g + 1 < 2 ^ 64) :
    nextCacheGeneration g = g + 1 := by
  unfold nextCacheGeneration
  rw [Nat.mod_eq_of_lt h]
  simp

/-! ## Invariant under the three table changes -/

theorem wellFormed_initial : WellFormed (Cache.initial : Cache n) where
  path_unique := by simp [Cache.initial, Entry.zero]
  mountPoint_unique := by simp [Cache.initial, Entry.zero]
  generation_unique := by simp [Cache.initial, Entry.zero]
  shape := by simp [Cache.initial, Entry.zero]
  free_zero := by simp [Cache.initial]
  generation_le := by simp [Cache.initial, Entry.zero]

/-- A key column stays injective when one slot takes a value that no other valid
slot holds. -/
theorem unique_set {α : Type} {f : Entry → α}
    (hunique : ∀ i j, (c.entries i).valid → (c.entries j).valid →
      f (c.entries i) = f (c.entries j) → i = j)
    (hfresh : e.valid = true → ∀ j, j ≠ k → (c.entries j).valid →
      f (c.entries j) ≠ f e) :
    ∀ i j, ((c.set k e).entries i).valid → ((c.set k e).entries j).valid →
      f ((c.set k e).entries i) = f ((c.set k e).entries j) → i = j := by
  intro i j hi hj hkey
  by_cases hik : i = k
  · by_cases hjk : j = k
    · rw [hik, hjk]
    · subst hik
      rw [set_entries_of_ne c e hjk] at hj hkey
      rw [set_entries_self] at hi hkey
      exact absurd hkey.symm (hfresh hi j hjk hj)
  · rw [set_entries_of_ne c e hik] at hi hkey
    by_cases hjk : j = k
    · subst hjk
      rw [set_entries_self] at hj hkey
      exact absurd hkey (hfresh hj i hik hi)
    · rw [set_entries_of_ne c e hjk] at hj hkey
      exact hunique i j hi hj hkey

theorem forall_valid_set {p : Entry → Prop} (hold : ∀ j, (c.entries j).valid → p (c.entries j))
    (hnew : e.valid = true → p e) :
    ∀ j, ((c.set k e).entries j).valid → p ((c.set k e).entries j) := by
  intro j hj
  by_cases hjk : j = k
  · subst hjk
    rw [set_entries_self] at hj ⊢
    exact hnew hj
  · rw [set_entries_of_ne c e hjk] at hj ⊢
    exact hold j hj

theorem free_zero_set (hold : ∀ j, (c.entries j).valid = false → c.entries j = Entry.zero)
    (hnew : e.valid = false → e = Entry.zero) :
    ∀ j, ((c.set k e).entries j).valid = false → (c.set k e).entries j = Entry.zero := by
  intro j hj
  by_cases hjk : j = k
  · subst hjk
    rw [set_entries_self] at hj ⊢
    exact hnew hj
  · rw [set_entries_of_ne c e hjk] at hj ⊢
    exact hold j hj

/-- A slot may be zeroed. -/
theorem WellFormed.clear (h : WellFormed c) (k : Fin n) : WellFormed (c.set k Entry.zero) where
  path_unique := unique_set h.path_unique (by simp [Entry.zero])
  mountPoint_unique := unique_set h.mountPoint_unique (by simp [Entry.zero])
  generation_unique := unique_set h.generation_unique (by simp [Entry.zero])
  shape := forall_valid_set h.shape (by simp [Entry.zero])
  free_zero := free_zero_set h.free_zero (fun _ => rfl)
  generation_le :=
    forall_valid_set (p := fun e => e.generation ≤ c.generation) h.generation_le
      (by simp [Entry.zero])

/-- Modifying a valid slot under its own mapping and generation keeps the
invariant when the new entry has the right shape. -/
theorem WellFormed.modify (h : WellFormed c) (hvalid : (c.entries k).valid = true)
    (hevalid : e.valid = true) (hpath : e.path = (c.entries k).path)
    (hmount : e.mountPoint = (c.entries k).mountPoint)
    (hgen : e.generation = (c.entries k).generation) (hshape : EntryShape e) :
    WellFormed (c.set k e) where
  path_unique := unique_set (f := Entry.path) h.path_unique fun _ j hjk hj heq =>
    hjk (h.path_unique j k hj hvalid (by rw [heq, hpath]))
  mountPoint_unique :=
    unique_set (f := Entry.mountPoint) h.mountPoint_unique fun _ j hjk hj heq =>
      hjk (h.mountPoint_unique j k hj hvalid (by rw [heq, hmount]))
  generation_unique :=
    unique_set (f := Entry.generation) h.generation_unique fun _ j hjk hj heq =>
      hjk (h.generation_unique j k hj hvalid (by rw [heq, hgen]))
  shape := forall_valid_set h.shape (fun _ => hshape)
  free_zero := free_zero_set h.free_zero (by simp [hevalid])
  generation_le :=
    forall_valid_set (p := fun e => e.generation ≤ c.generation) h.generation_le
      (fun _ => by rw [hgen]; exact h.generation_le k hvalid)

/-- Storing an entry under a mapping no other slot owns, with the next
generation, keeps the invariant. -/
theorem WellFormed.renew (h : WellFormed c) (hwrap : c.generation + 1 < 2 ^ 64)
    (hevalid : e.valid = true)
    (hpath : ∀ j, j ≠ k → (c.entries j).valid → (c.entries j).path ≠ e.path)
    (hmount : ∀ j, j ≠ k → (c.entries j).valid → (c.entries j).mountPoint ≠ e.mountPoint)
    (hgen : e.generation = nextCacheGeneration c.generation) (hshape : EntryShape e) :
    WellFormed { c.set k e with generation := nextCacheGeneration c.generation } := by
  have hnext := nextCacheGeneration_eq hwrap
  exact {
    path_unique := unique_set (f := Entry.path) h.path_unique fun _ => hpath
    mountPoint_unique :=
      unique_set (f := Entry.mountPoint) h.mountPoint_unique fun _ => hmount
    generation_unique :=
      unique_set (f := Entry.generation) h.generation_unique fun _ j _ hj heq => by
        have hle := h.generation_le j hj
        rw [heq, hgen, hnext] at hle
        omega
    shape := forall_valid_set h.shape (fun _ => hshape)
    free_zero := free_zero_set h.free_zero (by simp [hevalid])
    generation_le := by
      refine forall_valid_set (p := fun e => e.generation ≤ nextCacheGeneration c.generation)
        (fun j hj => ?_) (fun _ => hgen.le)
      have hle := h.generation_le j hj
      omega }

/-! ## Finding the owners of a mapping -/

theorem findSourcePathIndex_eq_some (h : findSourcePathIndex c path = some k) :
    (c.entries k).valid = true ∧ (c.entries k).path = path := by
  have hk := Fin.eq_true_of_find?_eq_some h
  simpa using hk

theorem findFreeIndex_eq_some (h : findFreeIndex c = some k) : (c.entries k).valid = false := by
  have hk := Fin.eq_true_of_find?_eq_some h
  simpa using hk

/-- What the scan has established about one of its two indices: it points at the
owner of the key, and no slot already scanned owns the key otherwise. -/
def Owner (c : Cache n) (owns : Entry → Prop) (scanned : List (Fin n))
    (index : Option (Fin n)) : Prop :=
  (∀ k, index = some k → (c.entries k).valid = true ∧ owns (c.entries k)) ∧
    ∀ k ∈ scanned, (c.entries k).valid = true → owns (c.entries k) → index = some k

/-- With unique keys the scan never meets a second owner, and it returns the
owners of both keys. -/
theorem findMappingIndicesFrom_spec (h : Representation c) (path mountPoint : Text)
    (ks scanned : List (Fin n)) (p m : Option (Fin n)) (hnodup : ks.Nodup)
    (hdisjoint : ∀ k ∈ ks, p ≠ some k ∧ m ≠ some k) (hp : Owner c (·.path = path) scanned p)
    (hm : Owner c (·.mountPoint = mountPoint) scanned m) :
    ∃ p' m', findMappingIndicesFrom c path mountPoint ks p m = .ok (p', m') ∧
      Owner c (·.path = path) (scanned ++ ks) p' ∧
      Owner c (·.mountPoint = mountPoint) (scanned ++ ks) m' := by
  induction ks generalizing scanned p m with
  | nil => exact ⟨p, m, rfl, by simpa using hp, by simpa using hm⟩
  | cons k ks ih =>
    obtain ⟨hk, hks⟩ := List.nodup_cons.mp hnodup
    have hassoc : scanned ++ k :: ks = (scanned ++ [k]) ++ ks := by simp
    rw [hassoc]
    by_cases hvalid : (c.entries k).valid = true
    · -- a second owner would be another slot with the same key
      have hpath : ¬((c.entries k).path = path ∧ p.isSome = true) := by
        rintro ⟨hkp, hsome⟩
        obtain ⟨j, hj⟩ := Option.isSome_iff_exists.mp hsome
        have hjk := h.path_unique j k (hp.1 j hj).1 hvalid ((hp.1 j hj).2.trans hkp.symm)
        exact (hdisjoint k (by simp)).1 (hjk ▸ hj)
      have hmount : ¬((c.entries k).mountPoint = mountPoint ∧ m.isSome = true) := by
        rintro ⟨hkm, hsome⟩
        obtain ⟨j, hj⟩ := Option.isSome_iff_exists.mp hsome
        have hjk := h.mountPoint_unique j k (hm.1 j hj).1 hvalid
          ((hm.1 j hj).2.trans hkm.symm)
        exact (hdisjoint k (by simp)).2 (hjk ▸ hj)
      have hstep : ∀ (owns : Entry → Prop) [DecidablePred owns] (x : Option (Fin n)),
          ¬(owns (c.entries k) ∧ x.isSome = true) → Owner c owns scanned x →
          Owner c owns (scanned ++ [k]) (if owns (c.entries k) then some k else x) := by
        intro owns _ x hx hown
        constructor
        · intro j hj
          split at hj
          · rename_i howns
            cases hj
            exact ⟨hvalid, howns⟩
          · exact hown.1 j hj
        · intro j hj hjvalid hjowns
          rcases List.mem_append.mp hj with hj | hj
          · have hsome := hown.2 j hj hjvalid hjowns
            rw [if_neg (fun howns => hx ⟨howns, by rw [hsome]; rfl⟩)]
            exact hsome
          · rw [List.mem_singleton] at hj
            subst hj
            rw [if_pos hjowns]
      simp only [findMappingIndicesFrom, hvalid, Bool.not_true, Bool.false_eq_true,
        if_false, hpath, hmount]
      refine ih (scanned ++ [k]) _ _ hks ?_ (hstep _ p hpath hp) (hstep _ m hmount hm)
      intro j hj
      have hjk : j ≠ k := fun heq => hk (heq ▸ hj)
      have hold := hdisjoint j (List.mem_cons_of_mem _ hj)
      constructor
      · split
        · simpa using hjk.symm
        · exact hold.1
      · split
        · simpa using hjk.symm
        · exact hold.2
    · have hskip : ∀ (owns : Entry → Prop) (x : Option (Fin n)), Owner c owns scanned x →
          Owner c owns (scanned ++ [k]) x := by
        intro owns x hown
        refine ⟨hown.1, fun j hj hjvalid hjowns => ?_⟩
        rcases List.mem_append.mp hj with hj | hj
        · exact hown.2 j hj hjvalid hjowns
        · rw [List.mem_singleton] at hj
          exact absurd (hj ▸ hjvalid) hvalid
      simp only [findMappingIndicesFrom, hvalid, Bool.not_false, if_true]
      exact ih (scanned ++ [k]) p m hks
        (fun j hj => hdisjoint j (List.mem_cons_of_mem _ hj)) (hskip _ p hp) (hskip _ m hm)

/-- In a table with unique keys the duplicate branch is never taken, and the two
indices are the owners of the path and of the mount point. -/
theorem findMappingIndices_spec (h : Representation c) (path mountPoint : Text) :
    ∃ p m, findMappingIndices c path mountPoint = .ok (p, m) ∧
      Owner c (·.path = path) (List.finRange n) p ∧
      Owner c (·.mountPoint = mountPoint) (List.finRange n) m := by
  have hstart : ∀ owns : Entry → Prop, Owner c owns [] none := by
    intro owns
    exact ⟨fun k hk => (by cases hk), fun k hk => (by cases hk)⟩
  exact findMappingIndicesFrom_spec h path mountPoint (List.finRange n) [] none none
    (List.nodup_finRange n) (fun k _ => ⟨nofun, nofun⟩) (hstart _) (hstart _)

theorem Owner.ne {owns : Entry → Prop} {index : Option (Fin n)}
    (h : Owner c owns (List.finRange n) index) (hj : index ≠ some j)
    (hvalid : (c.entries j).valid = true) : ¬owns (c.entries j) :=
  fun howns => hj (h.2 j (List.mem_finRange j) hvalid howns)

/-! ## What one change does to the generations -/

/-- The table moved on from one well-formed state to another: at most `d`
generations were issued, and a slot whose generation is not one of them still
holds the mapping it held before. -/
structure Advance (d : Nat) (c c' : Cache n) : Prop where
  wellFormed : WellFormed c'
  le : c.generation ≤ c'.generation
  bound : c'.generation ≤ c.generation + d
  kept : ∀ k, (c'.entries k).valid → (c'.entries k).generation ≤ c.generation →
    (c.entries k).valid = true ∧ (c.entries k).generation = (c'.entries k).generation ∧
      (c.entries k).path = (c'.entries k).path ∧
      (c.entries k).mountPoint = (c'.entries k).mountPoint

/-- Nothing is done. -/
theorem Advance.refl (h : WellFormed c) : Advance 0 c c :=
  ⟨h, le_rfl, le_rfl, fun _ hk _ => ⟨hk, rfl, rfl, rfl⟩⟩

/-- Changes follow each other. -/
theorem Advance.trans {d d' : Nat} {c₁ c₂ c₃ : Cache n} (h₁ : Advance d c₁ c₂)
    (h₂ : Advance d' c₂ c₃) : Advance (d + d') c₁ c₃ where
  wellFormed := h₂.wellFormed
  le := h₁.le.trans h₂.le
  bound := by
    have hfirst := h₁.bound
    have hsecond := h₂.bound
    omega
  kept := by
    intro k hk hgen
    obtain ⟨hvalid, hgen₂, hpath₂, hmount₂⟩ := h₂.kept k hk (hgen.trans h₁.le)
    obtain ⟨hvalid₁, hgen₁, hpath₁, hmount₁⟩ := h₁.kept k hvalid (by omega)
    exact ⟨hvalid₁, hgen₁.trans hgen₂, hpath₁.trans hpath₂, hmount₁.trans hmount₂⟩

theorem Advance.mono {d d' : Nat} {c' : Cache n} (h : Advance d c c') (hd : d ≤ d') :
    Advance d' c c' :=
  ⟨h.wellFormed, h.le, h.bound.trans (by omega), h.kept⟩

/-- A cleared slot issues no generation. -/
theorem Advance.clear (h : WellFormed c) (k : Fin n) : Advance 0 c (c.set k Entry.zero) where
  wellFormed := h.clear k
  le := le_rfl
  bound := le_rfl
  kept := by
    intro j hj _
    by_cases hjk : j = k
    · subst hjk
      simp [Entry.zero] at hj
    · rw [set_entries_of_ne c _ hjk] at hj ⊢
      exact ⟨hj, rfl, rfl, rfl⟩

/-- A slot may change under its old mapping and generation. -/
theorem Advance.modify (h : WellFormed c) (hvalid : (c.entries k).valid = true)
    (hevalid : e.valid = true) (hpath : e.path = (c.entries k).path)
    (hmount : e.mountPoint = (c.entries k).mountPoint)
    (hgen : e.generation = (c.entries k).generation) (hshape : EntryShape e) :
    Advance 0 c (c.set k e) where
  wellFormed := h.modify hvalid hevalid hpath hmount hgen hshape
  le := le_rfl
  bound := le_rfl
  kept := by
    intro j hj _
    by_cases hjk : j = k
    · subst hjk
      rw [set_entries_self]
      exact ⟨hvalid, hgen.symm, hpath.symm, hmount.symm⟩
    · rw [set_entries_of_ne c _ hjk] at hj ⊢
      exact ⟨hj, rfl, rfl, rfl⟩

/-- A slot gets a new mapping and a new generation. -/
theorem Advance.renew (h : WellFormed c) (hwrap : c.generation + 1 < 2 ^ 64)
    (hevalid : e.valid = true)
    (hpath : ∀ j, j ≠ k → (c.entries j).valid → (c.entries j).path ≠ e.path)
    (hmount : ∀ j, j ≠ k → (c.entries j).valid → (c.entries j).mountPoint ≠ e.mountPoint)
    (hgen : e.generation = nextCacheGeneration c.generation) (hshape : EntryShape e) :
    Advance 1 c { c.set k e with generation := nextCacheGeneration c.generation } where
  wellFormed := h.renew hwrap hevalid hpath hmount hgen hshape
  le := by
    have hnext := nextCacheGeneration_eq hwrap
    change c.generation ≤ nextCacheGeneration c.generation
    omega
  bound := (nextCacheGeneration_eq hwrap).le
  kept := by
    intro j hj hjgen
    by_cases hjk : j = k
    · subst hjk
      simp only [set_entries_self] at hjgen
      rw [hgen, nextCacheGeneration_eq hwrap] at hjgen
      omega
    · simp only [set_entries_of_ne c e hjk] at hj ⊢
      simpa using hj

/-! ## Shapes the operations write -/

/-- The shape of an entry without a device. -/
theorem EntryShape.ofReleased (hstate : e.state = .released) (hunit : e.unitId < 0)
    (hbackend : e.backend = .none) (hattempt : e.detachAttemptActive = false) : EntryShape e where
  released _ := ⟨hunit, hbackend, hattempt⟩
  attaching h := by simp [hstate] at h
  attached h := by simp [hstate] at h

/-- The shape of an entry with a device. -/
theorem EntryShape.ofDevice (hstate : e.state ≠ .released) (hunit : 0 ≤ e.unitId)
    (hbackend : attachBackendIsValid e.backend = true) : EntryShape e where
  released h := absurd h hstate
  attaching _ := .inl ⟨hunit, hbackend⟩
  attached _ := ⟨hunit, hbackend⟩

theorem cacheEntryIsMetadataOnly_iff :
    cacheEntryIsMetadataOnly e = true ↔ e.state = .released ∧ e.unitId < 0 ∧
      e.backend = .none ∧ e.detachAttemptActive = false := by
  simp [cacheEntryIsMetadataOnly, and_assoc]

/-- A look at the node changes the identity only. -/
theorem refreshAttachedUnitIdentity_eq (nodes : NodeView) (e : Entry) :
    ∃ d, (refreshAttachedUnitIdentity nodes e).1 = { e with detachState := d } := by
  unfold refreshAttachedUnitIdentity
  split
  · exact ⟨e.detachState, rfl⟩
  · split
    · exact ⟨e.detachState, rfl⟩
    · split
      · exact ⟨e.detachState, rfl⟩
      · exact ⟨_, rfl⟩

/-! ## The operations -/

/-- The merge step of the upsert: on success the slot, if any, is valid, no other
slot owns either key, and a missing slot means that nobody owns them. -/
theorem resolveOrMergeMappingIndex_spec (h : WellFormed c) {mountPoint : Text}
    {index : Option (Fin n)} {c' : Cache n} {merged : Bool}
    (hresult : resolveOrMergeMappingIndex c path mountPoint = .ok (index, c', merged)) :
    Advance 0 c c' ∧
      (∀ k, index = some k → (c'.entries k).valid = true) ∧
      (∀ j, index ≠ some j → (c'.entries j).valid → (c'.entries j).path ≠ path) ∧
      (∀ j, index ≠ some j → (c'.entries j).valid →
        (c'.entries j).mountPoint ≠ mountPoint) := by
  obtain ⟨p, m, hfind, hp, hm⟩ := findMappingIndices_spec h.toRepresentation path mountPoint
  unfold resolveOrMergeMappingIndex at hresult
  rw [hfind] at hresult
  cases p with
  | none =>
    simp only [Except.ok.injEq, Prod.mk.injEq] at hresult
    obtain ⟨rfl, rfl, -⟩ := hresult
    exact ⟨.refl h, fun k hk => (hm.1 k hk).1, fun j _ hj => hp.ne nofun hj,
      fun j hne hj => hm.ne hne hj⟩
  | some p =>
    cases m with
    | none =>
      simp only [Except.ok.injEq, Prod.mk.injEq] at hresult
      obtain ⟨rfl, rfl, -⟩ := hresult
      exact ⟨.refl h, fun k hk => (hp.1 k hk).1, fun j hne hj => hp.ne hne hj,
        fun j _ hj => hm.ne nofun hj⟩
    | some m =>
      simp only at hresult
      split at hresult
      · rename_i hpm
        subst hpm
        simp only [Except.ok.injEq, Prod.mk.injEq] at hresult
        obtain ⟨rfl, rfl, -⟩ := hresult
        exact ⟨.refl h, fun k hk => (hp.1 k hk).1, fun j hne hj => hp.ne hne hj,
          fun j hne hj => hm.ne hne hj⟩
      · rename_i hpm
        split at hresult
        · cases hresult
        · -- both half-mappings are metadata: the slot of the mount point is dropped
          simp only [Except.ok.injEq, Prod.mk.injEq] at hresult
          obtain ⟨rfl, rfl, -⟩ := hresult
          refine ⟨.clear h m, ?_, ?_, ?_⟩
          · intro k hk
            cases hk
            rw [set_entries_of_ne c _ hpm]
            exact (hp.1 p rfl).1
          · intro j hne hj
            by_cases hjm : j = m
            · subst hjm
              simp [Entry.zero] at hj
            · rw [set_entries_of_ne c _ hjm] at hj ⊢
              exact hp.ne hne hj
          · intro j hne hj
            by_cases hjm : j = m
            · subst hjm
              simp [Entry.zero] at hj
            · rw [set_entries_of_ne c _ hjm] at hj ⊢
              exact hm.ne (fun heq => hjm (by cases heq; rfl)) hj

/-- The upsert keeps the invariant, issues at most one generation, and on success
the returned slot is the only one that owns the mapping. -/
theorem upsertImageSourceMapping_spec (h : WellFormed c) (hwrap : c.generation + 1 < 2 ^ 64)
    (path mountPoint : Text) :
    Advance 1 c (upsertImageSourceMapping c path mountPoint).1 ∧
      ∀ k, (upsertImageSourceMapping c path mountPoint).2 = .ok k →
        ((upsertImageSourceMapping c path mountPoint).1.entries k).valid = true := by
  unfold upsertImageSourceMapping
  split
  · exact ⟨(Advance.refl h).mono (by omega), nofun⟩
  · split
    · exact ⟨(Advance.refl h).mono (by omega), nofun⟩
    · split
      · exact ⟨(Advance.refl h).mono (by omega), nofun⟩
      · -- the mapping has a slot
        rename_i k c' merged hresult
        obtain ⟨hadv, hvalid, hpath, hmount⟩ := resolveOrMergeMappingIndex_spec h hresult
        have hk := hvalid k rfl
        have hgen : c'.generation = c.generation :=
          le_antisymm (by simpa using hadv.bound) hadv.le
        simp only
        split
        · exact ⟨hadv.mono (by omega), nofun⟩
        · rename_i hmeta
          split
          · rename_i hchanged
            rw [hchanged, Bool.and_true] at hmeta
            have hbare := cacheEntryIsMetadataOnly_iff.mp (by simpa using hmeta)
            refine ⟨?_, fun j hj => by cases hj; simpa using hk⟩
            have hrenew := Advance.renew hadv.wellFormed
              (k := k) (e := { c'.entries k with
                path := path, mountPoint := mountPoint,
                generation := nextCacheGeneration c'.generation })
              (by omega) hk
              (fun j hj => hpath j (fun heq => hj (by cases heq; rfl)))
              (fun j hj => hmount j (fun heq => hj (by cases heq; rfl)))
              rfl (.ofReleased hbare.1 hbare.2.1 hbare.2.2.1 hbare.2.2.2)
            simpa using hadv.trans hrenew
          · rename_i hchanged
            have hsame : (c'.entries k).path = path ∧
                (c'.entries k).mountPoint = mountPoint := by
              simp only [ne_eq, decide_not, Bool.or_eq_true, Bool.not_eq_eq_eq_not,
                Bool.not_true, decide_eq_false_iff_not, not_or, not_not] at hchanged
              exact ⟨hchanged.1.2, hchanged.2⟩
            refine ⟨?_, fun j hj => by cases hj; simpa using hk⟩
            have hshape := hadv.wellFormed.shape k hk
            have hmodify := Advance.modify hadv.wellFormed
              (k := k) (e := { c'.entries k with path := path, mountPoint := mountPoint })
              hk hk hsame.1.symm hsame.2.symm rfl
              ⟨hshape.released, hshape.attaching, hshape.attached⟩
            exact (hadv.trans hmodify).mono (by omega)
      · -- nobody owns the mapping: take a free slot
        rename_i c' merged hresult
        obtain ⟨hadv, -, hpath, hmount⟩ := resolveOrMergeMappingIndex_spec h hresult
        have hgen : c'.generation = c.generation :=
          le_antisymm (by simpa using hadv.bound) hadv.le
        split
        · exact ⟨hadv.mono (by omega), nofun⟩
        · rename_i k hfree
          have hzero := hadv.wellFormed.free_zero k (findFreeIndex_eq_some hfree)
          refine ⟨?_, fun j hj => by cases hj; simp⟩
          have hrenew := Advance.renew hadv.wellFormed
            (k := k) (e := { c'.entries k with
              path := path, mountPoint := mountPoint, unitId := -1, backend := .none,
              state := .released, generation := nextCacheGeneration c'.generation,
              valid := true })
            (by omega) rfl (fun j _ => hpath j nofun) (fun j _ => hmount j nofun) rfl
            (.ofReleased rfl (by simp) rfl (by simp [hzero, Entry.zero]))
          simpa using hadv.trans hrenew

/-- A slot keeps its mapping and gets a new generation. -/
theorem Advance.regenerate (h : WellFormed c) (hwrap : c.generation + 1 < 2 ^ 64)
    (hvalid : (c.entries k).valid = true) (hevalid : e.valid = true)
    (hpath : e.path = (c.entries k).path) (hmount : e.mountPoint = (c.entries k).mountPoint)
    (hgen : e.generation = nextCacheGeneration c.generation) (hshape : EntryShape e) :
    Advance 1 c { c.set k e with generation := nextCacheGeneration c.generation } :=
  .renew h hwrap hevalid
    (fun j hjk hj heq => hjk (h.path_unique j k hj hvalid (heq.trans hpath)))
    (fun j hjk hj heq => hjk (h.mountPoint_unique j k hj hvalid (heq.trans hmount)))
    hgen hshape

/-- The record found is the one that is asked for. -/
theorem findAttachmentRecord_eq_some {unitId : Int} {backend : AttachBackend}
    (h : findAttachmentRecord c path generation unitId backend = some k) :
    (c.entries k).valid = true ∧ (c.entries k).path = path ∧
      (c.entries k).generation = generation ∧ (c.entries k).unitId = unitId ∧
      (c.entries k).backend = backend := by
  unfold findAttachmentRecord at h
  split at h
  · cases h
  · rename_i j hfind
    obtain ⟨hvalid, hpath⟩ := findSourcePathIndex_eq_some hfind
    simp only at h
    split at h
    · cases h
    · rename_i htoken
      simp only [ne_eq, decide_not, Bool.or_eq_true, Bool.not_eq_eq_eq_not, Bool.not_true,
        decide_eq_false_iff_not, not_or, not_not] at htoken
      cases h
      exact ⟨hvalid, hpath, htoken.1.1, htoken.1.2, htoken.2⟩

/-- The operations on a published attachment only rewrite the record that
`find_attachment_record` returned, keep its mapping, its generation and its
device, and leave it in a state other than released. -/
theorem Advance.ofRecord (h : WellFormed c) {unitId : Int} {backend : AttachBackend}
    (hrecord : findAttachmentRecord c path generation unitId backend = some k) (hunit : 0 ≤ unitId)
    (hbackend : attachBackendIsValid backend = true) (hstate : e.state ≠ .released)
    (hvalid : e.valid = (c.entries k).valid) (hpath : e.path = (c.entries k).path)
    (hmount : e.mountPoint = (c.entries k).mountPoint)
    (hgen : e.generation = (c.entries k).generation) (heunit : e.unitId = (c.entries k).unitId)
    (hebackend : e.backend = (c.entries k).backend) : Advance 0 c (c.set k e) := by
  obtain ⟨hk, -, -, hkunit, hkbackend⟩ := findAttachmentRecord_eq_some hrecord
  exact .modify h hk (hvalid.trans hk) hpath hmount hgen
    (.ofDevice hstate (by rw [heunit, hkunit]; exact hunit)
      (by rw [hebackend, hkbackend]; exact hbackend))

section Operations

variable {nodes : NodeView} {path mountPoint : Option Text} {generation : Nat} {unitId : Int}
variable {backend : AttachBackend} {detachState : Option AttachedUnitDetachState}
variable {index : Int} {expected : Option EntryView}

theorem cacheImageSourceMapping_advance (h : WellFormed c) (hwrap : c.generation + 1 < 2 ^ 64) :
    Advance 1 c (cacheImageSourceMapping c path mountPoint).1 := by
  unfold cacheImageSourceMapping
  split
  · rename_i path mountPoint
    have hadv := (upsertImageSourceMapping_spec h hwrap path mountPoint).1
    split <;> rename_i hup <;> rw [hup] at hadv <;> exact hadv
  · exact (Advance.refl h).mono (by omega)

theorem beginImageAttachment_advance (h : WellFormed c) (hwrap : c.generation + 2 < 2 ^ 64) :
    Advance 2 c (beginImageAttachment c path mountPoint).1 := by
  unfold beginImageAttachment
  split
  · rename_i path mountPoint
    obtain ⟨hadv, hvalid⟩ := upsertImageSourceMapping_spec h (by omega) path mountPoint
    split <;> rename_i hup <;> rw [hup] at hadv hvalid
    · exact hadv.mono (by omega)
    · rename_i c' k
      split
      · exact hadv.mono (by omega)
      · have hk := hvalid k rfl
        have hbound := hadv.bound
        simp only at hadv hbound hk ⊢
        refine .trans (show Advance 1 c c' from hadv)
          (.regenerate hadv.wellFormed (by omega) hk ?_ ?_ ?_ ?_ ?_)
        · exact hk
        · rfl
        · rfl
        · rfl
        · exact ⟨nofun, fun _ => .inr ⟨by simp, rfl⟩, by simp⟩
  · exact (Advance.refl h).mono (by omega)

theorem cancelImageAttachment_advance (h : WellFormed c) :
    Advance 0 c (cancelImageAttachment c path generation).1 := by
  unfold cancelImageAttachment
  split
  · exact .refl h
  · split
    · exact .refl h
    · split
      · exact .refl h
      · split
        · exact .clear h _
        · exact .refl h

/-- An attached device is published. -/
theorem publishImageAttachment_advance (h : WellFormed c) :
    Advance 0 c (publishImageAttachment nodes c path generation unitId backend).1 := by
  unfold publishImageAttachment
  split
  · exact .refl h
  · split
    · exact .refl h
    · rename_i hargs
      simp only [not_or, not_lt, Bool.not_eq_true', Bool.not_eq_false] at hargs
      split
      · exact .refl h
      · rename_i k hfind
        split
        · rename_i hreserved
          simp only [isUnpublishedReservation, Bool.and_eq_true, decide_eq_true_eq] at hreserved
          obtain ⟨d, hd⟩ := refreshAttachedUnitIdentity_eq nodes
            { c.entries k with unitId := unitId, backend := backend }
          rw [hd]
          have hk := (findSourcePathIndex_eq_some hfind).1
          exact .modify h hk hk rfl rfl rfl
            (.ofDevice (by simp [hreserved]) hargs.2.1 hargs.2.2)
        · exact .refl h

/-- A published attachment is completed. -/
theorem completeImageAttachment_advance (h : WellFormed c) :
    Advance 0 c (completeImageAttachment nodes c path generation unitId backend).1 := by
  unfold completeImageAttachment
  split
  · exact .refl h
  · split
    · exact .refl h
    · rename_i hargs
      simp only [not_or, not_lt, Bool.not_eq_true', Bool.not_eq_false] at hargs
      split
      · exact .refl h
      · rename_i k hfind
        simp only
        split
        · exact .refl h
        · rename_i htoken
          simp only [ne_eq, decide_not, Bool.or_eq_true, Bool.not_eq_eq_eq_not, Bool.not_true,
            decide_eq_false_iff_not, not_or, not_not] at htoken
          obtain ⟨d, hd⟩ := refreshAttachedUnitIdentity_eq nodes
            { c.entries k with state := .mounted }
          rw [hd]
          have hk := (findSourcePathIndex_eq_some hfind).1
          exact .modify h hk hk rfl rfl rfl (.ofDevice (by simp)
            (by simpa [htoken.1.1.2] using hargs.2.1) (by simpa [htoken.1.2] using hargs.2.2))

/-- A mount found in the kernel table is recorded. -/
theorem cacheImageMount_advance (h : WellFormed c) (hwrap : c.generation + 2 < 2 ^ 64) :
    Advance 2 c (cacheImageMount nodes c path mountPoint unitId backend).1 := by
  unfold cacheImageMount
  split
  · rename_i path mountPoint
    split
    · exact (Advance.refl h).mono (by omega)
    · rename_i hargs
      simp only [not_or, not_lt, Bool.not_eq_true', Bool.not_eq_false] at hargs
      obtain ⟨hadv, hvalid⟩ := upsertImageSourceMapping_spec h (by omega) path mountPoint
      split <;> rename_i hup <;> rw [hup] at hadv hvalid
      · exact hadv.mono (by omega)
      · rename_i c' k
        have hk := hvalid k rfl
        have hbound := hadv.bound
        simp only [resetAttachedUnitIdentity] at hadv hbound hk ⊢
        obtain ⟨d, hd⟩ := refreshAttachedUnitIdentity_eq nodes
          { c'.entries k with
            generation := nextCacheGeneration c'.generation
            unitId := unitId
            backend := backend
            state := .mounted
            detachState := .zero
            detachAttemptActive := false }
        rw [hd]
        refine .trans (show Advance 1 c c' from hadv)
          (.regenerate hadv.wellFormed (by omega) hk ?_ ?_ ?_ ?_ ?_)
        · exact hk
        · rfl
        · rfl
        · rfl
        · exact .ofDevice (by simp) hargs.1 hargs.2
  · exact (Advance.refl h).mono (by omega)

theorem markImageCacheDetachRequested_advance (h : WellFormed c) :
    Advance 0 c (markImageCacheDetachRequested nodes c path generation unitId backend).1 := by
  unfold markImageCacheDetachRequested
  split
  · exact .refl h
  · split
    · exact .refl h
    · rename_i hargs
      simp only [not_or, not_lt, Bool.not_eq_true', Bool.not_eq_false] at hargs
      split
      · exact .refl h
      · rename_i k hrecord
        obtain ⟨d, hd⟩ := refreshAttachedUnitIdentity_eq nodes
          { c.entries k with state := .detachRequested }
        split <;> rename_i e hrefresh <;> rw [hrefresh] at hd <;> simp only at hd <;> subst hd
        all_goals
          exact .ofRecord h hrecord hargs.2.1 hargs.2.2 (by simp) rfl rfl rfl rfl rfl rfl

/-- A detach is claimed. -/
theorem claimImageCacheDetach_advance (h : WellFormed c) :
    Advance 0 c (claimImageCacheDetach nodes c path generation unitId backend).1 := by
  unfold claimImageCacheDetach
  split
  · exact .refl h
  · split
    · exact .refl h
    · rename_i hargs
      simp only [not_or, not_lt, Bool.not_eq_true', Bool.not_eq_false] at hargs
      split
      · exact .refl h
      · rename_i k hrecord
        split
        · exact .refl h
        · obtain ⟨d, hd⟩ := refreshAttachedUnitIdentity_eq nodes (c.entries k)
          have hk := (findAttachmentRecord_eq_some hrecord).1
          have hshape := h.shape k hk
          split <;> rename_i e hrefresh <;> rw [hrefresh] at hd <;> simp only at hd <;> subst hd
          · exact .modify h hk hk rfl rfl rfl
              ⟨hshape.released, hshape.attaching, hshape.attached⟩
          · exact .ofRecord h hrecord hargs.2.1 hargs.2.2 (by simp) rfl rfl rfl rfl rfl rfl

theorem finishImageCacheDetachAttempt_advance (h : WellFormed c) :
    Advance 0 c
      (finishImageCacheDetachAttempt c path generation unitId backend detachState).1 := by
  unfold finishImageCacheDetachAttempt
  split
  · split
    · exact .refl h
    · rename_i hargs
      simp only [not_or, not_lt, Bool.not_eq_true', Bool.not_eq_false] at hargs
      split
      · exact .refl h
      · rename_i k hrecord
        simp only
        split
        · exact .refl h
        · exact .ofRecord h hrecord hargs.2.1 hargs.2.2.1 (by simp) rfl rfl rfl rfl rfl rfl
  · exact .refl h

theorem invalidateImageCacheEntry_advance (h : WellFormed c) :
    Advance 0 c (invalidateImageCacheEntry c index expected).1 := by
  unfold invalidateImageCacheEntry
  split
  · exact .refl h
  · split
    · simp only
      split
      · exact .refl h
      · split
        · exact .refl h
        · exact .clear h _
    · exact .refl h

end Operations

/-- One operation keeps the invariant and issues at most two generations. -/
theorem WellFormed.apply (h : WellFormed c) (hwrap : c.generation + 2 < 2 ^ 64) (op : Operation) :
    Advance 2 c (apply c op) := by
  cases op with
  | sourceMapping => exact (cacheImageSourceMapping_advance h (by omega)).mono (by omega)
  | begin => exact beginImageAttachment_advance h hwrap
  | cancel => exact (cancelImageAttachment_advance h).mono (by omega)
  | publish => exact (publishImageAttachment_advance h).mono (by omega)
  | complete => exact (completeImageAttachment_advance h).mono (by omega)
  | mount => exact cacheImageMount_advance h hwrap
  | markDetachRequested => exact (markImageCacheDetachRequested_advance h).mono (by omega)
  | claimDetach => exact (claimImageCacheDetach_advance h).mono (by omega)
  | finishDetach => exact (finishImageCacheDetachAttempt_advance h).mono (by omega)
  | invalidate => exact (invalidateImageCacheEntry_advance h).mono (by omega)

/-- A sequence of operations keeps the invariant as long as the counter cannot
have wrapped. -/
theorem run_advance (h : WellFormed c) (ops : List Operation)
    (hwrap : c.generation + 2 * ops.length < 2 ^ 64) : Advance (2 * ops.length) c (run c ops) := by
  induction ops generalizing c with
  | nil => exact .refl h
  | cons op ops ih =>
    simp only [List.length_cons] at hwrap
    have hstep := h.apply (by omega) op
    have hbound := hstep.bound
    have hrest := ih hstep.wellFormed (by omega)
    exact (hstep.trans hrest).mono (by simp only [List.length_cons]; omega)

/-! ## Tokens of earlier attachments -/

/-- The generation an operation carries as part of its token. -/
def Operation.token : Operation → Option Nat
  | .cancel _ generation | .publish _ _ generation _ _ | .complete _ _ generation _ _
  | .markDetachRequested _ _ generation _ _ | .claimDetach _ _ generation _ _
  | .finishDetach _ generation _ _ _ => some generation
  | .invalidate _ expected => expected.map EntryView.generation
  | .sourceMapping _ _ | .begin _ _ | .mount _ _ _ _ _ => none

/-- Storing into a slot of one generation leaves every slot of another
generation alone. -/
theorem set_entries_of_generation (e : Entry) (hj : (c.entries j).generation = generation)
    (hk : (c.entries k).generation ≠ generation) : (c.set j e).entries k = c.entries k :=
  set_entries_of_ne c e (fun heq => hk (heq ▸ hj))

/-- An operation that carries a generation changes no slot of another
generation. -/
theorem apply_entries_of_token {op : Operation} (htoken : op.token = some generation)
    (hk : (c.entries k).generation ≠ generation) : (apply c op).entries k = c.entries k := by
  cases op with
  | sourceMapping path mountPoint => cases htoken
  | begin path mountPoint => cases htoken
  | mount nodes path mountPoint unitId backend => cases htoken
  | cancel path g =>
    cases htoken
    simp only [apply, cancelImageAttachment]
    repeat' split
    all_goals first | rfl | skip
    rename_i hreserved
    simp only [isUnpublishedReservation, Bool.and_eq_true, decide_eq_true_eq] at hreserved
    exact set_entries_of_generation _ hreserved.1.1.1 hk
  | publish nodes path g unitId backend =>
    cases htoken
    simp only [apply, publishImageAttachment]
    repeat' split
    all_goals first | rfl | skip
    rename_i hreserved
    simp only [isUnpublishedReservation, Bool.and_eq_true, decide_eq_true_eq] at hreserved
    exact set_entries_of_generation _ hreserved.1.1.1 hk
  | complete nodes path g unitId backend =>
    cases htoken
    simp only [apply, completeImageAttachment]
    repeat' split
    all_goals first | rfl | skip
    rename_i hrecord
    simp only [ne_eq, decide_not, Bool.or_eq_true, Bool.not_eq_eq_eq_not, Bool.not_true,
      decide_eq_false_iff_not, not_or, not_not] at hrecord
    exact set_entries_of_generation _ hrecord.1.1.1 hk
  | markDetachRequested nodes path g unitId backend =>
    cases htoken
    simp only [apply, markImageCacheDetachRequested]
    repeat' split
    all_goals first | rfl | skip
    all_goals
      rename_i hrecord _ _ _
      exact set_entries_of_generation _ (findAttachmentRecord_eq_some hrecord).2.2.1 hk
  | claimDetach nodes path g unitId backend =>
    cases htoken
    simp only [apply, claimImageCacheDetach]
    repeat' split
    all_goals first | rfl | skip
    all_goals
      rename_i hrecord _ _ _ _
      exact set_entries_of_generation _ (findAttachmentRecord_eq_some hrecord).2.2.1 hk
  | finishDetach path g unitId backend detachState =>
    cases htoken
    simp only [apply, finishImageCacheDetachAttempt]
    repeat' split
    all_goals first | rfl | skip
    rename_i hrecord _
    exact set_entries_of_generation _ (findAttachmentRecord_eq_some hrecord).2.2.1 hk
  | invalidate index expected =>
    cases expected with
    | none => cases htoken
    | some expected =>
      cases htoken
      simp only [apply, invalidateImageCacheEntry]
      repeat' split
      all_goals first | rfl | skip
      rename_i howns
      simp only [ownsExpectedAttachment, Bool.not_eq_true', Bool.not_eq_false,
        Bool.and_eq_true, decide_eq_true_eq] at howns
      exact set_entries_of_generation _ howns.1.1.1.1.1.1.1.1 hk

/-! ## Whole sequences -/

theorem run_append (c : Cache n) (earlier later : List Operation) :
    run c (earlier ++ later) = run (run c earlier) later :=
  List.foldl_append

/-- Over every sequence of public operations, with any arguments and any device
nodes observed: the keys of valid entries are unique, so the duplicate branch of
`find_mapping_indices` is never taken; every valid entry has the right shape;
a generation seen after `earlier` either was issued later or still belongs
to the slot and mapping that had it then; and an operation whose token was issued
during `earlier` changes no entry created or re-cached during
`later`.  The hypothesis keeps the 64-bit generation counter from
wrapping.  That a reservation and `cache_image_mount` issue a generation above all earlier ones
is `beginImageAttachment_slots` and `cacheImageMount_cases` of the mount pipeline. -/
theorem run_representation (earlier later : List Operation)
    (hwrap : 2 * (earlier ++ later).length < 2 ^ 64) :
    let before := run (Cache.initial : Cache n) earlier
    let after := run (Cache.initial : Cache n) (earlier ++ later)
    Representation after ∧
      (∀ path mountPoint, findMappingIndices after path mountPoint ≠ .error .EEXIST) ∧
      (∀ k, (after.entries k).valid → (after.entries k).generation ≤ before.generation →
        (before.entries k).valid = true ∧
          (before.entries k).generation = (after.entries k).generation ∧
          (before.entries k).path = (after.entries k).path ∧
          (before.entries k).mountPoint = (after.entries k).mountPoint) ∧
      (∀ op generation k, op.token = some generation → generation ≤ before.generation →
        before.generation < (after.entries k).generation →
        (apply after op).entries k = after.entries k) := by
  rw [List.length_append] at hwrap
  intro before after
  have hbefore : Advance (2 * earlier.length) Cache.initial before :=
    run_advance wellFormed_initial earlier (by simp only [Cache.initial]; omega)
  have hbound := hbefore.bound
  have hafter : Advance (2 * later.length) before after := by
    have hrun := run_advance hbefore.wellFormed later
      (by simp only [Cache.initial] at hbound; omega)
    rwa [← run_append] at hrun
  refine ⟨hafter.wellFormed.toRepresentation, ?_, hafter.kept, ?_⟩
  · intro path mountPoint herr
    obtain ⟨p, m, hok, -, -⟩ :=
      findMappingIndices_spec hafter.wellFormed.toRepresentation path mountPoint
    rw [hok] at herr
    cases herr
  · intro op generation k htoken hold hnew
    exact apply_entries_of_token htoken (by omega)

/-- The hypothesis is met by short sequences, here a reservation followed by a
mount found in the kernel table. -/
theorem run_representation_reserve_then_mount :
    let reserve := Operation.begin (some "/data/game.exfat".toList) (some "/mnt/game".toList)
    let found := Operation.mount (fun _ _ => some ⟨1, 7, 3⟩) (some "/data/game.exfat".toList)
      (some "/mnt/game".toList) 3 .lvd
    2 * ([reserve] ++ [found]).length < 2 ^ 64 ∧
      Representation (run (Cache.initial : Cache maxImageMounts) ([reserve] ++ [found])) :=
  ⟨by decide, (run_representation _ _ (by decide)).1⟩

end ShadowMount.ImageCache
