import ShadowMount.PkgBackport.Cleanup

/-!
# Redirect sessions - Ownership of redirects

Main results:

- Theorem {lit}`satisfies_createChildRedirects`: whatever is created is recorded, also when
  the work stops half way.
- Theorem {lit}`redirects_owned`: in every run the sessions own the redirects that exist.
-/

namespace ShadowMount.PkgBackport

open Foundation

variable {w₀ : World} {m m' : Machine World Call Error} {k : Fin maxSessions}
  {env : Environment}
variable {name titleId destination : Text} {w : World}

theorem app0Path_injective {name' : Text} (h : app0Path name = app0Path name') : name = name' := by
  unfold app0Path at h
  exact List.append_cancel_left (List.append_cancel_right h)

/-- The parts of a name of `/mnt/sandbox`. -/
theorem isSandboxOf_parts (h : isSandboxOf titleId name = true) :
    name.take titleId.length = titleId ∧ name[titleId.length]? = some '_' ∧
      ∀ c ∈ name.drop (titleId.length + 1), c.isDigit = true := by
  unfold isSandboxOf at h
  simp only [Bool.and_eq_true, decide_eq_true_eq, List.all_eq_true] at h
  exact ⟨h.1.1.1.2, h.1.1.2, h.1.2⟩

theorem not_lt_of_isSandboxOf {titleId' : Text} (h : isSandboxOf titleId name = true)
    (h' : isSandboxOf titleId' name = true) : ¬titleId.length < titleId'.length := by
  intro hlt
  rcases isSandboxOf_parts h with ⟨-, -, hdigits⟩
  rcases isSandboxOf_parts h' with ⟨-, hunderscore, -⟩
  have hmem : '_' ∈ name.drop (titleId.length + 1) := by
    apply List.mem_of_getElem? (i := titleId'.length - (titleId.length + 1))
    rw [List.getElem?_drop]
    rw [show titleId.length + 1 + (titleId'.length - (titleId.length + 1)) = titleId'.length
      by omega]
    exact hunderscore
  exact absurd (hdigits '_' hmem) (by decide)

theorem isSandboxOf_unique {titleId' : Text} (h : isSandboxOf titleId name = true)
    (h' : isSandboxOf titleId' name = true) : titleId = titleId' := by
  have hlength : titleId.length = titleId'.length := by
    have hle := not_lt_of_isSandboxOf h h'
    have hge := not_lt_of_isSandboxOf h' h
    omega
  rw [← (isSandboxOf_parts h).1, ← (isSandboxOf_parts h').1, hlength]

theorem zero_not_mem_app0Path (h : '\x00' ∉ name) : '\x00' ∉ app0Path name := by
  unfold app0Path
  rw [List.mem_append, List.mem_append]
  rintro ((hbefore | hname) | hsuffix)
  · exact absurd hbefore (by decide)
  · exact h hname
  · exact absurd hsuffix (by decide)

/-- A path that `resolve_pkg_app0_path` finds. -/
def IsApp0Of (titleId path : Text) : Prop :=
  ∃ name, isSandboxOf titleId name = true ∧ '\x00' ∉ name ∧ path = app0Path name

theorem resolveEntries_some {view : View} (names : List FileName)
    {found : Option (Text × NamespaceId)} {result : Text × NamespaceId}
    (h : resolveEntries view titleId names found = .ok (some result))
    (hfound : ∀ p, found = some p → IsApp0Of titleId p.1) : IsApp0Of titleId result.1 := by
  induction names generalizing found with
  | nil => exact hfound result (Except.ok.inj h)
  | cons file rest ih =>
    rcases file with ⟨name, hzero⟩
    simp only [resolveEntries] at h
    split at h
    · rename_i hsandbox
      rw [Bool.and_eq_true] at hsandbox
      split at h
      · split at h
        · exact ih h hfound
        · cases h
      · split at h
        · split at h
          · split at h
            · exact ih h hfound
            · cases h
          · split at h
            · split at h
              · cases h
              · refine ih h ?_
                intro p hp
                cases hp
                exact ⟨name, hsandbox.1, hzero, rfl⟩
            · exact ih h hfound
        · exact ih h hfound
    · exact ih h hfound

theorem resolvePkgApp0Path_ok {view : View} {found : Text × NamespaceId}
    (h : resolvePkgApp0Path view titleId = .ok found) : IsApp0Of titleId found.1 := by
  unfold resolvePkgApp0Path at h
  cases hnames : view.readdir "/mnt/sandbox".toList with
  | error e =>
    rw [hnames] at h
    cases h
  | ok names =>
    rw [hnames] at h
    cases hentries : resolveEntries view titleId names none with
    | error e =>
      simp only [bind, Except.bind, hentries] at h
      cases h
    | ok result =>
      simp only [bind, Except.bind, hentries] at h
      cases result with
      | none => cases h
      | some p =>
        cases h
        exact resolveEntries_some names hentries nofun

theorem growCapacity_le {needed : Nat} (rounds : Nat) {capacity result : Nat}
    (h : Session.growCapacity needed rounds capacity = some result) :
    needed ≤ result ∧ capacity ≤ result := by
  induction rounds generalizing capacity with
  | zero => cases h
  | succ rounds ih =>
    unfold Session.growCapacity at h
    split at h
    · split at h
      · cases h
      · have hle := ih h
        omega
    · rename_i hlarge
      cases h
      omega

/-- The session that is being filled, in the course of an event. -/
structure Filling (w₀ : World) (k : Fin maxSessions) (m : Machine World Call Error) : Prop where
  good : Good w₀ (some k) m
  free : (m.world.sessions k).installed = false

theorem Filling.passed (h : Filling w₀ k m) (hg : Good w₀ (some k) m') (hpassed : Passed m m') :
    Filling w₀ k m' := by
  refine ⟨hg, ?_⟩
  rw [hpassed.sessions]
  exact h.free

theorem Filling.perform (h : Filling w₀ k m) {call : Call} (hcall : Allowed m call) :
    Satisfies (perform env call) m fun _ m' => Filling w₀ k m' ∧ Passed m m' :=
  (h.good.perform hcall).mono fun _ _ hm => ⟨h.passed hm.1 hm.2, hm.2⟩

theorem Filling.ask (h : Filling w₀ k m) {α : Type} {call : Except Error α → Call}
    {read : View → Except Error α}
    (hcall : ∀ answer root namespaceId destination serial,
      call answer ≠ .delete root namespaceId destination serial) :
    Satisfies (ask env call read) m fun _ m' => Filling w₀ k m' :=
  (h.good.ask hcall).mono fun _ _ hm => h.passed hm.1 hm.2.1

theorem satisfies_reserveDestinationStorage (h : Filling w₀ k m) (needed : Nat) :
    Satisfies (reserveDestinationStorage env k needed) m fun result m' =>
      Filling w₀ k m' ∧ (m'.world.sessions k).redirects = (m.world.sessions k).redirects ∧
        (m'.world.sessions k).written = (m.world.sessions k).written ∧
        (result = none → needed ≤ (m'.world.sessions k).storageCapacity) := by
  unfold reserveDestinationStorage
  refine .bind (satisfies_getSession ?_)
  split
  · rename_i hfits
    exact ⟨h, rfl, rfl, fun _ => hfits⟩
  · split
    · exact ⟨h, rfl, rfl, nofun⟩
    · rename_i capacity hgrow
      have hle := growCapacity_le 64 hgrow
      refine .andThen _ (h.perform (allowed_other _)) ?_
      rintro result m₁ ⟨h₁, hpassed⟩
      have hsessions : m₁.world.sessions k = m.world.sessions k := by rw [hpassed.sessions]
      cases result with
      | some e =>
        refine ⟨h₁, ?_, ?_, nofun⟩
        · show (m₁.world.sessions k).redirects = _
          rw [hsessions]
        · show (m₁.world.sessions k).written = _
          rw [hsessions]
      | none =>
        refine .bind (satisfies_update (.pure ?_))
        have hgrown : (m₁.world.sessions k).storageCapacity ≤ capacity := by
          rw [hsessions]
          have hstart := hle.2
          split at hstart
          · omega
          · exact hstart
        have hself := updateSession_self m₁.world k fun s =>
          { s with storage := some s.written, storageCapacity := capacity }
        have hredirects : (m₁.world.sessions k).redirects = (m.world.sessions k).redirects := by
          rw [hsessions]
        have hwritten : (m₁.world.sessions k).written = (m.world.sessions k).written := by
          rw [hsessions]
        refine ⟨⟨h₁.good.same ⟨rfl, rfl, rfl, rfl, hgrown⟩ rfl rfl, ?_⟩, ?_, ?_, fun _ => ?_⟩
        · exact (congrArg Session.installed hself).trans h₁.free
        · exact (congrArg Session.redirects hself).trans hredirects
        · exact (congrArg Session.written hself).trans hwritten
        · exact Nat.le_trans hle.1 (Nat.le_of_eq (congrArg Session.storageCapacity hself).symm)

/-- A redirect is created and recorded at once. -/
theorem satisfies_createRedirect (h : Filling w₀ k m) {source : Text} {type : RedirectType}
    (hzero : '\x00' ∉ destination) (hlength : destination.length < maxPath) :
    Satisfies (createRedirect env k source destination type) m fun _ m' => Filling w₀ k m' := by
  unfold createRedirect
  refine .bind (satisfies_getSession ?_)
  split
  · exact h
  · rename_i hcount
    split
    · exact h
    · split
      · exact h
      · refine .andThen _ (satisfies_reserveDestinationStorage h _) ?_
        rintro result m₁ ⟨h₁, hredirects, hwritten, hroom⟩
        cases result with
        | some e => exact h₁
        | none =>
          refine .andThen _ (h₁.perform ?_) ?_
          · intro root namespaceId text serial heq
            cases heq
          · rintro created m₂ ⟨h₂, hpassed⟩
            have hsessions : m₂.world.sessions k = m₁.world.sessions k := by
              rw [hpassed.sessions]
            cases created with
            | some e => exact h₂
            | none =>
              refine .bind (satisfies_update ?_)
              refine ⟨h₂.good.add h₂.free hzero hlength ?_ ?_, ?_⟩
              · rw [hsessions, hredirects]
                exact Nat.not_le.mp hcount
              · rw [hsessions, hwritten]
                exact hroom rfl
              · show ((m₂.world.addRedirect k destination).sessions k).installed = false
                rw [addRedirect_self]
                exact h₂.free

theorem zero_not_mem_childPath {directory : Text} (h : '\x00' ∉ directory) (name : FileName) :
    '\x00' ∉ childPath directory name.text := by
  unfold childPath
  rw [List.mem_append, List.mem_cons]
  rintro (hdirectory | hslash | hname)
  · exact h hdirectory
  · exact absurd hslash (by decide)
  · exact name.noZero hname

section
variable {descend : Text → Text → Program (Option Error)}
  (hdescend : ∀ source destination m, '\x00' ∉ destination → Filling w₀ k m →
    Satisfies (descend source destination) m fun _ m' => Filling w₀ k m')

include hdescend

/-- One entry of the backport is redirected. -/
theorem satisfies_createEntry (h : Filling w₀ k m) (source : Text) (hzero : '\x00' ∉ destination) :
    Satisfies (createEntry env k descend source destination) m fun _ m' => Filling w₀ k m' := by
  unfold createEntry
  split
  · exact h
  · rename_i hlong
    have hlength : destination.length < maxPath := by
      rw [Bool.or_eq_true, decide_eq_true_eq, decide_eq_true_eq] at hlong
      omega
    refine .andThen _ (h.ask nofun) ?_
    rintro answer m₁ h₁
    cases answer with
    | error e => exact h₁
    | ok st =>
      simp only
      cases st.kind with
      | regular => exact satisfies_createRedirect h₁ hzero hlength
      | other => exact h₁
      | directory =>
        refine .andThen _ (h₁.ask nofun) ?_
        rintro answer m₂ h₂
        cases answer with
        | ok dst =>
          simp only
          split
          · exact hdescend source destination m₂ hzero h₂
          · exact h₂
        | error e =>
          simp only
          split
          · exact satisfies_createRedirect h₂ hzero hlength
          · exact h₂

theorem satisfies_createEntries (names : List FileName) (h : Filling w₀ k m) (sourceRoot : Bool)
    (source : Text) (hzero : '\x00' ∉ destination) :
    Satisfies (createEntries env k descend sourceRoot source destination names) m
      fun _ m' => Filling w₀ k m' := by
  induction names generalizing m with
  | nil => exact (h.perform (allowed_other _)).mono fun _ _ hm => hm.1
  | cons name rest ih =>
    unfold createEntries
    refine .andThen _ (h.perform (allowed_other _)) ?_
    rintro result m₁ ⟨h₁, -⟩
    cases result with
    | some e => exact h₁
    | none =>
      simp only
      split
      · exact ih h₁
      · refine .andThen _ (satisfies_createEntry hdescend h₁ _
          (zero_not_mem_childPath hzero name)) ?_
        rintro result m₂ h₂
        cases result with
        | some e => exact h₂
        | none => exact ih h₂

end

theorem satisfies_createChildRedirects (depth : Nat) (h : Filling w₀ k m) (sourceRoot : Bool)
    (source : Text) (hzero : '\x00' ∉ destination) :
    Satisfies (createChildRedirects env k depth sourceRoot source destination) m
      fun _ m' => Filling w₀ k m' := by
  induction depth generalizing m sourceRoot source destination with
  | zero => exact h
  | succ depth ih =>
    unfold createChildRedirects
    refine .andThen _ (h.ask nofun) ?_
    rintro answer m₁ h₁
    cases answer with
    | error e => exact h₁
    | ok names =>
      refine .andThen _ (satisfies_createEntries ?_ names h₁ sourceRoot source hzero) ?_
      · intro source' destination' m' hzero' h'
        exact ih h' false source' hzero'
      · rintro failed m₂ h₂
        exact .andThen _ (h₂.perform (allowed_other _)) fun _ _ h₃ => h₃.1

/-- Sessions are as they were, or were given up. -/
def OnlyReset (m m' : Machine World Call Error) : Prop :=
  ∀ k, m'.world.sessions k = m.world.sessions k ∨ (m'.world.sessions k).installed = false

theorem Passed.onlyReset (h : Passed m m') : OnlyReset m m' := by
  intro k
  left
  rw [h.sessions]

theorem OnlyReset.trans {m'' : Machine World Call Error} (h : OnlyReset m m')
    (h' : OnlyReset m' m'') : OnlyReset m m'' := by
  intro k
  rcases h' k with heq | hfree
  · rw [heq]
    exact h k
  · exact .inr hfree

theorem onlyReset_resetSession (m : Machine World Call Error) (k : Fin maxSessions) :
    OnlyReset m { m with world := m.world.resetSession k } := by
  intro k'
  by_cases hk : k' = k
  · subst hk
    right
    exact congrArg Session.installed (updateSession_self m.world k' fun _ => Session.empty)
  · left
    exact updateSession_other hk m.world fun _ => Session.empty

/-- A session belongs to a title and its namespace. -/
def Session.IsFor (s : Session) (titleId destination : Text) (namespaceId : NamespaceId) : Prop :=
  s.titleId = titleId ∧ s.rootDestination = destination ∧ s.namespaceId = namespaceId

/-- The session of a title and its sandbox is found. -/
theorem satisfies_findSession (ks : List (Fin maxSessions)) (hg : Good w₀ none m)
    (titleId destination : Text) (namespaceId : NamespaceId) :
    Satisfies (findSession env titleId destination namespaceId ks) m fun result m' =>
      Good w₀ none m' ∧ OnlyReset m m' ∧
        (result = none → ∀ k ∈ ks, (m'.world.sessions k).installed = true →
          ¬(m'.world.sessions k).IsFor titleId destination namespaceId) := by
  induction ks generalizing m with
  | nil => exact ⟨hg, (Passed.refl m).onlyReset, nofun⟩
  | cons k rest ih =>
    -- What the rest of the loop leaves of a session that was passed over.
    have hrest : ∀ m₁, Good w₀ none m₁ → OnlyReset m m₁ →
        ((m₁.world.sessions k).installed = true →
          ¬(m₁.world.sessions k).IsFor titleId destination namespaceId) →
        Satisfies (findSession env titleId destination namespaceId rest) m₁ fun result m' =>
          Good w₀ none m' ∧ OnlyReset m m' ∧
            (result = none → ∀ k' ∈ k :: rest, (m'.world.sessions k').installed = true →
              ¬(m'.world.sessions k').IsFor titleId destination namespaceId) := by
      intro m₁ hg₁ hreset₁ hk
      refine (ih hg₁).mono ?_
      rintro result m' ⟨hg', hreset', hnone⟩
      refine ⟨hg', hreset₁.trans hreset', fun hresult k' hk' hinstalled => ?_⟩
      rcases List.mem_cons.mp hk' with rfl | hk'
      · rcases hreset' k' with heq | hfree
        · rw [heq] at hinstalled ⊢
          exact hk hinstalled
        · rw [hfree] at hinstalled
          cases hinstalled
      · exact hnone hresult k' hk' hinstalled
    unfold findSession
    refine .bind (satisfies_getSession ?_)
    split
    · rename_i hinstalled
      split
      · exact ⟨hg, (Passed.refl m).onlyReset, nofun⟩
      · rename_i hother
        have hnot : ¬(m.world.sessions k).IsFor titleId destination namespaceId := by
          rintro ⟨htitle, hroot, hns⟩
          apply hother
          simp [htitle, hroot, hns]
        refine .andThen _ (satisfies_sessionNamespaceStatus hg) ?_
        rintro status m₁ ⟨hg₁, hpassed, hstatus⟩
        have hsessions : m₁.world.sessions k = m.world.sessions k := by rw [hpassed.sessions]
        have hnot₁ : (m₁.world.sessions k).installed = true →
            ¬(m₁.world.sessions k).IsFor titleId destination namespaceId := by
          intro _
          rw [hsessions]
          exact hnot
        cases status with
        | accessible => exact hrest m₁ hg₁ hpassed.onlyReset hnot₁
        | unavailable e => exact hrest m₁ hg₁ hpassed.onlyReset hnot₁
        | gone =>
          refine .bind (satisfies_update ?_)
          have hreset := onlyReset_resetSession m₁ k
          refine hrest _ (hg₁.reset_gone (fun k' h => by cases h) ?_)
            (hpassed.onlyReset.trans hreset) ?_
          · rw [hsessions]
            exact hstatus
          · intro hinstalled'
            rcases hreset k with heq | hfree
            · rw [heq] at hinstalled' ⊢
              exact hnot₁ hinstalled'
            · rw [hfree] at hinstalled'
              cases hinstalled'
    · rename_i hfree
      exact hrest m hg (Passed.refl m).onlyReset fun hinstalled => absurd hinstalled hfree

theorem findFreeSession_some (h : findFreeSession w = some k) :
    (w.sessions k).installed = false := by
  have hfree := List.find?_some h
  rwa [Bool.not_eq_true'] at hfree

/-- A session that was set up has no redirects yet, and a namespace of its own. -/
theorem satisfies_prepareSession (hg : Good w₀ none m) (hpath : IsApp0Of titleId destination)
    (source : Text) (namespaceId : NamespaceId) :
    Satisfies (prepareSession env titleId source destination namespaceId) m fun result m' =>
      match result with
      | .fresh k => Filling w₀ k m' ∧ (m'.world.sessions k).redirects = []
      | _ => Good w₀ none m' := by
  unfold prepareSession
  refine .andThen _
    (satisfies_findSession (List.finRange maxSessions) hg titleId destination namespaceId) ?_
  rintro result m₁ ⟨hg₁, -, hnone⟩
  cases result with
  | some k =>
    refine .bind (satisfies_getSession ?_)
    split
    · exact hg₁
    · exact hg₁
  | none =>
    refine .bind (satisfies_currentWorld ?_)
    cases hfree : findFreeSession m₁.world with
    | none => exact hg₁
    | some k =>
      refine .bind (satisfies_update (.pure ?_))
      rcases hpath with ⟨name, hname, -, hdestination⟩
      have hself := updateSession_self m₁.world k fun _ =>
        Session.fresh titleId source destination namespaceId
      refine ⟨⟨hg₁.prepare (findFreeSession_some hfree) hname hdestination ?_,
        congrArg Session.installed hself⟩, congrArg Session.redirects hself⟩
      rintro k' hinstalled ⟨hroot, hns⟩
      -- The sandbox of the other session is the same one, hence its title too.
      rcases hg₁.settled.named k' (.inl hinstalled) with ⟨name', hname', hroot'⟩
      have hnames : name' = name := by
        apply app0Path_injective
        rw [← hroot', hroot, hdestination]
      subst hnames
      have htitle := isSandboxOf_unique hname' hname
      exact hnone rfl k' (List.mem_finRange k') hinstalled ⟨htitle, hroot, hns⟩

theorem eq_of_some_eq {k k' : Fin maxSessions} (h : some k = some k') : k' = k :=
  (Option.some.inj h).symm

theorem Filling.reset (h : Filling w₀ k m) (hempty : (m.world.sessions k).redirects = []) :
    Good w₀ none { m with world := m.world.resetSession k } := by
  refine h.good.reset_deleted (fun _ => eq_of_some_eq) ?_
  intro redirect hredirect
  rw [hempty] at hredirect
  cases hredirect

theorem satisfies_rollbackSession (h : Filling w₀ k m) (error : Error) :
    Satisfies (rollbackSession env k error) m fun _ m' => Good w₀ none m' := by
  unfold rollbackSession
  refine .bind (satisfies_update ?_)
  have hg₁ := h.good.install h.free
    (f := fun s => { s with installed := decide (s.redirects ≠ []) })
    ⟨rfl, rfl, rfl, rfl, Nat.le_refl _⟩ rfl fun hne => decide_eq_true hne
  refine .andThen _ (satisfies_cleanupSession hg₁) ?_
  rintro result m₂ ⟨hg₂, hempty⟩
  cases result with
  | some e =>
    exact .andThen _ (satisfies_schedulePkgCleanup hg₂ e) fun _ _ hg₃ => hg₃
  | none =>
    refine .bind (satisfies_update ?_)
    refine hg₂.reset_deleted nofun ?_
    intro redirect hredirect
    rw [hempty rfl] at hredirect
    cases hredirect

theorem satisfies_installSession (h : Filling w₀ k m) :
    Satisfies (installSession k) m fun _ m' => Good w₀ none m' := by
  unfold installSession
  refine .bind (satisfies_getSession ?_)
  split
  · rename_i hempty
    exact .bind (satisfies_update (h.reset hempty))
  · refine .bind (satisfies_update ?_)
    exact h.good.install h.free ⟨rfl, rfl, rfl, rfl, Nat.le_refl _⟩ rfl fun _ => rfl

/-- The redirects of a backport are created. -/
theorem satisfies_fillSession (h : Filling w₀ k m) (hempty : (m.world.sessions k).redirects = [])
    (source : Text) (hzero : '\x00' ∉ destination) :
    Satisfies (fillSession env k source destination) m fun _ m' => Good w₀ none m' := by
  unfold fillSession
  refine .andThen _ (h.perform (allowed_other _)) ?_
  rintro opened m₁ ⟨h₁, hpassed₁⟩
  cases opened with
  | some e => exact satisfies_rollbackSession h₁ e
  | none =>
    refine .bind (satisfies_getSession ?_)
    refine .andThen _ (satisfies_sessionNamespaceStatus h₁.good) ?_
    rintro status m₂ ⟨hg₂, hpassed₂, hstatus⟩
    have h₂ := h₁.passed hg₂ hpassed₂
    have hempty₂ : (m₂.world.sessions k).redirects = [] := by
      rw [(hpassed₁.trans hpassed₂).sessions]
      exact hempty
    cases status with
    | gone => exact .bind (satisfies_update (h₂.reset hempty₂))
    | unavailable e => exact .bind (satisfies_update (h₂.reset hempty₂))
    | accessible =>
      refine .andThen _ (satisfies_createChildRedirects _ h₂ true source hzero) ?_
      rintro result m₃ h₃
      cases result with
      | some e => exact satisfies_rollbackSession h₃ e
      | none => exact satisfies_installSession h₃

theorem satisfies_onSandboxReady (hg : Good w₀ none m) (source : Text) {found : Text × NamespaceId}
    (hpath : IsApp0Of titleId found.1) :
    Satisfies (onSandboxReady env titleId source found) m fun _ m' => Good w₀ none m' := by
  unfold onSandboxReady
  refine .bind (satisfies_observe ?_)
  have hg₁ := hg.see (env m.clock) (m.clock + 1)
  split
  · exact hg₁
  · refine .andThen _ (satisfies_prepareSession hg₁ hpath source found.2) ?_
    intro prepared m₂ h₂
    cases prepared with
    | refused e => exact h₂
    | alreadyReady => exact h₂
    | fresh k =>
      rcases hpath with ⟨name, -, hzero, hpath⟩
      refine satisfies_fillSession h₂.1 h₂.2 source ?_
      rw [hpath]
      exact zero_not_mem_app0Path hzero

/-- The world between events. -/
structure Sound (w : World) : Prop where
  core : Core w
  settled : Settled none w

theorem Sound.start {w : World} (h : Sound w) (answers : Nat → Answer Error) :
    Good w none (w.start answers) where
  core := h.core
  settled := h.settled
  log := trivial
  kept _ hk := .inl ⟨hk, rfl, rfl, rfl⟩

theorem Sound.run (h : Sound w) (op : Step) : Good w none (run w op) := by
  cases op with
  | sandboxReady titleId source resolution env answers =>
    simp only [PkgBackport.run]
    split
    · rename_i source found hfound
      split
      · exact satisfies_onSandboxReady (h.start answers) source (resolvePkgApp0Path_ok hfound)
      · exact h.start answers
    · exact h.start answers
  | exec pid titleId => exact satisfies_onExec (h.start _) pid titleId
  | exit pid env answers => exact satisfies_onExit (h.start answers) pid
  | launchFailed titleId env answers => exact satisfies_onLaunchFailed (h.start answers) titleId
  | poll env answers => exact satisfies_pollCleanup (h.start answers)
  | shutdown env answers => exact satisfies_shutdown (h.start answers)
  | change view =>
    exact ⟨h.core.see view, h.settled.congr rfl, trivial,
      fun _ hk => .inl ⟨hk, rfl, rfl, rfl⟩⟩

theorem Sound.initial : Sound World.initial := by
  refine ⟨Core.initial, ?_, ?_, ?_⟩
  · intro k _ hne
    exact absurd rfl hne
  · intro k k' _ hk
    rcases hk with hk | hk
    · cases hk
    · cases hk
  · intro k hk
    rcases hk with hk | hk
    · cases hk
    · cases hk

theorem Sound.reachable (h : Reachable system w) : Sound w := by
  apply Reachable.invariant _ _ h
  · rintro w rfl
    exact Sound.initial
  · rintro w op w' hw rfl
    exact ⟨(hw.run op).core, (hw.run op).settled⟩

/-- The sessions own the redirects that exist. -/
structure Owned (w : World) : Prop where
  recorded : ∀ r ∈ w.live, ∃ k, (w.sessions k).installed = true ∧ (w.sessions k).Records r
  once : w.released.Nodup ∧ ∀ r ∈ w.live, r.serial ∉ w.released
  distinct : ∀ k k', k ≠ k' → (w.sessions k).installed = true →
    (w.sessions k').installed = true →
    ¬((w.sessions k).rootDestination = (w.sessions k').rootDestination ∧
      (w.sessions k).namespaceId = (w.sessions k').namespaceId)
  offsets : ∀ k, ∀ redirect ∈ (w.sessions k).redirects,
    redirect.destinationOffset = deletedOffset ∨
      ∃ destination, PointsAt (w.sessions k).written redirect.destinationOffset destination ∧
        (w.sessions k).written.length ≤ (w.sessions k).storageCapacity

/-- What an event does: it deletes, in namespaces that it has found before, redirects that
have not ended, and gives up a session only when all redirects of it have ended or its
namespace is not in the mount table. -/
structure Careful (w : World) (m : Machine World Call Error) : Prop where
  deletes : ∀ newer e older root namespaceId destination serial, m.log = newer ++ e :: older →
    e.call = .delete root namespaceId destination serial →
      VerifiedIn older root namespaceId ∧ serial ∉ e.world.released
  sessions : ∀ k, (w.sessions k).installed = true →
    Survives (w.sessions k) (m.world.sessions k) ∨ Ended (w.sessions k) m

theorem DeletesVerified.split {newer older : Log} {e : Event World Call Error}
    (h : DeletesVerified (newer ++ e :: older)) : DeletesVerified (e :: older) := by
  induction newer with
  | nil => exact h
  | cons e' newer ih => exact ih h.1

theorem Sound.owned (h : Sound w) : Owned w := by
  refine ⟨?_, ⟨h.core.once, ?_⟩, ?_, ?_⟩
  · intro r hr
    rcases h.core.recorded r hr with ⟨k, hrecords⟩
    refine ⟨k, ?_, hrecords⟩
    rcases hrecords with ⟨redirect, hredirect, -⟩
    exact h.settled.installed k nofun (List.ne_nil_of_mem hredirect)
  · intro r hr hreleased
    rcases h.core.recorded r hr with ⟨k, redirect, hredirect, hserial, -, -, hdestination⟩
    rw [← hserial] at hreleased
    have hdeleted := (h.core.marks k redirect hredirect).mpr hreleased
    exact ne_deleted_of_destination hdestination hdeleted
  · intro k k' hne hk hk'
    exact h.settled.distinct k k' hne (.inl hk) (.inl hk')
  · intro k redirect hredirect
    rcases (h.core.stored k).offsets redirect hredirect with hdeleted | ⟨destination, hpoints⟩
    · exact .inl hdeleted
    · exact .inr ⟨destination, hpoints, (h.core.stored k).capacity⟩

/-- In every run, with any failing calls and any changes of the file systems, the
sessions own the redirects that exist, and every event is careful. -/
theorem redirects_owned {w : World} (h : Reachable system w) :
    Owned w ∧ ∀ op, Careful w (run w op) := by
  have hsound := Sound.reachable h
  refine ⟨hsound.owned, fun op => ⟨?_, (hsound.run op).kept⟩⟩
  intro newer e older root namespaceId destination serial hlog hcall
  have hverified := (hsound.run op).log
  rw [hlog] at hverified
  exact hverified.split.2 root namespaceId destination serial hcall

/-- A game with one sandbox, and a backport of one file. -/
def sampleView : View where
  readdir path :=
    if path = "/mnt/sandbox".toList then .ok [⟨"PPSA00001_000".toList, by decide⟩]
    else .ok [⟨"eboot.bin".toList, by decide⟩]
  stat _ := .ok ⟨.directory, 7⟩
  lstat _ := .ok ⟨.regular, 3⟩
  statfs path := .ok ⟨"nsfs".toList, path, 5⟩
  mounts := [⟨"nsfs".toList, "/mnt/sandbox/PPSA00001_000/app0".toList, 5⟩]
  halting := false
  now := 1

/-- A game runs with a redirect, which cannot be deleted at its exit and is deleted later. -/
def sampleRun : List Step :=
  [.sandboxReady "PPSA00001".toList (some "/data/backport".toList) sampleView
      (fun _ => sampleView) fun _ => ⟨none, 0⟩,
    .exec 9 "PPSA00001".toList,
    .exit 9 (fun _ => sampleView) fun call => ⟨if call = 3 then some .EBUSY else none, 0⟩,
    .poll (fun _ => { sampleView with now := 300000 }) fun _ => ⟨none, 0⟩]

theorem redirects_owned_cleanup :
    let after := fun n => (sampleRun.take n).foldl next World.initial
    (after 3).live.length = 1 ∧ (after 4).live = [] ∧ (after 4).released = [0] ∧
      ∀ n, Owned (after n) ∧ ∀ op, Careful (after n) (run (after n) op) :=
  ⟨by decide +kernel, by decide +kernel, by decide +kernel,
    fun n => redirects_owned (.foldl (sampleRun.take n))⟩

end ShadowMount.PkgBackport
