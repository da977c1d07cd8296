import ShadowMount.FakelibCache.Removal

/-!
# Fakelib cache - Programs that build a cache

What the parts of {lit}`rebuild_fakelib_cache` do.  A build that succeeds ends with the
rename of the temporary cache, which then holds the complete result of the build and
its manifest; all calls before that, and all calls of a build that fails, leave the
cache of the title or take parts of it away.
-/

namespace ShadowMount.FakelibCache

open Foundation

variable {m m' : State} {w : World} {t : Text}

/-- A call that leaves the sources. -/
structure Working (w : World) (e : CallEvent) : Prop where
  effect : Effect w e
  sources : e.world.sources = w.sources

theorem effects_of_working (h : Calls Working m m') : Calls Effect m m' :=
  h.mono fun _ _ => Working.effect

theorem sources_of_working (h : Calls Working m m') : m'.world.sources = m.world.sources :=
  Calls.frame (f := World.sources) h fun _ _ he => he.sources

theorem Idle.working {e : CallEvent} (h : Idle w e) : Working w e :=
  ⟨h.effect, by rw [h.2]⟩

theorem Removal.working {root : Path} {e : CallEvent} (h : Removal root w e) : Working w e := by
  refine ⟨h.effect, ?_⟩
  cases h with
  | probe error => rfl
  | failed rest e => rfl
  | deleted rest =>
    cases root ++ rest with
    | nil => rfl
    | cons name path => rfl

theorem removeCacheTree_working (root : Path) (m : State) :
    Satisfies (removeCacheTree root) m fun _ => Calls Working m :=
  (removeCacheTree_removal root m).mono fun _ _ h => h.mono fun _ _ => Removal.working

theorem working_setTemporary (w : World) (titleId : Text) (node : Option Node)
    (error : Option Fault) : Working w ⟨.other, error, w.setCache (tempName titleId) node⟩ :=
  ⟨.temporary titleId node error, rfl⟩

theorem working_putTemporary (w : World) (titleId entry : Text) (new : Node)
    (error : Option Fault) :
    Working w ⟨.other, error, w.putEntry (tempName titleId) entry new⟩ := by
  unfold World.putEntry
  split
  · exact working_setTemporary w titleId _ error
  · exact ⟨.probe rfl error, rfl⟩

theorem makeTemporary_spec (t : Text) (m : State) :
    Satisfies (makeTemporary t) m fun ok m' => Calls Working m m' ∧
      (ok = true → m'.world.cache (tempName t) = some (.dir copiedStat .nil)) := by
  refine satisfies_act ?_ ?_
  · intro e
    exact ⟨.single ⟨.failed _ e, rfl⟩, nofun⟩
  · intro w hw
    split at hw
    · cases hw
    · cases hw
      refine ⟨.single (working_setTemporary _ _ _ _), fun _ => ?_⟩
      simp [Machine.record, World.setCache]

/-- The entries of the fakelib directory of a temporary cache. -/
def copiedSoFar (w : World) (t : Text) : Entries :=
  (fakelibEntries (w.cache (tempName t))).getD .nil

/-- The temporary cache is a directory. -/
def HasTemporary (w : World) (t : Text) : Prop :=
  ∃ st entries, w.cache (tempName t) = some (.dir st entries)

theorem HasTemporary.putEntry (h : HasTemporary w t) (entry : Text) (new : Node) :
    HasTemporary (w.putEntry (tempName t) entry new) t := by
  obtain ⟨st, entries, hdir⟩ := h
  refine ⟨st, entries.put entry new, ?_⟩
  simp [World.putEntry, hdir, World.setCache]

/-- One step of the build is copied as the manifest says. -/
theorem copyStep_spec (t : Text) (manifest : Manifest) (step : BuildStep) (m : State)
    (hdir : HasTemporary m.world t) :
    Satisfies (copyStep t manifest step) m fun ok m' => Calls Working m m' ∧
      (ok = true → HasTemporary m'.world t ∧
        manifest.buildStep m.world.sources (copiedSoFar m.world t) step =
          some (copiedSoFar m'.world t)) := by
  unfold copyStep
  refine satisfies_lossyCall ?_ ?_ ?_
  · intro e _
    refine ⟨?_, nofun⟩
    cases e.residue with
    | none => exact .single ⟨.probe rfl _, rfl⟩
    | some node => exact .single (working_putTemporary _ _ _ _ _)
  · intro _
    exact ⟨.single ⟨.probe rfl _, rfl⟩, nofun⟩
  · intro w hw
    split at hw
    · rename_i entries hentries
      cases hw
      refine ⟨.single (working_putTemporary _ _ _ _ _), fun _ => ⟨hdir.putEntry _ _, ?_⟩⟩
      obtain ⟨st, old, hold⟩ := hdir
      have hchild := World.child_putEntry hold fakelibName (.dir copiedStat entries) fakelibName
      rw [if_pos rfl] at hchild
      have hcopied :
          copiedSoFar (m.world.putEntry (tempName t) fakelibName (.dir copiedStat entries))
          t = entries := by
        unfold copiedSoFar fakelibEntries
        rw [hchild]
        rfl
      simp only [Machine.record]
      rw [hcopied]
      exact hentries
    · cases hw

/-- The sources are copied one over the other. -/
theorem copySteps_spec (t : Text) (manifest : Manifest) (steps : List BuildStep) (m : State)
    (hdir : HasTemporary m.world t) :
    Satisfies (copySteps t manifest steps) m fun ok m' => Calls Working m m' ∧
      (ok = true → HasTemporary m'.world t ∧
        steps.foldlM (manifest.buildStep m.world.sources) (copiedSoFar m.world t) =
          some (copiedSoFar m'.world t)) := by
  induction steps generalizing m with
  | nil => exact .pure ⟨.refl, fun _ => ⟨hdir, rfl⟩⟩
  | cons step rest ih =>
    refine .andThen _ (copyStep_spec t manifest step m hdir) ?_
    rintro (_ | _) m₁ ⟨hcalls, hcopied⟩
    · exact .pure ⟨hcalls, nofun⟩
    obtain ⟨hdir₁, hstep⟩ := hcopied rfl
    refine (ih m₁ hdir₁).mono ?_
    rintro ok m₂ ⟨hcalls₂, hrest⟩
    refine ⟨hcalls.trans hcalls₂, ?_⟩
    intro hok
    obtain ⟨hdir₂, hfold⟩ := hrest hok
    refine ⟨hdir₂, ?_⟩
    rw [List.foldlM_cons, hstep, ← sources_of_working hcalls]
    exact hfold

theorem computeSignatures_spec (recipe : Recipe) (m : State) :
    Satisfies (computeSignatures recipe) m fun r m' => Calls Idle m m' ∧
      (∀ manifest, r = some manifest → recipe.manifest m'.world.sources = some manifest) := by
  refine .andThen _ (look_idle rfl _ m) ?_
  rintro r m₁ ⟨hidle, rfl | ⟨rfl, -⟩⟩
  · exact .pure ⟨hidle, fun manifest h => h⟩
  · exact .pure ⟨hidle, nofun⟩

/-- A cache that holds the result of a build and its manifest, as far as it has them. -/
structure Complete (manifest : Manifest) (sources : Sources) (root : Option Node) : Prop where
  found : ∀ found, manifestOf root = some found → found = manifest
  entries : ∀ entries, fakelibEntries root = some entries → manifest.build sources = some entries
  signatures : manifest.recipe.manifest sources = some manifest

/-- The manifest is written behind a complete copy. -/
theorem writeManifest_spec (t : Text) (manifest : Manifest) (now : Nat) (m : State)
    (hdir : HasTemporary m.world t)
    (hbuild : manifest.build m.world.sources = some (copiedSoFar m.world t))
    (hsignatures : manifest.recipe.manifest m.world.sources = some manifest) :
    Satisfies (writeManifest t manifest now) m fun ok m' => Calls Working m m' ∧
      (ok = true → Complete manifest m'.world.sources (m'.world.cache (tempName t))) := by
  refine satisfies_lossyCall ?_ ?_ ?_
  · intro e _
    refine ⟨?_, nofun⟩
    cases e.residue with
    | none => exact .single ⟨.probe rfl _, rfl⟩
    | some node => exact .single (working_putTemporary _ _ _ _ _)
  · intro h
    cases h
  · intro w hw
    cases hw
    have hcalls : Calls Working m (m.record .other none (m.world.putEntry (tempName t) manifestName
        (.file { copiedStat with mtimeSec := now } (.manifest manifest)))) :=
      .single (working_putTemporary _ _ _ _ _)
    refine ⟨hcalls, fun _ => ?_⟩
    obtain ⟨st, old, hold⟩ := hdir
    have hchild := World.child_putEntry hold manifestName
      (.file { copiedStat with mtimeSec := now } (.manifest manifest))
    rw [sources_of_working hcalls]
    refine ⟨?_, ?_, hsignatures⟩
    · intro found hfound
      unfold manifestOf readManifest at hfound
      simp only [Machine.record] at hfound
      rw [hchild, if_pos rfl] at hfound
      simp only at hfound
      split at hfound
      · exact (Option.some.inj hfound).symm
      · cases hfound
    · intro entries hentries
      have hsame := fakelibEntries_congr
        ((hchild fakelibName).trans (if_neg fakelibName_ne_manifestName))
      rw [hbuild, copiedSoFar, ← hsame]
      exact congrArg (fun o => some (Option.getD o Entries.nil)) hentries

/-- The temporary cache is complete. -/
theorem fillTemporary_spec (t : Text) (manifest : Manifest) (now : Nat) (m : State)
    (hdir : HasTemporary m.world t) (hempty : copiedSoFar m.world t = .nil) :
    Satisfies (fillTemporary t manifest now) m fun ok m' => Calls Working m m' ∧
      (ok = true → Complete manifest m'.world.sources (m'.world.cache (tempName t))) := by
  refine .andThen _ (copySteps_spec t manifest manifest.buildSteps m hdir) ?_
  rintro (_ | _) m₁ ⟨hcopied, hresult⟩
  · exact .pure ⟨hcopied, nofun⟩
  obtain ⟨hdir₁, hfold⟩ := hresult rfl
  refine .andThen _ (computeSignatures_spec manifest.recipe m₁) ?_
  rintro (_ | current) m₂ ⟨hidle, hcurrent⟩
  · exact .pure ⟨hcopied.trans (hidle.mono fun _ _ => Idle.working), nofun⟩
  have hcalls := hcopied.trans (hidle.mono fun _ _ => Idle.working)
  dsimp only
  split
  · rename_i heq
    subst heq
    have hworld := world_of_idle hidle
    refine (writeManifest_spec t current now m₂ ?_ ?_ (hcurrent current rfl)).mono ?_
    · rw [hworld]
      exact hdir₁
    · rw [hworld, sources_of_working hcopied, ← hfold, hempty]
      rfl
    · rintro ok m₃ ⟨hwritten, hcomplete⟩
      exact ⟨hcalls.trans hwritten, hcomplete⟩
  · exact .pure ⟨hcalls, nofun⟩

/-- A temporary cache has become the cache of its title. -/
structure Published (t : Text) (manifest : Manifest) (w w' : World) : Prop where
  builds : w'.builds = ⟨manifest, w.sources⟩ :: w.builds
  sources : w'.sources = w.sources
  cache : w'.cache t = w.cache (tempName t)
  others : ∀ name, name ≠ t → name ≠ tempName t → w'.cache name = w.cache name

theorem publish_spec (ht : isSupportedGameTitleId t = true) (manifest : Manifest) (m : State) :
    Satisfies (publish t manifest) m fun ok m' =>
      (ok = false → Calls Effect m m') ∧
      (ok = true → ∃ w', m' = m.record (.publish t) none w' ∧ Published t manifest m.world w') := by
  have htemp := tempName_ne ht t
  refine satisfies_act ?_ ?_
  · intro e
    exact ⟨fun _ => .single (.failed _ e), nofun⟩
  · intro w hw
    refine ⟨nofun, fun _ => ⟨w, rfl, ?_⟩⟩
    obtain ⟨node, hnode, rfl⟩ : ∃ node, m.world.cache (tempName t) = some node ∧
        w = { (m.world.setCache t (some node)).setCache (tempName t) none with
          builds := ⟨manifest, m.world.sources⟩ :: m.world.builds } := by
      split at hw
      · rename_i node hnode hroot
        cases hw
        exact ⟨node, hnode, rfl⟩
      · rename_i node st hnode hroot
        cases hw
        exact ⟨node, hnode, rfl⟩
      · cases hw
    refine ⟨rfl, rfl, ?_, ?_⟩
    · simp [World.setCache, htemp, hnode]
    · intro name hname hother
      simp [World.setCache, hname, hother]

theorem discardTemporary_spec (t : Text) (m : State) :
    Satisfies (discardTemporary t) m fun ok m' => ok = false ∧ Calls Effect m m' := by
  refine .andThen _ (removeCacheTree_effect [tempName t] m) ?_
  intro _ m₁ hremoved
  exact .pure ⟨rfl, hremoved⟩

theorem temporary_of_removal (ht : isSupportedGameTitleId t = true) (h : Calls (Removal [t]) m m') :
    m'.world.cache (tempName t) = m.world.cache (tempName t) := by
  refine Calls.frame (f := fun w => w.cache (tempName t)) h ?_
  intro w e he
  cases he with
  | probe error => rfl
  | failed rest e => rfl
  | deleted rest => exact World.cache_erase_other (tempName_ne ht t).symm w rest

/-- What `rebuild_fakelib_cache` has done: it failed and left the cache of the title as
it was or took parts of it away, or it ended with the rename of a complete cache. -/
structure Rebuilt (t : Text) (manifest : Manifest) (m : State) (ok : Bool) (m' : State) : Prop where
  failed : ok = false → Calls Effect m m'
  published : ok = true → ∃ before w', Calls Effect m before ∧
    m' = before.record (.publish t) none w' ∧ Published t manifest before.world w' ∧
    Complete manifest before.world.sources (before.world.cache (tempName t))

theorem rebuilt_discarded {manifest : Manifest} {m₁ : State} (h : Calls Effect m m₁) :
    Satisfies (discardTemporary t) m₁ (Rebuilt t manifest m) := by
  refine (discardTemporary_spec t m₁).mono ?_
  rintro ok m₂ ⟨rfl, hdiscarded⟩
  exact ⟨fun _ => h.trans hdiscarded, nofun⟩

/-- A build fails without a trace in what is used, or publishes a complete cache. -/
theorem rebuild_spec (ht : isSupportedGameTitleId t = true) (manifest : Manifest) (now : Nat)
    (m : State) : Satisfies (rebuild t manifest now) m (Rebuilt t manifest m) := by
  have hfail : ∀ m₁ : State, Calls Working m m₁ →
      Satisfies (pure false : Program Bool) m₁ (Rebuilt t manifest m) :=
    fun m₁ hcalls => .pure ⟨fun _ => effects_of_working hcalls, nofun⟩
  refine .andThen _ (removeCacheTree_working [tempName t] m) ?_
  rintro (_ | _) m₁ hcleared
  · exact hfail m₁ hcleared
  refine .andThen _ (makeTemporary_spec t m₁) ?_
  rintro (_ | _) m₂ ⟨hmade, hempty⟩
  · exact hfail m₂ (hcleared.trans hmade)
  have hmade := hcleared.trans hmade
  have hdir : HasTemporary m₂.world t := ⟨_, _, hempty rfl⟩
  have hnil : copiedSoFar m₂.world t = .nil := by
    rw [copiedSoFar, hempty rfl]
    rfl
  refine .andThen _ (fillTemporary_spec t manifest now m₂ hdir hnil) ?_
  rintro (_ | _) m₃ ⟨hfilled, hcomplete⟩
  · exact rebuilt_discarded (effects_of_working (hmade.trans hfilled))
  refine .andThen _ (attempt_idle rfl m₃) ?_
  rintro (_ | _) m₄ ⟨hmounted, -⟩
  all_goals
    have hbuilt := (hmade.trans hfilled).trans (hmounted.mono fun _ _ => Idle.working)
  · exact rebuilt_discarded (effects_of_working hbuilt)
  refine .andThen _ (removeCacheTree_removal [t] m₄) ?_
  rintro (_ | _) m₅ hremoved
  all_goals
    have hworked := hremoved.mono fun _ _ => Removal.working
    have hbefore := effects_of_working (hbuilt.trans hworked)
  · exact rebuilt_discarded hbefore
  have hready : Complete manifest m₅.world.sources (m₅.world.cache (tempName t)) := by
    rw [temporary_of_removal ht hremoved, sources_of_working hworked, world_of_idle hmounted]
    exact hcomplete rfl
  refine .andThen _ (publish_spec ht manifest m₅) ?_
  rintro (_ | _) m₆ ⟨hrefused, hrenamed⟩
  · exact rebuilt_discarded (hbefore.trans (hrefused rfl))
  · obtain ⟨w', rfl, hpublished⟩ := hrenamed rfl
    exact .pure ⟨nofun, fun _ => ⟨m₅, w', hbefore, rfl, hpublished, hready⟩⟩

end ShadowMount.FakelibCache
