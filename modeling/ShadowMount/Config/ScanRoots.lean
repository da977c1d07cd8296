import ShadowMount.Config.Runtime

/-!
# The scan roots of a configuration

The scanner relies on two checks that the loader makes: a scan depth is between the limits, and a
scan path fits a path buffer.  They hold of the defaults, and every setting that is applied keeps
them.
-/

namespace ShadowMount.Config

open Foundation Ini

variable {paths : List Text}

/-- Paths that fit a buffer. -/
def PathsFit (paths : List Text) : Prop := ∀ path ∈ paths, path ≠ [] ∧ path.length < maxPath

/-- The bounds of the scan settings. -/
structure Scans (s : RuntimeState) : Prop where
  depth : s.scalar .scanDepth = .number 1 ∨ s.scalar .scanDepth = .number 2
  paths : PathsFit s.scanPaths

/-- A configuration that is in use: the defaults, or what the loader made of two documents. -/
def Loaded (s : RuntimeState) : Prop :=
  s = initRuntimeConfigDefaults ∨
    ∃ main profiles, parseRuntimeConfigState main profiles = some s

theorem pathsFit_nil : PathsFit [] := fun _ h => absurd h List.not_mem_nil

theorem length_stripTrailingSlashes_le (path : Text) :
    (stripTrailingSlashes path).length ≤ path.length := by
  cases path with
  | nil => exact le_rfl
  | cons c rest =>
    have hrest := (List.rdropWhile_prefix (fun c => decide (c = '/')) rest).length_le
    exact Nat.add_le_add_right hrest 1

theorem stripTrailingSlashes_ne_nil {path : Text} (h : path ≠ []) :
    stripTrailingSlashes path ≠ [] := by
  cases path with
  | nil => exact absurd rfl h
  | cons c rest => exact List.cons_ne_nil _ _

/-- One more scan path fits. -/
theorem PathsFit.add (h : PathsFit paths) {path : Text} {paths' : List Text}
    (hadd : addRuntimeScanPath paths path = some paths') : PathsFit paths' := by
  unfold addRuntimeScanPath at hadd
  simp only [Bool.or_eq_true, decide_eq_true_eq] at hadd
  split at hadd
  next => cases hadd
  next hpath =>
    split at hadd
    next =>
      cases hadd
      exact h
    next =>
      split at hadd
      next =>
        cases hadd
        intro p hp
        rcases List.mem_append.mp hp with hp | hp
        · exact h p hp
        · rw [List.mem_singleton.mp hp]
          have hlen := length_stripTrailingSlashes_le (trim isSpace path)
          exact ⟨stripTrailingSlashes_ne_nil (fun hnil => hpath (.inl hnil)), by omega⟩
      next => cases hadd

theorem PathsFit.try (h : PathsFit paths) (path : Text) : PathsFit (tryScanPath paths path) := by
  unfold tryScanPath
  cases hadd : addRuntimeScanPath paths path with
  | none => exact h
  | some paths' => exact h.add hadd

theorem PathsFit.managed (h : PathsFit paths) : PathsFit (addRuntimeManagedScanPaths paths) :=
  (h.try _).try _

theorem pathsFit_defaults : PathsFit initRuntimeScanPathsDefaults := by
  have hfold : ∀ (names : List String) (paths : List Text), PathsFit paths →
      PathsFit (names.foldl (fun paths path => tryScanPath paths path.toList) paths) := by
    intro names
    induction names with
    | nil => exact fun _ h => h
    | cons name names ih => exact fun paths h => ih _ (h.try _)
  exact (hfold _ _ pathsFit_nil).managed

theorem parseScalar_scanDepth {value : Text} {v : ScalarValue}
    (h : parseScalar .scanDepth value = some v) : v = .number 1 ∨ v = .number 2 := by
  simp only [parseScalar, parseBounded, Option.map_eq_some_iff] at h
  obtain ⟨n, hn, rfl⟩ := h
  have hbounds : 1 ≤ n ∧ n ≤ 2 := by grind
  rcases (by omega : n = 1 ∨ n = 2) with rfl | rfl
  · exact .inl rfl
  · exact .inr rfl

/-- A setting that touches neither the depth nor the paths. -/
theorem Scans.store {ld : Loading} (h : Scans ld.state) {α : Type} (result : Option α)
    {put : RuntimeState → α → RuntimeState}
    (hput : ∀ value, result = some value → Scans (put ld.state value)) :
    Scans (ld.store result put).state := by
  unfold Loading.store
  cases result with
  | none => exact h
  | some value => exact hput value rfl

/-- A setting keeps the bounds of the scan paths. -/
theorem Scans.applySetting {ld : Loading} (h : Scans ld.state) (key value : Text) :
    Scans (applySetting ld key value).state := by
  unfold Config.applySetting
  split
  next => exact h
  next k _ =>
    apply h.store
    intro v hv
    refine ⟨?_, h.paths⟩
    by_cases hk : ScalarKey.scanDepth = k
    · subst hk
      simpa using parseScalar_scanDepth hv
    · simpa [hk] using h.depth
  next => exact h.store _ fun _ _ => ⟨h.depth, h.paths⟩
  next => exact h.store _ fun _ _ => ⟨h.depth, h.paths⟩
  next => exact h.store _ fun _ _ => ⟨h.depth, h.paths⟩
  next => exact h.store _ fun _ _ => ⟨h.depth, h.paths⟩
  next => exact h.store _ fun _ _ => ⟨h.depth, h.paths⟩
  next =>
    have hpaths : PathsFit (if ld.hasCustomScanpaths then ld.state.scanPaths else []) := by
      split
      next => exact h.paths
      next => exact pathsFit_nil
    dsimp only
    split
    next paths hadd => exact ⟨h.depth, hpaths.add hadd⟩
    next => exact ⟨h.depth, hpaths⟩

theorem Scans.applySettings {settings : List (Text × Text)} :
    ∀ {ld : Loading}, Scans ld.state → Scans (applySettings ld settings).state := by
  induction settings with
  | nil => exact fun h => h
  | cons setting settings ih => exact fun h => ih (h.applySetting setting.1 setting.2)

theorem Scans.finish {ld : Loading} (h : Scans ld.state) : Scans (finishScanPaths ld) := by
  unfold finishScanPaths
  split
  next =>
    refine ⟨h.depth, ?_⟩
    dsimp only
    exact pathsFit_defaults.managed
  next => exact ⟨h.depth, PathsFit.managed h.paths⟩

theorem scans_defaults : Scans initRuntimeConfigDefaults := by
  unfold initRuntimeConfigDefaults
  refine ⟨.inl rfl, ?_⟩
  dsimp only
  exact pathsFit_defaults

/-- The scan settings of a configuration that is in use. -/
theorem Loaded.scans {s : RuntimeState} (h : Loaded s) : Scans s := by
  rcases h with rfl | ⟨main, profiles, hparse⟩
  · exact scans_defaults
  · unfold parseRuntimeConfigState at hparse
    split at hparse
    next flat smb _ _ =>
      dsimp only at hparse
      split at hparse
      next => cases hparse
      next =>
        cases hparse
        apply Scans.finish
        apply Scans.applySettings
        refine ⟨scans_defaults.depth, ?_⟩
        dsimp only
        exact scans_defaults.paths
    next => cases hparse

end ShadowMount.Config
