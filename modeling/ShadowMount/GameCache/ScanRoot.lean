import ShadowMount.GameCache.Model

/-!
# Game cache - the scan root of a game

Scan paths may lie inside each other.  {lit}`resolve_game_cache_owning_scan_root` compares their
lengths only, and this is enough: two directories that both hold a path hold one another.

Main results:

- Theorem {lit}`owning_scan_root_innermost`: a game belongs to the innermost scan path that holds
  it, in whatever order the scan paths are configured.
-/

namespace ShadowMount.GameCache

/-- The path by which a game is filed: that of its image, when it lies in a mounted one. -/
def matchPath (w : World) (path titleId : Text) : Text :=
  if isUnderImageMountBase path then
    match w.imageSource path with
    | some source => source
    | none => if titleId ≠ [] then (w.mountImageLink titleId).getD path else path
  else path

/-- One turn of the loop over the scan paths. -/
def longer (p : Text → Bool) (best s : Text) : Text :=
  if p s && decide (best.length < s.length) then s else best

/-- The loop keeps the longest root that passes. -/
theorem foldl_longer (p : Text → Bool) (l : List Text) (best : Text) :
    (l.foldl (longer p) best = best ∨
      l.foldl (longer p) best ∈ l ∧ p (l.foldl (longer p) best) = true) ∧
    best.length ≤ (l.foldl (longer p) best).length ∧
    ∀ s ∈ l, p s = true → s.length ≤ (l.foldl (longer p) best).length := by
  induction l generalizing best with
  | nil => exact ⟨.inl rfl, Nat.le_refl _, nofun⟩
  | cons s l ih =>
    obtain ⟨hfrom, hlen, hall⟩ := ih (longer p best s)
    rw [List.foldl_cons]
    have hstep : (longer p best s = best ∨ longer p best s = s ∧ p s = true) ∧
        best.length ≤ (longer p best s).length ∧
        (p s = true → s.length ≤ (longer p best s).length) := by
      unfold longer
      split
      next hlonger =>
        rw [Bool.and_eq_true, decide_eq_true_iff] at hlonger
        exact ⟨.inr ⟨rfl, hlonger.1⟩, hlonger.2.le, fun _ => Nat.le_refl _⟩
      next hlonger =>
        refine ⟨.inl rfl, Nat.le_refl _, fun hp => ?_⟩
        simpa [hp] using hlonger
    refine ⟨?_, hstep.2.1.trans hlen, ?_⟩
    · rcases hfrom with hsame | ⟨hmem, hp⟩
      · rw [hsame]
        rcases hstep.1 with hbest | ⟨hs, hp⟩
        · exact .inl hbest
        · rw [hs]
          exact .inr ⟨List.mem_cons_self, hp⟩
      · exact .inr ⟨List.mem_cons_of_mem s hmem, hp⟩
    · intro s' hs' hp
      rcases List.mem_cons.1 hs' with rfl | hmem
      · exact (hstep.2.2 hp).trans hlen
      · exact hall s' hmem hp

theorem prefix_of_pathMatches {path root : Text} (h : pathMatchesRootOrChild path root = true) :
    root <+: path := by
  unfold pathMatchesRootOrChild at h
  split at h
  next => cases h
  next =>
    split at h
    next => cases h
    next hroot => simpa [List.isPrefixOf_iff_prefix] using hroot

/-- Of two roots of a path the longer lies in the shorter. -/
theorem pathMatchesRootOrChild_nested {path a b : Text} (ha : pathMatchesRootOrChild path a = true)
    (hb : pathMatchesRootOrChild path b = true) (hlen : a.length ≤ b.length) :
    pathMatchesRootOrChild b a = true := by
  obtain ⟨rest, rfl⟩ := List.prefix_of_prefix_length_le (prefix_of_pathMatches ha)
    (prefix_of_pathMatches hb) hlen
  obtain ⟨rest', rfl⟩ := prefix_of_pathMatches hb
  unfold pathMatchesRootOrChild at ha ⊢
  rw [List.append_assoc] at ha
  simp only [List.isPrefixOf_iff_prefix.2 (List.prefix_append a _), List.drop_left] at ha ⊢
  cases rest with
  | nil => simpa using fun hempty => by simp [hempty] at ha
  | cons c rest => simpa using ha

/-- A game belongs to no scan path exactly when none holds it.  Else it belongs to one that holds
it and lies in every other scan path that does, and the order of the scan paths, or one that is
listed twice, makes no difference. -/
theorem owning_scan_root_innermost (w : World) (path titleId : Text) :
    let holds (root : Text) : Prop := pathMatchesRootOrChild (matchPath w path titleId) root = true
    let root := resolveGameCacheOwningScanRoot w path titleId
    (root = [] ↔ ∀ s ∈ w.scanPaths, ¬ holds s) ∧
    (root ≠ [] → root ∈ w.scanPaths ∧ holds root ∧
      ∀ s ∈ w.scanPaths, holds s → pathMatchesRootOrChild root s = true) ∧
    ∀ scanPaths : List Text, (∀ s, s ∈ scanPaths ↔ s ∈ w.scanPaths) →
      resolveGameCacheOwningScanRoot { w with scanPaths } path titleId = root := by
  intro holds root
  have hnonempty : ∀ s, holds s → s ≠ [] := by
    rintro s hs rfl
    cases hs
  have hspec : ∀ scanPaths : List Text, (∀ s, s ∈ scanPaths ↔ s ∈ w.scanPaths) →
      let r := resolveGameCacheOwningScanRoot { w with scanPaths } path titleId
      (r = [] ∨ r ∈ w.scanPaths ∧ holds r) ∧ ∀ s ∈ w.scanPaths, holds s → s.length ≤ r.length := by
    intro scanPaths hsame
    obtain ⟨hfrom, -, hall⟩ := foldl_longer
      (fun s => pathMatchesRootOrChild (matchPath w path titleId) s) scanPaths []
    exact ⟨hfrom.imp_right fun h => ⟨(hsame _).1 h.1, h.2⟩, fun s hs => hall s ((hsame s).2 hs)⟩
  have hroot := hspec w.scanPaths fun _ => .rfl
  refine ⟨⟨fun hempty s hs hholds => ?_, fun hnone => ?_⟩, fun hne => ?_, fun scanPaths hsame => ?_⟩
  · have hlen : s.length ≤ root.length := hroot.2 s hs hholds
    rw [hempty] at hlen
    exact hnonempty s hholds (List.eq_nil_of_length_eq_zero (Nat.le_zero.1 hlen))
  · exact hroot.1.resolve_right fun h => hnone _ h.1 h.2
  · obtain ⟨hmem, hholds⟩ := hroot.1.resolve_left hne
    exact ⟨hmem, hholds, fun s hs h => pathMatchesRootOrChild_nested h hholds (hroot.2 s hs h)⟩
  · have hle : ∀ a b : Text, (a = [] ∨ a ∈ w.scanPaths ∧ holds a) →
        (∀ s ∈ w.scanPaths, holds s → s.length ≤ b.length) → a.length ≤ b.length := by
      rintro a b (rfl | ⟨hmem, hholds⟩) hb
      · exact Nat.zero_le _
      · exact hb a hmem hholds
    have hother := hspec scanPaths hsame
    have hlen := Nat.le_antisymm (hle _ root hother.1 hroot.2) (hle _ _ hroot.1 hother.2)
    rcases hother.1 with hempty | ⟨-, hholds⟩
    · rw [hempty] at hlen ⊢
      exact (List.eq_nil_of_length_eq_zero hlen.symm).symm
    · rcases hroot.1 with hempty | ⟨-, hholds'⟩
      · change root = [] at hempty
        rw [hempty] at hlen ⊢
        exact List.eq_nil_of_length_eq_zero hlen
      · exact (prefix_of_pathMatches
          (pathMatchesRootOrChild_nested hholds hholds' hlen.le)).eq_of_length hlen

end ShadowMount.GameCache
