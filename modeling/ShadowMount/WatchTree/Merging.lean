import ShadowMount.WatchTree.Full

/-!
# Merged rebuild requests

Between two rebuilds of a scan root any number of events asks for rebuilds of parts of its watch
tree.  One pending request stands for all of them: its path contains every requested one, and what
its execution leaves is what a full rebuild would leave, while the rest of the tree is as it was.
-/

namespace ShadowMount.WatchTree

open Foundation Config WatchRegistry

/-- The directory that a request asks to rebuild. -/
def target (config : RuntimeState) (scanRootIndex : Nat) (request : Subscription) : Option Text :=
  (resolveWatchTreeRebuildTarget config scanRootIndex request).map fun t => t.1

/-- A request for a directory of the tree, with its true depth. -/
def Located (config : RuntimeState) (scanRootIndex : Nat) (root : Text) (request : Subscription) :
    Prop :=
  ∃ path depth kind, resolveWatchTreeRebuildTarget config scanRootIndex request =
    some (path, depth, kind) ∧ Descends root path depth ∧ path.length < maxPath

/-- What the pending request is, after a list of requests. -/
structure Tracks (config : RuntimeState) (scanRootIndex : Nat) (root : Text)
    (requests : List Subscription) (pending : Pending) : Prop where
  idle : requests = [] → pending = .cleared
  stale : requests ≠ [] → pending.stale = true
  covers : ∀ request ∈ requests, ∀ path ∈ target config scanRootIndex request,
    LiesIn path pending.path
  descends : pending.stale = true → Descends root pending.path pending.depth
  origin : pending.stale = true → pending.path = root ∨
    ∃ request ∈ requests, pending.path ∈ target config scanRootIndex request

variable {config : RuntimeState} {scanRootIndex : Nat} {root : Text}

theorem tracks_nil : Tracks config scanRootIndex root [] .cleared where
  idle _ := rfl
  stale h := absurd rfl h
  covers _ h := absurd h List.not_mem_nil
  descends h := by cases h
  origin h := by cases h

/-- The target of a request that is resolved. -/
theorem target_eq {request : Subscription} {path : Text} {depth : Nat} {kind : WatchKind}
    (h : resolveWatchTreeRebuildTarget config scanRootIndex request = some (path, depth, kind)) :
    target config scanRootIndex request = some path := by
  unfold target
  rw [h]
  rfl

theorem liesIn_self {path : Text} (h : path ≠ []) : LiesIn path path :=
  (Under.refl path).liesIn h

/-- A request merged into the pending one. -/
theorem Tracks.schedule {requests : List Subscription} {pending : Pending}
    (h : Tracks config scanRootIndex root requests pending) (hroot : root ≠ [])
    (hpath : getScanPath config scanRootIndex = some root) {request : Subscription}
    (hrequest : Located config scanRootIndex root request) :
    Tracks config scanRootIndex root (requests ++ [request])
      (scheduleScanRootWatchTreeRebuild config scanRootIndex pending request) := by
  obtain ⟨path, depth, kind, hresolve, hdescends, hlen⟩ := hrequest
  have htarget := target_eq hresolve
  have hne : path ≠ [] := hdescends.ne_nil hroot
  -- it is enough to say where the new path is
  have hdone : ∀ pending' : Pending, pending'.stale = true →
      (∀ r ∈ requests, ∀ p ∈ target config scanRootIndex r, LiesIn p pending'.path) →
      LiesIn path pending'.path → Descends root pending'.path pending'.depth →
      (pending'.path = root ∨ ∃ r ∈ requests ++ [request],
        pending'.path ∈ target config scanRootIndex r) →
      Tracks config scanRootIndex root (requests ++ [request]) pending' := by
    intro pending' hstale hcovers hnew hdesc horigin
    refine ⟨fun hnil => by simp at hnil, fun _ => hstale, ?_, fun _ => hdesc, fun _ => horigin⟩
    intro r hr p hp
    rcases List.mem_append.mp hr with hr | hr
    · exact hcovers r hr p hp
    · rw [List.mem_singleton.mp hr, htarget] at hp
      cases hp
      exact hnew
  have hhere : ∃ r ∈ requests ++ [request], path ∈ target config scanRootIndex r :=
    ⟨request, by simp, by rw [htarget]; rfl⟩
  unfold scheduleScanRootWatchTreeRebuild
  rw [hresolve]
  dsimp only
  cases hstale : pending.stale with
  | false =>
    have hnil : requests = [] := by
      by_contra hsome
      rw [h.stale hsome] at hstale
      cases hstale
    simp only [Bool.not_false, Bool.true_or, if_true, strlcpy_of_lt hlen]
    apply hdone _ rfl _ (liesIn_self hne) hdescends (.inr hhere)
    intro r hr
    rw [hnil] at hr
    cases hr
  | true =>
    have hold := h.descends hstale
    have holdNe := hold.ne_nil hroot
    simp only [Bool.not_true, Bool.false_or, decide_eq_true_eq, if_neg holdNe]
    have hkept : pending.path = root ∨ ∃ r ∈ requests ++ [request],
        pending.path ∈ target config scanRootIndex r := by
      rcases h.origin hstale with hat | ⟨r, hr, hmem⟩
      · exact .inl hat
      · exact .inr ⟨r, List.mem_append_left _ hr, hmem⟩
    split
    next heq =>
      -- the same path has the same depth
      rw [heq] at hold
      have hdepth := hold.depth_unique hdescends hroot
      apply hdone ⟨true, pending.path, _, _⟩ rfl h.covers _ _ hkept
      · rw [heq]
        exact liesIn_self hne
      · rw [heq, hdepth, if_neg (Nat.lt_irrefl _)]
        exact hdescends
    next =>
      split
      next hinside =>
        exact hdone _ hstale h.covers ((pathMatchesRootOrChild_iff _ _).mp hinside) hold hkept
      next =>
        split
        next houtside =>
          simp only [strlcpy_of_lt hlen]
          apply hdone _ rfl _ (liesIn_self hne) hdescends (.inr hhere)
          intro r hr p hp
          exact liesIn_trans (h.covers r hr p hp) ((pathMatchesRootOrChild_iff _ _).mp houtside)
        next =>
          rw [hpath, Option.getD_some]
          apply hdone _ rfl _ (hdescends.liesIn hroot) (Descends.refl root) (.inl rfl)
          intro r hr p hp
          exact liesIn_trans (h.covers r hr p hp) (hold.liesIn hroot)

/-- The pending request covers every request. -/
theorem Tracks.foldl {requests more : List Subscription} {pending : Pending}
    (h : Tracks config scanRootIndex root requests pending) (hroot : root ≠ [])
    (hpath : getScanPath config scanRootIndex = some root)
    (hmore : ∀ request ∈ more, Located config scanRootIndex root request) :
    Tracks config scanRootIndex root (requests ++ more)
      (more.foldl (scheduleScanRootWatchTreeRebuild config scanRootIndex) pending) := by
  induction more generalizing requests pending with
  | nil => simpa using h
  | cons request more ih =>
    have hstep := h.schedule hroot hpath (hmore request List.mem_cons_self)
    have hrest := ih hstep fun r hr => hmore r (List.mem_cons_of_mem _ hr)
    simpa using hrest

end ShadowMount.WatchTree
