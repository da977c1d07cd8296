import ShadowMount.Foundation.Transition
import ShadowMount.ImageIndex.Model

/-!
# Game cache - the operations of {lit}`sm_game_cache.c`

The cache remembers the games the scanner has seen.  An entry whose source is
missing carries a timer, and {lit}`reconcile_missing_app_db_games` asks for the
uninstall of a title whose timer has run for the configured delay.

Every step carries what it observes: file status, the image links of titles, the
titles that ShellCore protects, the configuration, the clock, and the
auto-remove title list of {lit}`app.db`.  Log messages and the duplicate-title
notifications are left out.
-/

namespace ShadowMount.GameCache

open Foundation

variable {n m t : Nat}

/-- `struct GameCache`. -/
structure Entry where
  path : Text
  titleId : Text
  titleName : Text
  owningScanRoot : Text
  missingSinceUs : Nat
  valid : Bool
deriving DecidableEq

def Entry.zero : Entry where
  path := []
  titleId := []
  titleName := []
  owningScanRoot := []
  missingSinceUs := 0
  valid := false

/-- `struct AppDbTitleList` as its loader fills it: the query selects
distinct, non-empty ids, each copied into its buffer.  The list is sorted, so the
binary search of `app_db_title_list_contains` decides membership. -/
structure AppDbTitleList where
  ids : List Text
  nodup : ids.Nodup
  named : ∀ id ∈ ids, id ≠ []
  fits : ∀ id ∈ ids, id.length < maxTitleId

/-- What one step observes. -/
structure World extends ImageIndex.World where
  /-- `read_mount_image_link` -/
  mountImageLink : Text → Option Text
  /-- `resolve_image_source_from_mount_cache` -/
  imageSource : Text → Option Text
  scanPaths : List Text
  shellcoreProtected : Text → Bool
  autoRemoveMissingGames : Bool
  autoRemoveGamesWithDlc : Bool
  autoRemoveMissingDelaySeconds : Nat
  now : Nat
  /-- `get_app_db_auto_remove_title_list` -/
  autoRemoveTitles : Option AppDbTitleList

/-- `game_cache_source_exists`. -/
def gameCacheSourceExists (w : World) (e : Entry) : Bool :=
  (e.path ≠ [] && pathExists w.stat e.path) ||
    (e.titleId ≠ [] && match w.mountImageLink e.titleId with
      | some imagePath => pathExists w.stat imagePath
      | none => false)

/-- `title_is_protected_by_dlc`. -/
def titleIsProtectedByDlc (w : World) (titleId : Text) : Bool :=
  if w.autoRemoveGamesWithDlc then false
  else
    let addcontPath := "/user/addcont/".toList ++ titleId
    if maxPath ≤ addcontPath.length then true
    else match w.stat addcontPath with
      | .found st => st.isDirectory
      | .missing | .notDirectory => false
      | .failed => true

/-- `resolve_game_cache_owning_scan_root`: the longest scan path that holds
the game, or its backing image; empty when there is none. -/
def resolveGameCacheOwningScanRoot (w : World) (path titleId : Text) : Text :=
  let matchPath :=
    if isUnderImageMountBase path then
      match w.imageSource path with
      | some source => source
      | none =>
        if titleId ≠ [] then (w.mountImageLink titleId).getD path else path
    else path
  w.scanPaths.foldl (fun best scanPath =>
    if pathMatchesRootOrChild matchPath scanPath && decide (best.length < scanPath.length)
    then scanPath else best) []

/-- `write_game_cache_slot`. -/
def writeGameCacheSlot (path titleId titleName owningScanRoot : Text) : Entry where
  path := strlcpy maxPath path
  titleId := strlcpy maxTitleId titleId
  titleName := strlcpy maxTitleName titleName
  owningScanRoot := strlcpy maxPath owningScanRoot
  missingSinceUs := 0
  valid := true

/-- `ensure_game_cache_owning_scan_root`. -/
def ensureGameCacheOwningScanRoot (w : World) (e : Entry) : Entry :=
  if e.owningScanRoot ≠ [] then e
  else { e with owningScanRoot := resolveGameCacheOwningScanRoot w e.path e.titleId }

/-- `start_missing_timer`. -/
def startMissingTimer (e : Entry) (now : Nat) : Entry :=
  if e.missingSinceUs ≠ 0 ∨ now = 0 then e else { e with missingSinceUs := now }

/-- `missing_timer_expired`. -/
def missingTimerExpired (e : Entry) (now delay : Nat) : Bool :=
  e.valid && e.missingSinceUs ≠ 0 && decide (e.missingSinceUs ≤ now) &&
    decide (delay ≤ now - e.missingSinceUs)

/-- The cache table. -/
abbrev Cache (n : Nat) := Fin n → Entry

/-- The slot `cache_game_entry` writes: the first valid one with the same
path or the same title, else the first free one. -/
def cacheGameSlot (c : Cache n) (path titleId : Text) : Option (Fin n) :=
  match Fin.find? fun k => (c k).valid && ((c k).path = path || (c k).titleId = titleId) with
  | some k => some k
  | none => Fin.find? fun k => !(c k).valid

/-- `cache_game_entry`. -/
def cacheGameEntry (w : World) (c : Cache n) (path titleId titleName : Text) : Cache n :=
  match cacheGameSlot c path titleId with
  | none => c
  | some k => Function.update c k (writeGameCacheSlot path titleId titleName
      (resolveGameCacheOwningScanRoot w path titleId))

/-- `note_game_cache_source_seen`. -/
def noteGameCacheSourceSeen (w : World) (c : Cache n)
    (path titleId titleName : Option Text) : Cache n :=
  match path, titleId with
  | some path, some titleId =>
    if titleId = [] then c
    else
      match Fin.find? fun k => (c k).valid && (c k).missingSinceUs ≠ 0 &&
          (c k).titleId = titleId with
      | none => c
      | some k => Function.update c k (writeGameCacheSlot path titleId
          (titleName.getD []) (resolveGameCacheOwningScanRoot w path titleId))
  | _, _ => c

/-- One turn of the loop of `prune_game_cache_entries`. -/
def pruneGameCacheEntry (w : World) (root : Option Text) (e : Entry) : Entry :=
  if !e.valid || w.shellcoreProtected e.titleId then e
  else
    let e := match root with
      | none => e
      | some _ => ensureGameCacheOwningScanRoot w e
    let entryRoot := if e.owningScanRoot ≠ [] then e.owningScanRoot else e.path
    let selected := match root with
      | none => true
      | some root => pathMatchesRootOrChild entryRoot root
    if !selected then e
    else if gameCacheSourceExists w e then { e with missingSinceUs := 0 }
    else if w.autoRemoveMissingGames then e
    else Entry.zero

/-- `prune_game_cache_for_root`; without a root, `prune_game_cache`. -/
def pruneGameCache (w : World) (c : Cache n) (root : Option Text) : Cache n :=
  fun k => pruneGameCacheEntry w (if root = some [] then none else root) (c k)

/-- `reset_missing_game_cache_timers`. -/
def resetMissingGameCacheTimers (c : Cache n) : Cache n := fun k =>
  if !(c k).valid then c k
  else if (c k).path = [] then Entry.zero
  else { c k with missingSinceUs := 0 }

/-- `clear_cached_game`. -/
def clearCachedGame (c : Cache n) (path : Text) : Cache n := fun k =>
  if (c k).valid && (c k).missingSinceUs = 0 && (c k).path = path then Entry.zero else c k

/-- First loop of `reconcile_missing_game_cache`: entries that no listed
title needs any more are dropped. -/
def dropUnlistedEntries (w : World) (titles : AppDbTitleList) (c : Cache n) : Cache n :=
  fun k =>
    if !(c k).valid || gameCacheSourceExists w (c k) || w.shellcoreProtected (c k).titleId ||
        decide ((c k).titleId ∈ titles.ids) then c k
    else Entry.zero

/-- The first entry of a title. -/
def findTitleEntry (c : Cache n) (titleId : Text) : Option (Fin n) :=
  Fin.find? fun k => (c k).valid && (c k).titleId = titleId

/-- One turn of the second loop of `reconcile_missing_game_cache`: the timer
of one listed title is started, cancelled or left running. -/
def reconcileTitle (w : World) (index : ImageIndex.Index m t) (c : Cache n)
    (titleId : Text) : Cache n :=
  if w.shellcoreProtected titleId then c
  else
    let protectedByDlc := titleIsProtectedByDlc w titleId
    let imageSourceExists :=
      !protectedByDlc && ImageIndex.hasSourceForTitle w.stat index titleId
    match findTitleEntry c titleId with
    | some k =>
      if protectedByDlc then
        if gameCacheSourceExists w (c k) then
          Function.update c k { c k with missingSinceUs := 0 }
        else Function.update c k Entry.zero
      else if gameCacheSourceExists w (c k) || imageSourceExists then
        if (c k).path = [] then Function.update c k Entry.zero
        else Function.update c k { c k with missingSinceUs := 0 }
      else Function.update c k (startMissingTimer (c k) w.now)
    | none =>
      if protectedByDlc || imageSourceExists then c
      else
        match Fin.find? fun k => !(c k).valid with
        | none => c
        | some k =>
          Function.update c k (startMissingTimer (writeGameCacheSlot [] titleId [] []) w.now)

/-- `reconcile_missing_game_cache`. -/
def reconcileMissingGameCache (w : World) (index : ImageIndex.Index m t)
    (titles : AppDbTitleList) (c : Cache n) : Cache n :=
  titles.ids.foldl (reconcileTitle w index) (dropUnlistedEntries w titles c)

/-- The entry the removal loop takes next. -/
def findExpiredEntry (w : World) (delay : Nat) (c : Cache n) : Option (Fin n) :=
  Fin.find? fun k => missingTimerExpired (c k) w.now delay &&
    !w.shellcoreProtected (c k).titleId

/-- The removal loop of `reconcile_missing_app_db_games`: the cache it leaves
and the titles whose uninstall it asks for, in order.  Every turn clears a valid
slot, so as many turns as there are slots and one more end the loop. -/
def removeExpired (w : World) (delay : Nat) (titles : AppDbTitleList) :
    Nat → Cache n → Cache n × List Text
  | 0, c => (c, [])
  | turns + 1, c =>
    match findExpiredEntry w delay c with
    | none => (c, [])
    | some k =>
      let titleId := (c k).titleId
      let c := Function.update c k Entry.zero
      if titleId = [] then (c, [])
      else
        let (c, requests) := removeExpired w delay titles turns c
        if titleId ∉ titles.ids ∨ titleIsProtectedByDlc w titleId then (c, requests)
        else (c, titleId :: requests)

/-- `reconcile_missing_app_db_games`: the cache and the index it leaves, and
the uninstall requests. -/
def reconcileMissingAppDbGames (w : World) (c : Cache n) (index : ImageIndex.Index m t) :
    Cache n × ImageIndex.Index m t × List Text :=
  if !w.autoRemoveMissingGames then (c, index, [])
  else match w.autoRemoveTitles with
    | none => (c, index, [])
    | some titles =>
      let index := ImageIndex.loadIndex w.toWorld index
      let delay := w.autoRemoveMissingDelaySeconds * 1000000
      let (c, requests) := removeExpired w delay titles (n + 1)
        (reconcileMissingGameCache w index titles c)
      (c, index, requests)

/-- The game cache and the image index. -/
structure State (n m t : Nat) where
  cache : Cache n
  index : ImageIndex.Index m t

/-- One call, with its arguments and its observations. -/
inductive Step where
  | cacheGameEntry (w : World) (path titleId titleName : Text)
  | noteSourceSeen (w : World) (path titleId titleName : Option Text)
  | prune (w : World) (root : Option Text)
  | clearCachedGame (path : Text)
  | resetTimers
  | indexBeginScan (w : World) (path : Text) (st : Stat)
  | indexRecordGame (w : World) (gamePath titleId : Text)
  | indexCompleteScan (w : World) (path : Text)
  | indexFlush (w : World)
  | indexPrune (w : World)
  | reconcile (w : World)

/-- The state after one call. -/
def next (s : State n m t) : Step → State n m t
  | .cacheGameEntry w path titleId titleName =>
    { s with cache := cacheGameEntry w s.cache path titleId titleName }
  | .noteSourceSeen w path titleId titleName =>
    { s with cache := noteGameCacheSourceSeen w s.cache path titleId titleName }
  | .prune w root => { s with cache := pruneGameCache w s.cache root }
  | .clearCachedGame path => { s with cache := clearCachedGame s.cache path }
  | .resetTimers => { s with cache := resetMissingGameCacheTimers s.cache }
  | .indexBeginScan w path st =>
    { s with index := ImageIndex.beginScan w.toWorld s.index path st }
  | .indexRecordGame w gamePath titleId =>
    { s with index := (ImageIndex.recordGame w.toWorld s.index gamePath titleId).1 }
  | .indexCompleteScan w path =>
    { s with index := ImageIndex.completeScan w.toWorld s.index path }
  | .indexFlush w => { s with index := ImageIndex.flush w.toWorld s.index }
  | .indexPrune w => { s with index := ImageIndex.prune w.toWorld s.index }
  | .reconcile w =>
    let r := reconcileMissingAppDbGames w s.cache s.index
    { cache := r.1, index := r.2.1 }

/-- The titles whose uninstall a reconcile in a state asks for. -/
def uninstallRequests (s : State n m t) (w : World) : List Text :=
  (reconcileMissingAppDbGames w s.cache s.index).2.2

/-- The cache and the index under every sequence of calls, over any index file. -/
def autoRemoveSystem : System (State n m t) Step where
  init s := s.cache = (fun _ => Entry.zero) ∧ ∃ saved, s.index = ImageIndex.Index.initial saved
  step s i s' := s' = next s i

end ShadowMount.GameCache
