import Mathlib.Data.Char
import Mathlib.Data.List.Lex
import Mathlib.Logic.Function.Basic
import ShadowMount.Foundation.Bisection
import ShadowMount.Foundation.Transition
import ShadowMount.Types

/-!
# The title lists of the application database

{lit}`sm_appdb.c` keeps the results of three queries.  A call that asks for one of them takes the
cached list while the database file has the time of the cached query, and otherwise runs the query
outside of the lock and publishes its list, unless the cache has changed meanwhile.

Any number of threads make calls.  A look at the file, a section under the lock, and the beginning
and the end of a query are steps of their own, and the lists may be invalidated between any two of
them.  What {lit}`sqlite3_step` answers is open, but for one thing that the library promises: a
lock that it waits for is asked for before the first row, so that {lit}`SQLITE_BUSY` does not
come between rows.

Texts for the log are left out, and so is the connection for writing.
-/

namespace ShadowMount.AppDb

open Foundation

/-- `struct AppDbTitleList`; the count is the length of the list. -/
structure TitleList where
  ids : List Text
  capacity : Nat
deriving DecidableEq

/-- `free_app_db_title_list`. -/
def TitleList.empty : TitleList := ⟨[], 0⟩

/-- `append_app_db_title`; none when it is false.  A null pointer is `none`, and the last
argument tells whether `realloc` finds memory. -/
def appendAppDbTitle (list : TitleList) (titleId : Option Text) (memory : Bool) :
    Option TitleList :=
  match titleId with
  | none => some list
  | some titleId =>
    if titleId = [] then some list
    else if list.capacity ≤ list.ids.length && !memory then none
    else
      let capacity := if list.capacity ≤ list.ids.length then
        (if 0 < list.capacity then list.capacity * 2 else 1024) else list.capacity
      some ⟨list.ids ++ [strlcpy maxTitleId titleId], capacity⟩

/-- `app_db_title_list_contains`; `strcmp` compares bytes. -/
def appDbTitleListContains (list : TitleList) (titleId : Text) : Bool :=
  if list.ids.length = 0 then false else (bisect titleId list.ids).isSome

/-- `copy_app_db_title_list`; none when it is false. -/
def copyAppDbTitleList (list : TitleList) (memory : Bool) : Option TitleList :=
  if list.ids.length = 0 then some .empty
  else if memory then some ⟨list.ids, list.ids.length⟩
  else none

/-- `APP_DB_QUERY_BUSY_RETRIES`. -/
def queryBusyRetries : Nat := 3

/-- `APP_DB_PREPARE_BUSY_RETRIES`. -/
def prepareBusyRetries : Nat := 25

/-- What `sqlite3_step` answers, with the text of the column; `SQLITE_LOCKED` is like
`SQLITE_BUSY`. -/
inductive StepCode where
  | row (titleId : Option Text)
  | done
  | busy
  | failed
deriving DecidableEq

/-- One turn of the loop: `should_stop_requested`, the answer, and whether there is memory. -/
structure Turn where
  stop : Bool
  code : StepCode
  memory : Bool
deriving DecidableEq

/-- The loop of `step_app_db_title_query`, with the busy answers so far. -/
def stepAppDbTitleQuery (list : TitleList) : Nat → List Turn → TitleList × Bool
  | _, [] => (list, false)
  | busyAttempts, turn :: turns =>
    if turn.stop then (list, false)
    else match turn.code with
      | .row titleId =>
        match appendAppDbTitle list titleId turn.memory with
        | some list => stepAppDbTitleQuery list busyAttempts turns
        | none => (list, false)
      | .done => (list, true)
      | .busy =>
        if busyAttempts + 1 < queryBusyRetries then
          stepAppDbTitleQuery list (busyAttempts + 1) turns
        else (list, false)
      | .failed => (list, false)

/-- What `sqlite3_prepare_v2` answers. -/
inductive PrepareCode where
  | ok | busy | failed
deriving DecidableEq

/-- The loop that prepares the statement, with the attempts so far; each answer comes with
`should_stop_requested` behind it. -/
def prepareAppDbTitleQuery : Nat → List (PrepareCode × Bool) → Bool
  | _, [] => false
  | attempt, (code, stop) :: answers =>
    match code with
    | .ok => true
    | .failed => false
    | .busy =>
      if prepareBusyRetries ≤ attempt + 1 || stop then false
      else prepareAppDbTitleQuery (attempt + 1) answers

/-- How a load goes. -/
structure Load where
  stop : Bool
  opened : Bool
  prepared : List (PrepareCode × Bool)
  turns : List Turn
  closed : Bool
deriving DecidableEq

/-- `load_app_db_title_query`; none when it is false. -/
def loadAppDbTitleQuery (load : Load) : Option TitleList :=
  if load.stop then none
  else if !load.opened then none
  else if !prepareAppDbTitleQuery 0 load.prepared then none
  else
    let (list, loaded) := stepAppDbTitleQuery .empty 0 load.turns
    if loaded && load.closed then some list else none

/-- The answers behind the first row bring the rows that are left, up to an error or the end. -/
inductive Rows : List (Option Text) → List StepCode → Prop where
  | cut {rows : List (Option Text)} : Rows rows []
  | failed {rows : List (Option Text)} {codes : List StepCode} : Rows rows (.failed :: codes)
  | done {codes : List StepCode} : Rows [] (.done :: codes)
  | row {row : Option Text} {rows : List (Option Text)} {codes : List StepCode} :
      Rows rows codes → Rows (row :: rows) (.row row :: codes)

/-- What the library promises of its answers to a query with these rows: it may be busy before the
first row only. -/
inductive Delivers : List (Option Text) → List StepCode → Prop where
  | rows {rows : List (Option Text)} {codes : List StepCode} : Rows rows codes → Delivers rows codes
  | busy {rows : List (Option Text)} {codes : List StepCode} :
      Delivers rows codes → Delivers rows (.busy :: codes)

/-- `struct AppDbTitleCache`. -/
structure TitleCache where
  list : TitleList
  revision : Nat
  mtime : Int
  ready : Bool
deriving DecidableEq

/-- The cache at program start. -/
def TitleCache.initial : TitleCache := ⟨.empty, 0, 0, false⟩

/-- The next value of the 64-bit revision. -/
def nextRevision (revision : Nat) : Nat := (revision + 1) % 2 ^ 64

/-- `invalidate_app_db_title_cache_entry`. -/
def invalidateAppDbTitleCacheEntry (cache : TitleCache) : TitleCache :=
  { cache with ready := false, mtime := 0, revision := nextRevision cache.revision }

/-- `g_app_db_title_cache`, `g_app_db_auto_remove_cache` and
`g_app_db_blocked_uninstall_ppsa_cache`. -/
inductive CacheName where
  | titles | autoRemove | blockedUninstallPpsa
deriving DecidableEq

/-- A query that has come to its end: the invalidations before its beginning, and its rows. -/
structure Query where
  name : CacheName
  began : Nat
  rows : List (Option Text)
deriving DecidableEq

/-- A call that is under way: its cache, and the invalidations before its start. -/
structure Get where
  name : CacheName
  started : Nat
deriving DecidableEq

/-- Where a thread is in `get_cached_app_db_title_list`.  The time of the file is none when
`stat` fails, and the number behind the revision counts the invalidations before it was
read. -/
inductive Pc where
  | idle
  | entered (get : Get)
  | statted (get : Get) (mtime : Option Int)
  | missed (get : Get) (mtime : Option Int) (revision looked : Nat)
  | querying (get : Get) (mtime : Int) (revision looked began : Nat)
  | loaded (get : Get) (mtime : Int) (revision looked : Nat) (fresh : Option (TitleList × Query))
  | verified (get : Get) (mtime : Option Int) (revision looked : Nat)
      (fresh : Option (TitleList × Query)) (sourceUnchanged : Bool)
deriving DecidableEq

/-- A call that has returned; the list is none when it has returned false. -/
structure Returned where
  get : Get
  list : Option TitleList
deriving DecidableEq

/-- The caches and the threads, the invalidations so far, the queries that have succeeded, and the
calls that have returned. -/
structure State (ι : Type) where
  caches : CacheName → TitleCache
  threads : ι → Pc
  epoch : Nat
  queries : List Query
  returned : List Returned

variable {ι : Type} [DecidableEq ι]

def State.initial : State ι := ⟨fun _ => .initial, fun _ => .idle, 0, [], []⟩

/-- A step of a thread, or an invalidation.  A thread is told what the calls of the step answer;
the rows are those of the query that ends. -/
inductive Step (ι : Type) where
  | call (t : ι) (name : CacheName)
  | stat (t : ι) (mtime : Option Int)
  | look (t : ι) (resumeGrace memory : Bool)
  | beginQuery (t : ι)
  | endQuery (t : ι) (load : Load) (rows : List (Option Text))
  | verify (t : ι) (mtime : Option Int)
  | publish (t : ι) (memory : Bool)
  | invalidate
  | shutdown

def State.goto (s : State ι) (t : ι) (pc : Pc) : State ι :=
  { s with threads := Function.update s.threads t pc }

/-- The call of a thread returns. -/
def State.return (s : State ι) (t : ι) (get : Get) (list : Option TitleList) : State ι :=
  { s.goto t .idle with returned := ⟨get, list⟩ :: s.returned }

/-- `cache_is_current`. -/
def cacheIsCurrent (cache : TitleCache) (resumeGrace : Bool) (mtime : Option Int) : Bool :=
  cache.ready && (resumeGrace || mtime = none || mtime = some cache.mtime)

/-- The first section under the lock. -/
def State.look (s : State ι) (t : ι) (get : Get) (mtime : Option Int) (resumeGrace memory : Bool) :
    State ι :=
  let cache := s.caches get.name
  if cacheIsCurrent cache resumeGrace mtime then
    s.return t get (copyAppDbTitleList cache.list memory)
  else s.goto t (.missed get mtime cache.revision s.epoch)

/-- The query has come to its end. -/
def State.endQuery (s : State ι) (t : ι) (get : Get) (mtime : Int) (revision looked began : Nat)
    (load : Load) (rows : List (Option Text)) : State ι :=
  match loadAppDbTitleQuery load with
  | none => s.goto t (.loaded get mtime revision looked none)
  | some list =>
    let query : Query := ⟨get.name, began, rows⟩
    { s.goto t (.loaded get mtime revision looked (some (list, query))) with
      queries := query :: s.queries }

/-- What the last section does to the cache, when the load has given a list. -/
def publishAppDbTitleList (cache : TitleCache) (list : TitleList) (mtime : Int) : TitleCache where
  list := list
  mtime := mtime
  ready := true
  revision := nextRevision cache.revision

/-- The last section under the lock. -/
def State.publish (s : State ι) (t : ι) (get : Get) (mtime : Option Int) (revision : Nat)
    (fresh : Option (TitleList × Query)) (sourceUnchanged memory : Bool) : State ι :=
  let cache := s.caches get.name
  let cache := match fresh, mtime with
    | some (list, _), some mtime =>
      if sourceUnchanged && cache.revision = revision then publishAppDbTitleList cache list mtime
      else cache
    | _, _ => cache
  let list := if cache.ready then copyAppDbTitleList cache.list memory else none
  { s with caches := Function.update s.caches get.name cache }.return t get list

/-- `invalidate_app_db_title_cache`. -/
def State.invalidate (s : State ι) : State ι :=
  { s with
    caches := fun name => invalidateAppDbTitleCacheEntry (s.caches name)
    epoch := s.epoch + 1 }

/-- `shutdown_app_db`. -/
def State.shutdown (s : State ι) : State ι :=
  { s with
    caches := fun name => invalidateAppDbTitleCacheEntry { s.caches name with list := .empty }
    epoch := s.epoch + 1 }

/-- The state after a step; a step that a thread is not ready for changes nothing. -/
def next (s : State ι) : Step ι → State ι
  | .call t name =>
    match s.threads t with
    | .idle => s.goto t (.entered ⟨name, s.epoch⟩)
    | _ => s
  | .stat t mtime =>
    match s.threads t with
    | .entered get => s.goto t (.statted get mtime)
    | _ => s
  | .look t resumeGrace memory =>
    match s.threads t with
    | .statted get mtime => s.look t get mtime resumeGrace memory
    | _ => s
  | .beginQuery t =>
    match s.threads t with
    | .missed get (some mtime) revision looked =>
      s.goto t (.querying get mtime revision looked s.epoch)
    | .missed get none revision looked => s.goto t (.verified get none revision looked none false)
    | _ => s
  | .endQuery t load rows =>
    match s.threads t with
    | .querying get mtime revision looked began =>
      s.endQuery t get mtime revision looked began load rows
    | _ => s
  | .verify t mtime =>
    match s.threads t with
    | .loaded get known revision looked fresh =>
      s.goto t (.verified get (some known) revision looked fresh
        (fresh.isSome && mtime = some known))
    | _ => s
  | .publish t memory =>
    match s.threads t with
    | .verified get mtime revision _ fresh sourceUnchanged =>
      s.publish t get mtime revision fresh sourceUnchanged memory
    | _ => s
  | .invalidate => s.invalidate
  | .shutdown => s.shutdown

/-- The answers of a query are as the library promises. -/
def Step.Possible : Step ι → Prop
  | .endQuery _ load rows => Delivers rows (load.turns.map (·.code))
  | _ => True

/-- The threads and the lists. -/
def titleSystem (ι : Type) [DecidableEq ι] : System (State ι) (Step ι) :=
  (System.ofFunction State.initial next).restrict fun _ step => step.Possible

end ShadowMount.AppDb
