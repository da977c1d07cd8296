import Mathlib.Data.List.Induction
import ShadowMount.AppDb.Model

/-!
# The title lists of the application database - coherence

A cached list is the result of a query that began after the last invalidation.  The revision
carries this over the time in which no lock is held: it grows with every invalidation and every
publication, so a thread that finds the revision it has read before knows that there was no
invalidation since, and its query began behind that reading.

Main results:

- Theorem {lit}`title_cache_coherent`: the lists that calls return.
- Theorem {lit}`long_row_answers_for_its_cut`: a row may be cut, and then answers for its beginning.
-/

namespace ShadowMount.AppDb

open Foundation

variable {ι : Type}
variable {list list' : TitleList} {rows : List (Option Text)} {name : CacheName} {get : Get}
  {revision looked : Nat} {pc : Pc}

/-- What a list keeps of a row: nothing of an empty one, and of a long one as much as fits. -/
def storedRow (row : Option Text) : Option Text :=
  row.bind fun titleId => if titleId = [] then none else some (strlcpy maxTitleId titleId)

/-- What a list keeps of the rows of a query. -/
def stored (rows : List (Option Text)) : List Text := rows.filterMap storedRow

/-- One row is appended as the list stores it. -/
theorem appendAppDbTitle_ids {row : Option Text} {memory : Bool}
    (h : appendAppDbTitle list row memory = some list') : list'.ids = list.ids ++ stored [row] := by
  unfold appendAppDbTitle at h
  split at h
  next =>
    cases h
    simp [stored, storedRow]
  next titleId =>
    split at h
    next hempty =>
      cases h
      simp [stored, storedRow, hempty]
    next hempty =>
    split at h
    next => cases h
    next =>
      cases h
      simp [stored, storedRow, hempty]

/-- The first row is stored first. -/
theorem stored_cons (row : Option Text) (rows : List (Option Text)) :
    stored (row :: rows) = stored [row] ++ stored rows := by
  unfold stored
  rw [← List.filterMap_append, List.singleton_append]

/-- The loop over rows stores all of them. -/
theorem Rows.stepAppDbTitleQuery {turns : List Turn} (h : Rows rows (turns.map (·.code)))
    {busy : Nat} (hstep : stepAppDbTitleQuery list busy turns = (list', true)) :
    list'.ids = list.ids ++ stored rows := by
  induction turns generalizing rows list with
  | nil => cases hstep
  | cons turn turns ih =>
    obtain ⟨stop, code, memory⟩ := turn
    rw [AppDb.stepAppDbTitleQuery] at hstep
    dsimp only at hstep
    split at hstep
    next => cases hstep
    next =>
    cases h with
    | failed => cases hstep
    | done =>
      cases hstep
      simp [stored]
    | @row row rows _ hrest =>
      dsimp only at hstep
      split at hstep
      next list₁ happend =>
        rw [ih hrest hstep, appendAppDbTitle_ids happend, stored_cons row rows,
          List.append_assoc]
      next => cases hstep

/-- The same loop, when the database was busy at first. -/
theorem Delivers.stepAppDbTitleQuery {turns : List Turn} (h : Delivers rows (turns.map (·.code)))
    {busy : Nat} (hstep : stepAppDbTitleQuery list busy turns = (list', true)) :
    list'.ids = list.ids ++ stored rows := by
  induction turns generalizing busy with
  | nil => cases hstep
  | cons turn turns ih =>
    obtain ⟨stop, code, memory⟩ := turn
    cases h with
    | rows hrows => exact hrows.stepAppDbTitleQuery hstep
    | busy hrest =>
      rw [AppDb.stepAppDbTitleQuery] at hstep
      dsimp only at hstep
      split at hstep
      next => cases hstep
      next =>
      split at hstep
      next => exact ih hrest hstep
      next => cases hstep

/-- A load that succeeds has all rows of its query. -/
theorem loadAppDbTitleQuery_ids {load : Load} (hrows : Delivers rows (load.turns.map (·.code)))
    (h : loadAppDbTitleQuery load = some list) : list.ids = stored rows := by
  unfold loadAppDbTitleQuery at h
  split at h
  next => cases h
  next =>
  split at h
  next => cases h
  next =>
  split at h
  next => cases h
  next =>
  cases hstep : AppDb.stepAppDbTitleQuery .empty 0 load.turns with
  | mk list' loaded =>
    rw [hstep] at h
    dsimp only at h
    split at h
    next hloaded =>
      rw [Bool.and_eq_true] at hloaded
      cases h
      rw [hloaded.1] at hstep
      exact hrows.stepAppDbTitleQuery hstep
    next => cases h

/-- A copy has the titles of the list. -/
theorem copyAppDbTitleList_ids {memory : Bool} (h : copyAppDbTitleList list memory = some list') :
    list'.ids = list.ids := by
  unfold copyAppDbTitleList at h
  split at h
  next hempty =>
    cases h
    exact (List.length_eq_zero_iff.mp hempty).symm
  next =>
  split at h
  next => cases h; rfl
  next => cases h

variable {s s' : State ι} {n : Nat}

/-- The list is the result of one of the queries that have succeeded. -/
def ResultOf (s : State ι) (name : CacheName) (list : TitleList) (q : Query) : Prop :=
  q ∈ s.queries ∧ q.name = name ∧ list.ids = stored q.rows

/-- A cached list is the result of a query that began after the last invalidation. -/
def Current (s : State ι) (name : CacheName) : Prop :=
  (s.caches name).ready = true → ∃ q, ResultOf s name (s.caches name).list q ∧ q.began = s.epoch

/-- A thread has read the revision; while it is unchanged there was no invalidation. -/
structure Looked (s : State ι) (get : Get) (revision looked : Nat) : Prop where
  started : get.started ≤ s.epoch
  epoch : looked ≤ s.epoch
  reached : revision ≤ (s.caches get.name).revision
  unchanged : revision = (s.caches get.name).revision → looked = s.epoch

/-- What a load has brought is the result of a query that began behind the look. -/
def Brought (s : State ι) (get : Get) (looked : Nat) (fresh : Option (TitleList × Query)) : Prop :=
  ∀ list q, fresh = some (list, q) →
    ResultOf s get.name list q ∧ looked ≤ q.began ∧ q.began ≤ s.epoch

/-- What is known of a call that is under way. -/
def Pc.Known (s : State ι) : Pc → Prop
  | .idle => True
  | .entered get | .statted get _ => get.started ≤ s.epoch
  | .missed get _ revision looked => Looked s get revision looked
  | .querying get _ revision looked began =>
    Looked s get revision looked ∧ looked ≤ began ∧ began ≤ s.epoch
  | .loaded get _ revision looked fresh =>
    Looked s get revision looked ∧ Brought s get looked fresh
  | .verified get _ revision looked fresh _ =>
    Looked s get revision looked ∧ Brought s get looked fresh

/-- A call that has returned a list: its query began after every invalidation before its start. -/
def Returned.Fresh (s : State ι) (r : Returned) : Prop :=
  ∀ list, r.list = some list → ∃ q, ResultOf s r.get.name list q ∧ r.get.started ≤ q.began

/-- The invariant, with a bound for the revisions. -/
structure Coherent (n : Nat) (s : State ι) : Prop where
  bound : ∀ name, (s.caches name).revision ≤ n
  current : ∀ name, Current s name
  known : ∀ t, (s.threads t).Known s
  returned : ∀ r ∈ s.returned, r.Fresh s

/-- How the state moves on, in what threads have seen of it. -/
structure Later (s s' : State ι) : Prop where
  epoch : s.epoch ≤ s'.epoch
  queries : ∀ q ∈ s.queries, q ∈ s'.queries
  revision : ∀ name, (s.caches name).revision ≤ (s'.caches name).revision
  unchanged : ∀ name, (s.caches name).revision = (s'.caches name).revision → s.epoch = s'.epoch

/-- A result stays one. -/
theorem ResultOf.later {q : Query} (h : ResultOf s name list q) (hlater : Later s s') :
    ResultOf s' name list q :=
  ⟨hlater.queries q h.1, h.2⟩

/-- What a look has found stays true. -/
theorem Looked.later (h : Looked s get revision looked) (hlater : Later s s') :
    Looked s' get revision looked where
  started := h.started.trans hlater.epoch
  epoch := h.epoch.trans hlater.epoch
  reached := h.reached.trans (hlater.revision get.name)
  unchanged hsame := by
    have hbefore := h.reached
    have hafter := hlater.revision get.name
    rw [h.unchanged (by omega), hlater.unchanged get.name (by omega)]

/-- What a load has brought stays a result. -/
theorem Brought.later {fresh : Option (TitleList × Query)} (h : Brought s get looked fresh)
    (hlater : Later s s') : Brought s' get looked fresh := by
  intro list q heq
  obtain ⟨hresult, hlooked, hbegan⟩ := h list q heq
  exact ⟨hresult.later hlater, hlooked, hbegan.trans hlater.epoch⟩

/-- What is known of a call stays true. -/
theorem Pc.Known.later (h : pc.Known s) (hlater : Later s s') : pc.Known s' := by
  cases pc with
  | idle => trivial
  | entered get => exact Nat.le_trans h hlater.epoch
  | statted get mtime => exact Nat.le_trans h hlater.epoch
  | missed get mtime revision looked => exact Looked.later h hlater
  | querying get mtime revision looked began =>
    exact ⟨h.1.later hlater, h.2.1, h.2.2.trans hlater.epoch⟩
  | loaded get mtime revision looked fresh => exact ⟨h.1.later hlater, h.2.later hlater⟩
  | verified get mtime revision looked fresh unchanged =>
    exact ⟨h.1.later hlater, h.2.later hlater⟩

/-- A fresh answer stays fresh. -/
theorem Returned.Fresh.later {r : Returned} (h : r.Fresh s) (hlater : Later s s') : r.Fresh s' := by
  intro list hlist
  obtain ⟨q, hresult, hstarted⟩ := h list hlist
  exact ⟨q, hresult.later hlater, hstarted⟩

/-- The bound may be raised. -/
theorem Coherent.mono (h : Coherent n s) {m : Nat} (hnm : n ≤ m) : Coherent m s where
  bound name := (h.bound name).trans hnm
  current := h.current
  known := h.known
  returned := h.returned

/-- Nothing is cached at the start. -/
theorem coherent_initial : Coherent 0 (State.initial : State ι) where
  bound _ := Nat.le_refl _
  current _ := nofun
  known _ := trivial
  returned _ := nofun

/-- A step that leaves the caches and the epoch alone. -/
theorem later_of_caches (hcaches : s'.caches = s.caches) (hepoch : s'.epoch = s.epoch)
    (hqueries : ∀ q ∈ s.queries, q ∈ s'.queries) : Later s s' where
  epoch := hepoch.ge
  queries := hqueries
  revision name := by rw [hcaches]
  unchanged _ _ := hepoch.symm

/-- A cache that is left alone stays current. -/
theorem Current.later (h : Current s name) (hlater : Later s s')
    (hcaches : s'.caches name = s.caches name) (hepoch : s'.epoch = s.epoch) : Current s' name := by
  intro hready
  rw [hcaches] at hready ⊢
  obtain ⟨q, hresult, hbegan⟩ := h hready
  exact ⟨q, hresult.later hlater, hbegan.trans hepoch.symm⟩

/-- The copy of a cached list is a fresh answer. -/
theorem Coherent.copied (h : Coherent n s) (hstarted : get.started ≤ s.epoch)
    (hready : (s.caches get.name).ready = true) (memory : Bool) :
    Returned.Fresh s ⟨get, copyAppDbTitleList (s.caches get.name).list memory⟩ := by
  intro list hlist
  obtain ⟨q, hresult, hbegan⟩ := h.current get.name hready
  refine ⟨q, ⟨hresult.1, hresult.2.1, ?_⟩, ?_⟩
  · rw [copyAppDbTitleList_ids hlist]
    exact hresult.2.2
  · rw [hbegan]
    exact hstarted

/-- The revision grows by one as long as it does not wrap. -/
theorem nextRevision_eq (h : revision + 1 < 2 ^ 64) : nextRevision revision = revision + 1 :=
  Nat.mod_eq_of_lt h

/-- A step that changes a cache raises its revision. -/
theorem later_of_next (hsize : n + 1 < 2 ^ 64) (hbound : ∀ name, (s.caches name).revision ≤ n)
    (hepoch : s.epoch ≤ s'.epoch) (hqueries : s'.queries = s.queries)
    (hcaches : ∀ name, (s'.caches name = s.caches name ∧ s.epoch = s'.epoch) ∨
      (s'.caches name).revision = nextRevision (s.caches name).revision) : Later s s' where
  epoch := hepoch
  queries q hq := by
    rw [hqueries]
    exact hq
  revision name := by
    rcases hcaches name with ⟨hsame, -⟩ | hnext
    · rw [hsame]
    · have hle := hbound name
      rw [hnext, nextRevision_eq (by omega)]
      omega
  unchanged name heq := by
    rcases hcaches name with ⟨-, hsame⟩ | hnext
    · exact hsame
    · have hle := hbound name
      rw [hnext, nextRevision_eq (by omega)] at heq
      omega

/-- An invalidation begins an epoch without cached lists. -/
theorem Coherent.invalidated (h : Coherent n s) (hsize : n + 1 < 2 ^ 64)
    {caches : CacheName → TitleCache}
    (hcaches : ∀ name, ∃ list, caches name =
      invalidateAppDbTitleCacheEntry { s.caches name with list := list }) :
    Coherent (n + 1) { s with caches := caches, epoch := s.epoch + 1 } := by
  have hrevision : ∀ name, (caches name).revision = nextRevision (s.caches name).revision := by
    intro name
    obtain ⟨list, hlist⟩ := hcaches name
    rw [hlist]
    rfl
  have hlater : Later s { s with caches := caches, epoch := s.epoch + 1 } :=
    later_of_next hsize h.bound (Nat.le_succ _) rfl fun name => .inr (hrevision name)
  constructor
  · intro name
    have hle := h.bound name
    show (caches name).revision ≤ n + 1
    rw [hrevision, nextRevision_eq (by omega)]
    omega
  · intro name hready
    obtain ⟨list, hlist⟩ := hcaches name
    have hnot : (caches name).ready = false := by rw [hlist]; rfl
    rw [show (caches name).ready = true from hready] at hnot
    cases hnot
  · exact fun t => (h.known t).later hlater
  · exact fun r hr => (h.returned r hr).later hlater

/-- A list of the present epoch is published. -/
theorem Coherent.published (h : Coherent n s) (hsize : n + 1 < 2 ^ 64) {q : Query}
    (hresult : ResultOf s name list q) (hbegan : q.began = s.epoch) {mtime : Int}
    {caches : CacheName → TitleCache} (hcaches : caches = Function.update s.caches name
      (publishAppDbTitleList (s.caches name) list mtime)) :
    Coherent (n + 1) { s with caches := caches } := by
  have hself : caches name = publishAppDbTitleList (s.caches name) list mtime := by
    rw [hcaches, Function.update_self]
  have hrest : ∀ other, other ≠ name → caches other = s.caches other := by
    intro other hother
    rw [hcaches, Function.update_of_ne hother]
  have hlater : Later s { s with caches := caches } := by
    refine later_of_next hsize h.bound (Nat.le_refl _) rfl fun other => ?_
    by_cases hother : other = name
    · subst hother
      exact .inr (congrArg TitleCache.revision hself)
    · exact .inl ⟨hrest other hother, rfl⟩
  constructor
  · intro other
    have hle := h.bound other
    show (caches other).revision ≤ n + 1
    by_cases hother : other = name
    · subst hother
      have hnext : (caches other).revision = nextRevision (s.caches other).revision :=
        congrArg TitleCache.revision hself
      rw [hnext, nextRevision_eq (by omega)]
      omega
    · rw [hrest other hother]
      omega
  · intro other
    by_cases hother : other = name
    · subst hother
      intro _
      refine ⟨q, ⟨hresult.1, hresult.2.1, ?_⟩, hbegan⟩
      have hlist := congrArg TitleCache.list hself
      exact hlist ▸ hresult.2.2
    · exact (h.current other).later hlater (hrest other hother) rfl
  · exact fun t => (h.known t).later hlater
  · exact fun r hr => (h.returned r hr).later hlater

variable [DecidableEq ι]

/-- A step of one thread, given what becomes of the caches and of its call. -/
theorem Coherent.moved (h : Coherent n s) {t : ι} (hlater : Later s s')
    (hbound : ∀ name, (s'.caches name).revision ≤ n) (hcurrent : ∀ name, Current s' name)
    (hthreads : s'.threads = Function.update s.threads t pc) (hpc : pc.Known s')
    (hreturned : ∀ r ∈ s'.returned, r ∈ s.returned ∨ r.Fresh s') : Coherent n s' where
  bound := hbound
  current := hcurrent
  known u := by
    rw [hthreads]
    by_cases hu : u = t
    · rw [hu, Function.update_self]
      exact hpc
    · rw [Function.update_of_ne hu]
      exact (h.known u).later hlater
  returned r hr := by
    rcases hreturned r hr with hold | hnew
    · exact (h.returned r hold).later hlater
    · exact hnew

/-- A thread goes on. -/
theorem Coherent.goto (h : Coherent n s) (t : ι) (hpc : pc.Known s) : Coherent n (s.goto t pc) := by
  have hlater : Later s (s.goto t pc) := later_of_caches rfl rfl fun _ hq => hq
  exact h.moved hlater h.bound (fun name => (h.current name).later hlater rfl rfl) rfl
    (hpc.later hlater) fun r hr => .inl hr

/-- A call returns a fresh list. -/
theorem Coherent.return (h : Coherent n s) (t : ι) {list : Option TitleList}
    (hfresh : Returned.Fresh s ⟨get, list⟩) : Coherent n (s.return t get list) := by
  have hlater : Later s (s.return t get list) := later_of_caches rfl rfl fun _ hq => hq
  refine h.moved hlater h.bound (fun name => (h.current name).later hlater rfl rfl) rfl trivial
    fun r hr => ?_
  rcases List.mem_cons.mp hr with rfl | hold
  · exact .inr (hfresh.later hlater)
  · exact .inl hold

/-- A look answers from the cache or notes the revision. -/
theorem Coherent.look (h : Coherent n s) (t : ι) (hstarted : get.started ≤ s.epoch)
    (mtime : Option Int) (resumeGrace memory : Bool) :
    Coherent n (s.look t get mtime resumeGrace memory) := by
  unfold State.look
  dsimp only
  split
  next hcurrent =>
    rw [cacheIsCurrent, Bool.and_eq_true] at hcurrent
    exact h.return t (h.copied hstarted hcurrent.1 memory)
  next => exact h.goto t ⟨hstarted, Nat.le_refl _, Nat.le_refl _, fun _ => rfl⟩

/-- A query ends with a result of its own. -/
theorem Coherent.endQuery (h : Coherent n s) (t : ι) {mtime : Int} {began : Nat}
    (hlooked : Looked s get revision looked) (hbegan : looked ≤ began ∧ began ≤ s.epoch)
    {load : Load} (hrows : Delivers rows (load.turns.map (·.code))) :
    Coherent n (s.endQuery t get mtime revision looked began load rows) := by
  unfold State.endQuery
  split
  next => exact h.goto t ⟨hlooked, nofun⟩
  next list hload =>
    have hlater : Later s { s.goto t (.loaded get mtime revision looked
        (some (list, ⟨get.name, began, rows⟩))) with
        queries := ⟨get.name, began, rows⟩ :: s.queries } :=
      later_of_caches rfl rfl fun q hq => List.mem_cons_of_mem _ hq
    refine h.moved hlater h.bound (fun name => (h.current name).later hlater rfl rfl) rfl ?_
      fun r hr => .inl hr
    refine ⟨hlooked.later hlater, fun list' q heq => ?_⟩
    cases heq
    exact ⟨⟨List.mem_cons_self, rfl, loadAppDbTitleQuery_ids hrows hload⟩, hbegan⟩

/-- What a publication does to the caches, and what the call returns. -/
theorem publish_cases (s : State ι) (t : ι) (get : Get) (mtime : Option Int) (revision : Nat)
    (fresh : Option (TitleList × Query)) (sourceUnchanged memory : Bool) :
    ∃ caches : CacheName → TitleCache,
      (caches = s.caches ∨ ∃ list q known, fresh = some (list, q) ∧
        (s.caches get.name).revision = revision ∧
        caches = Function.update s.caches get.name
          (publishAppDbTitleList (s.caches get.name) list known)) ∧
      s.publish t get mtime revision fresh sourceUnchanged memory =
        { s with caches := caches }.return t get
          (if (caches get.name).ready then copyAppDbTitleList (caches get.name).list memory
            else none) := by
  unfold State.publish
  dsimp only
  split
  next list q known =>
    split
    next hunchanged =>
      rw [Bool.and_eq_true, decide_eq_true_eq] at hunchanged
      refine ⟨_, .inr ⟨list, q, known, rfl, hunchanged.2, rfl⟩, ?_⟩
      simp only [Function.update_self]
    next => exact ⟨s.caches, .inl rfl, by rw [Function.update_eq_self]⟩
  next => exact ⟨s.caches, .inl rfl, by rw [Function.update_eq_self]⟩

/-- The publishing step, with its check of the revision. -/
theorem Coherent.publish (h : Coherent n s) (hsize : n + 1 < 2 ^ 64) (t : ι) {mtime : Option Int}
    (hlooked : Looked s get revision looked) {fresh : Option (TitleList × Query)}
    (hfresh : Brought s get looked fresh) (sourceUnchanged memory : Bool) :
    Coherent (n + 1) (s.publish t get mtime revision fresh sourceUnchanged memory) := by
  obtain ⟨caches, hcaches, heq⟩ :=
    publish_cases s t get mtime revision fresh sourceUnchanged memory
  have hcoherent : Coherent (n + 1) { s with caches := caches } := by
    rcases hcaches with rfl | ⟨list, q, known, hbrought, hrevision, rfl⟩
    · exact h.mono (Nat.le_succ n)
    · -- The revision is the one that was read, so the query began behind the last invalidation.
      obtain ⟨hresult, hbegan, hnow⟩ := hfresh list q hbrought
      have hepoch := hlooked.unchanged hrevision.symm
      exact h.published hsize hresult (by omega) rfl
  rw [heq]
  apply hcoherent.return
  split
  next hready => exact hcoherent.copied hlooked.started hready memory
  next => exact nofun

/-- One step keeps the invariant. -/
theorem Coherent.next (h : Coherent n s) (hsize : n + 1 < 2 ^ 64) {step : Step ι}
    (hpossible : step.Possible) : Coherent (n + 1) (next s step) := by
  have hsame : ∀ {s' : State ι}, Coherent n s' → Coherent (n + 1) s' :=
    fun h' => h'.mono (Nat.le_succ n)
  cases step with
  | call t name =>
    rw [AppDb.next]
    split
    next => exact hsame (h.goto t (Nat.le_refl s.epoch))
    next => exact hsame h
  | stat t mtime =>
    rw [AppDb.next]
    split
    next get hpc =>
      have hknown := h.known t
      rw [hpc] at hknown
      exact hsame (h.goto t hknown)
    next => exact hsame h
  | look t resumeGrace memory =>
    rw [AppDb.next]
    split
    next get mtime hpc =>
      have hknown := h.known t
      rw [hpc] at hknown
      exact hsame (h.look t hknown mtime resumeGrace memory)
    next => exact hsame h
  | beginQuery t =>
    rw [AppDb.next]
    split
    next get mtime revision looked hpc =>
      have hknown := h.known t
      rw [hpc] at hknown
      exact hsame (h.goto t ⟨hknown, hknown.epoch, Nat.le_refl _⟩)
    next get revision looked hpc =>
      have hknown := h.known t
      rw [hpc] at hknown
      exact hsame (h.goto t ⟨hknown, nofun⟩)
    next => exact hsame h
  | endQuery t load rows =>
    rw [AppDb.next]
    split
    next get mtime revision looked began hpc =>
      have hknown := h.known t
      rw [hpc] at hknown
      exact hsame (h.endQuery t hknown.1 hknown.2 hpossible)
    next => exact hsame h
  | verify t mtime =>
    rw [AppDb.next]
    split
    next get known revision looked fresh hpc =>
      have hknown := h.known t
      rw [hpc] at hknown
      exact hsame (h.goto t hknown)
    next => exact hsame h
  | publish t memory =>
    rw [AppDb.next]
    split
    next get mtime revision looked fresh unchanged hpc =>
      have hknown := h.known t
      rw [hpc] at hknown
      exact h.publish hsize t hknown.1 hknown.2 unchanged memory
    next => exact hsame h
  | invalidate => exact h.invalidated hsize fun name => ⟨(s.caches name).list, rfl⟩
  | shutdown => exact h.invalidated hsize fun name => ⟨.empty, rfl⟩

/-- The invariant holds on every run. -/
theorem trace_coherent {h : History (State ι) (Step ι)} (htrace : Trace (titleSystem ι) h s)
    (hsize : h.length < 2 ^ 64) : Coherent h.length s := by
  induction htrace with
  | start hs =>
    rw [show _ = State.initial from hs]
    exact coherent_initial
  | step hprev hstep ih =>
    rw [List.length_cons] at hsize ⊢
    rw [show _ = AppDb.next _ _ from hstep.1]
    exact (ih (by omega)).next hsize hstep.2

/-- The rows come in the order of their bytes. -/
def ByteOrdered (rows : List (Option Text)) : Prop := (rows.filterMap id).Pairwise (· ≤ ·)

/-- The empty text comes first. -/
theorem nil_le (b : Text) : ([] : Text) ≤ b := by
  cases b with
  | nil => exact le_refl _
  | cons c b => exact le_of_lt List.Lex.nil

/-- Beginnings keep the order of texts. -/
theorem take_le_take {a b : Text} (h : a ≤ b) (n : Nat) : a.take n ≤ b.take n := by
  induction n generalizing a b with
  | zero => exact le_refl _
  | succ n ih =>
    rcases h.eq_or_lt with rfl | hlt
    · exact le_refl _
    · cases hlt with
      | nil => exact nil_le _
      | cons hlt => exact List.cons_le_cons _ (ih (le_of_lt hlt))
      | rel hlt => exact le_of_lt (List.Lex.rel hlt)

/-- The stored titles, without the empty rows and each as far as it fits. -/
theorem stored_eq_map (rows : List (Option Text)) :
    stored rows = ((rows.filterMap id).filter (· ≠ [])).map (strlcpy maxTitleId) := by
  induction rows with
  | nil => rfl
  | cons row rows ih =>
    rw [stored_cons, ih]
    cases row with
    | none => rfl
    | some titleId =>
      by_cases hempty : titleId = []
      · simp [stored, storedRow, hempty]
      · simp [stored, storedRow, hempty]

/-- Sorted rows are stored sorted. -/
theorem pairwise_stored (h : ByteOrdered rows) : (stored rows).Pairwise (· ≤ ·) := by
  rw [stored_eq_map, List.pairwise_map]
  exact (h.filter _).imp fun hle => take_le_take hle _

/-- A stored title is the beginning of a row that fits the list. -/
theorem mem_stored {titleId : Text} :
    titleId ∈ stored rows ↔
      ∃ row, some row ∈ rows ∧ row ≠ [] ∧ strlcpy maxTitleId row = titleId := by
  rw [stored_eq_map]
  simp [and_assoc]

/-- The list answers for the beginnings that it keeps of the rows. -/
theorem appDbTitleListContains_iff (hordered : ByteOrdered rows) (hlist : list.ids = stored rows)
    (titleId : Text) :
    appDbTitleListContains list titleId = true ↔
      ∃ row, some row ∈ rows ∧ row ≠ [] ∧ strlcpy maxTitleId row = titleId := by
  rw [← mem_stored, ← hlist]
  unfold appDbTitleListContains
  split
  next hempty => simp [List.length_eq_zero_iff.mp hempty]
  next =>
    apply bisect_isSome_iff
    rw [hlist]
    exact pairwise_stored hordered

/-- Membership of a title that no row was cut to. -/
theorem appDbTitleListContains_exact (hordered : ByteOrdered rows) (hlist : list.ids = stored rows)
    {titleId : Text} (hnonempty : titleId ≠ []) (hshort : titleId.length + 1 < maxTitleId ∨
      ∀ row, some row ∈ rows → row.length < maxTitleId) :
    appDbTitleListContains list titleId = true ↔ some titleId ∈ rows := by
  have hcut : ∀ row : Text, row.length < maxTitleId → strlcpy maxTitleId row = row := by
    intro row hrow
    exact List.take_of_length_le (by omega)
  rw [appDbTitleListContains_iff hordered hlist]
  constructor
  · rintro ⟨row, hrow, -, heq⟩
    have hfits : row.length < maxTitleId := by
      rcases hshort with hshort | hrows
      · have hlength := congrArg List.length heq
        rw [strlcpy, List.length_take] at hlength
        omega
      · exact hrows row hrow
    rw [hcut row hfits] at heq
    exact heq ▸ hrow
  · intro hrow
    refine ⟨titleId, hrow, hnonempty, hcut titleId ?_⟩
    rcases hshort with hshort | hrows
    · omega
    · exact hrows titleId hrow

/-- One step leaves a cached list, or frees it at the shutdown, or puts the result of a query that
has succeeded in its place. -/
theorem next_list (hcoherent : Coherent n s) (step : Step ι) (name : CacheName) :
    ((next s step).caches name).list = (s.caches name).list ∨ step = .shutdown ∨
      ∃ q, ResultOf s name ((next s step).caches name).list q := by
  cases step with
  | call t name =>
    rw [AppDb.next]
    split
    next => exact .inl rfl
    next => exact .inl rfl
  | stat t mtime =>
    rw [AppDb.next]
    split
    next => exact .inl rfl
    next => exact .inl rfl
  | look t resumeGrace memory =>
    rw [AppDb.next]
    split
    next =>
      unfold State.look
      dsimp only
      split
      next => exact .inl rfl
      next => exact .inl rfl
    next => exact .inl rfl
  | beginQuery t =>
    rw [AppDb.next]
    split
    next => exact .inl rfl
    next => exact .inl rfl
    next => exact .inl rfl
  | endQuery t load rows =>
    rw [AppDb.next]
    split
    next =>
      unfold State.endQuery
      split
      next => exact .inl rfl
      next => exact .inl rfl
    next => exact .inl rfl
  | verify t mtime =>
    rw [AppDb.next]
    split
    next => exact .inl rfl
    next => exact .inl rfl
  | publish t memory =>
    rw [AppDb.next]
    split
    next get mtime revision looked fresh unchanged hpc =>
      have hknown := hcoherent.known t
      rw [hpc] at hknown
      obtain ⟨caches, hcaches, heq⟩ :=
        publish_cases s t get mtime revision fresh unchanged memory
      rw [heq]
      show (caches name).list = _ ∨ _ ∨ ∃ q, ResultOf s name (caches name).list q
      rcases hcaches with rfl | ⟨list, q, known, hfresh, -, rfl⟩
      · exact .inl rfl
      · by_cases hname : name = get.name
        · subst hname
          rw [Function.update_self]
          exact .inr (.inr ⟨q, (hknown.2 list q hfresh).1⟩)
        · rw [Function.update_of_ne hname]
          exact .inl rfl
    next => exact .inl rfl
  | invalidate => exact .inl rfl
  | shutdown => exact .inr (.inl rfl)

/-- A load that has failed replaces no cached list. -/
theorem publish_failed (t : ι) {mtime : Option Int} {sourceUnchanged : Bool}
    (hpc : s.threads t = .verified get mtime revision looked none sourceUnchanged) (memory : Bool) :
    (next s (.publish t memory)).caches = s.caches := by
  rw [AppDb.next, hpc]
  dsimp only
  obtain ⟨caches, hcaches, heq⟩ :=
    publish_cases s t get mtime revision none sourceUnchanged memory
  rw [heq]
  rcases hcaches with rfl | ⟨list, q, known, hfresh, -⟩
  · rfl
  · cases hfresh

/-- In every run of any number of threads, of fewer steps than the revision can count: a list that
a call returns has all rows of a query that has succeeded, each as far as it fits, and that began
after every invalidation before the start of the call.  When the rows come in the order of their
bytes, the list answers for the beginnings that it keeps, which is for the rows themselves unless
one of them is cut to the title.  No step but a successful load or the shutdown replaces a cached
list. -/
theorem title_cache_coherent {h : History (State ι) (Step ι)} (htrace : Trace (titleSystem ι) h s)
    (hsize : h.length < 2 ^ 64) :
    (∀ r ∈ s.returned, ∀ list, r.list = some list →
      ∃ q ∈ s.queries, q.name = r.get.name ∧ r.get.started ≤ q.began ∧ list.ids = stored q.rows ∧
        (ByteOrdered q.rows → ∀ titleId,
          (appDbTitleListContains list titleId = true ↔
            ∃ row, some row ∈ q.rows ∧ row ≠ [] ∧ strlcpy maxTitleId row = titleId) ∧
          (titleId ≠ [] → (titleId.length + 1 < maxTitleId ∨
              ∀ row, some row ∈ q.rows → row.length < maxTitleId) →
            (appDbTitleListContains list titleId = true ↔ some titleId ∈ q.rows)))) ∧
    (∀ (step : Step ι) (name : CacheName),
      ((next s step).caches name).list = (s.caches name).list ∨ step = .shutdown ∨
        ∃ q ∈ s.queries, q.name = name ∧
          ((next s step).caches name).list.ids = stored q.rows) ∧
    ∀ t get mtime revision looked sourceUnchanged memory,
      s.threads t = .verified get mtime revision looked none sourceUnchanged →
        (next s (.publish t memory)).caches = s.caches := by
  have hcoherent := trace_coherent htrace hsize
  refine ⟨fun r hr list hlist => ?_, fun step name => ?_, ?_⟩
  · obtain ⟨q, ⟨hquery, hname, hids⟩, hstarted⟩ := hcoherent.returned r hr list hlist
    refine ⟨q, hquery, hname, hstarted, hids, fun hordered titleId => ⟨?_, ?_⟩⟩
    · exact appDbTitleListContains_iff hordered hids titleId
    · exact appDbTitleListContains_exact hordered hids
  · rcases next_list hcoherent step name with hsame | hshutdown | ⟨q, hquery, hname, hids⟩
    · exact .inl hsame
    · exact .inr (.inl hshutdown)
    · exact .inr (.inr ⟨q, hquery, hname, hids⟩)
  · intro t get mtime revision looked sourceUnchanged memory hpc
    exact publish_failed t hpc memory

/-- A load that brings the rows. -/
def rowsLoad (rows : List Text) : Load where
  stop := false
  opened := true
  prepared := [(.ok, false)]
  turns := rows.map (fun row => ⟨false, .row (some row), true⟩) ++ [⟨false, .done, true⟩]
  closed := true

theorem delivers_rowsLoad (rows : List Text) :
    Delivers (rows.map some) ((rowsLoad rows).turns.map (·.code)) := by
  refine .rows ?_
  induction rows with
  | nil => exact .done
  | cons row rows ih => exact .row ih

/-- Possible steps make a run. -/
theorem exists_trace (steps : List (Step ι)) (hpossible : ∀ step ∈ steps, step.Possible) :
    ∃ h, Trace (titleSystem ι) h (steps.foldl next State.initial) ∧ h.length = steps.length := by
  induction steps using List.reverseRecOn with
  | nil => exact ⟨[], .start rfl, rfl⟩
  | append_singleton steps step ih =>
    obtain ⟨h, htrace, hlength⟩ :=
      ih fun step hmem => hpossible step (List.mem_append_left _ hmem)
    rw [List.foldl_append]
    refine ⟨_, htrace.step ⟨rfl, hpossible step ?_⟩, ?_⟩
    · exact List.mem_append_right _ (List.mem_singleton_self step)
    · rw [List.length_cons, hlength, List.length_append, List.length_singleton]

/-- The caches are invalidated behind a query of the first thread, whose list is not published.
What the second thread loads then answers the next call of the first one too. -/
theorem title_cache_coherent_two_threads :
    let steps : List (Step Bool) :=
      [.call false .titles, .stat false (some 7), .look false false true, .beginQuery false,
        .invalidate, .call true .titles, .stat true (some 8), .look true false true,
        .beginQuery true,
        .endQuery false (rowsLoad ["CUSA00001".toList]) (["CUSA00001".toList].map some),
        .verify false (some 7), .publish false true,
        .endQuery true (rowsLoad ["CUSA00001".toList, "CUSA00002".toList])
          (["CUSA00001".toList, "CUSA00002".toList].map some),
        .verify true (some 8), .publish true true,
        .call false .titles, .stat false (some 8), .look false false true]
    let s := steps.foldl next State.initial
    s.returned.map (fun r => r.list.map TitleList.ids) =
        [some ["CUSA00001".toList, "CUSA00002".toList],
          some ["CUSA00001".toList, "CUSA00002".toList], none] ∧
      ∀ r ∈ s.returned, ∀ list, r.list = some list → ∃ q ∈ s.queries, r.get.started ≤ q.began ∧
        (appDbTitleListContains list "CUSA00002".toList = true ↔
          some "CUSA00002".toList ∈ q.rows) := by
  intro steps s
  obtain ⟨h, htrace, hlength⟩ :=
    exists_trace steps (by simp [steps, Step.Possible, -List.map_cons, delivers_rowsLoad])
  have hsize : steps.length = 18 := rfl
  refine ⟨by decide +kernel, fun r hr list hlist => ?_⟩
  obtain ⟨q, hq, -, hbegan, -, hcontains⟩ :=
    (title_cache_coherent htrace (by omega)).1 r hr list hlist
  have hordered : ∀ q ∈ s.queries, (q.rows.filterMap id).Pairwise (· ≤ ·) := by
    decide +kernel
  exact ⟨q, hq, hbegan, (hcontains (hordered q hq) _).2 (by decide) (.inl (by decide))⟩

/-- A row that does not fit the list answers for its beginning, which is no title of the
database. -/
theorem long_row_answers_for_its_cut :
    ¬ ∀ (h : History (State Unit) (Step Unit)) (s : State Unit), Trace (titleSystem Unit) h s →
        ∀ r ∈ s.returned, ∀ list, r.list = some list →
          ∃ q ∈ s.queries, q.name = r.get.name ∧ r.get.started ≤ q.began ∧
            (ByteOrdered q.rows → ∀ titleId, titleId.length < maxTitleId →
              (appDbTitleListContains list titleId = true ↔ some titleId ∈ q.rows)) := by
  intro hexact
  let steps : List (Step Unit) :=
    [.call () .titles, .stat () (some 7), .look () false true, .beginQuery (),
      .endQuery () (rowsLoad [List.replicate 40 'A']) ([List.replicate 40 'A'].map some),
      .verify () (some 7), .publish () true]
  obtain ⟨h, htrace, -⟩ :=
    exists_trace steps (by simp [steps, Step.Possible, -List.map_cons, delivers_rowsLoad])
  have hreturned : (steps.foldl next State.initial).returned =
      [⟨⟨.titles, 0⟩, some ⟨[List.replicate 31 'A'], 1⟩⟩] := by
    rfl
  have hqueries : (steps.foldl next State.initial).queries =
      [⟨.titles, 0, [some (List.replicate 40 'A')]⟩] := by
    rfl
  obtain ⟨q, hq, -, -, hcontains⟩ :=
    hexact h _ htrace _ (hreturned ▸ List.mem_singleton_self _) _ rfl
  rw [hqueries, List.mem_singleton] at hq
  subst hq
  have hanswer := hcontains (List.pairwise_singleton _ _) (List.replicate 31 'A') (by decide)
  have hfound :
      appDbTitleListContains ⟨[List.replicate 31 'A'], 1⟩ (List.replicate 31 'A') = true := by
    decide
  have hrow := hanswer.mp hfound
  simp at hrow

end ShadowMount.AppDb
