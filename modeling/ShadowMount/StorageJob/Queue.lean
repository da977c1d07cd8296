import Mathlib.Data.List.Nodup
import ShadowMount.StorageJob.Model

/-!
# Storage job - Operations of the package queue

The invariant of the record and of the threads, and what each operation under the
mutex does to the queue.
-/

namespace ShadowMount.StorageJob

open Foundation Job

variable {info e : PkgInfo} {installed baseInstalled : Bool} {r : InstallRequest}

/-- The phases in which a thread serves the queue. -/
def Phase.serves : Phase → Bool
  | .spawning | .abandoned _ | .reading | .preparing _ | .installing _ => true
  | _ => false

/-- The path of the package that a thread is busy with. -/
def Phase.source : Phase → Option Text
  | .preparing source | .installing source => some source
  | _ => none

/-- A thread agrees with the record of its job. -/
structure Serves (j : Job) (t : Task) : Prop where
  active : j.state.isActive = true
  id : t.id = j.id
  source : ∀ source, t.phase.source = some source → source = j.source
  running : j.pkgQueueRunning = true → t.package = true ∧ t.phase.serves = true

/-- One thread works for an active job, and none when no job is active. -/
def Threads (j : Job) : List Task → Prop
  | [] => j.state.isActive = false ∧ j.pkgQueueRunning = false
  | [t] => Serves j t
  | _ => False

/-- The queue, and its counters while it runs. -/
structure Queued (j : Job) : Prop where
  bounded : j.pkgQueue.length ≤ pkgQueueMax
  paths : (j.pkgQueue.map PkgInfo.path).Nodup
  identities : (j.pkgQueue.map PkgInfo.identity).Nodup
  head : j.pkgQueueRunning = true → j.pkgQueue.head?.map PkgInfo.path = some j.source
  counts : j.pkgQueueRunning = true →
    j.pkgQueueTotal = j.pkgQueueCompleted + j.pkgQueue.length
  wrapped : j.wrapped = false

structure Sound (s : State) : Prop where
  threads : Threads s.job s.tasks
  queue : Queued s.job

/-- The fields that the invariant looks at are the same. -/
structure Keeps (j j' : Job) : Prop where
  active : j'.state.isActive = j.state.isActive
  id : j'.id = j.id
  source : j'.source = j.source
  queue : j'.pkgQueue = j.pkgQueue
  completed : j'.pkgQueueCompleted = j.pkgQueueCompleted
  total : j'.pkgQueueTotal = j.pkgQueueTotal
  running : j'.pkgQueueRunning = j.pkgQueueRunning
  wrapped : j'.wrapped = j.wrapped

variable {j j' : Job} {t t' : Task} {s : State}

theorem Keeps.refl (j : Job) : Keeps j j := ⟨rfl, rfl, rfl, rfl, rfl, rfl, rfl, rfl⟩

theorem Keeps.queued (h : Keeps j j') (hq : Queued j) : Queued j' where
  bounded := by rw [h.queue]; exact hq.bounded
  paths := by rw [h.queue]; exact hq.paths
  identities := by rw [h.queue]; exact hq.identities
  head := by rw [h.running, h.queue, h.source]; exact hq.head
  counts := by rw [h.running, h.total, h.completed, h.queue]; exact hq.counts
  wrapped := by rw [h.wrapped]; exact hq.wrapped

theorem Threads.congr {tasks : List Task} (ht : Threads j tasks)
    (hactive : j'.state.isActive = j.state.isActive) (hid : j'.id = j.id)
    (hsource : j'.source = j.source) (hrunning : j'.pkgQueueRunning = j.pkgQueueRunning) :
    Threads j' tasks := by
  match tasks, ht with
  | [], ht => exact ⟨hactive.trans ht.1, hrunning.trans ht.2⟩
  | [t], ht =>
    refine ⟨hactive.trans ht.active, ht.id.trans hid.symm, ?_, ?_⟩
    · rw [hsource]
      exact ht.source
    · rw [hrunning]
      exact ht.running

theorem Threads.eq_nil {tasks : List Task} (ht : Threads j tasks)
    (hidle : j.state.isActive = false) : tasks = [] := by
  match tasks, ht with
  | [], _ => rfl
  | [t], ht =>
    have hactive := ht.active
    rw [hidle] at hactive
    cases hactive

theorem Sound.keeps (hs : Sound s) (h : Keeps s.job j') : Sound { s with job := j' } :=
  ⟨hs.threads.congr h.active h.id h.source h.running, h.queued hs.queue⟩

theorem keeps_cancelStorageJob (j : Job) (jobId : UInt64) : Keeps j (j.cancelStorageJob jobId) := by
  unfold cancelStorageJob
  split
  · exact ⟨rfl, rfl, rfl, rfl, rfl, rfl, rfl, rfl⟩
  · exact .refl j

theorem keeps_onSleep (j : Job) : Keeps j j.onSleep := by
  unfold onSleep
  split
  · exact ⟨rfl, rfl, rfl, rfl, rfl, rfl, rfl, rfl⟩
  · exact .refl j

theorem not_any_path {queue : List PkgInfo}
    (h : ¬queue.any (fun e => e.path = info.path || e.identity = info.identity) = true) :
    info.path ∉ queue.map PkgInfo.path ∧ info.identity ∉ queue.map PkgInfo.identity := by
  have hnone : ∀ e ∈ queue, e.path ≠ info.path ∧ e.identity ≠ info.identity := by
    intro e he
    simp only [List.any_eq_true, not_exists, not_and] at h
    have hnot := h e he
    simp only [Bool.or_eq_true, decide_eq_true_eq, not_or] at hnot
    exact hnot
  constructor
  · intro hmem
    rcases List.mem_map.mp hmem with ⟨e, he, heq⟩
    exact (hnone e he).1 heq
  · intro hmem
    rcases List.mem_map.mp hmem with ⟨e, he, heq⟩
    exact (hnone e he).2 heq

/-- What `enqueue_package_locked` appends. -/
theorem enqueuePackage_ok (h : j.enqueuePackage info installed = .ok j') :
    (info.path ∉ j.pkgQueue.map PkgInfo.path ∧ info.identity ∉ j.pkgQueue.map PkgInfo.identity) ∧
      j.pkgQueue.length ≠ pkgQueueMax ∧
      j' = { j with
        pkgQueue := j.pkgQueue ++ [info]
        pkgQueueTotal := if j.pkgQueueRunning then j.pkgQueueTotal + 1 else j.pkgQueueTotal } := by
  unfold enqueuePackage at h
  split at h
  · cases h
  · split at h
    · cases h
    · split at h
      · cases h
      · split at h
        · cases h
        · rename_i hnew
          split at h
          · cases h
          · rename_i hroom
            cases h
            exact ⟨not_any_path hnew, hroom, rfl⟩

theorem nodup_append_singleton {α : Type} {l : List α} {a : α} (h : l.Nodup) (ha : a ∉ l) :
    (l ++ [a]).Nodup := by
  rw [List.nodup_append]
  refine ⟨h, List.nodup_singleton a, ?_⟩
  intro x hx y hy heq
  rw [List.mem_singleton] at hy
  exact ha (hy ▸ heq ▸ hx)

/-- A new package is different from those that wait. -/
theorem Queued.enqueue (hq : Queued j) (h : j.enqueuePackage info installed = .ok j') :
    Queued j' := by
  rcases enqueuePackage_ok h with ⟨⟨hpath, hidentity⟩, hroom, rfl⟩
  refine ⟨?_, ?_, ?_, ?_, ?_, hq.wrapped⟩
  · show (j.pkgQueue ++ [info]).length ≤ pkgQueueMax
    have hbounded := hq.bounded
    rw [List.length_append, List.length_singleton]
    omega
  · show ((j.pkgQueue ++ [info]).map PkgInfo.path).Nodup
    rw [List.map_append]
    exact nodup_append_singleton hq.paths hpath
  · show ((j.pkgQueue ++ [info]).map PkgInfo.identity).Nodup
    rw [List.map_append]
    exact nodup_append_singleton hq.identities hidentity
  · intro hrunning
    have hhead := hq.head hrunning
    show (j.pkgQueue ++ [info]).head?.map PkgInfo.path = some j.source
    cases hqueue : j.pkgQueue with
    | nil =>
      rw [hqueue] at hhead
      cases hhead
    | cons e rest =>
      rw [hqueue] at hhead
      exact hhead
  · intro hrunning
    have hrunning : j.pkgQueueRunning = true := hrunning
    have hcounts := hq.counts hrunning
    show (if j.pkgQueueRunning then j.pkgQueueTotal + 1 else j.pkgQueueTotal) =
      j.pkgQueueCompleted + (j.pkgQueue ++ [info]).length
    rw [if_pos hrunning, List.length_append, List.length_singleton]
    omega

/-- What the action `add` of `handle_package_queue` appends. -/
theorem queueAdd_ok (h : j.queueAdd info installed = .ok j') :
    j.enqueuePackage info installed = .ok j' := by
  unfold queueAdd at h
  split at h
  · cases h
  · exact h

/-- Part of the queue stays, and the number of all packages of a run follows. -/
def keepPackages (j : Job) (kept : List PkgInfo) : Job :=
  { j with
    pkgQueue := kept
    pkgQueueTotal :=
      if j.pkgQueueRunning then j.pkgQueueTotal - (j.pkgQueue.length - kept.length)
      else j.pkgQueueTotal }

/-- Some packages may be dropped, not the running one. -/
theorem Queued.keep (hq : Queued j) {kept : List PkgInfo} (hsub : kept.Sublist j.pkgQueue)
    (hhead : j.pkgQueueRunning = true → kept.head? = j.pkgQueue.head?) :
    Queued (keepPackages j kept) := by
  have hlength : kept.length ≤ j.pkgQueue.length := hsub.length_le
  refine ⟨?_, ?_, ?_, ?_, ?_, hq.wrapped⟩
  · exact Nat.le_trans hlength hq.bounded
  · exact hq.paths.sublist (hsub.map PkgInfo.path)
  · exact hq.identities.sublist (hsub.map PkgInfo.identity)
  · intro hrunning
    show kept.head?.map PkgInfo.path = some j.source
    rw [hhead hrunning]
    exact hq.head hrunning
  · intro hrunning
    have hrunning : j.pkgQueueRunning = true := hrunning
    have hcounts := hq.counts hrunning
    show (if j.pkgQueueRunning then j.pkgQueueTotal - (j.pkgQueue.length - kept.length)
      else j.pkgQueueTotal) = j.pkgQueueCompleted + kept.length
    rw [if_pos hrunning]
    omega

theorem Queued.not_short (hq : Queued j) (hrunning : j.pkgQueueRunning = true) (n : Nat) :
    decide (j.pkgQueueTotal < j.pkgQueue.length - n) = false := by
  have hcounts := hq.counts hrunning
  rw [decide_eq_false_iff_not]
  omega

theorem Queued.exists_head (hq : Queued j) (hrunning : j.pkgQueueRunning = true) :
    ∃ e rest, j.pkgQueue = e :: rest ∧ e.path = j.source := by
  have hhead := hq.head hrunning
  cases hqueue : j.pkgQueue with
  | nil =>
    rw [hqueue] at hhead
    cases hhead
  | cons e rest =>
    rw [hqueue] at hhead
    exact ⟨e, rest, rfl, Option.some.inj hhead⟩

/-- `clear_package_queue_locked` keeps the package that is installed. -/
theorem Queued.clear_eq (hq : Queued j) {onlyIfIdle : Bool}
    (h : j.clearPackageQueue onlyIfIdle = .ok j') :
    j' = keepPackages j (j.pkgQueue.take (if j.pkgQueueRunning then 1 else 0)) := by
  unfold clearPackageQueue at h
  split at h
  · cases h
  · cases h
    cases hrunning : j.pkgQueueRunning with
    | false =>
      simp [keepPackages, hrunning]
    | true =>
      rcases hq.exists_head hrunning with ⟨e, rest, hqueue, -⟩
      have hshort := hq.not_short hrunning 1
      rw [hqueue] at hshort
      simp only [List.length_cons, Nat.add_sub_cancel] at hshort
      simp [keepPackages, subtractTotal, hrunning, hqueue, hshort]

theorem head?_take_running {running : Bool} {queue : List PkgInfo} (h : running = true) :
    (queue.take (if running then 1 else 0)).head? = queue.head? := by
  rw [if_pos h]
  cases queue with
  | nil => rfl
  | cons e rest => rfl

theorem Queued.clear (hq : Queued j) {onlyIfIdle : Bool}
    (h : j.clearPackageQueue onlyIfIdle = .ok j') : Queued j' := by
  rw [hq.clear_eq h]
  exact hq.keep (List.take_sublist _ _) head?_take_running

/-- The entries that stay when one is removed. -/
def keptEntries (j : Job) (index : Nat) (removed : PkgInfo) (baseInstalled : Bool) :
    List PkgInfo :=
  (j.pkgQueue.zipIdx.filter fun (e, i) =>
    !(i = index || ((removed.pkgKind = .base && !baseInstalled) &&
      !(i = 0 && j.pkgQueueRunning) && e.titleId = removed.titleId))).map Prod.fst

theorem keptEntries_sublist (j : Job) (index : Nat) (removed : PkgInfo) (baseInstalled : Bool) :
    (keptEntries j index removed baseInstalled).Sublist j.pkgQueue := by
  unfold keptEntries
  have hsub := (List.filter_sublist (p := fun (e, i) =>
    !(i = index || ((removed.pkgKind = .base && !baseInstalled) &&
      !(i = 0 && j.pkgQueueRunning) && e.titleId = removed.titleId)))
    (l := j.pkgQueue.zipIdx)).map Prod.fst
  rwa [List.zipIdx_map_fst] at hsub

theorem head?_keptEntries {index : Nat} {removed : PkgInfo} (hrunning : j.pkgQueueRunning = true)
    (hindex : index ≠ 0) :
    (keptEntries j index removed baseInstalled).head? = j.pkgQueue.head? := by
  unfold keptEntries
  cases hqueue : j.pkgQueue with
  | nil => rfl
  | cons e rest =>
    rw [List.zipIdx_cons, List.filter_cons_of_pos]
    · rfl
    · simp [hrunning, hindex.symm]

/-- An entry that does not stay is the removed one, or belongs to the title of a
removed base that is not installed. -/
theorem mem_keptEntries_or (index : Nat) (removed : PkgInfo) (baseInstalled : Bool)
    (he : e ∈ j.pkgQueue) :
    e ∈ keptEntries j index removed baseInstalled ∨ j.pkgQueue[index]? = some e ∨
      (removed.pkgKind = .base ∧ baseInstalled = false ∧ e.titleId = removed.titleId) := by
  rcases List.mem_iff_getElem?.mp he with ⟨i, hi⟩
  have hpair : (e, i) ∈ j.pkgQueue.zipIdx := List.mk_mem_zipIdx_iff_getElem?.mpr hi
  by_cases hindex : i = index
  · subst hindex
    exact .inr (.inl hi)
  · by_cases hdependent :
        removed.pkgKind = .base ∧ baseInstalled = false ∧ e.titleId = removed.titleId
    · exact .inr (.inr hdependent)
    · left
      refine List.mem_map.mpr ⟨(e, i), List.mem_filter.mpr ⟨hpair, ?_⟩, rfl⟩
      simp only [Bool.not_eq_true', Bool.or_eq_false_iff, decide_eq_false_iff_not]
      refine ⟨hindex, ?_⟩
      rw [Bool.eq_false_iff]
      intro htrue
      simp only [Bool.and_eq_true, decide_eq_true_eq, Bool.not_eq_true'] at htrue
      exact hdependent ⟨htrue.1.1.1, htrue.1.1.2, htrue.2⟩

/-- What the action `remove` of `handle_package_queue` does. -/
theorem Queued.remove_eq (hq : Queued j) {path : Option Text}
    (h : j.queueRemove path baseInstalled = .ok j') :
    ∃ index removed, j.pkgQueue[index]? = some removed ∧ path = some removed.path ∧
      (j.pkgQueueRunning = true → index ≠ 0) ∧
      j' = keepPackages j (keptEntries j index removed baseInstalled) := by
  unfold queueRemove at h
  split at h
  · cases h
  · rename_i index hindex
    rcases List.findIdx?_eq_some_iff_getElem.mp hindex with ⟨hlt, hpath, -⟩
    rw [decide_eq_true_eq] at hpath
    split at h
    · cases h
    · rename_i hbusy
      rw [List.getElem?_eq_getElem hlt] at h
      refine ⟨index, j.pkgQueue[index], List.getElem?_eq_getElem hlt, hpath, ?_, ?_⟩
      · intro hrunning hzero
        exact hbusy (by simp [hrunning, hzero])
      · cases h
        cases hrunning : j.pkgQueueRunning with
        | false => simp [keepPackages, keptEntries, hrunning]
        | true =>
          have hshort := hq.not_short hrunning
            (keptEntries j index j.pkgQueue[index] baseInstalled).length
          simp only [keptEntries, hrunning] at hshort
          simp only [keepPackages, keptEntries, subtractTotal, hrunning, hshort]
          simp

theorem Queued.remove (hq : Queued j) {path : Option Text}
    (h : j.queueRemove path baseInstalled = .ok j') : Queued j' := by
  rcases hq.remove_eq h with ⟨index, removed, -, -, hindex, rfl⟩
  exact hq.keep (keptEntries_sublist j index removed baseInstalled)
    fun hrunning => head?_keptEntries hrunning (hindex hrunning)

theorem beginQueue_cons {rest : List PkgInfo} (h : j.pkgQueue = e :: rest) :
    j.beginQueue.state = .preparing ∧ j.beginQueue.pkgQueue = j.pkgQueue ∧
      j.beginQueue.wrapped = j.wrapped ∧ j.beginQueue.pkgQueueRunning = j.pkgQueueRunning ∧
      j.beginQueue.source = e.path ∧ j.beginQueue.pkgQueueTotal = j.pkgQueue.length ∧
      j.beginQueue.pkgQueueCompleted = 0 := by
  simp [beginQueue, prepareNextPackage, h]

/-- What `handle_package_install` sets up. -/
theorem startInstall_some (h : j.startInstall r = some j') :
    j.state.isActive = false ∧ j'.state = .preparing ∧ j'.pkgQueue = j.pkgQueue ∧
      j'.wrapped = j.wrapped ∧ j'.pkgQueueRunning = decide (r.origin = .queued) ∧
      (r.origin = .queued → j'.pkgQueue.head?.map PkgInfo.path = some j'.source ∧
        j'.pkgQueueTotal = j'.pkgQueueCompleted + j'.pkgQueue.length) := by
  unfold startInstall at h
  split at h
  · cases h
  · rename_i hrefused
    simp only [refusesInstall, Bool.or_eq_true, not_or, Bool.not_eq_true', Bool.not_eq_false,
      Bool.not_eq_true] at hrefused
    rcases hrefused with ⟨⟨⟨-, hidle⟩, hqueued⟩, -⟩
    refine ⟨hidle, ?_⟩
    by_cases horigin : r.origin = .queued
    · simp only [if_pos horigin] at h
      cases h
      have hhead : j.pkgQueue.head?.map PkgInfo.path = some r.source := by
        simpa [horigin] using hqueued
      cases hqueue : j.pkgQueue with
      | nil =>
        rw [hqueue] at hhead
        cases hhead
      | cons e rest =>
        rcases beginQueue_cons (j := j.beginInstall r) hqueue with
          ⟨hstate, hsame, hwrapped, hrunning, hsource, htotal, hcompleted⟩
        have hsame : (j.beginInstall r).beginQueue.pkgQueue = e :: rest := hsame.trans hqueue
        refine ⟨hstate, hsame, hwrapped, hrunning, fun _ => ⟨?_, ?_⟩⟩
        · rw [hsame, hsource]
          rfl
        · rw [htotal, hcompleted, hsame, Nat.zero_add]
          exact congrArg List.length hqueue
    · simp only [if_neg horigin] at h
      cases h
      exact ⟨rfl, rfl, rfl, rfl, fun hqueued => absurd hqueued horigin⟩

theorem Queued.startInstall (hq : Queued j) (h : j.startInstall r = some j') : Queued j' := by
  rcases startInstall_some h with ⟨-, -, hqueue, hwrapped, hrunning, hrun⟩
  refine ⟨?_, ?_, ?_, ?_, ?_, ?_⟩
  · rw [hqueue]
    exact hq.bounded
  · rw [hqueue]
    exact hq.paths
  · rw [hqueue]
    exact hq.identities
  · intro hr
    rw [hrunning, decide_eq_true_eq] at hr
    exact (hrun hr).1
  · intro hr
    rw [hrunning, decide_eq_true_eq] at hr
    exact (hrun hr).2
  · rw [hwrapped]
    exact hq.wrapped

/-- The handler that has set up the record is the thread of the job. -/
theorem serves_installTask {server : Status} (h : j.startInstall r = some j') :
    Serves j' (installTask j' r server) := by
  rcases startInstall_some h with ⟨-, hstate, -, -, hrunning, -⟩
  refine ⟨?_, rfl, ?_, ?_⟩
  · rw [hstate]
    rfl
  · intro source hsource
    unfold installTask at hsource
    split at hsource
    · cases hsource
    · cases hsource
  · intro hr
    rw [hrunning, decide_eq_true_eq] at hr
    refine ⟨rfl, ?_⟩
    simp [installTask, hr, Phase.serves]

/-- What `launch_storage_job` sets up. -/
theorem launchStorageJob_some {r : StorageRequest} (h : j.launchStorageJob r = some j') :
    j.state.isActive = false ∧ j.pkgQueueRunning = false ∧ j'.state = .preparing ∧
      j'.pkgQueue = j.pkgQueue ∧ j'.pkgQueueRunning = false ∧ j'.wrapped = j.wrapped := by
  unfold launchStorageJob at h
  split at h
  · cases h
  · rename_i hrefused
    simp only [Bool.or_eq_true, not_or, Bool.not_eq_true] at hrefused
    cases h
    exact ⟨hrefused.1.1.2, hrefused.1.2, rfl, rfl, hrefused.1.2, rfl⟩

theorem Queued.of_idle (hq : Queued j) (hqueue : j'.pkgQueue = j.pkgQueue)
    (hrunning : j'.pkgQueueRunning = false) (hwrapped : j'.wrapped = j.wrapped) : Queued j' where
  bounded := by rw [hqueue]; exact hq.bounded
  paths := by rw [hqueue]; exact hq.paths
  identities := by rw [hqueue]; exact hq.identities
  head := by intro h; rw [hrunning] at h; cases h
  counts := by intro h; rw [hrunning] at h; cases h
  wrapped := by rw [hwrapped]; exact hq.wrapped

/-- An installation that failed, or that is not of the queue, takes no package off
the queue. -/
theorem completePackage_kept {status : Status} {nativeStatus : Int} {halting : Bool}
    (h : ¬(status = .ok ∧ j.pkgQueueRunning = true)) :
    j.completePackage status nativeStatus halting =
      (false, status, { j with nativeStatus := nativeStatus, pkgQueueRunning := false }) := by
  have hcond : (decide (status = .ok) && j.pkgQueueRunning) = false := by
    rw [Bool.eq_false_iff]
    intro htrue
    rw [Bool.and_eq_true, decide_eq_true_eq] at htrue
    exact h htrue
  simp [completePackage, hcond]

/-- A package of the queue that was installed leaves it, and the run ends. -/
def endRun (j : Job) (nativeStatus : Int) (rest : List PkgInfo) : Job :=
  { j with
    nativeStatus := nativeStatus
    pkgQueue := rest
    pkgQueueCompleted := j.pkgQueueCompleted + 1
    pkgQueueRunning := false }

/-- A package of the queue that was installed leaves it, and the next one is
prepared. -/
def nextRound (j : Job) (e : PkgInfo) (rest : List PkgInfo) : Job :=
  { j with
    source := e.path
    titleId := e.titleId
    titleName := e.titleName
    pkgCurrentKind := e.pkgKind
    totalBytes := e.sourceSize
    processedBytes := 0
    processedFiles := 0
    nativeStatus := 0
    state := .preparing
    pkgQueue := e :: rest
    pkgQueueCompleted := j.pkgQueueCompleted + 1 }

/-- A completed package leaves the queue. -/
theorem completePackage_popped (nativeStatus : Int) (halting : Bool) {rest : List PkgInfo}
    (hrunning : j.pkgQueueRunning = true) (hqueue : j.pkgQueue = e :: rest) :
    (∃ status, j.completePackage .ok nativeStatus halting =
        (false, status, endRun j nativeStatus rest)) ∨
      ∃ e' rest', rest = e' :: rest' ∧
        j.completePackage .ok nativeStatus halting = (true, .ok, nextRound j e' rest') := by
  cases rest with
  | nil =>
    left
    refine ⟨.ok, ?_⟩
    simp [completePackage, popPackage, prepareNextPackage, endRun, hrunning, hqueue]
  | cons e' rest' =>
    by_cases hstop : (j.cancelRequested || !j.accepting || halting) = true
    · left
      refine ⟨.cancelled, ?_⟩
      simp [completePackage, popPackage, endRun, hrunning, hqueue, hstop]
    · right
      refine ⟨e', rest', rfl, ?_⟩
      simp [completePackage, popPackage, prepareNextPackage, nextRound, hrunning, hqueue, hstop]

/-- The worker of a package after the end of a round. -/
theorem Queued.complete (hq : Queued j) (ht : Serves j t) {status : Status} {nativeStatus : Int}
    {halting scanQueued : Bool} {error : Text} :
    let r := j.completePackage status nativeStatus halting
    Serves r.2.2 { t with
        phase := if r.1 then .reading else .finishing r.2.1 scanQueued error } ∧
      Queued r.2.2 := by
  intro r
  by_cases h : status = .ok ∧ j.pkgQueueRunning = true
  · rcases h with ⟨rfl, hrunning⟩
    rcases hq.exists_head hrunning with ⟨e, rest, hqueue, -⟩
    have hcounts := hq.counts hrunning
    have hbounded := hq.bounded
    have hpaths := hq.paths
    have hidentities := hq.identities
    rw [hqueue] at hcounts hbounded hpaths hidentities
    rw [List.length_cons] at hcounts hbounded
    rw [List.map_cons, List.nodup_cons] at hpaths hidentities
    rcases completePackage_popped nativeStatus halting hrunning hqueue with
      ⟨status, hr⟩ | ⟨e', rest', rfl, hr⟩
    · simp only [r, hr]
      refine ⟨⟨ht.active, ht.id, ?_, ?_⟩, ⟨?_, hpaths.2, hidentities.2, ?_, ?_, hq.wrapped⟩⟩
      · intro source hsource
        cases hsource
      · intro hrun
        cases hrun
      · show rest.length ≤ pkgQueueMax
        omega
      · intro hrun
        cases hrun
      · intro hrun
        cases hrun
    · simp only [r, hr]
      refine ⟨⟨rfl, ht.id, ?_, ?_⟩, ⟨?_, hpaths.2, hidentities.2, ?_, ?_, hq.wrapped⟩⟩
      · intro source hsource
        cases hsource
      · intro _
        exact ⟨(ht.running hrunning).1, rfl⟩
      · show (e' :: rest').length ≤ pkgQueueMax
        omega
      · intro _
        rfl
      · intro _
        show j.pkgQueueTotal = j.pkgQueueCompleted + 1 + (e' :: rest').length
        omega
  · simp only [r, completePackage_kept h]
    refine ⟨⟨ht.active, ht.id, ?_, ?_⟩, hq.of_idle rfl rfl rfl⟩
    · intro source hsource
      cases hsource
    · intro hrun
      cases hrun

end ShadowMount.StorageJob
