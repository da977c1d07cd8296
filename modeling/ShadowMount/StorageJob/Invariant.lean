import ShadowMount.StorageJob.Threads

/-!
# Storage job - The package queue in every run

Main results:

- Theorem {lit}`Sound.kept`: a block takes off the queue only what a handler is asked to
  remove or the worker has installed.
- Theorem {lit}`packageQueue_invariant`: at most one job is active, workers write the
  record of their own job, the queue holds different packages, its counters add up,
  and its first package stays until it is installed.
-/

namespace ShadowMount.StorageJob

open Foundation Job

variable {j j' : Job} {t t' : Task} {s : State}

/-- A handler is asked to take an entry off the queue: by its path, together with
the base of its title, or with the whole queue. -/
inductive Removes (s : State) (e : PkgInfo) : Step → Prop where
  | path (baseInstalled : Bool) : Removes s e (.remove (some e.path) baseInstalled)
  | dependent {base : PkgInfo} (queued : base ∈ s.job.pkgQueue) (kind : base.pkgKind = .base)
      (title : e.titleId = base.titleId) : Removes s e (.remove (some base.path) false)
  | clear (onlyIfIdle : Bool) : Removes s e (.clear onlyIfIdle)

/-- The worker of the queue has installed its first package. -/
inductive Installs (s : State) (e : PkgInfo) : Step → Prop where
  | complete {k : Nat} {t : Task} {nativeStatus : Int} {halting scanQueued : Bool} {error : Text}
      (turn : s.tasks[k]? = some t) (phase : t.phase = .installing e.path)
      (running : s.job.pkgQueueRunning = true) (head : s.job.pkgQueue.head? = some e) :
      Installs s e (.task k (.complete .ok nativeStatus halting scanQueued error))

/-- What a step leaves alone. -/
structure Kept (s : State) (op : Step) (s' : State) : Prop where
  leaves : ∀ e ∈ s.job.pkgQueue, e ∉ s'.job.pkgQueue → Removes s e op ∨ Installs s e op
  head : s.job.pkgQueueRunning = true → ∀ e, s.job.pkgQueue.head? = some e →
    s'.job.pkgQueue.head? = some e ∨ Installs s e op
  starts : s'.job.id ≠ s.job.id → s.job.state.isActive = false
  own : ∀ k work t, op = .task k work → s.tasks[k]? = some t →
    t.id = s.job.id ∧ s'.job.id = s.job.id

variable {op : Step} {s' : State}

theorem Kept.of_queue (hqueue : s'.job.pkgQueue = s.job.pkgQueue)
    (hid : s'.job.id ≠ s.job.id → s.job.state.isActive = false)
    (hop : ∀ k work, op ≠ .task k work) : Kept s op s' where
  leaves := by
    intro e he hnot
    rw [hqueue] at hnot
    exact absurd he hnot
  head := by
    intro _ e he
    rw [hqueue]
    exact .inl he
  starts := hid
  own := by
    intro k work t h
    exact absurd h (hop k work)

/-- A block that does nothing. -/
theorem Kept.refl (hs : Sound s) (op : Step) : Kept s op s where
  leaves := fun _ he hnot => absurd he hnot
  head := fun _ _ he => .inl he
  starts := fun h => absurd rfl h
  own := by
    intro k work t _ hk
    exact ⟨(hs.threads.eq_singleton hk).2.2.id, rfl⟩

theorem Kept.keepPackages {kept : List PkgInfo}
    (hleaves : ∀ e ∈ s.job.pkgQueue, e ∉ kept → Removes s e op)
    (hhead : s.job.pkgQueueRunning = true → kept.head? = s.job.pkgQueue.head?)
    (hop : ∀ k work, op ≠ .task k work) :
    Kept s op { s with job := keepPackages s.job kept } where
  leaves := fun e he hnot => .inl (hleaves e he hnot)
  head := by
    intro hrunning e he
    left
    show kept.head? = some e
    rw [hhead hrunning]
    exact he
  starts := fun h => absurd rfl h
  own := by
    intro k work t h
    exact absurd h (hop k work)

theorem Effect.id_eq {w : Work} {u : Option Task} (he : Effect j t w j' u) (hq : Queued j) :
    j'.id = j.id := by
  cases he with
  | moves hm hk => exact hk.id
  | abandon hphase => rfl
  | complete hphase =>
    rename_i status nativeStatus halting scanQueued error
    by_cases h : status = .ok ∧ j.pkgQueueRunning = true
    · rcases h with ⟨rfl, hrunning⟩
      rcases hq.exists_head hrunning with ⟨e, rest, hqueue, -⟩
      rcases completePackage_popped nativeStatus halting hrunning hqueue with
        ⟨status, hr⟩ | ⟨e', rest', rfl, hr⟩
      · rw [hr]
        rfl
      · rw [hr]
        rfl
    · rw [completePackage_kept h]
  | finish hphase =>
    unfold finishStorageJob
    split
    · split <;> rfl
    · rfl

/-- A block of a thread changes the queue only by taking off the package that it has
installed. -/
theorem Effect.queue_eq {w : Work} {u : Option Task} (he : Effect j t w j' u) (hq : Queued j)
    (ht : Serves j t) :
    j'.pkgQueue = j.pkgQueue ∨
      ∃ nativeStatus halting scanQueued error e rest,
        w = .complete .ok nativeStatus halting scanQueued error ∧
        t.phase = .installing e.path ∧ j.pkgQueueRunning = true ∧
        j.pkgQueue = e :: rest ∧ j'.pkgQueue = rest := by
  cases he with
  | moves hm hk => exact .inl hk.queue
  | abandon hphase => exact .inl rfl
  | complete hphase =>
    rename_i status nativeStatus halting scanQueued error
    by_cases h : status = .ok ∧ j.pkgQueueRunning = true
    · rcases h with ⟨rfl, hrunning⟩
      rcases hq.exists_head hrunning with ⟨e, rest, hqueue, hpath⟩
      rcases hphase rfl with ⟨source, hinstalling⟩
      have hsource : source = e.path :=
        (ht.source source (by rw [hinstalling]; rfl)).trans hpath.symm
      subst hsource
      right
      refine ⟨nativeStatus, halting, scanQueued, error, e, rest, rfl, hinstalling, hrunning,
        hqueue, ?_⟩
      rcases completePackage_popped nativeStatus halting hrunning hqueue with
        ⟨status, hr⟩ | ⟨e', rest', rfl, hr⟩
      · rw [hr]
        rfl
      · rw [hr]
        rfl
    · left
      rw [completePackage_kept h]
  | finish hphase =>
    rename_i status scanQueued error
    left
    rw [ht.id]
    exact (finishStorageJob_spec j status scanQueued error).2.1

theorem Effect.kept {w : Work} {u : Option Task} {tasks : List Task} {k : Nat}
    (he : Effect s.job t w j' u) (hs : Sound s) (hk : s.tasks[k]? = some t) :
    Kept s (.task k w) ⟨j', tasks⟩ := by
  rcases hs.threads.eq_singleton hk with ⟨htasks, rfl, ht⟩
  have hid := he.id_eq hs.queue
  have hown : ∀ k' work t', Step.task 0 w = .task k' work → s.tasks[k']? = some t' →
      t'.id = s.job.id ∧ j'.id = s.job.id := by
    intro k' work t' hop hk'
    exact ⟨(hs.threads.eq_singleton hk').2.2.id, hid⟩
  refine ⟨?_, ?_, fun h => absurd hid h, hown⟩
  · intro e hmem hnot
    rcases he.queue_eq hs.queue ht with hqueue | ⟨n, b, c, d, e', rest, rfl, hphase, hrunning,
      hqueue, hrest⟩
    · exact absurd (hqueue.symm ▸ hmem) hnot
    · right
      rw [hqueue] at hmem
      rcases List.mem_cons.mp hmem with rfl | hmem
      · exact Installs.complete hk hphase hrunning (by rw [hqueue]; rfl)
      · exact absurd (hrest.symm ▸ hmem) hnot
  · intro _ e hhead
    rcases he.queue_eq hs.queue ht with hqueue | ⟨n, b, c, d, e', rest, rfl, hphase, hrunning,
      hqueue, hrest⟩
    · left
      show j'.pkgQueue.head? = some e
      rw [hqueue]
      exact hhead
    · right
      have heq : e' = e := by
        rw [hqueue] at hhead
        exact Option.some.inj hhead
      subst heq
      exact Installs.complete hk hphase hrunning hhead

/-- Every step keeps the queue. -/
theorem Sound.kept (hs : Sound s) (op : Step) : Kept s op (StorageJob.next s op) := by
  cases op with
  | setAccepting accepting =>
    exact .of_queue rfl (fun h => absurd rfl h) (fun _ _ h => by cases h)
  | add info installed =>
    simp only [StorageJob.next]
    cases h : s.job.queueAdd info installed with
    | error e => exact .refl hs _
    | ok j' =>
      rcases enqueuePackage_ok (queueAdd_ok h) with ⟨-, -, rfl⟩
      refine ⟨?_, ?_, fun h => absurd rfl h, fun k work t h => by cases h⟩
      · intro e he hnot
        exact absurd (List.mem_append_left _ he) hnot
      · intro _ e he
        left
        show (s.job.pkgQueue ++ [info]).head? = some e
        rw [List.head?_append, he]
        rfl
  | remove path baseInstalled =>
    simp only [StorageJob.next]
    cases h : s.job.queueRemove path baseInstalled with
    | error e => exact .refl hs _
    | ok j' =>
      rcases hs.queue.remove_eq h with ⟨index, removed, hindex, rfl, hne, rfl⟩
      refine .keepPackages ?_ (fun hr => head?_keptEntries hr (hne hr))
        (fun _ _ h => by cases h)
      intro e he hnot
      rcases mem_keptEntries_or index removed baseInstalled he with
        hkept | hsame | ⟨hkind, rfl, htitle⟩
      · exact absurd hkept hnot
      · rw [hindex] at hsame
        cases hsame
        exact Removes.path baseInstalled
      · exact Removes.dependent (List.mem_of_getElem? hindex) hkind htitle
  | clear onlyIfIdle =>
    simp only [StorageJob.next]
    cases h : s.job.clearPackageQueue onlyIfIdle with
    | error e => exact .refl hs _
    | ok j' =>
      rw [hs.queue.clear_eq h]
      exact .keepPackages (fun e _ _ => Removes.clear onlyIfIdle) head?_take_running
        (fun _ _ h => by cases h)
  | install r server =>
    simp only [StorageJob.next]
    cases h : s.job.startInstall r with
    | none => exact .refl hs _
    | some j' =>
      rcases startInstall_some h with ⟨hidle, -, hqueue, -⟩
      exact .of_queue hqueue (fun _ => hidle) (fun _ _ h => by cases h)
  | launch r =>
    simp only [StorageJob.next]
    cases h : s.job.launchStorageJob r with
    | none => exact .refl hs _
    | some j' =>
      rcases launchStorageJob_some h with ⟨hidle, -, -, hqueue, -⟩
      exact .of_queue hqueue (fun _ => hidle) (fun _ _ h => by cases h)
  | cancel jobId =>
    have hk := keeps_cancelStorageJob s.job jobId
    exact .of_queue hk.queue (fun h => absurd hk.id h) (fun _ _ h => by cases h)
  | shutdown =>
    exact .of_queue rfl (fun h => absurd rfl h) (fun _ _ h => by cases h)
  | sleep =>
    have hk := keeps_onSleep s.job
    exact .of_queue hk.queue (fun h => absurd hk.id h) (fun _ _ h => by cases h)
  | setTitleName jobId name =>
    simp only [StorageJob.next]
    split
    · exact .of_queue rfl (fun h => absurd rfl h) (fun _ _ h => by cases h)
    · exact .refl hs _
  | task k work =>
    simp only [StorageJob.next]
    split
    · exact .refl hs _
    · rename_i t hk
      have ht := (hs.threads.eq_singleton hk).2.2
      split
      · exact .refl hs _
      · rename_i j' u hstep
        exact (Task.step_effect ht.active hstep).kept hs hk
      · rename_i j' hstep
        exact (Task.step_effect ht.active hstep).kept hs hk

/-- The queue and the threads in a state. -/
structure QueueInvariant (s : State) : Prop where
  single : s.tasks.length ≤ 1
  own : ∀ t ∈ s.tasks, t.id = s.job.id ∧ s.job.state.isActive = true
  served : s.job.state.isActive = true → s.tasks ≠ []
  bounded : s.job.pkgQueue.length ≤ pkgQueueMax
  paths : (s.job.pkgQueue.map PkgInfo.path).Nodup
  identities : (s.job.pkgQueue.map PkgInfo.identity).Nodup
  head : s.job.pkgQueueRunning = true → ∃ e rest, s.job.pkgQueue = e :: rest ∧
    e.path = s.job.source ∧
    ∀ t ∈ s.tasks, ∀ source, t.phase.source = some source → source = e.path
  counts : s.job.pkgQueueRunning = true →
    s.job.pkgQueueTotal = s.job.pkgQueueCompleted + s.job.pkgQueue.length
  wrapped : s.job.wrapped = false

theorem Sound.queueInvariant (hs : Sound s) : QueueInvariant s := by
  have hserves : ∀ t ∈ s.tasks, s.tasks = [t] ∧ Serves s.job t := by
    intro t ht
    rcases List.mem_iff_getElem?.mp ht with ⟨k, hk⟩
    rcases hs.threads.eq_singleton hk with ⟨htasks, -, hserves⟩
    exact ⟨htasks, hserves⟩
  refine ⟨?_, ?_, ?_, hs.queue.bounded, hs.queue.paths, hs.queue.identities, ?_, hs.queue.counts,
    hs.queue.wrapped⟩
  · cases htasks : s.tasks with
    | nil => exact Nat.zero_le 1
    | cons t rest =>
      have hsingle := (hserves t (by rw [htasks]; exact List.mem_cons_self)).1
      rw [htasks] at hsingle
      rw [hsingle]
      exact Nat.le_refl 1
  · intro t ht
    exact ⟨(hserves t ht).2.id, (hserves t ht).2.active⟩
  · intro hactive hnil
    have hthreads := hs.threads
    rw [hnil] at hthreads
    rw [hthreads.1] at hactive
    cases hactive
  · intro hrunning
    rcases hs.queue.exists_head hrunning with ⟨e, rest, hqueue, hpath⟩
    refine ⟨e, rest, hqueue, hpath, ?_⟩
    intro t ht source hsource
    rw [hpath]
    exact (hserves t ht).2.source source hsource

/-- In every run, at most one thread works for a job, and for the job of the record;
the queue holds at most `SM_PKG_QUEUE_MAX` different packages; while it runs, its
first package is the one that is installed, its counters add up, and none of them
has wrapped.  Every block of every thread keeps the first package of a running queue
until that is installed, and takes off the queue only what a handler is asked to
remove or the worker has installed. -/
theorem packageQueue_invariant (h : Reachable system s) :
    QueueInvariant s ∧ ∀ op, Kept s op (next s op) :=
  ⟨(Sound.reachable h).queueInvariant, (Sound.reachable h).kept⟩

/-- A base package and its patch. -/
def samplePackage (path : String) (kind : PkgKind) : PkgInfo where
  path := path.toList
  titleId := "PPSA00001".toList
  titleName := "Game".toList
  contentId := "UP0000-PPSA00001_00-0000000000000000".toList
  appVer := "01.00".toList
  sourceSize := 1
  contentType := 0
  contentFlags := 0
  pkgKind := kind

/-- The queue installs a base package while its patch waits. -/
def sampleRun : List Step :=
  [.setAccepting true, .add (samplePackage "/data/base.pkg" .base) false,
    .add (samplePackage "/data/patch.pkg" .patch) false,
    .install ⟨.queued, "/data/base.pkg".toList, 1, samplePackage "/data/base.pkg" .base⟩ .ok,
    .task 0 .spawned, .task 0 .read,
    .task 0 (.announce (samplePackage "/data/base.pkg" .base))]

theorem packageQueue_invariant_running :
    (sampleRun.foldl next ⟨Job.initial, []⟩).job.pkgQueueRunning = true ∧
      (sampleRun.foldl next ⟨Job.initial, []⟩).job.pkgQueueTotal = 2 ∧
      QueueInvariant (sampleRun.foldl next ⟨Job.initial, []⟩) ∧
      ∀ op, Kept (sampleRun.foldl next ⟨Job.initial, []⟩) op
        (next (sampleRun.foldl next ⟨Job.initial, []⟩) op) :=
  ⟨by decide +kernel, by decide +kernel, packageQueue_invariant (.foldl sampleRun)⟩

end ShadowMount.StorageJob
