import ShadowMount.StorageJob.Queue

/-!
# Storage job - Every interleaving of handlers and workers
-/

namespace ShadowMount.StorageJob

open Foundation Job

variable {j j' : Job} {t t' : Task} {s : State}
variable {u : Task} {w : Work}

/-- A thread moves on without a change of the record that the invariant sees. -/
structure Moves (j : Job) (t u : Task) : Prop where
  id : u.id = t.id
  package : u.package = t.package
  source : ∀ source, u.phase.source = some source →
    t.phase.source = some source ∨ source = j.source
  serves : t.package = true → t.phase.serves = true → u.phase.serves = true

theorem Moves.refl (j : Job) (t : Task) : Moves j t t :=
  ⟨rfl, rfl, fun _ h => .inl h, fun _ h => h⟩

theorem Serves.moves (ht : Serves j t) (hm : Moves j t u) (hk : Keeps j j') : Serves j' u := by
  refine ⟨?_, ?_, ?_, ?_⟩
  · rw [hk.active]
    exact ht.active
  · rw [hm.id, hk.id]
    exact ht.id
  · intro source hsource
    rw [hk.source]
    rcases hm.source source hsource with h | h
    · exact ht.source source h
    · exact h
  · intro hrunning
    rw [hk.running] at hrunning
    have hserves := ht.running hrunning
    exact ⟨hm.package.trans hserves.1, hm.serves hserves.1 hserves.2⟩

/-- A worker of `storage_job_thread_main` does not serve the queue. -/
theorem Moves.of_not_serves (hid : u.id = t.id) (hpackage : u.package = t.package)
    (hsource : u.phase.source = none) (hserves : t.phase.serves = false) : Moves j t u := by
  refine ⟨hid, hpackage, ?_, ?_⟩
  · intro source h
    rw [hsource] at h
    cases h
  · intro _ h
    rw [hserves] at h
    cases h

/-- The effect of a block: it moves the thread on, or it is one of the three blocks
that change the queue or end the job. -/
inductive Effect (j : Job) (t : Task) : Work → Job → Option Task → Prop where
  | moves {w : Work} {j' : Job} {u : Task} (hm : Moves j t u) (hk : Keeps j j') :
      Effect j t w j' (some u)
  | abandon {status : Status} (phase : t.phase = .abandoned status) :
      Effect j t .abandon { j with pkgQueueRunning := false }
        (some { t with phase := .finishing status false [] })
  | complete {status : Status} {nativeStatus : Int} {halting scanQueued : Bool} {error : Text}
      (phase : status = .ok → ∃ source, t.phase = .installing source) :
      Effect j t (.complete status nativeStatus halting scanQueued error)
        (j.completePackage status nativeStatus halting).2.2
        (some { t with
          phase := if (j.completePackage status nativeStatus halting).1 then .reading
            else .finishing (j.completePackage status nativeStatus halting).2.1 scanQueued error })
  | finish {status : Status} {scanQueued : Bool} {error : Text}
      (phase : t.phase = .finishing status scanQueued error) :
      Effect j t .finish (j.finishStorageJob t.id status scanQueued error) none

/-- A block of `storage_job_thread_main` that changes no field of the queue. -/
theorem Effect.working (hphase : t.phase = .working)
    (hu : u = t ∨
      ∃ status scanQueued error, u = { t with phase := .finishing status scanQueued error })
    (hk : Keeps j j') : Effect j t w j' (some u) := by
  have hserves : t.phase.serves = false := by
    rw [hphase]
    rfl
  refine .moves ?_ hk
  rcases hu with rfl | ⟨status, scanQueued, error, rfl⟩
  · exact Moves.refl j u
  · exact Moves.of_not_serves rfl rfl rfl hserves

theorem Effect.spawning {first other : Phase} (hserves : first.serves = true)
    (hfirst : first.source = none) (hother : other.source = none) :
    Effect j t w j (some { t with phase := if t.package then first else other }) := by
  refine .moves ⟨rfl, rfl, ?_, ?_⟩ (.refl j)
  · intro source hsource
    dsimp only at hsource
    split at hsource
    · rw [hfirst] at hsource
      cases hsource
    · rw [hother] at hsource
      cases hsource
  · intro hpackage _
    dsimp only
    rw [if_pos hpackage, hserves]

/-- A block of a thread moves the thread on, gives up the run of the queue, completes a round,
or ends the job. -/
theorem Task.step_effect {u : Option Task} (ha : j.state.isActive = true)
    (h : t.step j w = some (j', u)) : Effect j t w j' u := by
  cases w with
  | spawned =>
    simp only [Task.step] at h
    split at h
    · cases h
      exact .spawning rfl rfl rfl
    · cases h
  | notSpawned status =>
    simp only [Task.step] at h
    split at h
    · cases h
      exact .spawning rfl rfl rfl
    · cases h
  | abandon =>
    simp only [Task.step] at h
    split at h
    · rename_i status hphase
      cases h
      exact .abandon hphase
    · cases h
  | read =>
    simp only [Task.step] at h
    split at h
    · rename_i hphase
      cases h
      refine .moves ⟨rfl, rfl, ?_, fun _ _ => rfl⟩ (.refl j)
      intro source hsource
      exact .inr (Option.some.inj hsource).symm
    · cases h
  | announce info =>
    simp only [Task.step] at h
    split at h
    · rename_i source hphase
      cases h
      refine .moves ⟨rfl, rfl, ?_, fun _ _ => rfl⟩
        ⟨ha.symm, rfl, rfl, rfl, rfl, rfl, rfl, rfl⟩
      intro source' hsource
      rw [hphase]
      exact .inl hsource
    · cases h
  | packageProgress total bytes =>
    simp only [Task.step] at h
    split at h
    · cases h
      refine .moves (Moves.refl j t) ?_
      unfold publishPackageProgress
      split
      · exact ⟨rfl, rfl, rfl, rfl, rfl, rfl, rfl, rfl⟩
      · exact .refl j
    · cases h
  | complete status nativeStatus halting scanQueued error =>
    simp only [Task.step] at h
    split at h
    · split at h
      · rename_i hfailed
        cases h
        rw [decide_eq_true_eq] at hfailed
        exact .complete fun hok => absurd hok hfailed
      · cases h
    · rename_i source hphase
      cases h
      exact .complete fun _ => ⟨source, hphase⟩
    · cases h
  | measure =>
    simp only [Task.step] at h
    split at h
    · rename_i hphase
      cases h
      refine .working hphase (.inl rfl) ?_
      split
      · exact ⟨ha.symm, rfl, rfl, rfl, rfl, rfl, rfl, rfl⟩
      · exact .refl j
    · cases h
  | affected titles =>
    simp only [Task.step] at h
    split at h
    · rename_i hphase
      cases h
      exact .working hphase (.inl rfl) ⟨rfl, rfl, rfl, rfl, rfl, rfl, rfl, rfl⟩
    · cases h
  | transfer bytes files runtimeCancelled =>
    simp only [Task.step] at h
    split at h
    · rename_i hphase
      split at h
      · cases h
        exact .working hphase (.inl rfl) (.refl j)
      · cases h
        refine .working hphase (.inl rfl) ⟨?_, rfl, rfl, rfl, rfl, rfl, rfl, rfl⟩
        rw [ha]
        dsimp only
        split
        · rfl
        · rfl
    · cases h
  | progress bytes files =>
    simp only [Task.step] at h
    split at h
    · rename_i hphase
      cases h
      refine .working hphase (.inl rfl) ?_
      unfold updateProgress
      split
      · exact ⟨rfl, rfl, rfl, rfl, rfl, rfl, rfl, rfl⟩
      · exact .refl j
    · cases h
  | finalize =>
    simp only [Task.step] at h
    split at h
    · rename_i hphase
      cases h
      refine .working hphase (.inl rfl) ?_
      unfold beginFinalizing
      split
      · exact ⟨ha.symm, rfl, rfl, rfl, rfl, rfl, rfl, rfl⟩
      · exact .refl j
    · cases h
  | renamed bytes files =>
    simp only [Task.step] at h
    split at h
    · rename_i hphase
      cases h
      exact .working hphase (.inl rfl) ⟨rfl, rfl, rfl, rfl, rfl, rfl, rfl, rfl⟩
    · cases h
  | stopWork status scanQueued error =>
    simp only [Task.step] at h
    split at h
    · rename_i hphase
      cases h
      exact .working hphase (.inr ⟨status, scanQueued, error, rfl⟩) (.refl j)
    · cases h
  | finish =>
    simp only [Task.step] at h
    split at h
    · rename_i status scanQueued error hphase
      cases h
      exact .finish hphase
    · cases h

/-- A finished job is not active. -/
theorem finishStorageJob_spec (j : Job) (status : Status) (scanQueued : Bool) (error : Text) :
    (j.finishStorageJob j.id status scanQueued error).state.isActive = false ∧
      (j.finishStorageJob j.id status scanQueued error).pkgQueue = j.pkgQueue ∧
      (j.finishStorageJob j.id status scanQueued error).pkgQueueRunning = j.pkgQueueRunning ∧
      (j.finishStorageJob j.id status scanQueued error).wrapped = j.wrapped := by
  unfold finishStorageJob
  rw [if_pos rfl]
  cases status with
  | ok => exact ⟨rfl, rfl, rfl, rfl⟩
  | cancelled => exact ⟨rfl, rfl, rfl, rfl⟩
  | error code => exact ⟨rfl, rfl, rfl, rfl⟩

theorem Serves.not_running (ht : Serves j t) (h : t.phase.serves = false) :
    j.pkgQueueRunning = false := by
  rw [Bool.eq_false_iff]
  intro hrunning
  have hserves := (ht.running hrunning).2
  rw [h] at hserves
  cases hserves

/-- A step of a thread keeps threads and queue. -/
theorem Effect.sound {u : Option Task} (he : Effect j t w j' u) (hq : Queued j) (ht : Serves j t) :
    Threads j' u.toList ∧ Queued j' := by
  cases he with
  | moves hm hk => exact ⟨ht.moves hm hk, hk.queued hq⟩
  | abandon hphase =>
    refine ⟨⟨ht.active, ht.id, ?_, ?_⟩, hq.of_idle rfl rfl rfl⟩
    · intro source hsource
      cases hsource
    · intro hrun
      cases hrun
  | complete hphase => exact hq.complete ht
  | finish hphase =>
    rename_i status scanQueued error
    have hrunning : j.pkgQueueRunning = false := ht.not_running (by rw [hphase]; rfl)
    rcases finishStorageJob_spec j status scanQueued error with ⟨hidle, hqueue, hrun, hwrapped⟩
    rw [ht.id]
    exact ⟨⟨hidle, hrun.trans hrunning⟩, hq.of_idle hqueue (hrun.trans hrunning) hwrapped⟩

theorem Threads.eq_singleton {tasks : List Task} {k : Nat} (ht : Threads j tasks)
    (hk : tasks[k]? = some t) : tasks = [t] ∧ k = 0 ∧ Serves j t := by
  match tasks, ht with
  | [u], ht =>
    have hk0 : k = 0 := by
      cases k with
      | zero => rfl
      | succ k => simp at hk
    subst hk0
    cases hk
    exact ⟨rfl, rfl, ht⟩

theorem Sound.initial : Sound ⟨Job.initial, []⟩ := by
  refine ⟨⟨rfl, rfl⟩, ⟨Nat.zero_le _, List.nodup_nil, List.nodup_nil, ?_, ?_, rfl⟩⟩
  · intro h
    cases h
  · intro h
    cases h

/-- Every block of every thread keeps the invariant. -/
theorem Sound.next (hs : Sound s) (op : Step) : Sound (next s op) := by
  cases op with
  | setAccepting accepting => exact hs.keeps ⟨rfl, rfl, rfl, rfl, rfl, rfl, rfl, rfl⟩
  | add info installed =>
    simp only [StorageJob.next]
    cases h : s.job.queueAdd info installed with
    | error e => exact hs
    | ok j' =>
      have hq := hs.queue.enqueue (queueAdd_ok h)
      rcases enqueuePackage_ok (queueAdd_ok h) with ⟨-, -, rfl⟩
      exact ⟨hs.threads.congr rfl rfl rfl rfl, hq⟩
  | remove path baseInstalled =>
    simp only [StorageJob.next]
    cases h : s.job.queueRemove path baseInstalled with
    | error e => exact hs
    | ok j' =>
      have hq := hs.queue.remove h
      rcases hs.queue.remove_eq h with ⟨index, removed, -, -, -, rfl⟩
      exact ⟨hs.threads.congr rfl rfl rfl rfl, hq⟩
  | clear onlyIfIdle =>
    simp only [StorageJob.next]
    cases h : s.job.clearPackageQueue onlyIfIdle with
    | error e => exact hs
    | ok j' =>
      have hq := hs.queue.clear h
      rw [hs.queue.clear_eq h] at hq ⊢
      exact ⟨hs.threads.congr rfl rfl rfl rfl, hq⟩
  | install r server =>
    simp only [StorageJob.next]
    cases h : s.job.startInstall r with
    | none => exact hs
    | some j' =>
      have htasks := hs.threads.eq_nil (startInstall_some h).1
      refine ⟨?_, hs.queue.startInstall h⟩
      show Threads j' (installTask j' r server :: s.tasks)
      rw [htasks]
      exact serves_installTask h
  | launch r =>
    simp only [StorageJob.next]
    cases h : s.job.launchStorageJob r with
    | none => exact hs
    | some j' =>
      rcases launchStorageJob_some h with ⟨hidle, -, hstate, hqueue, hrunning, hwrapped⟩
      have htasks := hs.threads.eq_nil hidle
      refine ⟨?_, hs.queue.of_idle hqueue hrunning hwrapped⟩
      show Threads j' (⟨j'.id, false, .spawning⟩ :: s.tasks)
      rw [htasks]
      refine ⟨by rw [hstate]; rfl, rfl, ?_, ?_⟩
      · intro source hsource
        cases hsource
      · intro hr
        rw [hrunning] at hr
        cases hr
  | cancel jobId => exact hs.keeps (keeps_cancelStorageJob s.job jobId)
  | shutdown => exact hs.keeps ⟨rfl, rfl, rfl, rfl, rfl, rfl, rfl, rfl⟩
  | sleep => exact hs.keeps (keeps_onSleep s.job)
  | setTitleName jobId name =>
    simp only [StorageJob.next]
    split
    · exact hs.keeps ⟨rfl, rfl, rfl, rfl, rfl, rfl, rfl, rfl⟩
    · exact hs
  | task k work =>
    simp only [StorageJob.next]
    split
    · exact hs
    · rename_i t hk
      rcases hs.threads.eq_singleton hk with ⟨htasks, rfl, ht⟩
      split
      · exact hs
      · rename_i j' u hstep
        have hsound := (Task.step_effect ht.active hstep).sound hs.queue ht
        rw [htasks]
        exact ⟨hsound.1, hsound.2⟩
      · rename_i j' hstep
        have hsound := (Task.step_effect ht.active hstep).sound hs.queue ht
        rw [htasks]
        exact ⟨hsound.1, hsound.2⟩

theorem Sound.reachable (h : Reachable system s) : Sound s := by
  apply Reachable.invariant _ _ h
  · rintro s rfl
    exact Sound.initial
  · rintro s op s' hs rfl
    exact hs.next op

end ShadowMount.StorageJob
