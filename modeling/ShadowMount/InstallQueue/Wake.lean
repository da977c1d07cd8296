import ShadowMount.InstallQueue.Model

/-!
# Install queue - counters and wake-ups

The counters of the queue agree with its table after every operation.  The due time of
the next batch is armed when a title is queued and nothing is submitted; every operation
that takes the last submitted title away has to arm it again for the titles that were
queued meanwhile, and forgetting a title does not.

Main results:

- Theorem {lit}`queued_installs_wake`: what follows for every run.
-/

namespace ShadowMount.InstallQueue

open Foundation

variable {n : Nat}
variable {q : Queue n} {i : Fin n}

/-- The counters agree with the table, and no title is tracked twice. -/
structure Counted (q : Queue n) : Prop where
  tracked : q.trackedCount = countWhere Entry.tracked q.entries
  submitted : q.submittedCount = countWhere Entry.submitted q.entries
  distinct : ∀ i j, (q.entries i).tracked = true → (q.entries j).tracked = true →
    (q.entries i).titleId = (q.entries j).titleId → i = j

theorem counted_initial : Counted (Queue.initial : Queue n) where
  tracked := (countWhere_eq_zero_iff.mpr fun _ => rfl).symm
  submitted := (countWhere_eq_zero_iff.mpr fun _ => rfl).symm
  distinct i _ hi := by cases hi

theorem countWhere_tracked (f : Fin n → Entry) :
    countWhere Entry.tracked f =
      countWhere (fun e : Entry => e.state = .queued) f + countWhere Entry.submitted f := by
  refine countWhere_add (fun e => ?_) (fun e => ?_)
  · cases hstate : e.state <;> simp [Entry.tracked, Entry.submitted, hstate]
  · cases hstate : e.state <;> simp [Entry.submitted, hstate]

theorem Counted.queued (h : Counted q) :
    countQueuedInstalls q = countWhere (fun e : Entry => e.state = .queued) q.entries := by
  rw [countQueuedInstalls, h.tracked, h.submitted, countWhere_tracked]
  omega

theorem not_tracked_zero : Entry.zero.tracked = false := rfl

theorem not_submitted_zero : Entry.zero.submitted = false := rfl

theorem tracked_of_submitted {e : Entry} (h : e.submitted = true) : e.tracked = true := by
  simp only [Entry.submitted, decide_eq_true_eq] at h
  simp [Entry.tracked, h]

theorem Counted.clear_counts (h : Counted q) (hi : (q.entries i).tracked = true) :
    (clearPendingInstallEntry q i).trackedCount + 1 = q.trackedCount ∧
      (clearPendingInstallEntry q i).submittedCount +
        (if (q.entries i).submitted then 1 else 0) = q.submittedCount := by
  have htracked : 0 < q.trackedCount := by
    rw [h.tracked]
    exact countWhere_pos_iff.mpr ⟨i, hi⟩
  refine ⟨?_, ?_⟩
  · simp only [clearPendingInstallEntry, hi, htracked, decide_true, Bool.and_self, if_true]
    omega
  · cases hsubmitted : (q.entries i).submitted with
    | false => simp [clearPendingInstallEntry, hsubmitted]
    | true =>
      have hpos : 0 < q.submittedCount := by
        rw [h.submitted]
        exact countWhere_pos_iff.mpr ⟨i, hsubmitted⟩
      simp only [clearPendingInstallEntry, hsubmitted, hpos, decide_true, Bool.and_self,
        if_true]
      omega

/-- An entry cleared keeps the counts. -/
theorem Counted.clear (h : Counted q) (hi : (q.entries i).tracked = true) :
    Counted (clearPendingInstallEntry q i) := by
  obtain ⟨htracked, hsubmitted⟩ := h.clear_counts hi
  have hcount := countWhere_update Entry.tracked q.entries i Entry.zero
  have hcount' := countWhere_update Entry.submitted q.entries i Entry.zero
  have hentries : (clearPendingInstallEntry q i).entries =
      Function.update q.entries i Entry.zero := rfl
  rw [hi, not_tracked_zero, ← h.tracked] at hcount
  rw [not_submitted_zero, ← h.submitted] at hcount'
  simp only [if_true, Bool.false_eq_true, if_false] at hcount hcount'
  refine ⟨?_, ?_, ?_⟩
  · rw [hentries]
    omega
  · rw [hentries]
    omega
  · intro j k hj hk hsame
    have hkept : ∀ l, ((clearPendingInstallEntry q i).entries l).tracked = true →
        (clearPendingInstallEntry q i).entries l = q.entries l := by
      intro l hl
      rw [hentries] at hl ⊢
      by_cases hli : l = i
      · subst hli
        rw [Function.update_self] at hl
        cases hl
      · rw [Function.update_of_ne hli]
    have hj' := hkept j hj
    have hk' := hkept k hk
    rw [hj'] at hj hsame
    rw [hk'] at hk hsame
    exact h.distinct j k hj hk hsame

theorem clearLoop_keeps {P : Queue n → Prop} {selected : Queue n → Fin n → Prop}
    [∀ q i, Decidable (selected q i)]
    (hclear : ∀ q i, P q → selected q i → P (clearPendingInstallEntry q i)) (hq : P q)
    (visited : List (Fin n)) :
    P (visited.foldl (fun q i => if selected q i then clearPendingInstallEntry q i else q) q) := by
  induction visited generalizing q with
  | nil => exact hq
  | cons i visited ih =>
    refine ih ?_
    by_cases hselected : selected q i
    · simp only [if_pos hselected]
      exact hclear q i hq hselected
    · simp only [if_neg hselected]
      exact hq

theorem Counted.settle (h : Counted q) (titles : Option (List Text)) (now : UInt64) :
    Counted (settleInstalls q titles now) := by
  refine clearLoop_keeps (fun q i hq hselected => ?_) h _
  simp only [Bool.and_eq_true] at hselected
  exact hq.clear (tracked_of_submitted hselected.1)

theorem tracked_of_queued {e : Entry} (h : e.state = .queued) : e.tracked = true := by
  simp [Entry.tracked, h]

theorem Counted.noteSubmitFailure (h : Counted q) (attempts : Text → Nat) :
    Counted (noteSubmitFailure q attempts) :=
  clearLoop_keeps (fun _ _ hq hselected => hq.clear (tracked_of_queued hselected.1)) h _

theorem Counted.of_entries {q' : Queue n} (h : Counted q) (hentries : q'.entries = q.entries)
    (htracked : q'.trackedCount = q.trackedCount)
    (hsubmitted : q'.submittedCount = q.submittedCount) : Counted q' where
  tracked := by rw [htracked, hentries]; exact h.tracked
  submitted := by rw [hsubmitted, hentries]; exact h.submitted
  distinct := by rw [hentries]; exact h.distinct

theorem Counted.poll (h : Counted q) (now : UInt64) :
    Counted (schedulePendingInstallPoll q now) := by
  unfold schedulePendingInstallPoll
  split <;> exact h.of_entries rfl rfl rfl

theorem Counted.schedule (h : Counted q) (now delay : UInt64) :
    Counted (scheduleSubmitAfter q now delay) := by
  unfold scheduleSubmitAfter
  split <;> exact h.of_entries rfl rfl rfl

theorem Counted.pollPending (h : Counted q) (titles : Option (List Text)) (now : UInt64) :
    Counted (pollPending q titles now) := by
  unfold InstallQueue.pollPending
  split
  · exact h
  · split
    · exact h
    · simp only
      split
      · exact ((h.settle titles now).poll now).schedule now 0
      · exact (h.settle titles now).poll now

/-- A submission keeps the counts. -/
theorem Counted.markSubmitted (h : Counted q) (now : UInt64) : Counted (markSubmitted q now) := by
  have hentry : ∀ i, ((InstallQueue.markSubmitted q now).entries i).tracked =
      (q.entries i).tracked ∧ ((InstallQueue.markSubmitted q now).entries i).titleId =
      (q.entries i).titleId ∧ ((InstallQueue.markSubmitted q now).entries i).submitted =
      ((q.entries i).submitted || decide ((q.entries i).state = .queued)) := by
    intro i
    simp only [InstallQueue.markSubmitted]
    split
    · rename_i hqueued
      simp [Entry.tracked, Entry.submitted, hqueued]
    · rename_i hother
      simp [hother]
  refine ⟨?_, ?_, ?_⟩
  · refine h.tracked.trans (countWhere_congr fun i => (hentry i).1.symm)
  · have hsum := countWhere_add (f := q.entries) (p := Entry.submitted)
      (q := fun e : Entry => decide (e.state = .queued))
      (r := fun e : Entry => e.submitted || decide (e.state = .queued)) (fun _ => rfl)
      (fun e => by cases hstate : e.state <;> simp [Entry.submitted, hstate])
    have hsubmitted : countWhere Entry.submitted (InstallQueue.markSubmitted q now).entries =
        countWhere (fun e : Entry => e.submitted || decide (e.state = .queued)) q.entries :=
      countWhere_congr fun i => (hentry i).2.2
    rw [hsubmitted, hsum, ← h.submitted]
    rfl
  · intro i j hi hj hsame
    rw [(hentry i).1] at hi
    rw [(hentry j).1] at hj
    rw [(hentry i).2.1, (hentry j).2.1] at hsame
    exact h.distinct i j hi hj hsame

/-- What a submission does: nothing, or it hands over the batch, which the installer
refuses or accepts. -/
theorem submitQueued_cases (q : Queue n) (now : UInt64) (accepted : Bool) :
    submitQueued q now accepted = (q, true) ∨
      (accepted = false ∧ countQueuedInstalls q ≠ 0 ∧ q.submittedCount = 0 ∧
        submitQueued q now accepted = (scheduleSubmitAfter
          { q with batchAnnounced := true, submitFailureNotified := true } now
          installSubmitRetryUs, false)) ∨
      (accepted = true ∧ countQueuedInstalls q ≠ 0 ∧ q.submittedCount = 0 ∧
        submitQueued q now accepted = (schedulePendingInstallPoll (markSubmitted
          { q with batchAnnounced := true, submitDueUs := 0, submitFailureNotified := false }
          now) now, true)) := by
  unfold submitQueued
  split
  · exact .inl rfl
  · split
    · exact .inl rfl
    · rename_i hqueued
      split
      · exact .inl rfl
      · rename_i hsubmitted
        split
        · exact .inl rfl
        · have hnone : q.submittedCount = 0 := by omega
          cases accepted with
          | false => exact .inr (.inl ⟨rfl, hqueued, hnone, rfl⟩)
          | true => exact .inr (.inr ⟨rfl, hqueued, hnone, rfl⟩)

theorem Counted.submitQueued (h : Counted q) (now : UInt64) (accepted : Bool) :
    Counted (submitQueued q now accepted).1 := by
  rcases submitQueued_cases q now accepted with hsame | ⟨-, -, -, hrefused⟩ | ⟨-, -, -, haccepted⟩
  · rw [hsame]
    exact h
  · rw [hrefused]
    refine Counted.schedule ?_ now _
    exact h.of_entries rfl rfl rfl
  · rw [haccepted]
    refine Counted.poll (Counted.markSubmitted ?_ now) now
    exact h.of_entries rfl rfl rfl

theorem findPendingInstallEntry_eq_some {titleId : Text}
    (h : findPendingInstallEntry q titleId = some i) :
    (q.entries i).tracked = true ∧ (q.entries i).titleId = titleId := by
  unfold findPendingInstallEntry at h
  split at h
  · cases h
  · simpa using Fin.eq_true_of_find?_eq_some h

/-- The slot reserved for a title is that of the title, or a free one while the title has
none. -/
theorem reservePendingInstallEntry_eq_some {titleId : Text} (hne : titleId ≠ [])
    (h : reservePendingInstallEntry q titleId = some i) :
    ((q.entries i).tracked = true ∧ (q.entries i).titleId = titleId) ∨
      ((q.entries i).tracked = false ∧
        ∀ j, (q.entries j).tracked = true → (q.entries j).titleId ≠ titleId) := by
  unfold reservePendingInstallEntry at h
  split at h
  · rename_i j hfound
    cases h
    exact .inl (findPendingInstallEntry_eq_some hfound)
  · rename_i hnone
    refine .inr ⟨by simpa using Fin.eq_true_of_find?_eq_some h, fun j hj hsame => ?_⟩
    unfold findPendingInstallEntry at hnone
    rw [if_neg hne] at hnone
    have hfalse := Fin.eq_false_of_find?_eq_none hnone j
    simp [hj, hsame] at hfalse

/-- What queueing a candidate does: nothing, or it writes the entry of the title and
arms the submission. -/
theorem queueCandidate_cases (q : Queue n) (c : ScanCandidate)
    (hasSrcSnd0 appInstallAllEnabled : Bool) (now : UInt64) :
    (queueCandidate q c hasSrcSnd0 appInstallAllEnabled now).1 = q ∨
      ∃ i announced notified, c.titleId ≠ [] ∧
        reservePendingInstallEntry q c.titleId = some i ∧ (q.entries i).submitted = false ∧
        (queueCandidate q c hasSrcSnd0 appInstallAllEnabled now).1 = scheduleSubmitAfter
          { q with
            entries := Function.update q.entries i (queuedEntry c hasSrcSnd0)
            trackedCount :=
              if (q.entries i).tracked then q.trackedCount else q.trackedCount + 1
            batchAnnounced := announced
            submitFailureNotified := notified } now 0 := by
  unfold queueCandidate
  split
  · exact .inl rfl
  · rename_i hargs
    simp only [not_or] at hargs
    split
    · exact .inl rfl
    · simp only
      split
      · exact .inl rfl
      · rename_i i hreserved
        split
        · exact .inl rfl
        · rename_i hsubmitted
          exact .inr ⟨i, _, _, hargs.1, hreserved, by simpa using hsubmitted, rfl⟩

/-- A candidate queued keeps the counts. -/
theorem Counted.queueCandidate (h : Counted q) (c : ScanCandidate)
    (hasSrcSnd0 appInstallAllEnabled : Bool) (now : UInt64) :
    Counted (queueCandidate q c hasSrcSnd0 appInstallAllEnabled now).1 := by
  rcases queueCandidate_cases q c hasSrcSnd0 appInstallAllEnabled now with hsame |
    ⟨i, announced, notified, hne, hreserved, hsubmitted, hresult⟩
  · rw [hsame]
    exact h
  · rw [hresult]
    refine Counted.schedule ?_ now 0
    have hcopied : (queuedEntry c hasSrcSnd0).titleId = c.titleId :=
      List.take_of_length_le (by have := c.titleFits; omega)
    have hnewtracked : (queuedEntry c hasSrcSnd0).tracked = true := rfl
    have hnewsubmitted : (queuedEntry c hasSrcSnd0).submitted = false := rfl
    have hslot := reservePendingInstallEntry_eq_some hne hreserved
    have htracked := countWhere_update Entry.tracked q.entries i (queuedEntry c hasSrcSnd0)
    have hsubmittedCount :=
      countWhere_update Entry.submitted q.entries i (queuedEntry c hasSrcSnd0)
    rw [hnewtracked, ← h.tracked] at htracked
    rw [hnewsubmitted, hsubmitted, ← h.submitted] at hsubmittedCount
    simp only [Bool.false_eq_true, if_false, if_true] at htracked hsubmittedCount
    refine ⟨?_, ?_, ?_⟩
    · simp only
      split
      · rename_i hold
        rw [if_pos hold] at htracked
        omega
      · rename_i hold
        rw [if_neg hold] at htracked
        omega
    · simp only
      omega
    · -- the new title is that of its slot or of no entry
      have hother : ∀ j, j ≠ i → (q.entries j).tracked = true →
          (q.entries j).titleId ≠ c.titleId := by
        intro j hj hjtracked hsame
        rcases hslot with ⟨hitracked, hititle⟩ | ⟨-, hfree⟩
        · exact hj (h.distinct j i hjtracked hitracked (hsame.trans hititle.symm))
        · exact hfree j hjtracked hsame
      intro j k hj hk hsame
      by_cases hji : j = i
      · by_cases hki : k = i
        · rw [hji, hki]
        · subst hji
          simp only [Function.update_self, Function.update_of_ne hki] at hk hsame
          exact absurd (hsame.symm.trans hcopied) (hother k hki hk)
      · by_cases hki : k = i
        · subst hki
          simp only [Function.update_self, Function.update_of_ne hji] at hj hsame
          exact absurd (hsame.trans hcopied) (hother j hji hj)
        · simp only [Function.update_of_ne hji, Function.update_of_ne hki] at hj hk hsame
          exact h.distinct j k hj hk hsame

theorem servicePending_cases (q : Queue n) (appInstallAllEnabled : Bool)
    (titles : Option (List Text)) (pollNow submitNow : UInt64) (accepted : Bool)
    (attempts : Text → Nat) :
    let service := servicePending q appInstallAllEnabled titles pollNow submitNow accepted
      attempts
    let polled := pollPending q titles pollNow
    service = q ∨ service = polled ∨ service = (submitQueued polled submitNow accepted).1 ∨
      service = noteSubmitFailure (submitQueued polled submitNow accepted).1 attempts := by
  simp only [servicePending]
  split
  · exact .inl rfl
  · split
    · exact .inl rfl
    · split
      · exact .inr (.inl rfl)
      · split <;> rename_i hresult <;> rw [hresult]
        · exact .inr (.inr (.inl rfl))
        · exact .inr (.inr (.inr rfl))

/-- One operation keeps the counters. -/
theorem Counted.next (h : Counted q) (i : Step) : Counted (next q i) := by
  cases i with
  | queueCandidate c hasSrcSnd0 enabled now => exact h.queueCandidate c hasSrcSnd0 enabled now
  | submitQueued now accepted => exact h.submitQueued now accepted
  | noteSubmitFailure attempts => exact h.noteSubmitFailure attempts
  | pollPending titles now => exact h.pollPending titles now
  | servicePending enabled titles pollNow submitNow accepted attempts =>
    have hpolled := h.pollPending titles pollNow
    have hsubmitted := hpolled.submitQueued submitNow accepted
    simp only [InstallQueue.next]
    rcases servicePending_cases q enabled titles pollNow submitNow accepted attempts with
      hsame | hpoll | hsubmit | hfailed
    · rw [hsame]
      exact h
    · rw [hpoll]
      exact hpolled
    · rw [hsubmit]
      exact hsubmitted
    · rw [hfailed]
      exact hsubmitted.noteSubmitFailure attempts
  | forgetPendingTitle titleId =>
    simp only [InstallQueue.next, forgetPendingTitle]
    split
    · exact h
    · rename_i i hfound
      exact h.clear (findPendingInstallEntry_eq_some hfound).1
  | setSleepMode active => exact h.of_entries rfl rfl rfl

/-- Queued titles that wait for nothing submitted have a due time. -/
def Armed (q : Queue n) : Prop :=
  0 < countQueuedInstalls q → q.submittedCount = 0 → q.submitDueUs ≠ 0

/-- The operation leaves no queued title without a due time: a title is not forgotten
when it is the last submitted one and others are queued, and the clock does not wrap to
zero when a refused batch is retried. -/
def LeavesArmed (q : Queue n) : Step → Prop
  | .forgetPendingTitle titleId =>
    ∀ i, findPendingInstallEntry q titleId = some i → (q.entries i).submitted = true →
      q.submittedCount = 1 → countQueuedInstalls q = 0
  | .submitQueued now accepted => accepted = false → now + installSubmitRetryUs ≠ 0
  | .servicePending _ _ _ submitNow accepted _ =>
    accepted = false → submitNow + installSubmitRetryUs ≠ 0
  | _ => True

theorem armed_schedule (q : Queue n) {now delay : UInt64} (h : now ≠ 0 → now + delay ≠ 0) :
    Armed (scheduleSubmitAfter q now delay) := by
  intro hqueued hnone
  unfold scheduleSubmitAfter at hqueued hnone ⊢
  split at hqueued <;> rename_i hcond
  · have hqueued' : 0 < countQueuedInstalls q := hqueued
    rw [if_pos hcond] at hnone
    have hnone' : q.submittedCount = 0 := hnone
    omega
  · rw [if_neg hcond]
    simp only
    split
    · decide
    · rename_i hnow
      exact h hnow

/-- An entry cleared keeps the queue awake. -/
theorem armed_clear (h : Counted q) (harmed : Armed q) (hi : (q.entries i).tracked = true)
    (hsubmitted : (q.entries i).submitted = true → q.submittedCount = 1 →
      countQueuedInstalls q = 0) : Armed (clearPendingInstallEntry q i) := by
  obtain ⟨htracked, hcount⟩ := h.clear_counts hi
  intro hqueued hnone
  have hleft : (clearPendingInstallEntry q i).trackedCount ≠ 0 := by
    simp only [countQueuedInstalls] at hqueued
    omega
  have hdue : (clearPendingInstallEntry q i).submitDueUs = q.submitDueUs := by
    simp only [clearPendingInstallEntry] at hleft ⊢
    rw [if_neg hleft]
  rw [hdue]
  cases hstate : (q.entries i).submitted with
  | false =>
    rw [hstate] at hcount
    simp only [Bool.false_eq_true, if_false] at hcount
    refine harmed ?_ (by omega)
    simp only [countQueuedInstalls] at hqueued ⊢
    omega
  | true =>
    rw [hstate] at hcount
    simp only [if_true] at hcount
    have hempty := hsubmitted hstate (by omega)
    simp only [countQueuedInstalls] at hempty hqueued
    omega

theorem armed_noteSubmitFailure (h : Counted q) (harmed : Armed q) (attempts : Text → Nat) :
    Armed (noteSubmitFailure q attempts) := by
  have hkept : Counted (noteSubmitFailure q attempts) ∧ Armed (noteSubmitFailure q attempts) := by
    refine clearLoop_keeps (P := fun q => Counted q ∧ Armed q) (fun q i hq hselected => ?_)
      ⟨h, harmed⟩ _
    have htracked := tracked_of_queued hselected.1
    refine ⟨hq.1.clear htracked, armed_clear hq.1 hq.2 htracked (fun hsubmitted => ?_)⟩
    simp [Entry.submitted, hselected.1] at hsubmitted
  exact hkept.2

theorem armed_pollPending (harmed : Armed q) (titles : Option (List Text)) (now : UInt64) :
    Armed (pollPending q titles now) := by
  unfold pollPending
  split
  · exact harmed
  · split
    · exact harmed
    · simp only
      split
      · exact armed_schedule _ (fun hnow => by simpa using hnow)
      · rename_i hleft
        exact fun _ hnone => absurd hnone hleft

theorem armed_submitQueued (h : Counted q) (harmed : Armed q) {now : UInt64} {accepted : Bool}
    (hwrap : accepted = false → now + installSubmitRetryUs ≠ 0) :
    Armed (submitQueued q now accepted).1 := by
  rcases submitQueued_cases q now accepted with hsame | ⟨hrefused, -, -, hresult⟩ |
    ⟨-, hqueued, -, hresult⟩
  · rw [hsame]
    exact harmed
  · rw [hresult]
    exact armed_schedule _ (fun _ => hwrap hrefused)
  · -- the batch is submitted, so something is
    rw [hresult]
    intro _ hnone
    have hcount : (schedulePendingInstallPoll (markSubmitted
        { q with batchAnnounced := true, submitDueUs := 0, submitFailureNotified := false }
        now) now).submittedCount = q.submittedCount +
          countWhere (fun e : Entry => e.state = .queued) q.entries := by
      unfold schedulePendingInstallPoll
      split <;> rfl
    rw [hcount, ← h.queued] at hnone
    omega

theorem armed_queueCandidate (harmed : Armed q) (c : ScanCandidate)
    (hasSrcSnd0 appInstallAllEnabled : Bool) (now : UInt64) :
    Armed (queueCandidate q c hasSrcSnd0 appInstallAllEnabled now).1 := by
  rcases queueCandidate_cases q c hasSrcSnd0 appInstallAllEnabled now with hsame |
    ⟨i, announced, notified, -, -, -, hresult⟩
  · rw [hsame]
    exact harmed
  · rw [hresult]
    exact armed_schedule _ (fun hnow => by simpa using hnow)

/-- One operation keeps the due time armed. -/
theorem armed_next (h : Counted q) (harmed : Armed q) {i : Step} (hleaves : LeavesArmed q i) :
    Armed (next q i) := by
  cases i with
  | queueCandidate c hasSrcSnd0 enabled now =>
    exact armed_queueCandidate harmed c hasSrcSnd0 enabled now
  | submitQueued now accepted => exact armed_submitQueued h harmed hleaves
  | noteSubmitFailure attempts => exact armed_noteSubmitFailure h harmed attempts
  | pollPending titles now => exact armed_pollPending harmed titles now
  | servicePending enabled titles pollNow submitNow accepted attempts =>
    have hpolled := h.pollPending titles pollNow
    have harmedPolled := armed_pollPending harmed titles pollNow
    have harmedSubmitted := armed_submitQueued hpolled harmedPolled hleaves
    simp only [InstallQueue.next]
    rcases servicePending_cases q enabled titles pollNow submitNow accepted attempts with
      hsame | hpoll | hsubmit | hfailed
    · rw [hsame]
      exact harmed
    · rw [hpoll]
      exact harmedPolled
    · rw [hsubmit]
      exact harmedSubmitted
    · rw [hfailed]
      exact armed_noteSubmitFailure (hpolled.submitQueued submitNow accepted)
        harmedSubmitted attempts
  | forgetPendingTitle titleId =>
    simp only [InstallQueue.next, forgetPendingTitle]
    split
    · exact harmed
    · rename_i i hfound
      exact armed_clear h harmed (findPendingInstallEntry_eq_some hfound).1
        (hleaves i hfound)
  | setSleepMode active => exact harmed

theorem reachable_counted (hq : Reachable queueSystem q) : Counted q := by
  refine hq.invariant ?_ ?_
  · rintro q rfl
    exact counted_initial
  · rintro q i q' h rfl
    exact h.next i

/-- Over every run the counters are those of the table and no title occurs twice; and
over every run whose operations leave the due time armed, a queued title that waits for
nothing submitted has a wake-up while the console is awake. -/
theorem queued_installs_wake :
    (∀ q : Queue n, Reachable queueSystem q →
      q.trackedCount = countWhere Entry.tracked q.entries ∧
      q.submittedCount = countWhere Entry.submitted q.entries ∧
      ∀ i j, (q.entries i).tracked = true → (q.entries j).tracked = true →
        (q.entries i).titleId = (q.entries j).titleId → i = j) ∧
    (∀ q : Queue n, Reachable (queueSystem.restrict LeavesArmed) q →
      (∃ i, (q.entries i).state = .queued) → (∀ i, (q.entries i).state ≠ .submitted) →
      q.sleepMode = false → ∀ appInstallAllEnabled now,
        nextWakeUs q appInstallAllEnabled now ≠ 0) := by
  refine ⟨fun q hq => ?_, fun q hq => ?_⟩
  · have hcounted := reachable_counted hq
    exact ⟨hcounted.tracked, hcounted.submitted, hcounted.distinct⟩
  · have hinit : ∀ q : Queue n, (queueSystem.restrict LeavesArmed).init q →
        Counted q ∧ Armed q := by
      rintro q rfl
      exact ⟨counted_initial, nofun⟩
    have hstep : ∀ (q : Queue n) i q', Counted q ∧ Armed q →
        (queueSystem.restrict LeavesArmed).step q i q' → Counted q' ∧ Armed q' := by
      rintro q i q' ⟨hcounted, harmed⟩ ⟨rfl, hleaves⟩
      exact ⟨hcounted.next i, armed_next hcounted harmed hleaves⟩
    obtain ⟨hcounted, harmed⟩ := Reachable.invariant hinit hstep hq
    rintro ⟨i, hi⟩ hnone hawake enabled now
    have hsubmitted : q.submittedCount = 0 := by
      rw [hcounted.submitted]
      refine countWhere_eq_zero_iff.mpr (fun j => ?_)
      simpa [Entry.submitted] using hnone j
    have hqueued : 0 < countQueuedInstalls q := by
      rw [hcounted.queued]
      exact countWhere_pos_iff.mpr ⟨i, by simpa using hi⟩
    have hactive : installQueueActive q enabled = true := by
      simp only [countQueuedInstalls] at hqueued
      simp only [installQueueActive, Bool.or_eq_true, decide_eq_true_eq]
      right
      omega
    simp only [nextWakeUs, hawake, Bool.false_eq_true, if_false, hactive, Bool.not_true,
      hsubmitted, if_true]
    exact harmed hqueued hsubmitted

/-- A candidate of the given title. -/
def candidate (titleId : Text) (h : titleId.length < maxTitleId) : ScanCandidate where
  path := "/data/game".toList
  titleId := titleId
  titleName := "Game".toList
  manualSourcePath := []
  manual := false
  titleFits := h

def firstCandidate : ScanCandidate := candidate "PPSA00001".toList (by decide)

def secondCandidate : ScanCandidate := candidate "PPSA00002".toList (by decide)

/-- A title queued at an idle queue is due at once. -/
theorem queued_installs_wake_first_title :
    let q := next (Queue.initial : Queue 4) (.queueCandidate firstCandidate false true 5)
    q.trackedCount = countWhere Entry.tracked q.entries ∧ nextWakeUs q true 5 ≠ 0 := by
  intro q
  have hreached : Reachable (queueSystem.restrict LeavesArmed) q :=
    (Reachable.start rfl).step (i := .queueCandidate firstCandidate false true 5) ⟨rfl, trivial⟩
  have hreached' : Reachable queueSystem q :=
    (Reachable.start rfl).step (i := .queueCandidate firstCandidate false true 5) rfl
  refine ⟨(queued_installs_wake.1 q hreached').1, ?_⟩
  exact queued_installs_wake.2 q hreached ⟨0, by decide +kernel⟩ (by decide +kernel) rfl true 5

/-- A title is submitted, another one queued behind it, and the first one forgotten. -/
def forgottenRun : List Step :=
  [.queueCandidate firstCandidate false true 5, .submitQueued 5 true,
    .queueCandidate secondCandidate false true 6, .forgetPendingTitle "PPSA00001".toList]

/-- The second title waits without a wake-up. -/
theorem queued_install_sleeps :
    let q := forgottenRun.foldl next (Queue.initial : Queue maxPending)
    Reachable queueSystem q ∧ (∃ i, (q.entries i).state = .queued) ∧
      (∀ i, (q.entries i).state ≠ .submitted) ∧ q.sleepMode = false ∧
      nextWakeUs q true 7 = 0 := by
  intro q
  refine ⟨.foldl _, ⟨⟨1, by decide⟩, ?_⟩, ?_, ?_, ?_⟩
  · decide +kernel
  · decide +kernel
  · decide +kernel
  · decide +kernel

end ShadowMount.InstallQueue
