import ShadowMount.GameLifecycle.Model

/-!
# No idle gap during a handoff

An observer reads the log: it knows the active process from the atomic variables, and takes the exit
notice of that process for the beginning of an exit.  Until the end of the exit is published,
everything that is published has to say that there is a game and that background work has to wait.
An exit ends in exactly one way: another process of the application takes over, or it is finalized.

Main results:

- Theorem {lit}`no_idle_gap_during_handoff`: in every sequence of notices, there is no
  gap and every exit ends once.
-/

namespace ShadowMount.GameLifecycle

open Foundation

/-- How an exit ends. -/
inductive Ending where
  | handedOff (new : Int)
  | finalized
deriving DecidableEq

/-- What the observer has read. -/
structure Seen where
  /-- The two variables and the word. -/
  pid : Int
  pending : Bool
  word : Nat
  /-- The process of the last exit notice, until it is answered. -/
  noticed : Option Int
  /-- The exit of an active process whose end has not been published. -/
  exit : Option Int
  /-- What the thread has done to end it. -/
  ending : Option Ending
deriving DecidableEq

/-- The observer before the first event. -/
def Seen.initial : Seen := ⟨0, false, 0, none, none, none⟩

/-- The observer reads an event; none when it must not happen.  The exit notice of the active
process opens an exit.  While it is open the variables and the word must tell of an active game,
and the word of blocked background work.  It ends by one call, for its own process, and closes when
the flag is taken back after that; at a handoff the new process must have been published.  Any other
process is cleaned up as the answer to its own exit notice only. -/
def Seen.see (o : Seen) : Event → Option Seen
  | .exitNotice pid =>
    if 0 < pid ∧ pid = o.pid then
      if o.exit = none then some { o with noticed := some pid, exit := some pid } else none
    else some { o with noticed := some pid }
  | .storedPid pid =>
    if o.exit = none ∨ publishedGameActive pid o.pending = true then some { o with pid := pid }
    else none
  | .storedPending true => some { o with pending := true }
  | .storedPending false =>
    if o.exit = none then some { o with pending := false }
    else match o.ending with
      | some (.handedOff new) =>
        if o.pid = new ∧ 0 < new then some { o with pending := false, exit := none, ending := none }
        else none
      | some .finalized => some { o with pending := false, exit := none, ending := none }
      | none => none
  | .published word _ =>
    if o.exit = none ∨ wordActive word = true ∧ wordBlocked word = true then
      some { o with word := word }
    else none
  | .handoff old new =>
    if o.exit = some old then
      if o.ending = none then some { o with ending := some (.handedOff new) } else none
    else some o
  | .finalized pid =>
    if o.exit = some pid then
      if o.ending = none then some { o with ending := some .finalized } else none
    else if o.noticed = some pid then some { o with noticed := none }
    else none

/-- What the observer has read of a log, the latest event first. -/
def observe : List Event → Option Seen
  | [] => some Seen.initial
  | e :: log => (observe log).bind fun o => o.see e

theorem observe_cons {log : List Event} {o o' : Seen} {e : Event} (h : observe log = some o)
    (he : o.see e = some o') : observe (e :: log) = some o' := by
  rw [observe, h]
  exact he

/-- The observer has read the log, and knows the variables and the word. -/
structure Core (s : Lifecycle) (o : Seen) : Prop where
  seen : observe s.log = some o
  pid : o.pid = s.activePid
  pending : o.pending = s.handoffPending
  word : o.word = s.backgroundState

/-- Between two notices the open exit is the pending one, and it has not been ended.  The flag tells
whether there is one, and then there is no active process. -/
structure Inv (s : Lifecycle) : Prop where
  core : ∃ o, Core s o ∧ o.ending = none ∧
    o.exit = if s.pendingExit.active then some s.pendingExit.pid else none
  flag : s.handoffPending = s.pendingExit.active
  quiet : s.pendingExit.active = true → s.activePid ≤ 0
  titled : 0 < s.activePid → s.activeTitleId ≠ []

/-- The word of a pending exit is active and blocked. -/
theorem backgroundWord_pending (pid : Int) (title : Text) :
    wordActive (backgroundWord pid true title) = true ∧
      wordBlocked (backgroundWord pid true title) = true := by
  unfold backgroundWord
  split
  · rw [if_pos rfl]
    have hbit : (titleWord title ||| 2 ^ 63).testBit 63 = true := by
      rw [Nat.testBit_or, Nat.testBit_two_pow_self, Bool.or_true]
    constructor
    · unfold wordActive backgroundIdle
      rw [decide_eq_true_iff]
      intro hzero
      rw [hzero] at hbit
      simp at hbit
    · unfold wordBlocked
      rw [hbit, Bool.or_true]
  · rw [if_pos]
    · exact ⟨rfl, rfl⟩
    · unfold publishedGameActive
      rw [Bool.or_true]

namespace Core

variable {s : Lifecycle} {o : Seen}

theorem publishBackgroundGameState (h : Core s o) (hopen : o.exit ≠ none → s.handoffPending = true)
    (wasActive : Bool) :
    ∃ o', Core (s.publishBackgroundGameState wasActive) o' ∧ o'.exit = o.exit ∧
      o'.ending = o.ending ∧ o'.noticed = o.noticed := by
  refine ⟨{ o with
    word := backgroundWord s.activePid s.handoffPending s.activeTitleId },
    ⟨observe_cons h.seen (if_pos ?_), h.pid, h.pending, rfl⟩, rfl, rfl, rfl⟩
  by_cases hexit : o.exit = none
  · exact .inl hexit
  · rw [hopen hexit]
    exact .inr (backgroundWord_pending _ _)

theorem publishActiveGamePid (h : Core s o) (hopen : o.exit ≠ none → s.handoffPending = true)
    (pid : Int) :
    ∃ o', Core (s.publishActiveGamePid pid) o' ∧ o'.exit = o.exit ∧ o'.ending = o.ending ∧
      o'.noticed = o.noticed := by
  have hsee : o.see (.storedPid pid) = some { o with pid := pid } := by
    refine if_pos ?_
    by_cases hexit : o.exit = none
    · exact .inl hexit
    · rw [h.pending, hopen hexit]
      exact .inr (Bool.or_true _)
  exact publishBackgroundGameState
    (s := { s with activePid := pid, log := .storedPid pid :: s.log })
    ⟨observe_cons h.seen hsee, rfl, h.pending, h.word⟩ hopen s.hasActiveGame

theorem publishActiveGame (h : Core s o) (hopen : o.exit ≠ none → s.handoffPending = true)
    (pid : Int) (title : Text) (appId : Nat) :
    ∃ o', Core (s.publishActiveGame pid title appId) o' ∧ o'.exit = o.exit ∧
      o'.ending = o.ending ∧ o'.noticed = o.noticed :=
  publishActiveGamePid (s := { s with
    activeTitleId := if 0 < pid ∧ title ≠ [] then strlcpy maxTitleId title else []
    activeAppId := if 0 < pid ∧ title ≠ [] then appId else 0 })
    ⟨h.seen, h.pid, h.pending, h.word⟩ hopen pid

/-- The flag is taken back once the exit has been ended. -/
theorem clearPendingGameExit (h : Core s o) (hended : o.exit ≠ none ∧
    (o.ending = some .finalized ∨ o.ending = some (.handedOff s.activePid) ∧ 0 < s.activePid)) :
    ∃ o', Core s.clearPendingGameExit o' ∧ o'.exit = none ∧ o'.ending = none := by
  have hsee : o.see (.storedPending false) =
      some { o with pending := false, exit := none, ending := none } := by
    unfold Seen.see
    rw [if_neg hended.1]
    rcases hended.2 with hending | ⟨hending, hpid⟩
    · rw [hending]
    · rw [hending]
      exact if_pos ⟨h.pid, hpid⟩
  obtain ⟨o', hcore, hexit, hending, -⟩ := publishBackgroundGameState
    (s := { s with
      pendingExit := PendingExit.zero
      handoffPending := false
      log := .storedPending false :: s.log })
    ⟨observe_cons h.seen hsee, h.pid, rfl, h.word⟩ (fun hopen => absurd rfl hopen)
    s.hasActiveGame
  exact ⟨o', hcore, hexit, hending⟩

end Core

namespace Inv

variable {s : Lifecycle}
variable {pid : Int} {title : Text} {env : Env}

/-- The invariant does not look at the launch candidates or the focus. -/
theorem of_launches (h : Inv s) (launches : Fin maxPendingGameExecCandidates → PendingLaunch)
    (focus : AppFocus) : Inv { s with launches := launches, focus := focus } := by
  obtain ⟨⟨o, hcore, hopened⟩, hflag, hquiet, htitled⟩ := h
  exact ⟨⟨o, ⟨hcore.seen, hcore.pid, hcore.pending, hcore.word⟩, hopened⟩, hflag, hquiet, htitled⟩

theorem setLaunch (h : Inv s) (i : Fin maxPendingGameExecCandidates) (entry : PendingLaunch) :
    Inv (s.setLaunch i entry) :=
  h.of_launches _ _

theorem clearAllPendingGameLaunches (h : Inv s) : Inv s.clearAllPendingGameLaunches :=
  h.of_launches _ _

theorem queuePendingGameLaunch (h : Inv s) (pid : Int) (execTime now : Nat)
    (deadline : Nat → Nat) : Inv (s.queuePendingGameLaunch pid execTime now deadline) := by
  unfold Lifecycle.queuePendingGameLaunch
  dsimp only
  split
  · exact h.setLaunch _ _
  · exact h

theorem deferConfirmedGameLaunchRetry (h : Inv s) (pid : Int) (execTime now : Nat) :
    Inv (s.deferConfirmedGameLaunchRetry pid execTime now) := by
  unfold Lifecycle.deferConfirmedGameLaunchRetry
  split
  · exact h
  · exact h.clearAllPendingGameLaunches.queuePendingGameLaunch _ _ _ _

/-- A pending exit is brought to its end. -/
theorem finalizePendingGameExit (h : Inv s) :
    Inv s.finalizePendingGameExit ∧ s.finalizePendingGameExit.pendingExit.active = false := by
  unfold Lifecycle.finalizePendingGameExit
  cases hactive : s.pendingExit.active with
  | false => exact ⟨h, hactive⟩
  | true =>
    obtain ⟨o, hcore, hending, hexit⟩ := h.core
    rw [hactive, if_pos rfl] at hexit
    have hsee : o.see (.finalized s.pendingExit.pid) =
        some { o with ending := some .finalized } := by
      simp [Seen.see, hexit, hending]
    obtain ⟨o', hcore', hexit', hending'⟩ := Core.clearPendingGameExit
      (s := s.note (.finalized s.pendingExit.pid)) (o := { o with ending := some .finalized })
      ⟨observe_cons hcore.seen hsee, hcore.pid, hcore.pending, hcore.word⟩
      ⟨by simp [hexit], .inl rfl⟩
    exact ⟨⟨⟨o', hcore', hending', hexit'⟩, rfl, fun hpending => (by cases hpending),
      h.titled⟩, rfl⟩

theorem activeTitleId_publishActiveGame (htitle : title ≠ []) (appId : Nat)
    (hpid : 0 < (s.publishActiveGame pid title appId).activePid) :
    (s.publishActiveGame pid title appId).activeTitleId ≠ [] := by
  have hpid : 0 < pid := hpid
  show (if 0 < pid ∧ title ≠ [] then strlcpy maxTitleId title else []) ≠ []
  rw [if_pos ⟨hpid, htitle⟩]
  unfold strlcpy
  rw [ne_eq, List.take_eq_nil_iff, not_or]
  exact ⟨by decide, htitle⟩

theorem publishActiveGame (h : Inv s) (hidle : s.pendingExit.active = false) (pid : Int)
    (htitle : title ≠ []) (appId : Nat) : Inv (s.publishActiveGame pid title appId) := by
  obtain ⟨o, hcore, hending, hexit⟩ := h.core
  rw [hidle] at hexit
  obtain ⟨o', hcore', hexit', hending', -⟩ :=
    hcore.publishActiveGame (fun hopen => absurd hexit hopen) pid title appId
  have hsame : (s.publishActiveGame pid title appId).pendingExit = s.pendingExit := rfl
  refine ⟨⟨o', hcore', hending'.trans hending, ?_⟩, h.flag, ?_,
    activeTitleId_publishActiveGame htitle appId⟩
  · rw [hsame, hidle]
    exact hexit'.trans hexit
  · rw [hsame, hidle]
    intro hpending
    cases hpending

/-- What is known of a predecessor that is found. -/
theorem predecessor_ok {oldPid : Int} {appId oldAppId : Nat} {pendingExit : Bool}
    (h : s.predecessor env pid title appId = .ok (oldPid, oldAppId, pendingExit)) :
    (pendingExit = true ∧ s.pendingExit.active = true ∧ oldPid = s.pendingExit.pid) ∨
      (pendingExit = false ∧ 0 < s.activePid) := by
  unfold Lifecycle.predecessor at h
  split at h
  · rename_i hpending
    cases h
    rw [Bool.and_eq_true] at hpending
    exact .inl ⟨rfl, hpending.1, rfl⟩
  · split at h
    · rename_i hactive
      split at h
      · cases h
      · cases h
        simp only [Bool.and_eq_true, decide_eq_true_eq] at hactive
        exact .inr ⟨rfl, hactive.1.1⟩
    · cases h

/-- A handoff is tried without a gap. -/
theorem tryGameProcessHandoff (h : Inv s) (env : Env) (pid : Int) (title : Text) (appId : Nat) :
    Inv (s.tryGameProcessHandoff env pid title appId).2 := by
  unfold Lifecycle.tryGameProcessHandoff
  split
  · exact h
  · rename_i hnamed
    rw [not_or, Int.not_le] at hnamed
    split
    · exact h
    · rename_i oldPid oldAppId pendingExit hpredecessor
      split
      · exact h
      · dsimp only
        generalize (if appId ≠ 0 then appId else oldAppId) = effectiveAppId
        split
        · exact h
        · split
          · exact h
          · obtain ⟨o, hcore, hending, hexit⟩ := h.core
            rcases predecessor_ok hpredecessor with ⟨rfl, hactive, rfl⟩ | ⟨rfl, hpid⟩
            · -- the new process is published first, while the flag is still set
              rw [hactive, if_pos rfl] at hexit
              have hsee : o.see (.handoff s.pendingExit.pid pid) =
                  some { o with ending := some (.handedOff pid) } := by
                simp [Seen.see, hexit, hending]
              obtain ⟨o', hcore', hexit', hending', -⟩ := Core.publishActiveGame
                (s := s.note (.handoff s.pendingExit.pid pid))
                (o := { o with ending := some (.handedOff pid) })
                ⟨observe_cons hcore.seen hsee, hcore.pid, hcore.pending, hcore.word⟩
                (fun _ => h.flag.trans hactive) pid title effectiveAppId
              obtain ⟨o'', hcore'', hexit'', hending''⟩ := hcore'.clearPendingGameExit
                ⟨by rw [hexit', hexit]; simp, .inr ⟨hending', hnamed.1⟩⟩
              exact ⟨⟨o'', hcore'', hending'', hexit''⟩, rfl, fun hpending => (by cases hpending),
                activeTitleId_publishActiveGame (s := s.note (.handoff s.pendingExit.pid pid))
                  hnamed.2 effectiveAppId⟩
            · -- the old process is still active, so no exit is pending
              have hidle : s.pendingExit.active = false := by
                cases hactive : s.pendingExit.active with
                | false => rfl
                | true =>
                  have hquiet := h.quiet hactive
                  omega
              rw [hidle, if_neg Bool.false_ne_true] at hexit
              have hsee : o.see (.handoff oldPid pid) = some o := by
                simp [Seen.see, hexit]
              have hnoted : Inv (s.note (.handoff oldPid pid)) :=
                ⟨⟨o, ⟨observe_cons hcore.seen hsee, hcore.pid, hcore.pending, hcore.word⟩, hending,
                  by rw [hexit]; simp [Lifecycle.note, hidle]⟩, h.flag, h.quiet, h.titled⟩
              exact hnoted.publishActiveGame hidle pid hnamed.2 effectiveAppId

/-- A launch keeps the invariant, whichever way it goes. -/
theorem dispatchGameLaunch (h : Inv s) (env : Env) (pid : Int) (htitle : title ≠ []) (appId : Nat) :
    Inv (s.dispatchGameLaunch env pid title appId).2 := by
  have htry := h.tryGameProcessHandoff env pid title appId
  unfold Lifecycle.dispatchGameLaunch
  split
  · exact h
  · split
    · rename_i s' hresult
      rw [hresult] at htry
      exact htry
    · rename_i s' hresult
      rw [hresult] at htry
      exact htry
    · rename_i s' hresult
      rw [hresult] at htry
      rcases Inv.finalizePendingGameExit htry with ⟨hinv, hidle⟩
      dsimp only at hinv hidle ⊢
      generalize s'.finalizePendingGameExit = s₁ at hinv hidle ⊢
      generalize (if (decide (s₁.activePid = pid) && Lifecycle.sameApplicationIdentity title appId
        s₁.activeTitleId s₁.activeAppId && decide (appId = 0)) = true
        then s₁.activeAppId else appId) = boundAppId
      split
      · exact hinv
      · split
        · exact hinv
        · exact hinv.publishActiveGame hidle _ htitle _

theorem ne_nil_of_resolve {appId : Nat}
    (h : Lifecycle.resolveGameTitleId env pid = some (title, appId)) : title ≠ [] := by
  unfold Lifecycle.resolveGameTitleId at h
  split at h
  · split at h
    · cases h
    · rename_i hnamed
      cases h
      exact fun hnil => hnamed (.inl hnil)
  · cases h

/-- A started process keeps the invariant. -/
theorem handleGameExec (h : Inv s) (env : Env) (pid : Int) : Inv (s.handleGameExec env pid) := by
  unfold Lifecycle.handleGameExec
  split
  · exact h
  · split
    · rename_i title appId hresolved
      split
      · have hdispatch := h.dispatchGameLaunch env pid (ne_nil_of_resolve hresolved) appId
        split
        · rename_i s' hresult
          rw [hresult] at hdispatch
          exact Inv.clearAllPendingGameLaunches hdispatch
        · rename_i s' hresult
          rw [hresult] at hdispatch
          exact Inv.deferConfirmedGameLaunchRetry hdispatch _ _ _
      · exact h
    · split
      · exact h
      · split
        · exact h.queuePendingGameLaunch _ _ _ _
        · exact h

/-- The exit of the active process becomes the pending one. -/
theorem openPendingExit {o : Seen} (hcore : Core s o) (hending : o.ending = none)
    (hexit : o.exit = some pid) (now : Nat) (title : Text) (appId : Nat) :
    Inv ((s.queuePendingGameExit now pid title appId).publishActiveGamePid 0) := by
  obtain ⟨o', hcore', hexit', hending', -⟩ := Core.publishBackgroundGameState
    (s := { s with
      pendingExit := {
        active := true, pid, appId, exitTimeUs := now, titleId := strlcpy maxTitleId title }
      handoffPending := true
      log := .storedPending true :: s.log })
    (o := { o with pending := true })
    ⟨observe_cons hcore.seen rfl, hcore.pid, rfl, hcore.word⟩ (fun _ => rfl) s.hasActiveGame
  obtain ⟨o'', hcore'', hexit'', hending'', -⟩ := hcore'.publishActiveGamePid (fun _ => rfl) 0
  exact ⟨⟨o'', hcore'', hending''.trans (hending'.trans hending),
    hexit''.trans (hexit'.trans hexit)⟩, rfl, fun _ => Int.le_refl 0,
    fun hpid => absurd hpid (Int.lt_irrefl 0)⟩

theorem forgetPendingGameLaunch_eq (s : Lifecycle) (pid : Int) :
    ∃ launches, s.forgetPendingGameLaunch pid = { s with launches := launches } := by
  unfold Lifecycle.forgetPendingGameLaunch
  split
  · exact ⟨_, rfl⟩
  · exact ⟨s.launches, rfl⟩

/-- The exit of a process is handled without a gap. -/
theorem handleGameExit (h : Inv s) (env : Env) (pid : Int) :
    Inv ((s.note (.exitNotice pid)).handleGameExit env pid) := by
  obtain ⟨launches, hforget⟩ := forgetPendingGameLaunch_eq (s.note (.exitNotice pid)) pid
  obtain ⟨o, hcore, hending, hexit⟩ := h.core
  unfold Lifecycle.handleGameExit
  rw [hforget]
  dsimp only [Lifecycle.note]
  by_cases hactive : 0 < pid ∧ pid = s.activePid
  · -- the process is active, so no other exit is pending
    have hidle : s.pendingExit.active = false := by
      cases hpending : s.pendingExit.active with
      | false => rfl
      | true =>
        have hquiet := h.quiet hpending
        omega
    rw [hidle, if_neg Bool.false_ne_true] at hexit
    have hsee :
        o.see (.exitNotice pid) = some { o with noticed := some pid, exit := some pid } := by
      have hpid : 0 < pid ∧ pid = o.pid := hcore.pid ▸ hactive
      simp only [Seen.see]
      rw [if_pos hpid, if_pos hexit]
    have hconsume : Lifecycle.consumeActiveGame
        { s with launches := launches, log := .exitNotice pid :: s.log } pid =
        (some (s.activeTitleId, s.activeAppId),
          { s with
            launches := launches
            log := .exitNotice pid :: s.log
            activeTitleId := []
            activeAppId := 0 }) := by
      have htitle := h.titled (hactive.2 ▸ hactive.1)
      exact if_neg (by simp [hactive.2.symm, htitle, Int.not_le.mpr hactive.1])
    rw [hidle, Bool.false_and, if_neg Bool.false_ne_true, hconsume]
    dsimp only
    rw [Lifecycle.finalizePendingGameExit, if_pos (by simp [hidle])]
    exact openPendingExit (s := { s with
        launches := launches
        log := .exitNotice pid :: s.log
        activeTitleId := []
        activeAppId := 0 })
      ⟨observe_cons hcore.seen hsee, hcore.pid, hcore.pending, hcore.word⟩ hending rfl _ _ _
  · have hsee : o.see (.exitNotice pid) = some { o with noticed := some pid } :=
      if_neg (by rw [hcore.pid]; exact hactive)
    have hnoticed := observe_cons hcore.seen hsee
    split
    · exact ⟨⟨_, ⟨hnoticed, hcore.pid, hcore.pending, hcore.word⟩, hending, hexit⟩, h.flag, h.quiet,
        h.titled⟩
    · rename_i hduplicate
      have hconsume : Lifecycle.consumeActiveGame
          { s with launches := launches, log := .exitNotice pid :: s.log } pid =
          (none, { s with launches := launches, log := .exitNotice pid :: s.log }) := by
        refine if_pos ?_
        by_contra hboth
        simp only [not_or, not_le, not_not] at hboth
        exact hactive ⟨hboth.1, hboth.2.1.symm⟩
      rw [hconsume]
      -- the process is cleaned up as the answer to its notice
      have hother : o.exit ≠ some pid := by
        rw [hexit]
        intro hsame
        split at hsame
        · rename_i hpending
          exact hduplicate (by simp [hpending, Option.some.inj hsame])
        · cases hsame
      have hfinalized : ({ o with noticed := some pid } : Seen).see (.finalized pid) =
          some { o with noticed := none } := by
        simp [Seen.see, hother]
      exact ⟨⟨_, ⟨observe_cons hnoticed hfinalized, hcore.pid, hcore.pending, hcore.word⟩, hending,
        hexit⟩, h.flag, h.quiet, h.titled⟩

theorem handleSleepExit (h : Inv s) (env : Env) (pid : Int) :
    Inv ((s.note (.exitNotice pid)).handleSleepExit env pid) := by
  unfold Lifecycle.handleSleepExit
  dsimp only
  split
  · exact (h.handleGameExit env pid).finalizePendingGameExit.1
  · exact h.handleGameExit env pid

/-- A poll of the launches keeps the invariant. -/
theorem pollFrom (env : Env) (entries : List (Fin maxPendingGameExecCandidates))
    {s : Lifecycle} (h : Inv s) : Inv (Lifecycle.pollFrom env entries s) := by
  induction entries generalizing s with
  | nil => exact h
  | cons i rest ih =>
    unfold Lifecycle.pollFrom
    dsimp only
    split
    · exact ih h
    · split
      · rename_i title appId hresolved
        generalize (if (s.launches i).execTimeUs = 0 then 0
          else (s.launches i).execTimeUs + gameRuntimePrepareTimeoutUs) = deadline
        split
        · split
          · exact (h.setLaunch _ _).setLaunch _ _
          · have hdispatch := (h.setLaunch i { s.launches i with
              deadlineUs := deadline }).dispatchGameLaunch env (s.launches i).pid
                (ne_nil_of_resolve hresolved) appId
            split
            · rename_i s' hresult
              rw [hresult] at hdispatch
              exact Inv.clearAllPendingGameLaunches hdispatch
            · rename_i s' hresult
              rw [hresult] at hdispatch
              split
              · exact Inv.setLaunch hdispatch _ _
              · exact Inv.deferConfirmedGameLaunchRetry hdispatch _ _ _
        · exact ih (h.setLaunch _ _)
      · split
        · exact ih (h.setLaunch _ _)
        · exact ih h

theorem maybeFinalizePendingGameExit (h : Inv s) (env : Env) :
    Inv (s.maybeFinalizePendingGameExit env) := by
  unfold Lifecycle.maybeFinalizePendingGameExit
  split
  · exact h
  · split
    · split
      · exact h.finalizePendingGameExit.1
      · exact h
    · split
      · exact h
      · exact h.finalizePendingGameExit.1

theorem awaits_of_pending (h : Inv s)
    (hpending : (s.maybeFinalizePendingGameExit env).pendingExit.active = true) :
    s.maybeFinalizePendingGameExit env = s ∧ s.awaitsSuccessor env = true := by
  cases hactive : s.pendingExit.active with
  | false =>
    have hsame : s.maybeFinalizePendingGameExit env = s := by
      unfold Lifecycle.maybeFinalizePendingGameExit
      rw [hactive]
      rfl
    rw [hsame, hactive] at hpending
    cases hpending
  | true =>
    have hquiet := h.quiet hactive
    unfold Lifecycle.maybeFinalizePendingGameExit at hpending ⊢
    rw [hactive, if_neg (by simp), if_neg (by omega)] at hpending ⊢
    split at hpending
    · rename_i hawaits
      rw [if_pos hawaits]
      exact ⟨rfl, hawaits⟩
    · rw [h.finalizePendingGameExit.2] at hpending
      cases hpending

theorem handlePendingAppFocus (h : Inv s) : Inv s.handlePendingAppFocus := by
  unfold Lifecycle.handlePendingAppFocus
  split
  · exact h
  · split
    · exact h
    · obtain ⟨o, hcore, hending, hexit⟩ := h.core
      have hopen : o.exit ≠ none → s.handoffPending = true := by
        intro hopen
        rw [h.flag]
        by_contra hidle
        exact hopen (by rw [hexit, if_neg hidle])
      obtain ⟨o', hcore', hexit', hending', -⟩ := Core.publishBackgroundGameState
        (s := { s with focus := { s.focus with pending := false } })
        ⟨hcore.seen, hcore.pid, hcore.pending, hcore.word⟩ hopen s.hasActiveGame
      exact ⟨⟨o', hcore', hending'.trans hending, hexit'.trans hexit⟩, h.flag, h.quiet, h.titled⟩

theorem pollGameModules (h : Inv s) (env : Env) : Inv (s.pollGameModules env) := by
  have hpoll : Inv (Lifecycle.pollFrom env (List.finRange maxPendingGameExecCandidates) s) :=
    Inv.pollFrom env _ h
  have hcheck := hpoll.maybeFinalizePendingGameExit env
  unfold Lifecycle.pollGameModules
  dsimp only
  split
  · exact hcheck
  · exact hcheck.handlePendingAppFocus

/-- Every notice keeps the invariant. -/
theorem next (h : Inv s) (notice : Notice) : Inv (s.next notice) := by
  cases notice with
  | exec env pid => exact h.handleGameExec env pid
  | exit env pid => exact h.handleGameExit env pid
  | poll env => exact h.pollGameModules env
  | beginSleep => exact h.finalizePendingGameExit.1.clearAllPendingGameLaunches
  | sleepExit env pid => exact h.handleSleepExit env pid
  | focus known =>
    change Inv (s.publishAppFocus known)
    unfold Lifecycle.publishAppFocus
    split
    · exact h
    · exact h.of_launches _ _

theorem initial : Inv Lifecycle.initial :=
  ⟨⟨Seen.initial, ⟨rfl, rfl, rfl, rfl⟩, rfl, rfl⟩, rfl, fun hpending => (by cases hpending),
    fun hpid => absurd hpid (by decide)⟩

theorem of_reachable (h : Reachable system s) : Inv s := by
  have hinit : ∀ s, system.init s → Inv s := by
    rintro s rfl
    exact Inv.initial
  have hstep : ∀ s notice s', Inv s → system.step s notice s' → Inv s' := by
    rintro s notice s' hinv rfl
    exact hinv.next notice
  exact h.invariant hinit hstep

end Inv

/-- A poll leaves an exit pending only while it awaits a successor: during the grace
period, or while the sandbox exists and has not lingered for too long. -/
def SettledByPolls (s : Lifecycle) : Prop :=
  ∀ env, (s.pollGameModules env).pendingExit.active = true →
    (s.pollGameModules env).awaitsSuccessor env = true

/-- A pending exit is settled by the polls. -/
theorem Inv.settledByPolls {s : Lifecycle} (h : Inv s) : SettledByPolls s := by
  intro env hpending
  have hpoll : Inv (Lifecycle.pollFrom env (List.finRange maxPendingGameExecCandidates) s) :=
    Inv.pollFrom env _ h
  unfold Lifecycle.pollGameModules at hpending ⊢
  dsimp only at hpending ⊢
  split at hpending
  · rename_i hactive
    rcases hpoll.awaits_of_pending hactive with ⟨hsame, hawaits⟩
    rw [if_pos hactive, hsame]
    exact hawaits
  · rename_i hactive
    have hkept : ∀ s : Lifecycle, s.handlePendingAppFocus.pendingExit = s.pendingExit := by
      intro s
      unfold Lifecycle.handlePendingAppFocus
      split
      · rfl
      · split <;> rfl
    rw [hkept] at hpending
    exact absurd hpending hactive

/-- Over every sequence of notices the observer is content: from the exit notice of the active
process until its end is published, everything published tells of an active game and of blocked
background work, and the exit is ended once, by a handoff or by its finalization.  The exit that it
still finds open is the pending one, and polling settles it. -/
theorem no_idle_gap_during_handoff (notices : List Notice) :
    let s := notices.foldl Lifecycle.next Lifecycle.initial
    ∃ o, observe s.log = some o ∧ o.pid = s.activePid ∧ o.pending = s.handoffPending ∧
      o.word = s.backgroundState ∧ o.ending = none ∧
      o.exit = (if s.pendingExit.active then some s.pendingExit.pid else none) ∧
      SettledByPolls s := by
  intro s
  have hinv := Inv.of_reachable (.foldl notices : Reachable system s)
  obtain ⟨o, hcore, hending, hexit⟩ := hinv.core
  exact ⟨o, hcore.seen, hcore.pid, hcore.pending, hcore.word, hending, hexit, hinv.settledByPolls⟩

/-- A game of one application that all calls succeed for. -/
def spawning : Env where
  now := 1
  retryNow := 1
  endNow := 1
  appInfo _ := some ("PPSA12345".toList, 7)
  alive _ := true
  watch _ := true
  prepared _ := true
  mounted _ := true
  ensureRuntime _ := true
  bind _ _ _ := true
  sandboxExists _ := false

/-- The game starts, exits, and goes on in another process; the exit notice comes twice. -/
def spawnRun : List Notice :=
  [.exec spawning 10, .exit spawning 10, .exit spawning 10, .exec spawning 11]

/-- A game that spawns its next process and exits hands over. -/
theorem no_idle_gap_during_handoff_spawned :
    (∃ o, observe (spawnRun.foldl Lifecycle.next Lifecycle.initial).log = some o ∧ o.pid = 11 ∧
      o.exit = none) ∧
    ∃ o, observe ((spawnRun.take 3).foldl Lifecycle.next Lifecycle.initial).log = some o ∧
      o.exit = some 10 ∧ wordBlocked o.word = true := by
  obtain ⟨o, hseen, hpid, -, -, -, hexit, -⟩ := no_idle_gap_during_handoff spawnRun
  obtain ⟨o', hseen', -, -, hword, -, hexit', -⟩ := no_idle_gap_during_handoff (spawnRun.take 3)
  refine ⟨⟨o, hseen, hpid.trans ?_, hexit.trans ?_⟩, o', hseen', hexit'.trans ?_, ?_⟩
  · decide +kernel
  · decide +kernel
  · decide +kernel
  · rw [hword]
    decide +kernel

end ShadowMount.GameLifecycle
