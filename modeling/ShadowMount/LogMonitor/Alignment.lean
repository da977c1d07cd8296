import ShadowMount.LogMonitor.Lines

/-!
# Alignment of the snapshots

How a poll lays the new snapshot over the last one.  Every operation is a sequence of polls, between
which the snapshot stays as it is and nothing of the log is read; so an invariant has to be checked
on polls, on the start of the monitoring and on the changes in between.
-/

namespace ShadowMount.LogMonitor

open Foundation

variable {w : Window} {m : Monitor} {fetched : Option Window}

theorem Window.length_text {log : Text} (h : w.within log) :
    (w.text log).length = w.stop - w.start :=
  length_between h.2

/-- The new characters start no earlier than the last snapshot stopped. -/
theorem stop_le_start_add_findLogOverlap {log : Text} {w' : Window} (hw' : w'.within log)
    (hfollows : w.follows w') : w.stop ≤ w'.start + findLogOverlap (w.text log) (w'.text log) := by
  have hshared := shared_le_overlap (l := log) hfollows.1 hfollows.2 hw'.2
  unfold findLogOverlap Window.text
  omega

theorem findLogOverlap_le (snapshot current : Text) :
    findLogOverlap snapshot current ≤ current.length :=
  overlap_le _ _

/-- What a poll of a tracked game does with the snapshot it gets: there is nothing new, or the
characters behind the part that is skipped are heard. -/
theorem pollLogMonitor_cases {log : Text} (hsome : m.game.isSome)
    (hsnapshot : m.logSnapshot = m.read.text log) (hread : m.read.within log) (hw : w.within log)
    (hfollows : m.read.follows w) (nowUs : Nat) :
    (pollLogMonitor log (some w) nowUs m = { m with read := w } ∧
      m.logSnapshot = w.text log) ∨
    ∃ skip base, pollLogMonitor log (some w) nowUs m =
        pollLogMonitor.finish nowUs (w.text log) w skip base ∧
      skip ≤ (w.text log).length ∧ m.read.stop ≤ w.start + skip ∧
      base.game = m.game ∧ base.calls = m.calls ∧ base.read = w ∧ base.baseline = m.baseline ∧
      (m.read.start = w.start → skip = m.read.stop - w.start ∧ base = { m with read := w }) := by
  have hlength : m.logSnapshot.length = m.read.stop - m.read.start := by
    rw [hsnapshot, Window.length_text hread]
  have hstart := hfollows.1
  have hle := hread.1
  unfold pollLogMonitor
  rw [if_neg (by simpa [Option.isSome_iff_ne_none] using hsome)]
  dsimp only
  split
  next hbegins =>
    have hbegins' := List.isPrefixOf_iff_prefix.mp hbegins
    split
    next hsame => exact .inl ⟨rfl, hbegins'.eq_of_length hsame⟩
    next =>
      exact .inr ⟨_, _, rfl, hbegins'.length_le, by omega, rfl, rfl, rfl, rfl,
        fun hsame => ⟨by omega, rfl⟩⟩
  next hnot =>
    have hmoved : m.read.start ≠ w.start := by
      intro hsame
      apply hnot
      rw [List.isPrefixOf_iff_prefix, hsnapshot]
      unfold Window.text
      rw [hsame]
      exact between_prefix log hfollows.2
    have hskip := stop_le_start_add_findLogOverlap hw hfollows
    rw [← hsnapshot] at hskip
    split
    next hreset =>
      exact .inr ⟨0, _, rfl, Nat.zero_le _, by omega, rfl, rfl, rfl, rfl,
        fun hsame => absurd hsame hmoved⟩
    next =>
      exact .inr ⟨_, _, rfl, findLogOverlap_le _ _, hskip, rfl, rfl, rfl, rfl,
        fun hsame => absurd hsame hmoved⟩

/-- The end of a poll: the characters behind the skipped part are heard, and the snapshot is the
new one. -/
theorem finish_grows (nowUs : Nat) (text : Text) (w : Window) (skip : Nat) {base : Monitor}
    (hsome : base.game.isSome) :
    ∃ k ≤ (text.drop skip).length, ∃ m, Grows (appends (w.start + skip) ((text.drop skip).take k))
        base m ∧ (m.game.isSome → k = (text.drop skip).length) ∧
      ((pollLogMonitor.finish nowUs text w skip base = m ∧ m.game = none) ∨
        pollLogMonitor.finish nowUs text w skip base = { m with logSnapshot := text }) := by
  obtain ⟨k, hk, hgrows, hall⟩ := feed_grows nowUs (w.start + skip) (text.drop skip) hsome
  unfold pollLogMonitor.finish
  dsimp only
  split
  next hnone => exact ⟨k, hk, _, hgrows, hall, .inl ⟨rfl, by simpa using hnone⟩⟩
  next =>
    have hnoted := hgrows.trans (noteProgress_grows nowUs _)
    rw [List.append_nil] at hnoted
    refine ⟨k, hk, _, hnoted, ?_, .inr rfl⟩
    rw [noteProgress_game]
    exact hall

/-- A change that reads nothing of the log.  A line is given up only when the report made no
progress for the time of grace, or when the monitoring ends. -/
structure Quiet (m m' : Monitor) : Prop where
  grows : ∃ added, Grows added m m' ∧ ∀ call ∈ added,
    (∃ idle, call = .abandoned idle ∧ fatalReportGraceUs ≤ idle) ∨
      (call = .drained ∧ m'.game = none)

theorem Reports.quiet {m' : Monitor} (h : Reports m m') : Quiet m m' :=
  ⟨[], h.grows, by simp⟩

theorem Quiet.of_game (hsome : m.game.isSome) (game : Game) :
    Quiet m { m with game := some game } := by
  refine ⟨[], ⟨rfl, rfl, by simp, fun _ => ⟨hsome, rfl⟩, fun hline => ?_⟩, by simp⟩
  exact ⟨hline.processed, fun _ => hline.logLine hsome⟩

theorem Quiet.clear_of_drained (hsome : m.game.isSome) (nowUs : Nat) :
    Quiet m (clearTrackedGame (flushLogLine nowUs { m with calls := m.calls ++ [.drained] })) ∧
      Quiet m (clearTrackedGame (finishFatalError nowUs
        (flushLogLine nowUs { m with calls := m.calls ++ [.drained] }))) := by
  have hflush := flushLogLine_grows (rfl : Call.drained.endsLine = true) nowUs hsome
  constructor
  · exact ⟨_, hflush.trans (clearTrackedGame_reports _).grows, by simp [clearTrackedGame]⟩
  · exact ⟨_, (hflush.trans (finishFatalError_reports nowUs _).grows).trans
      (clearTrackedGame_reports _).grows, by simp [clearTrackedGame]⟩

theorem Quiet.of_abandoned (hsome : m.game.isSome) {nowUs : Nat}
    (hidle : fatalReportGraceUs ≤ idleUs nowUs m) :
    Quiet m (flushLogLine nowUs { m with calls := m.calls ++ [.abandoned (idleUs nowUs m)] }) :=
  ⟨_, flushLogLine_grows rfl nowUs hsome, fun call hmem => by simp_all⟩

section Invariants

variable {log : Text} {P : Monitor → Prop} {allowed : Window → Prop}

/-- A predicate that polls and the changes between them keep. -/
structure Kept (log : Text) (allowed : Window → Prop) (P : Monitor → Prop) : Prop where
  quiet : ∀ m m', Quiet m m' → P m → P m'
  poll : ∀ m w nowUs, m.game.isSome → m.read.follows w → w.within log → allowed w → P m →
    P (pollLogMonitor log (some w) nowUs m)
  start : ∀ m w nowUs, m.game.isSome → m.calls = [] → m.processed = [] → m.logLine = [] →
    m.read.within log → w.within log → allowed w → P (startLogMonitoring log w nowUs m)
  stop : ∀ m, m.game = none → m.calls = [] → m.processed = [] → m.read.within log → P m
  within : ∀ m, P m → m.read.within log

theorem Kept.clear (hkept : Kept log allowed P) (hm : P m) : P (clearTrackedGame m) :=
  hkept.quiet _ _ (clearTrackedGame_reports m).quiet hm

theorem Kept.pollAny (hkept : Kept log allowed P)
    (hshows : ∀ w ∈ fetched, m.read.follows w ∧ w.within log ∧ allowed w) (nowUs : Nat) (hm : P m) :
    P (pollLogMonitor log fetched nowUs m) := by
  cases hgame : m.game with
  | none =>
    unfold pollLogMonitor
    rw [if_pos (by simp [hgame])]
    exact hm
  | some game =>
    have hsome : m.game.isSome := by simp [hgame]
    cases fetched with
    | none =>
      unfold pollLogMonitor
      rw [if_neg (by simp [hgame])]
      exact hkept.clear hm
    | some w =>
      have hw := hshows w rfl
      exact hkept.poll m w nowUs hsome hw.1 hw.2.1 hw.2.2 hm

theorem Kept.drain (hkept : Kept log allowed P)
    (hshows : ∀ w ∈ fetched, m.read.follows w ∧ w.within log ∧ allowed w) (nowUs : Nat) (hm : P m) :
    P (clearTrackedGame (drainLogMonitorBeforeClear log fetched nowUs m)) := by
  have hpoll := hkept.pollAny hshows nowUs hm
  unfold drainLogMonitorBeforeClear
  generalize pollLogMonitor log fetched nowUs m = m' at hpoll ⊢
  dsimp only
  split
  next => exact hkept.clear hpoll
  next hgame =>
    have hdrained := Quiet.clear_of_drained (m := m')
      (by simpa [Option.isSome_iff_ne_none] using hgame) nowUs
    split
    next => exact hkept.quiet _ _ hdrained.1 hpoll
    next => exact hkept.quiet _ _ hdrained.2 hpoll

theorem Kept.checkProcessFlags (hkept : Kept log allowed P) {again : Option Window}
    (hshows : ∀ w ∈ again, m.read.follows w ∧ w.within log ∧ allowed w) (flags : Except Int Nat)
    (nowUs : Nat) (hm : P m) : P (checkProcessFlags log flags again nowUs m) := by
  unfold LogMonitor.checkProcessFlags
  split
  next =>
    split
    next => exact hkept.drain hshows nowUs hm
    next => exact hm
  next =>
    split
    next => exact hkept.quiet _ _ (handleGameFailure_reports ..).quiet hm
    next => exact hm

theorem Quiet.read {m' : Monitor} (h : Quiet m m') : m'.read = m.read := by
  obtain ⟨added, hgrows, _⟩ := h
  exact hgrows.read

/-- The check of the process keeps what holds. -/
theorem Kept.checkProcess (hkept : Kept log allowed P) (hsome : m.game.isSome)
    {again : Option Window} (hshows : ∀ w ∈ again, m.read.follows w ∧ w.within log ∧ allowed w)
    (flags : Except Int Nat) (nowUs : Nat) (hm : P m) :
    P (checkProcess log flags again nowUs m) := by
  unfold LogMonitor.checkProcess
  split
  next =>
    split
    next => exact hm
    next hidle =>
      have hquiet := Quiet.of_abandoned hsome (Nat.not_lt.mp hidle)
      have hflushed := hkept.quiet _ _ hquiet hm
      have hread := hquiet.read
      generalize flushLogLine nowUs { m with calls := m.calls ++ [.abandoned (idleUs nowUs m)] } =
        m' at hflushed hread ⊢
      dsimp only
      split
      next => exact hflushed
      next =>
        have hfinish := finishFatalError_reports nowUs m'
        split
        next => exact hkept.quiet _ _ hfinish.quiet hflushed
        next =>
          apply hkept.checkProcessFlags _ flags nowUs (hkept.quiet _ _ hfinish.quiet hflushed)
          rw [hfinish.read, hread]
          exact hshows
  next => exact hkept.checkProcessFlags hshows flags nowUs hm

/-- A poll that goes on has read what it was shown. -/
theorem pollLogMonitor_read {nowUs : Nat} (hm : m.game.isSome)
    (hsome : (pollLogMonitor log fetched nowUs m).game.isSome) :
    fetched = some (pollLogMonitor log fetched nowUs m).read := by
  have hnot : ¬ m.game.isNone = true := by simpa [Option.isSome_iff_ne_none] using hm
  have hfinish : ∀ text w skip (base : Monitor), base.game.isSome → base.read = w →
      (pollLogMonitor.finish nowUs text w skip base).read = w := by
    intro text w skip base hbase hread
    obtain ⟨k, _, m', hgrows, _, ⟨heq, _⟩ | heq⟩ := finish_grows nowUs text w skip hbase
    · rw [heq, hgrows.read, hread]
    · rw [heq]
      exact hgrows.read.trans hread
  unfold pollLogMonitor at hsome ⊢
  rw [if_neg hnot] at hsome ⊢
  cases fetched with
  | none => simp [clearTrackedGame] at hsome
  | some w =>
    dsimp only
    congr 1
    repeat' split
    · rfl
    · rw [hfinish]
      · exact hm
      · rfl
    · rw [hfinish]
      · exact hm
      · rfl
    · rw [hfinish]
      · exact hm
      · rfl

/-- The rule for invariants: what polls and the changes between them keep is kept by every
operation. -/
theorem Op.run_keeps (hkept : Kept log allowed P) {op : Op} (hshows : Shows log m op)
    (hallowed : ∀ w ∈ op.snapshots, allowed w) (hm : P m) : P (op.run log m) := by
  obtain ⟨hchain, hwithin⟩ := hshows
  cases op with
  | exec pid titleId execTimeUs nowUs ready fetched =>
    have hclear := hkept.clear hm
    have hread : (clearTrackedGame m).read.within log := hkept.within m hm
    simp only [run, gameOnExec]
    generalize (if execTimeUs ≠ 0 then execTimeUs else nowUs) = launchTimeUs
    repeat' split
    all_goals first
      | exact hclear
      | exact hkept.stop _ rfl rfl rfl hread
      | skip
    next w _ =>
      exact hkept.start _ w nowUs rfl rfl rfl rfl hread (hwithin w (by simp [snapshots]))
        (hallowed w (by simp [snapshots]))
  | handoff oldPid newPid nowUs fetched =>
    simp only [run, gameHandoff]
    split
    next => exact hm
    next game hgame =>
      repeat' split
      · exact hm
      · exact hkept.clear hm
      · have hsome : m.game.isSome := by simp [hgame]
        apply hkept.pollAny _ nowUs (hkept.quiet _ _ (Quiet.of_game hsome _) hm)
        intro w hw
        cases hw
        exact ⟨List.rel_of_isChain_cons_cons hchain, hwithin w (by simp [snapshots]),
          hallowed w (by simp [snapshots])⟩
  | exit pid nowUs fetched =>
    simp only [run, gameOnExit]
    split
    next => exact hm
    next game hgame =>
      repeat' split
      · exact hm
      · apply hkept.drain _ nowUs hm
        intro w hw
        cases hw
        exact ⟨List.rel_of_isChain_cons_cons hchain, hwithin w (by simp [snapshots]),
          hallowed w (by simp [snapshots])⟩
      · exact hkept.clear hm
  | shutdown => exact hkept.clear hm
  | poll processActive nowUs fetched flags again =>
    have hfetched : ∀ w ∈ fetched, m.read.follows w ∧ w.within log ∧ allowed w := by
      intro w hw
      cases hw
      exact ⟨List.rel_of_isChain_cons_cons hchain, hwithin w (by simp [snapshots]),
        hallowed w (by simp [snapshots])⟩
    simp only [run, LogMonitor.poll]
    split
    next => exact hm
    next game hgame =>
      have hpoll := hkept.pollAny hfetched nowUs hm
      have hread : (pollLogMonitor log fetched nowUs m).game.isSome →
          fetched = some (pollLogMonitor log fetched nowUs m).read :=
        pollLogMonitor_read (by simp [hgame])
      generalize pollLogMonitor log fetched nowUs m = m' at hpoll hread ⊢
      split
      next => exact hkept.clear hm
      next =>
        split
        next => exact hm
        next =>
          split
          next => exact hpoll
          next game' hgame' =>
            have hsome' : m'.game.isSome := by simp [hgame']
            have hwaiting := hkept.quiet _ _ (Quiet.of_game hsome'
              { game' with nextPollUs := (nowUs + pollIntervalUs) % 2 ^ 64 }) hpoll
            split
            next =>
              apply hkept.checkProcess rfl _ flags nowUs hwaiting
              intro w hw
              cases hw
              have heq := hread hsome'
              subst heq
              simp only [snapshots, Option.toList_some, List.cons_append, List.nil_append,
                List.isChain_cons_cons] at hchain
              exact ⟨hchain.2.1, hwithin w (by simp [snapshots]),
                hallowed w (by simp [snapshots])⟩
            next => exact hwaiting

end Invariants

end ShadowMount.LogMonitor
