import ShadowMount.LogMonitor.Alignment

/-!
# What is heard of the kernel log

Two invariants of the monitor over whole runs: that what is heard goes forward in the log, for any
snapshots, and that nothing is left out and the lines are those of the text, for a log that only
grows.

Main results:

- Theorem {lit}`reads_kept`: the new characters of a poll lie behind everything heard before.
- Theorem {lit}`continues_kept`: in a log that only grows nothing is left out.
- Theorem {lit}`log_lines_processed`: no character is heard twice, and in a log that only grows the
  lines are those of the text.
-/

namespace ShadowMount.LogMonitor

open Foundation

variable {m' m : Monitor} {log : Text} {stop : Nat}

/-- The snapshot is the window that was read last, and what was heard lies before its end, in the
order of the log. -/
structure Reads (log : Text) (m : Monitor) : Prop where
  within : m.read.within log
  chars : ∀ position ch, .appended position ch ∈ m.calls → log[position]? = some ch
  snapshot : m.game.isSome → m.logSnapshot = m.read.text log
  ordered : (positions m.calls).Pairwise (· < ·)
  below : ∀ position ∈ positions m.calls, position < m.read.stop

theorem positions_marks {added : List Call} (h : ∀ call ∈ added,
    (∃ idle, call = .abandoned idle ∧ fatalReportGraceUs ≤ idle) ∨
      (call = .drained ∧ m'.game = none)) : positions added = [] ∧ heard added = [] := by
  simp only [positions, heard, List.filterMap_eq_nil_iff]
  constructor
  · intro call hmem
    rcases h call hmem with ⟨idle, rfl, _⟩ | ⟨rfl, _⟩ <;> rfl
  · intro call hmem
    rcases h call hmem with ⟨idle, rfl, _⟩ | ⟨rfl, _⟩ <;> rfl

theorem getElem?_of_mem_appends {start k position : Nat} {ch : Char}
    (h : .appended position ch ∈ appends start ((between log start stop).take k)) :
    log[position]? = some ch := by
  have hmem : ∀ text start, Call.appended position ch ∈ appends start text →
      ∃ i, position = start + i ∧ text[i]? = some ch := by
    intro text
    induction text with
    | nil => simp [appends]
    | cons c rest ih =>
      intro start hmem
      rw [appends, List.mem_cons] at hmem
      rcases hmem with heq | hmem
      · cases heq
        exact ⟨0, rfl, rfl⟩
      · obtain ⟨i, hi, hget⟩ := ih (start + 1) hmem
        exact ⟨i + 1, by omega, hget⟩
  obtain ⟨i, rfl, hget⟩ := hmem _ _ h
  unfold between at hget
  rw [List.getElem?_take] at hget
  split at hget
  next =>
    rw [List.getElem?_drop, List.getElem?_take] at hget
    split at hget
    next => exact hget
    next => cases hget
  next => cases hget

theorem Reads.quiet (hquiet : Quiet m m') (h : Reads log m) : Reads log m' := by
  obtain ⟨added, hgrows, hmarks⟩ := hquiet
  have hpositions : positions m'.calls = positions m.calls := by
    rw [hgrows.calls, positions_append, (positions_marks hmarks).1, List.append_nil]
  refine ⟨?_, fun position ch hmem => ?_, fun hsome => ?_, ?_, ?_⟩
  · rw [hgrows.read]
    exact h.within
  · rw [hgrows.calls, List.mem_append] at hmem
    rcases hmem with hmem | hmem
    · exact h.chars position ch hmem
    · rcases hmarks _ hmem with ⟨_, heq, _⟩ | ⟨heq, _⟩ <;> cases heq
  · have htracked := hgrows.tracked hsome
    rw [htracked.2, hgrows.read]
    exact h.snapshot htracked.1
  · rw [hpositions]
    exact h.ordered
  · rw [hpositions, hgrows.read]
    exact h.below

theorem ordered_append {calls : List Call} {position : Nat} (text : Text)
    (hordered : (positions calls).Pairwise (· < ·)) (hbelow : ∀ p ∈ positions calls, p < stop)
    (hstop : stop ≤ position) :
    (positions (calls ++ appends position text)).Pairwise (· < ·) ∧
      ∀ p ∈ positions (calls ++ appends position text),
        p < max stop (position + text.length) := by
  rw [positions_append, positions_appends]
  constructor
  · rw [List.pairwise_append]
    refine ⟨hordered, List.pairwise_lt_range', fun p hp q hq => ?_⟩
    have hp' := hbelow p hp
    have hq' := (List.mem_range'_1.mp hq).1
    omega
  · intro p hp
    rw [List.mem_append, List.mem_range'_1] at hp
    rcases hp with hp | hp
    · have hp' := hbelow p hp
      omega
    · omega

theorem Reads.poll {w : Window} (hsome : m.game.isSome) (hfollows : m.read.follows w)
    (hw : w.within log) (nowUs : Nat) (h : Reads log m) :
    Reads log (pollLogMonitor log (some w) nowUs m) := by
  rcases pollLogMonitor_cases hsome (h.snapshot hsome) h.within hw hfollows nowUs with
    ⟨heq, htext⟩ | ⟨skip, base, heq, hskip, hbehind, hgame, hcalls, hread, _, _⟩
  · rw [heq]
    exact ⟨hw, h.chars, fun _ => htext, h.ordered,
      fun position hmem => Nat.lt_of_lt_of_le (h.below position hmem) hfollows.2⟩
  · obtain ⟨k, hk, m', hgrows, hall, hresult⟩ :=
      finish_grows nowUs (w.text log) w skip (hgame ▸ hsome : base.game.isSome)
    have hlength := Window.length_text hw
    have hwithin := hw.1
    have hlast := hfollows.2
    have hheard := ordered_append (((w.text log).drop skip).take k) h.ordered h.below hbehind
    rw [← hcalls, ← hgrows.calls] at hheard
    have hbelow : ∀ position ∈ positions m'.calls, position < w.stop := by
      intro position hmem
      have hlt := hheard.2 position hmem
      rw [List.length_take, List.length_drop] at hlt
      omega
    have hchars : ∀ position ch, Call.appended position ch ∈ m'.calls →
        log[position]? = some ch := by
      intro position ch hmem
      rw [hgrows.calls, hcalls, List.mem_append] at hmem
      rcases hmem with hmem | hmem
      · exact h.chars position ch hmem
      · unfold Window.text at hmem
        rw [drop_between] at hmem
        exact getElem?_of_mem_appends hmem
    have hread' : m'.read = w := hgrows.read.trans hread
    rcases hresult with ⟨hresult, hnone⟩ | hresult
    · rw [heq, hresult]
      refine ⟨?_, hchars, fun htracked => ?_, hheard.1, ?_⟩
      · rw [hread']
        exact hw
      · rw [hnone] at htracked
        cases htracked
      · rw [hread']
        exact hbelow
    · rw [heq, hresult]
      refine ⟨?_, hchars, fun _ => ?_, hheard.1, ?_⟩
      · show m'.read.within log
        rw [hread']
        exact hw
      · show w.text log = m'.read.text log
        rw [hread']
      · show ∀ position ∈ positions m'.calls, position < m'.read.stop
        rw [hread']
        exact hbelow

theorem startLogMonitoring_spec (log : Text) (w : Window) (nowUs : Nat) (hsome : m.game.isSome)
    (hcalls : m.calls = []) (hprocessed : m.processed = []) (hline : m.logLine = []) :
    let m' := startLogMonitoring log w nowUs m
    let tail := lastLine (w.text log)
    m'.read = w ∧ m'.baseline = w.stop ∧
      m'.calls = appends (w.start + ((w.text log).length - tail.length)) tail ∧
      (m'.game.isSome → m'.logSnapshot = w.text log) ∧ InLine m' := by
  -- no line ends in that part, so the game stays tracked on the way
  have hfold : ∀ (text : Text) position (m : Monitor), m.game.isSome →
      (∀ ch ∈ text, isLineEnd ch = false) →
      Grows (appends position text) m ((text.zipIdx position).foldl
        (fun m at' => appendLogChar at'.2 at'.1 nowUs m) m) := by
    intro text
    induction text with
    | nil => exact fun _ m _ _ => Grows.refl m
    | cons ch rest ih =>
      intro position m hm hno
      have hgrows := appendLogChar_grows position ch nowUs hm
      have hstill : (appendLogChar position ch nowUs m).game = m.game := by
        unfold appendLogChar
        rw [if_neg (by simpa [Option.isSome_iff_ne_none] using hm)]
        dsimp only
        rw [if_neg (by simp [hno ch (List.mem_cons_self ..)])]
        split <;> rfl
      exact hgrows.trans (ih (position + 1) _ (by rw [hstill]; exact hm)
        fun c hc => hno c (List.mem_cons_of_mem _ hc))
  intro m' tail
  have htail : ∀ ch ∈ tail, isLineEnd ch = false := by
    intro ch hch
    simpa using List.mem_rtakeWhile_imp hch
  have hgrows := (hfold tail (w.start + ((w.text log).length - tail.length))
    { m with logSnapshot := w.text log, read := w, baseline := w.stop } hsome htail).trans
      (noteProgress_grows nowUs _)
  rw [List.append_nil] at hgrows
  refine ⟨hgrows.read, hgrows.baseline, ?_, fun h => (hgrows.tracked h).2, hgrows.inLine ?_⟩
  · have hall := hgrows.calls
    change m'.calls = m.calls ++ _ at hall
    rw [hall, hcalls, List.nil_append]
  · constructor
    · dsimp only
      rw [hprocessed, hcalls]
      rfl
    · intro _ pieces last hsplit
      dsimp only at hsplit ⊢
      rw [hcalls, List.splitOnP_nil] at hsplit
      change [] ++ [[]] = pieces ++ [last] at hsplit
      have hlast := List.append_inj_right' hsplit rfl
      simp only [List.cons.injEq, and_true] at hlast
      rw [hline, ← hlast]
      rfl

theorem lastLine_length_le (text : Text) : (lastLine text).length ≤ text.length :=
  (List.rtakeWhile_suffix _ _).length_le

theorem Reads.start {log : Text} {m : Monitor} {w : Window} (hsome : m.game.isSome)
    (hcalls : m.calls = []) (hprocessed : m.processed = []) (hline : m.logLine = [])
    (hw : w.within log) (nowUs : Nat) : Reads log (startLogMonitoring log w nowUs m) := by
  obtain ⟨hread, _, hheard, hsnapshot, _⟩ :=
    startLogMonitoring_spec log w nowUs hsome hcalls hprocessed hline
  have hlength := Window.length_text hw
  have htail := lastLine_length_le (w.text log)
  have hwithin := hw.1
  refine ⟨?_, fun position ch hmem => ?_, ?_, ?_, ?_⟩
  · rw [hread]
    exact hw
  · rw [hheard] at hmem
    have htext : lastLine (w.text log) = between log
        (w.start + ((w.text log).length - (lastLine (w.text log)).length)) w.stop := by
      rw [← drop_between]
      exact List.suffix_iff_eq_drop.mp (List.rtakeWhile_suffix _ _)
    generalize w.start + ((w.text log).length - (lastLine (w.text log)).length) = first at *
    rw [htext] at hmem
    apply getElem?_of_mem_appends (k := (between log first w.stop).length)
    rw [List.take_length]
    exact hmem
  · rw [hread]
    exact hsnapshot
  · rw [hheard, positions_appends]
    exact List.pairwise_lt_range'
  · intro position hmem
    rw [hheard, positions_appends, List.mem_range'_1] at hmem
    rw [hread]
    omega

theorem reads_kept (log : Text) (allowed : Window → Prop) : Kept log allowed (Reads log) where
  quiet := fun _ _ hquiet h => h.quiet hquiet
  poll := fun _ _ nowUs hsome hfollows hw _ h => h.poll hsome hfollows hw nowUs
  start := fun _ _ nowUs hsome hcalls hprocessed hline _ hw _ =>
    Reads.start hsome hcalls hprocessed hline hw nowUs
  stop := fun m hnone hcalls _ hwithin => by
    refine ⟨hwithin, fun _ _ hmem => ?_, fun hsome => ?_, ?_, ?_⟩
    · rw [hcalls] at hmem
      cases hmem
    · rw [hnone] at hsome
      cases hsome
    · rw [hcalls]
      exact List.Pairwise.nil
    · rw [hcalls]
      intro position hmem
      cases hmem
  within := fun _ h => h.within

/-- While all snapshots start at one position, the monitor has heard the log from the line in which
the baseline ended on. -/
structure Continues (log : Text) (origin : Nat) (m : Monitor) : Prop where
  reads : Reads log m
  inLine : InLine m
  tracked : m.game.isSome → m.read.start = origin ∧ m.baseline ≤ m.read.stop
  heard : ∃ stop ≤ m.read.stop, (m.game.isSome → stop = m.read.stop) ∧
    heard m.calls = between log (lineStart log origin m.baseline) stop
  grace : ∀ idle, .abandoned idle ∈ m.calls → fatalReportGraceUs ≤ idle
  drained : m.game.isSome → .drained ∉ m.calls

theorem lineStart_le (log : Text) (origin position : Nat) :
    lineStart log origin position ≤ position :=
  Nat.sub_le _ _

theorem take_between (log : Text) {start k : Nat} (h : start + k ≤ stop) :
    (between log start stop).take k = between log start (start + k) := by
  unfold between
  rw [List.take_drop, List.take_take, Nat.min_eq_left h]

theorem not_mem_appends {call : Call} (h : call.char? = none) (position : Nat) (text : Text) :
    call ∉ appends position text := by
  induction text generalizing position with
  | nil => simp [appends]
  | cons ch rest ih =>
    rw [appends, List.mem_cons]
    rintro (rfl | hmem)
    · cases h
    · exact ih (position + 1) hmem

theorem Continues.quiet {origin : Nat} (hquiet : Quiet m m') (h : Continues log origin m) :
    Continues log origin m' := by
  have hreads := h.reads.quiet hquiet
  obtain ⟨added, hgrows, hmarks⟩ := hquiet
  have hheard : LogMonitor.heard m'.calls = LogMonitor.heard m.calls := by
    rw [hgrows.calls, heard_append, (positions_marks hmarks).2, List.append_nil]
  refine ⟨hreads, hgrows.inLine h.inLine, fun hsome => ?_, ?_, ?_, ?_⟩
  · rw [hgrows.read, hgrows.baseline]
    exact h.tracked (hgrows.tracked hsome).1
  · obtain ⟨stop, hle, hstop, heq⟩ := h.heard
    rw [hgrows.read, hgrows.baseline, hheard]
    exact ⟨stop, hle, fun hsome => hstop (hgrows.tracked hsome).1, heq⟩
  · intro idle hmem
    rw [hgrows.calls, List.mem_append] at hmem
    rcases hmem with hmem | hmem
    · exact h.grace idle hmem
    · rcases hmarks _ hmem with ⟨idle', heq, hidle⟩ | ⟨heq, _⟩
      · cases heq
        exact hidle
      · cases heq
  · intro hsome hmem
    rw [hgrows.calls, List.mem_append] at hmem
    rcases hmem with hmem | hmem
    · exact h.drained (hgrows.tracked hsome).1 hmem
    · rcases hmarks _ hmem with ⟨idle', heq, _⟩ | ⟨_, hnone⟩
      · cases heq
      · rw [hnone] at hsome
        cases hsome

/-- A poll continues the text where the last one ended. -/
theorem Continues.poll {origin : Nat} {w : Window} (hsome : m.game.isSome)
    (hfollows : m.read.follows w) (hw : w.within log) (horigin : w.start = origin) (nowUs : Nat)
    (h : Continues log origin m) : Continues log origin (pollLogMonitor log (some w) nowUs m) := by
  have hreads := h.reads.poll hsome hfollows hw nowUs
  obtain ⟨hstart, hbaseline⟩ := h.tracked hsome
  obtain ⟨stop, _, hstop, hheard⟩ := h.heard
  obtain rfl := hstop hsome
  have hfirst := lineStart_le log origin m.baseline
  have hwithin := h.reads.within.1
  have hlast := hfollows.2
  rcases pollLogMonitor_cases hsome (h.reads.snapshot hsome) h.reads.within hw hfollows nowUs with
    ⟨heq, htext⟩ | ⟨skip, base, heq, _, _, _, _, _, _, hsame⟩
  · -- nothing new: the two snapshots are the same part of the log
    have hlength := congrArg List.length htext
    rw [h.reads.snapshot hsome, Window.length_text h.reads.within, Window.length_text hw]
      at hlength
    have hwstart := hw.1
    have hstops : w.stop = m.read.stop := by omega
    rw [heq] at hreads ⊢
    refine ⟨hreads, ⟨h.inLine.processed, h.inLine.logLine⟩, fun _ => ⟨horigin, ?_⟩,
      ⟨w.stop, Nat.le_refl _, fun _ => rfl, ?_⟩, h.grace, h.drained⟩
    · show m.baseline ≤ w.stop
      omega
    · rw [hstops]
      exact hheard
  · obtain ⟨hskip, rfl⟩ := hsame (by omega)
    obtain ⟨k, hk, m', hgrows, hall, hresult⟩ :=
      finish_grows nowUs (w.text log) w skip (hsome : { m with read := w }.game.isSome)
    have hposition : w.start + skip = m.read.stop := by omega
    have hnew : (w.text log).drop skip = between log m.read.stop w.stop := by
      unfold Window.text
      rw [drop_between, hposition]
    rw [hnew, length_between hw.2] at hk hall
    rw [hposition, hnew, take_between log (by omega)] at hgrows
    have hheard' : LogMonitor.heard m'.calls =
        between log (lineStart log origin m.baseline) (m.read.stop + k) := by
      rw [hgrows.calls, heard_append, heard_appends]
      dsimp only
      rw [hheard, between_append log (by omega) (Nat.le_add_right _ _)]
    have hgrace : ∀ idle, Call.abandoned idle ∈ m'.calls → fatalReportGraceUs ≤ idle := by
      intro idle hmem
      rw [hgrows.calls, List.mem_append] at hmem
      rcases hmem with hmem | hmem
      · exact h.grace idle hmem
      · exact absurd hmem (not_mem_appends rfl _ _)
    have hdrained : Call.drained ∉ m'.calls := by
      rw [hgrows.calls, List.mem_append]
      rintro (hmem | hmem)
      · exact h.drained hsome hmem
      · exact not_mem_appends rfl _ _ hmem
    have hline := hgrows.inLine ⟨h.inLine.processed, h.inLine.logLine⟩
    rcases hresult with ⟨hresult, hnone⟩ | hresult
    · rw [heq, hresult] at hreads ⊢
      refine ⟨hreads, hline, fun htracked => ?_, ⟨m.read.stop + k, ?_, fun htracked => ?_, ?_⟩,
        hgrace, fun _ => hdrained⟩
      · rw [hnone] at htracked
        cases htracked
      · rw [hgrows.read]
        show m.read.stop + k ≤ w.stop
        omega
      · rw [hnone] at htracked
        cases htracked
      · rw [hgrows.baseline]
        exact hheard'
    · rw [heq, hresult] at hreads ⊢
      refine ⟨hreads, ⟨hline.processed, hline.logLine⟩, fun _ => ?_,
        ⟨m.read.stop + k, ?_, fun htracked => ?_, ?_⟩, hgrace, fun _ => hdrained⟩
      · show m'.read.start = origin ∧ m'.baseline ≤ m'.read.stop
        rw [hgrows.read, hgrows.baseline]
        exact ⟨horigin, hbaseline.trans hlast⟩
      · show m.read.stop + k ≤ m'.read.stop
        rw [hgrows.read]
        show m.read.stop + k ≤ w.stop
        omega
      · show m.read.stop + k = m'.read.stop
        rw [hgrows.read, hall htracked]
        show m.read.stop + (w.stop - m.read.stop) = w.stop
        omega
      · show LogMonitor.heard m'.calls = between log (lineStart log origin m'.baseline) _
        rw [hgrows.baseline]
        exact hheard'

theorem Continues.start {log : Text} {origin : Nat} {m : Monitor} {w : Window}
    (hsome : m.game.isSome) (hcalls : m.calls = []) (hprocessed : m.processed = [])
    (hline : m.logLine = []) (hw : w.within log) (horigin : w.start = origin) (nowUs : Nat) :
    Continues log origin (startLogMonitoring log w nowUs m) := by
  have hreads := Reads.start hsome hcalls hprocessed hline hw nowUs
  obtain ⟨hread, hbaseline, hheard, _, hinLine⟩ :=
    startLogMonitoring_spec log w nowUs hsome hcalls hprocessed hline
  have hlength := Window.length_text hw
  have htail := lastLine_length_le (w.text log)
  have hwithin := hw.1
  refine ⟨hreads, hinLine, fun _ => ?_, ⟨w.stop, ?_, fun _ => ?_, ?_⟩, fun idle hmem => ?_,
    fun _ hmem => ?_⟩
  · rw [hread, hbaseline]
    exact ⟨horigin, Nat.le_refl _⟩
  · rw [hread]
  · rw [hread]
  · have hfirst : lineStart log origin w.stop =
        w.start + ((w.text log).length - (lastLine (w.text log)).length) := by
      subst horigin
      show w.stop - (lastLine (w.text log)).length = _
      omega
    rw [hheard, heard_appends, hbaseline, hfirst, ← drop_between]
    exact List.suffix_iff_eq_drop.mp (List.rtakeWhile_suffix _ _)
  · rw [hheard] at hmem
    exact absurd hmem (not_mem_appends rfl _ _)
  · rw [hheard] at hmem
    exact not_mem_appends rfl _ _ hmem

theorem continues_kept (log : Text) (origin : Nat) :
    Kept log (fun w => w.start = origin) (Continues log origin) where
  quiet := fun _ _ hquiet h => h.quiet hquiet
  poll := fun _ _ nowUs hsome hfollows hw horigin h => h.poll hsome hfollows hw horigin nowUs
  start := fun _ _ nowUs hsome hcalls hprocessed hline _ hw horigin =>
    Continues.start hsome hcalls hprocessed hline hw horigin nowUs
  stop := fun m hnone hcalls hprocessed hwithin => by
    have hgone : m.game.isSome → False := by
      rw [hnone]
      intro h
      cases h
    refine ⟨(reads_kept log fun _ => True).stop m hnone hcalls hprocessed hwithin,
      ⟨?_, fun h => (hgone h).elim⟩, fun h => (hgone h).elim,
      ⟨0, Nat.zero_le _, fun h => (hgone h).elim, ?_⟩, fun idle hmem => ?_,
      fun h => (hgone h).elim⟩
    · rw [hprocessed, hcalls]
      rfl
    · rw [hcalls]
      simp [LogMonitor.heard, between]
    · rw [hcalls] at hmem
      cases hmem
  within := fun _ h => h.reads.within

/-- No character of the log is heard twice while a game is tracked.  In a log that only grows, what
is heard is the text from the start of the line in which the baseline ended, and the lines processed
are the ones it is cut into at the line ends and where the poll gave up waiting for the rest of a
fatal report.  The snapshot that counts as read is the one the poll was given. -/
theorem log_lines_processed (log : Text) :
    (∀ m, Reachable (monitoring log) m → (positions m.calls).Pairwise (· < ·) ∧
      ∀ position ch, .appended position ch ∈ m.calls → log[position]? = some ch) ∧
    (∀ origin m, Reachable ((monitoring log).restrict (StartsAt origin)) m →
      (∃ stop ≤ m.read.stop, (m.game.isSome → stop = m.read.stop) ∧
        heard m.calls = between log (lineStart log origin m.baseline) stop) ∧
      m.processed = callLines m.calls ∧
      (∀ idle, .abandoned idle ∈ m.calls → fatalReportGraceUs ≤ idle) ∧
      (m.game.isSome → .drained ∉ m.calls) ∧
      ((∀ call ∈ m.calls, call.char?.isSome) → m.processed = textLines (heard m.calls))) ∧
    ∀ m fetched nowUs, m.game.isSome → (pollLogMonitor log fetched nowUs m).game.isSome →
      fetched = some (pollLogMonitor log fetched nowUs m).read := by
  refine ⟨?_, ?_, fun _ _ _ => pollLogMonitor_read⟩
  · intro m hm
    have hreads : Reads log m := by
      apply hm.invariant
      · rintro _ rfl
        exact (reads_kept log fun _ => True).stop _ rfl rfl rfl ⟨Nat.le_refl _, Nat.zero_le _⟩
      · rintro s op _ hs ⟨rfl, hshows⟩
        exact Op.run_keeps (reads_kept log fun _ => True) hshows (fun _ _ => trivial) hs
    exact ⟨hreads.ordered, hreads.chars⟩
  · intro origin m hm
    have hcontinues : Continues log origin m := by
      apply hm.invariant
      · rintro _ rfl
        exact (continues_kept log origin).stop _ rfl rfl rfl ⟨Nat.le_refl _, Nat.zero_le _⟩
      · rintro s op _ hs ⟨⟨rfl, hshows⟩, hstarts⟩
        exact Op.run_keeps (continues_kept log origin) hshows hstarts hs
    refine ⟨hcontinues.heard, hcontinues.inLine.processed, hcontinues.grace, hcontinues.drained,
      fun hchars => ?_⟩
    rw [hcontinues.inLine.processed, callLines_eq_textLines hchars]

/-- The states of a run whose snapshots all start at one position. -/
theorem reachable_startsAt {origin : Nat} {steps : List Op}
    (h : Admits (fun m op => Shows log m op ∧ StartsAt origin m op) (fun m op => op.run log m)
      Monitor.zero steps) :
    Reachable ((monitoring log).restrict (StartsAt origin))
      (steps.foldl (fun m op => op.run log m) Monitor.zero) := by
  apply Reachable.of_admits _ (Reachable.start rfl) h
  exact fun m op hguard => ⟨⟨rfl, hguard.1⟩, hguard.2⟩

/-- Two polls, the first of which ends within the second line. -/
theorem log_lines_processed_two_polls :
    let log : Text := "one\ntwo\n".toList
    let steps : List Op :=
      [.exec 7 "PPSA00001".toList 0 1000000 true (some ⟨0, 0⟩),
        .poll true 2000000 (some ⟨0, 6⟩) (.ok 0) none,
        .poll true 3000000 (some ⟨0, 8⟩) (.ok 0) none]
    let last := steps.foldl (fun m op => op.run log m) Monitor.zero
    last.game.isSome ∧ heard last.calls = log ∧ last.processed = textLines (heard last.calls) := by
  intro log steps last
  have hreach : Reachable ((monitoring log).restrict (StartsAt 0)) last :=
    reachable_startsAt (by decide +kernel)
  exact ⟨by decide +kernel, by decide +kernel,
    ((log_lines_processed log).2.1 0 last hreach).2.2.2.2 (by decide +kernel)⟩

/-- The poll that waits two seconds for the rest of a line takes the two parts for two lines, though
every snapshot starts at the same position. -/
theorem waited_line_is_split :
    ¬ ∀ (log : Text) (origin : Nat) (m : Monitor),
      Reachable ((monitoring log).restrict (StartsAt origin)) m → m.game.isSome →
      m.processed = textLines (between log (lineStart log origin m.baseline) m.read.stop) := by
  intro h
  let log : Text := "# signal: 11\n".toList
  let steps : List Op :=
    [.exec 7 "PPSA00001".toList 0 1000000 true (some ⟨0, 0⟩),
      .poll true 2000000 (some ⟨0, 5⟩) (.ok 0) none,
      .poll true 4000000 (some ⟨0, 5⟩) (.ok 0) none,
      .poll true 5000000 (some ⟨0, 13⟩) (.ok 0) none]
  let last := steps.foldl (fun m op => op.run log m) Monitor.zero
  have hreach : Reachable ((monitoring log).restrict (StartsAt 0)) last :=
    reachable_startsAt (by decide +kernel)
  have hlines := h log 0 last hreach (by decide +kernel)
  revert hlines
  decide +kernel

end ShadowMount.LogMonitor
