import ShadowMount.LogMonitor.Model

/-!
# Lines of the kernel log

How the characters that are heard become lines: the line buffer holds the line that has not ended
yet, and what was processed are the lines before it.
-/

namespace ShadowMount.LogMonitor

open Foundation

variable {m m' : Monitor}

/-- The position a call is about. -/
def Call.position? : Call → Option Nat
  | .appended position _ => some position
  | _ => none

/-- The character a call is about. -/
def Call.char? : Call → Option Char
  | .appended _ ch => some ch
  | _ => none

/-- The positions of the characters that were heard. -/
def positions (calls : List Call) : List Nat := calls.filterMap Call.position?

/-- The characters that were heard. -/
def heard (calls : List Call) : Text := calls.filterMap Call.char?

/-- Does a call end the line? -/
def Call.endsLine : Call → Bool
  | .appended _ ch => isLineEnd ch
  | _ => true

/-- What the line buffer holds of the characters of a line. -/
def cut (line : Text) : Text := line.take (logLineBufferSize - 1)

/-- The lines of a text that has ended them, without the empty ones. -/
def textLines (text : Text) : List Text :=
  ((text.splitOnP isLineEnd).dropLast.map cut).filter (· ≠ [])

/-- The same for the calls. -/
def callLines (calls : List Call) : List Text :=
  ((calls.splitOnP Call.endsLine).dropLast.map fun line => cut (heard line)).filter (· ≠ [])

/-- The start of the line that a position is in, as far as a snapshot from `origin` on shows
it. -/
def lineStart (log : Text) (origin position : Nat) : Nat :=
  position - (lastLine (between log origin position)).length

/-- Appending the characters of a text that starts at a position. -/
def appends : Nat → Text → List Call
  | _, [] => []
  | position, ch :: rest => .appended position ch :: appends (position + 1) rest

@[simp]
theorem heard_append (a b : List Call) : heard (a ++ b) = heard a ++ heard b :=
  List.filterMap_append

@[simp]
theorem positions_append (a b : List Call) : positions (a ++ b) = positions a ++ positions b :=
  List.filterMap_append

@[simp]
theorem heard_appends (position : Nat) (text : Text) : heard (appends position text) = text := by
  induction text generalizing position with
  | nil => rfl
  | cons ch rest ih =>
    have hrest : heard (appends (position + 1) rest) = rest := ih (position + 1)
    simp [heard, appends, Call.char?] at hrest ⊢
    exact hrest

theorem positions_appends (position : Nat) (text : Text) :
    positions (appends position text) = List.range' position text.length := by
  induction text generalizing position with
  | nil => rfl
  | cons ch rest ih =>
    have hrest := ih (position + 1)
    simp only [positions] at hrest
    simp [positions, appends, Call.position?, hrest, List.range'_succ]

/-- When nothing but characters was heard, the lines are those of the text. -/
theorem callLines_eq_textLines {calls : List Call} (h : ∀ call ∈ calls, call.char?.isSome) :
    callLines calls = textLines (heard calls) := by
  have hsplit : (calls.splitOnP Call.endsLine).map heard = (heard calls).splitOnP isLineEnd := by
    induction calls with
    | nil => rfl
    | cons call calls ih =>
      have hrest := ih fun call hmem => h call (List.mem_cons_of_mem _ hmem)
      cases call with
      | appended position ch =>
        have hheard : heard (.appended position ch :: calls) = ch :: heard calls := rfl
        rw [hheard, List.splitOnP_cons_eq_if_modifyHead, List.splitOnP_cons_eq_if_modifyHead,
          ← hrest]
        cases hch : isLineEnd ch with
        | true => simp [Call.endsLine, hch, heard]
        | false =>
          cases hpieces : calls.splitOnP Call.endsLine with
          | nil => exact absurd hpieces (List.splitOnP_ne_nil _ _)
          | cons piece pieces => simp [Call.endsLine, hch, heard, Call.char?]
      | abandoned idle => exact absurd (h _ (List.mem_cons_self ..)) (by simp [Call.char?])
      | drained => exact absurd (h _ (List.mem_cons_self ..)) (by simp [Call.char?])
  unfold callLines textLines
  rw [← hsplit, ← List.map_dropLast, List.map_map]
  rfl

/-- The lines processed and the line buffer are those of the calls. -/
structure InLine (m : Monitor) : Prop where
  processed : m.processed = callLines m.calls
  logLine : m.game.isSome → ∀ pieces last, m.calls.splitOnP Call.endsLine = pieces ++ [last] →
    m.logLine = cut (heard last)

/-- The calls split into whole lines and a rest. -/
theorem exists_pieces (calls : List Call) :
    ∃ pieces last, calls.splitOnP Call.endsLine = pieces ++ [last] :=
  ⟨_, _, (List.dropLast_append_getLast (List.splitOnP_ne_nil _ calls)).symm⟩

/-- The lines of the calls, from their pieces. -/
theorem callLines_of_pieces {calls : List Call} {pieces : List (List Call)} {last : List Call}
    (h : calls.splitOnP Call.endsLine = pieces ++ [last]) :
    callLines calls = (pieces.map fun line => cut (heard line)).filter (· ≠ []) := by
  unfold callLines
  rw [h, List.dropLast_concat]

/-- A change of the monitor that adds some calls: the snapshot stays as it is as long as the game
is tracked. -/
structure Grows (added : List Call) (m m' : Monitor) : Prop where
  read : m'.read = m.read
  baseline : m'.baseline = m.baseline
  calls : m'.calls = m.calls ++ added
  tracked : m'.game.isSome → m.game.isSome ∧ m'.logSnapshot = m.logSnapshot
  inLine : InLine m → InLine m'

theorem Grows.refl (m : Monitor) : Grows [] m m :=
  ⟨rfl, rfl, by simp, fun h => ⟨h, rfl⟩, id⟩

theorem Grows.trans {a b : List Call} {m'' : Monitor} (h : Grows a m m') (h' : Grows b m' m'') :
    Grows (a ++ b) m m'' where
  read := h'.read.trans h.read
  baseline := h'.baseline.trans h.baseline
  calls := by rw [h'.calls, h.calls, List.append_assoc]
  tracked := by
    intro hsome
    have hmid := h'.tracked hsome
    have hfirst := h.tracked hmid.1
    exact ⟨hfirst.1, hmid.2.trans hfirst.2⟩
  inLine := fun hline => h'.inLine (h.inLine hline)

/-! ## Failure reports

None of the functions that look at a line touches what was read. -/

/-- Nothing but the report changes, or the game is no longer tracked. -/
structure Reports (m m' : Monitor) : Prop where
  read : m'.read = m.read
  baseline : m'.baseline = m.baseline
  calls : m'.calls = m.calls
  processed : m'.processed = m.processed
  tracked : m'.game.isSome → m'.game = m.game ∧ m'.logSnapshot = m.logSnapshot ∧
    m'.logLine = m.logLine

theorem Reports.refl (m : Monitor) : Reports m m :=
  ⟨rfl, rfl, rfl, rfl, fun _ => ⟨rfl, rfl, rfl⟩⟩

theorem Reports.trans {m'' : Monitor} (h : Reports m m') (h' : Reports m' m'') : Reports m m'' where
  read := h'.read.trans h.read
  baseline := h'.baseline.trans h.baseline
  calls := h'.calls.trans h.calls
  processed := h'.processed.trans h.processed
  tracked := by
    intro hsome
    have hlast := h'.tracked hsome
    rw [hlast.1] at hsome
    have hfirst := h.tracked hsome
    exact ⟨hlast.1.trans hfirst.1, hlast.2.1.trans hfirst.2.1, hlast.2.2.trans hfirst.2.2⟩

theorem Reports.fatal (m : Monitor) (fatal : Fatal) : Reports m { m with fatal := fatal } :=
  ⟨rfl, rfl, rfl, rfl, fun _ => ⟨rfl, rfl, rfl⟩⟩

theorem clearTrackedGame_reports (m : Monitor) : Reports m (clearTrackedGame m) :=
  ⟨rfl, rfl, rfl, rfl, fun h => by simp [clearTrackedGame] at h⟩

theorem handleGameFailure_reports (reason : Text) (nowUs : Nat) (kind : FailureKind)
    (m : Monitor) : Reports m (handleGameFailure reason nowUs kind m) := by
  unfold handleGameFailure
  split
  next => exact Reports.refl m
  next game _ =>
    split
    next => exact clearTrackedGame_reports m
    next => exact ⟨rfl, rfl, rfl, rfl, fun h => by simp [clearTrackedGame] at h⟩

theorem finishFatalError_reports (nowUs : Nat) (m : Monitor) :
    Reports m (finishFatalError nowUs m) := by
  unfold finishFatalError
  split
  next => exact Reports.refl m
  next =>
    split
    next => exact Reports.fatal m _
    next =>
      split
      next => exact Reports.fatal m _
      next => exact (Reports.fatal m _).trans (handleGameFailure_reports ..)

theorem startFatalError_reports (part : FatalSection) (detail : Text) (nowUs : Nat)
    (m : Monitor) : Reports m (startFatalError part detail nowUs m) := by
  have hfinish : Reports m
      (if m.fatal.part ≠ .none ∧ 0 < m.fatal.pid then finishFatalError nowUs m else m) := by
    split
    next => exact finishFatalError_reports nowUs m
    next => exact Reports.refl m
  unfold startFatalError
  generalize (if m.fatal.part ≠ .none ∧ 0 < m.fatal.pid then finishFatalError nowUs m else m) = m'
    at hfinish ⊢
  dsimp only
  split
  next => exact hfinish
  next => exact hfinish.trans (Reports.fatal _ _)

theorem processFatalLine_reports (line : Text) (nowUs : Nat) (m : Monitor) :
    Reports m (processFatalLine line nowUs m) := by
  have hprogress := Reports.fatal m { m.fatal with progressUs := nowUs }
  unfold processFatalLine
  dsimp only
  repeat' split
  all_goals first
    | exact Reports.refl m
    | exact hprogress
    | exact hprogress.trans (finishFatalError_reports ..)
    | exact hprogress.trans (Reports.fatal _ _)
    | exact (hprogress.trans (Reports.fatal _ _)).trans (finishFatalError_reports ..)

/-- A processed line is noted once, whatever it starts. -/
theorem processLogLine_reports (line : Text) (nowUs : Nat) (m : Monitor) :
    Reports { m with processed := m.processed ++ [line] } (processLogLine line nowUs m) := by
  unfold processLogLine
  dsimp only
  repeat' split
  all_goals first
    | exact Reports.refl _
    | exact handleGameFailure_reports ..
    | exact startFatalError_reports ..
    | exact processFatalLine_reports ..

theorem Reports.grows (h : Reports m m') : Grows [] m m' where
  read := h.read
  baseline := h.baseline
  calls := by simp [h.calls]
  tracked := by
    intro hsome
    have htracked := h.tracked hsome
    rw [htracked.1] at hsome
    exact ⟨hsome, htracked.2.1⟩
  inLine := by
    intro hline
    constructor
    · rw [h.processed, h.calls]
      exact hline.processed
    · intro hsome pieces last hsplit
      have htracked := h.tracked hsome
      rw [htracked.1] at hsome
      rw [h.calls] at hsplit
      rw [htracked.2.2]
      exact hline.logLine hsome pieces last hsplit

/-- Ending the line hands what the buffer holds over. -/
theorem flushLogLine_grows {call : Call} (hends : call.endsLine = true) (nowUs : Nat)
    (hsome : m.game.isSome) :
    Grows [call] m (flushLogLine nowUs { m with calls := m.calls ++ [call] }) := by
  have hpieces : InLine m → ∃ pieces last, m.calls.splitOnP Call.endsLine = pieces ++ [last] ∧
      m.logLine = cut (heard last) ∧
      (m.calls ++ [call]).splitOnP Call.endsLine = pieces ++ [last] ++ [[]] := by
    intro hline
    obtain ⟨pieces, last, hsplit⟩ := exists_pieces m.calls
    exact ⟨pieces, last, hsplit, hline.logLine hsome pieces last hsplit, by
      rw [splitOnP_concat hsplit call, if_pos hends]⟩
  unfold flushLogLine
  split
  next hempty =>
    refine ⟨rfl, rfl, rfl, fun h => ⟨h, rfl⟩, fun hline => ?_⟩
    obtain ⟨pieces, last, hsplit, hlast, hsplit'⟩ := hpieces hline
    constructor
    · dsimp only at hempty ⊢
      rw [callLines_of_pieces hsplit', hline.processed, callLines_of_pieces hsplit,
        List.map_append, List.filter_append, List.map_singleton, ← hlast, hempty]
      simp
    · intro _ pieces' last' hsplit''
      dsimp only at hsplit'' hempty ⊢
      rw [hsplit'] at hsplit''
      have hlast' := List.append_inj_right' hsplit'' rfl
      simp only [List.cons.injEq, and_true] at hlast'
      rw [hempty, ← hlast']
      rfl
  next hfull =>
    have hreports := processLogLine_reports m.logLine nowUs { m with calls := m.calls ++ [call] }
    refine ⟨hreports.read, hreports.baseline, hreports.calls, fun h => ?_, fun hline => ?_⟩
    · have htracked := hreports.tracked h
      exact ⟨hsome, htracked.2.1⟩
    · obtain ⟨pieces, last, hsplit, hlast, hsplit'⟩ := hpieces hline
      constructor
      · show (processLogLine _ _ _).processed = callLines (processLogLine _ _ _).calls
        dsimp only at hfull
        rw [hreports.processed, hreports.calls]
        dsimp only
        rw [callLines_of_pieces hsplit', hline.processed, callLines_of_pieces hsplit,
          List.map_append, List.filter_append, List.map_singleton, ← hlast]
        simp [hfull]
      · intro _ pieces' last' hsplit''
        have hcalls : (processLogLine m.logLine nowUs
            { m with calls := m.calls ++ [call] }).calls = m.calls ++ [call] := hreports.calls
        dsimp only at hsplit'' ⊢
        rw [hcalls, hsplit'] at hsplit''
        have hlast' := List.append_inj_right' hsplit'' rfl
        simp only [List.cons.injEq, and_true] at hlast'
        rw [← hlast']
        rfl

/-- The buffer takes one more character while it has room. -/
theorem cut_concat (line : Text) (ch : Char) :
    cut (line ++ [ch]) =
      if logLineBufferSize ≤ (cut line).length + 1 then cut line else cut line ++ [ch] := by
  unfold cut logLineBufferSize
  split
  next h =>
    simp only [List.length_take] at h
    rw [List.take_append_of_le_length (by omega)]
  next h =>
    simp only [List.length_take] at h
    rw [List.take_of_length_le (by simp; omega), List.take_of_length_le (by omega)]

/-- One character is appended to the line. -/
theorem appendLogChar_grows (position : Nat) (ch : Char) (nowUs : Nat) (hsome : m.game.isSome) :
    Grows [.appended position ch] m (appendLogChar position ch nowUs m) := by
  unfold appendLogChar
  rw [if_neg (by simpa [Option.isSome_iff_ne_none] using hsome)]
  dsimp only
  split
  next hends => exact flushLogLine_grows (by exact hends) nowUs hsome
  next hends =>
    have hkept : ∀ line, (InLine m → ∀ pieces last,
        m.calls.splitOnP Call.endsLine = pieces ++ [last] → line = cut (heard last ++ [ch])) →
        Grows [.appended position ch] m
          { m with calls := m.calls ++ [.appended position ch], logLine := line } := by
      intro line hmove
      refine ⟨rfl, rfl, rfl, fun h => ⟨h, rfl⟩, fun hline => ?_⟩
      obtain ⟨pieces, last, hsplit⟩ := exists_pieces m.calls
      have hsplit' := splitOnP_concat hsplit (.appended position ch)
      rw [if_neg (by exact hends)] at hsplit'
      constructor
      · dsimp only
        rw [callLines_of_pieces hsplit', hline.processed, callLines_of_pieces hsplit]
      · intro _ pieces' last' hsplit''
        dsimp only at hsplit'' ⊢
        rw [hsplit'] at hsplit''
        have hlast' := List.append_inj_right' hsplit'' rfl
        simp only [List.cons.injEq, and_true] at hlast'
        rw [← hlast', heard_append]
        exact hmove hline pieces last hsplit
    split
    next hfull =>
      apply hkept m.logLine
      intro hline pieces last hsplit
      have hlast := hline.logLine hsome pieces last hsplit
      rw [hlast] at hfull ⊢
      rw [cut_concat, if_pos hfull]
    next hroom =>
      apply hkept (m.logLine ++ [ch])
      intro hline pieces last hsplit
      have hlast := hline.logLine hsome pieces last hsplit
      rw [hlast] at hroom ⊢
      rw [cut_concat, if_neg hroom]

/-- The loop over the new characters: all of them are heard, unless the game is given up on the
way. -/
theorem feed_grows (nowUs : Nat) (position : Nat) (text : Text) (hsome : m.game.isSome) :
    ∃ k ≤ text.length, Grows (appends position (text.take k)) m (feed nowUs position text m) ∧
      ((feed nowUs position text m).game.isSome → k = text.length) := by
  induction text generalizing position m with
  | nil => exact ⟨0, by simp, Grows.refl m, fun _ => rfl⟩
  | cons ch rest ih =>
    have hgrows := appendLogChar_grows position ch nowUs hsome
    unfold feed
    dsimp only
    split
    next hnone =>
      refine ⟨1, by simp, by simpa [appends] using hgrows, fun h => ?_⟩
      rw [Option.isNone_iff_eq_none] at hnone
      rw [hnone] at h
      cases h
    next hstill =>
      obtain ⟨k, hk, hrest, hall⟩ := ih (position + 1) (m := appendLogChar position ch nowUs m)
        (by simpa [Option.isSome_iff_ne_none] using hstill)
      refine ⟨k + 1, by simpa using hk, ?_, fun h => by simp [hall h]⟩
      exact hgrows.trans hrest

theorem noteProgress_grows (nowUs : Nat) (m : Monitor) : Grows [] m (noteProgress nowUs m) := by
  unfold noteProgress
  split
  next => exact (Reports.fatal m _).grows
  next => exact Grows.refl m

@[simp]
theorem noteProgress_game (nowUs : Nat) (m : Monitor) : (noteProgress nowUs m).game = m.game := by
  unfold noteProgress
  split <;> rfl

end ShadowMount.LogMonitor
