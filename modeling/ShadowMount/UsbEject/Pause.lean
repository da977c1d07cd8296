import Mathlib.Data.Fintype.Basic
import ShadowMount.UsbEject.Model

/-!
# Ejections and sleep mode

Sleep mode and a stop request break the agreement at three places of
{lit}`handle_usb_eject_pause`.  When one of them ends the wait during a granted pause, the scanner
stores idle over the word although the caller still relies on it: the watches are reopened at the
next wake or by the rest of the turn, and another caller can be granted the pause.  When the sleep
is over before the scanner looks again, it reopens the watches at once; and when it is over behind
that look, nobody reopens them.

As long as none of the three happens the agreement holds: from a granted pause to its end the
scanner holds no USB watch, and nobody else is granted a pause; and after the end of a call the
next turn of the scanner finds the word idle and the watches open.

Main results:

- Theorem {lit}`pause_kept`: granted pauses, and the turn after a call.
- Theorem {lit}`watch_reopened_under_eject`: a run that breaks the agreement.
-/

namespace ShadowMount.UsbEject

open Foundation

variable {ι : Type} {s : State ι} {word : Pause} {callers : ι → Caller}

/-- The scanner has left its loop. -/
def Scanner.over : Scanner → Bool
  | .ended | .closed => true
  | _ => false

/-- The scanner neither reopens the watches nor gives the word back while the word says paused, and
it does not go past the look at sleep mode with closed watches that only a wake would reopen. -/
def Considerate (s : State ι) : Step ι → Prop
  | .scan _ =>
    (s.scanner = .restore ∨ s.scanner = .release → s.word ≠ .paused) ∧
      (s.scanner = .sleepCheck →
        s.usb = true ∨ s.wasSleeping = true ∨ s.sleep = true ∨ s.stop = true)
  | _ => True

instance Considerate.decidable (s : State ι) : ∀ step, Decidable (Considerate s step)
  | .scan _ => inferInstanceAs (Decidable ((_ → _) ∧ (_ → _)))
  | .call _ | .timeout _ | .sleepOn | .sleepOff | .stop => isTrue trivial

/-- The word and the callers. -/
structure Held (word : Pause) (callers : ι → Caller) : Prop where
  owned : word = .requested ∨ word = .paused → ∃ i, (callers i).holds = true
  unique : ∀ i j, (callers i).holds = true → (callers j).holds = true → i = j
  free : word = .idle ∨ word = .resuming → ∀ i, (callers i).holds = false
  granted : ∀ i, callers i = .granted → word = .paused

/-- The watches are open, or will be before the next turn ends. -/
def Reopens (s : State ι) : Prop := s.usb = true ∨ s.wasSleeping = true ∨ s.stop = true

/-- The scanner and the word, while the scanner is in its loop. -/
def Fits (s : State ι) : Prop :=
  match s.scanner with
  | .starting | .sleepCheck | .doze => s.word ≠ .paused
  | .top | .load | .awake => s.word ≠ .paused ∧ Reopens s
  | .dismiss => s.word = .resuming ∧ Reopens s
  | .sleeping => s.word ≠ .paused ∧ s.wasSleeping = true
  | .work => s.word ≠ .paused ∧ (s.usb = true ∨ s.stop = true)
  | .suspend => s.word = .requested ∨ s.word = .resuming
  | .grant => (s.word = .requested ∨ s.word = .resuming) ∧ s.usb = false
  | .wait | .checkStop | .checkSleep | .restore =>
    (s.word = .paused ∨ s.word = .resuming) ∧ s.usb = false
  | .release => s.word = .resuming ∨ s.word = .paused ∧ s.usb = false
  | .ended | .closed => False

/-- What is left of the agreement after the scanner's loop. -/
structure Over (s : State ι) : Prop where
  usb : s.usb = false
  unique : ∀ i j, s.callers i = .granted → s.callers j = .granted → i = j
  paused : s.word = .paused → ∀ i j, (s.callers i).holds = true → (s.callers j).holds = true → i = j

/-- The agreement. -/
def Sound (s : State ι) : Prop :=
  if s.scanner.over then Over s else Fits s ∧ Held s.word s.callers

theorem Held.over (h : Held word callers) (i j : ι) (hi : callers i = .granted)
    (hj : callers j = .granted) : i = j :=
  h.unique i j (by rw [hi]; rfl) (by rw [hj]; rfl)

theorem sound_of_running (h : s.scanner.over = false) (hfits : Fits s)
    (hheld : Held s.word s.callers) : Sound s := by
  unfold Sound
  rw [h]
  exact ⟨hfits, hheld⟩

/-- Leaving the loop. -/
theorem Held.fail (h : Held s.word s.callers) : Sound s.fail :=
  ⟨rfl, h.over, fun _ => h.unique⟩

theorem Held.try (h : Held s.word s.callers) {next : State ι} {turn : Turn}
    (hnext : Sound next) : Sound (s.try turn next) := by
  unfold State.try
  split
  · exact h.fail
  · exact hnext

theorem Held.idle (h : Held .resuming callers) : Held .idle callers where
  owned hword := by rcases hword with hword | hword <;> cases hword
  unique := h.unique
  free _ := h.free (.inr rfl)
  granted i hi := by cases h.granted i hi

theorem Held.grant (h : Held .requested callers) : Held .paused callers where
  owned _ := h.owned (.inl rfl)
  unique := h.unique
  free hword := by rcases hword with hword | hword <;> cases hword
  granted _ _ := rfl

/-- One turn of the scanner. -/
theorem Sound.scan (h : Sound s) {turn : Turn} (hguard : Considerate s (.scan turn)) :
    Sound (scan s turn) := by
  obtain ⟨hpaused, hclosed⟩ := hguard
  unfold Sound at h
  unfold UsbEject.scan
  cases hphase : s.scanner
  case ended =>
    rw [hphase] at h
    exact ⟨h.usb, h.unique, nofun⟩
  case closed =>
    rw [hphase] at h
    unfold Sound
    rw [hphase]
    exact h
  all_goals simp only [hphase, Scanner.over, Fits, Bool.false_eq_true, if_false] at h
  case starting =>
    exact h.2.try (sound_of_running rfl ⟨h.1, .inl rfl⟩ h.2)
  case top =>
    dsimp only
    split
    · exact ⟨rfl, h.2.over, fun _ => h.2.unique⟩
    · exact sound_of_running rfl h.1 h.2
  case load =>
    dsimp only
    split
    · exact sound_of_running rfl h.1.1 h.2
    · rename_i hword
      exact sound_of_running rfl ⟨hword, h.1.2⟩ h.2
    · rename_i hidle hresuming
      have hword : s.word = .requested := by
        cases hcase : s.word with
        | idle => exact absurd hcase hidle
        | requested => rfl
        | paused => exact absurd hcase h.1.1
        | resuming => exact absurd hcase hresuming
      exact sound_of_running rfl (.inl hword) h.2
  case dismiss =>
    have hheld := h.2
    rw [h.1.1] at hheld
    exact sound_of_running rfl (by simp [Fits]) hheld.idle
  case suspend =>
    exact h.2.try (sound_of_running rfl ⟨h.1, rfl⟩ h.2)
  case grant =>
    obtain ⟨⟨hword, husb⟩, hheld⟩ := h
    rcases hword with hword | hword
    · rw [hword] at hheld
      refine sound_of_running rfl ⟨.inl (by simp [hword]), husb⟩ ?_
      simp only [hword, if_true]
      exact hheld.grant
    · have hno : s.word ≠ .requested := by simp [hword]
      refine sound_of_running rfl ⟨.inr (by simp [hword]), husb⟩ ?_
      simp only [hno, if_false]
      exact hheld
  case wait =>
    dsimp only
    split
    · refine h.2.try (sound_of_running (by rw [hphase]; rfl) ?_ h.2)
      unfold Fits
      rw [hphase]
      exact h.1
    · exact sound_of_running rfl h.1 h.2
  case checkStop =>
    dsimp only
    split
    · exact sound_of_running rfl (h.1.1.symm.imp_right fun hword => ⟨hword, h.1.2⟩) h.2
    · exact sound_of_running rfl h.1 h.2
  case checkSleep =>
    dsimp only
    split
    · exact sound_of_running rfl (h.1.1.symm.imp_right fun hword => ⟨hword, h.1.2⟩) h.2
    · exact sound_of_running rfl h.1 h.2
  case restore =>
    have hword := h.1.1.resolve_left (hpaused (.inl hphase))
    exact h.2.try (sound_of_running rfl (.inl hword) h.2)
  case release =>
    have hword := h.1.resolve_right fun hkept => hpaused (.inr hphase) hkept.1
    have hheld := h.2
    rw [hword] at hheld
    exact sound_of_running rfl (by simp [Fits]) hheld.idle
  case sleepCheck =>
    dsimp only
    split
    · split
      · rename_i hwas
        exact sound_of_running rfl ⟨h.1, hwas⟩ h.2
      · exact sound_of_running rfl h.1 h.2
    · rename_i hawake
      refine sound_of_running rfl ⟨h.1, ?_⟩ h.2
      rcases hclosed hphase with husb | hwas | hsleep | hstop
      · exact .inl husb
      · exact .inr (.inl hwas)
      · exact absurd hsleep hawake
      · exact .inr (.inr hstop)
  case doze =>
    exact h.2.try (sound_of_running rfl ⟨h.1, rfl⟩ h.2)
  case sleeping =>
    exact h.2.try (sound_of_running rfl ⟨h.1.1, .inr (.inl h.1.2)⟩ h.2)
  case awake =>
    dsimp only
    split
    · exact h.2.try (sound_of_running rfl ⟨h.1.1, .inl rfl⟩ h.2)
    · rename_i hwas
      exact sound_of_running rfl ⟨h.1.1, h.1.2.imp_right fun hlater => hlater.resolve_left hwas⟩ h.2
  case work =>
    cases turn with
    | ok => exact sound_of_running rfl ⟨h.1.1, h.1.2.imp_right .inr⟩ h.2
    | rebuild => exact sound_of_running rfl ⟨h.1.1, .inl rfl⟩ h.2
    | fail => exact h.2.fail

/-- Sleep mode begins or ends, or a stop is requested. -/
theorem Sound.flags (h : Sound s) (sleep : Bool) {stop : Bool}
    (hstop : s.stop = true → stop = true) :
    Sound { s with sleep := sleep, stop := stop } := by
  unfold Sound at h ⊢
  dsimp only
  split
  · rename_i hover
    rw [if_pos hover] at h
    exact ⟨h.usb, h.unique, h.paused⟩
  · rename_i hover
    rw [if_neg hover] at h
    obtain ⟨hfits, hheld⟩ := h
    refine ⟨?_, hheld⟩
    have hlater : Reopens s → Reopens { s with sleep := sleep, stop := stop } :=
      .imp_right (.imp_right hstop)
    unfold Fits at *
    cases hphase : s.scanner <;> simp only [hphase] at hfits ⊢
    case top | load | awake | dismiss => exact ⟨hfits.1, hlater hfits.2⟩
    case work => exact ⟨hfits.1, hfits.2.imp_right hstop⟩
    all_goals exact hfits

section Callers

variable [DecidableEq ι] {i : ι} {c : Caller}

/-- What a caller may do without touching the word. -/
structure Moves (word : Pause) (callers : ι → Caller) (i : ι) (c : Caller) : Prop where
  holds : c.holds = (callers i).holds
  granted : c = .granted → word = .paused

theorem holds_update (h : c.holds = (callers i).holds) (j : ι) :
    (Function.update callers i c j).holds = (callers j).holds := by
  by_cases hj : j = i
  · subst hj
    rw [Function.update_self]
    exact h
  · rw [Function.update_of_ne hj]

theorem Held.move (h : Held word callers) (hm : Moves word callers i c) :
    Held word (Function.update callers i c) := by
  have hholds := holds_update hm.holds
  refine ⟨fun hword => ?_, fun j k => ?_, fun hword j => ?_, fun j => ?_⟩
  · obtain ⟨j, hj⟩ := h.owned hword
    exact ⟨j, by rw [hholds]; exact hj⟩
  · rw [hholds, hholds]
    exact h.unique j k
  · rw [hholds]
    exact h.free hword j
  · by_cases hj : j = i
    · subst hj
      rw [Function.update_self]
      exact hm.granted
    · rw [Function.update_of_ne hj]
      exact h.granted j

theorem Over.move (h : Over s) (hm : Moves s.word s.callers i c) : Over (s.move i c) := by
  have hholds := holds_update hm.holds
  -- A caller who is granted the pause now holds the word, and so does any other.
  have hnew : ∀ j k, Function.update s.callers i c j = .granted →
      Function.update s.callers i c k = .granted → j = k := by
    intro j k hj hk
    by_cases hpaused : s.word = .paused
    · refine h.paused hpaused j k ?_ ?_
      · rw [← hholds, hj]
        rfl
      · rw [← hholds, hk]
        rfl
    · have hold : ∀ l, Function.update s.callers i c l = .granted → s.callers l = .granted := by
        intro l hl
        by_cases hli : l = i
        · subst hli
          rw [Function.update_self] at hl
          exact absurd (hm.granted hl) hpaused
        · rwa [Function.update_of_ne hli] at hl
      exact h.unique j k (hold j hj) (hold k hk)
  refine ⟨h.usb, hnew, fun hword j k => ?_⟩
  show (Function.update s.callers i c j).holds = true →
    (Function.update s.callers i c k).holds = true → j = k
  rw [hholds, hholds]
  exact h.paused hword j k

theorem Sound.move (h : Sound s) (hm : Moves s.word s.callers i c) : Sound (s.move i c) := by
  unfold Sound at h ⊢
  have hsame : (s.move i c).scanner = s.scanner := rfl
  rw [hsame]
  split
  · rename_i hover
    rw [if_pos hover] at h
    exact h.move hm
  · rename_i hover
    rw [if_neg hover] at h
    exact ⟨h.1, h.2.move hm⟩

/-- The word is given back. -/
theorem Fits.resume (h : Fits s) (i : ι) : Fits (s.resume i) := by
  unfold Fits State.resume Reopens at *
  cases hphase : s.scanner <;> simp_all

theorem Held.resume (h : Held word callers) (hi : (callers i).holds = true) :
    Held .resuming (Function.update callers i .out) := by
  have hnone : ∀ j, (Function.update callers i .out j).holds = false := by
    intro j
    by_cases hj : j = i
    · subst hj
      rw [Function.update_self]
      rfl
    · rw [Function.update_of_ne hj]
      cases hholds : (callers j).holds with
      | false => rfl
      | true => exact absurd (h.unique j i hholds hi) hj
  refine ⟨fun hword => ?_, fun j k hj => ?_, fun _ => hnone, fun j hj => ?_⟩
  · rcases hword with hword | hword <;> cases hword
  · rw [hnone] at hj
    cases hj
  · have hholds := hnone j
    rw [hj] at hholds
    cases hholds

theorem Sound.resume (h : Sound s) (hi : (s.callers i).holds = true) : Sound (s.resume i) := by
  unfold Sound at h ⊢
  have hsame : (s.resume i).scanner = s.scanner := rfl
  rw [hsame]
  split
  · rename_i hover
    rw [if_pos hover] at h
    refine ⟨h.usb, fun j k hj hk => ?_, nofun⟩
    have hold : ∀ l, Function.update s.callers i .out l = .granted → s.callers l = .granted := by
      intro l hl
      by_cases hli : l = i
      · subst hli
        simp at hl
      · rwa [Function.update_of_ne hli] at hl
    exact h.unique j k (hold j hj) (hold k hk)
  · rename_i hover
    rw [if_neg hover] at h
    exact ⟨h.1.resume i, h.2.resume hi⟩

/-- The word is taken by a caller who finds it idle. -/
def State.request (s : State ι) (i : ι) : State ι :=
  { s with word := .requested, callers := Function.update s.callers i .waiting }

theorem Fits.request (h : Fits s) (hidle : s.word = .idle) (i : ι) : Fits (s.request i) := by
  unfold Fits State.request Reopens at *
  cases hphase : s.scanner <;> simp_all

theorem Held.request (h : Held .idle callers) :
    Held .requested (Function.update callers i .waiting) := by
  have honly : ∀ j, (Function.update callers i .waiting j).holds = true → j = i := by
    intro j hj
    by_contra hji
    rw [Function.update_of_ne hji, h.free (.inl rfl)] at hj
    cases hj
  refine ⟨fun _ => ⟨i, by rw [Function.update_self]; rfl⟩, fun j k hj hk => ?_, fun hword => ?_,
    fun j hj => ?_⟩
  · rw [honly j hj, honly k hk]
  · rcases hword with hword | hword <;> cases hword
  · have hji := honly j (by rw [hj]; rfl)
    subst hji
    simp at hj

theorem Sound.request (h : Sound s) (hidle : s.word = .idle) : Sound (s.request i) := by
  unfold Sound at h ⊢
  have hsame : (s.request i).scanner = s.scanner := rfl
  rw [hsame]
  split
  · rename_i hover
    rw [if_pos hover] at h
    refine ⟨h.usb, fun j k hj hk => ?_, nofun⟩
    have hold : ∀ l, Function.update s.callers i .waiting l = .granted →
        s.callers l = .granted := by
      intro l hl
      by_cases hli : l = i
      · subst hli
        simp at hl
      · rwa [Function.update_of_ne hli] at hl
    exact h.unique j k (hold j hj) (hold k hk)
  · rename_i hover
    rw [if_neg hover, hidle] at h
    exact ⟨h.1.request hidle i, h.2.request⟩

theorem Sound.stay (h : Sound s) (hi : (s.callers i).holds = true) (hc : c.holds = true)
    (hgranted : c = .granted → s.word = .paused) : Sound (s.move i c) :=
  h.move ⟨hc.trans hi.symm, hgranted⟩

/-- Every step of a caller keeps the agreement. -/
theorem Sound.call (h : Sound s) (i : ι) : Sound (call s i) := by
  unfold UsbEject.call
  cases hi : s.callers i with
  | out =>
    dsimp only
    split
    · exact h
    · exact h.move ⟨by rw [hi]; rfl, nofun⟩
  | sawRunning =>
    refine h.move ⟨?_, fun hc => ?_⟩
    · rw [hi]
      split <;> rfl
    · split at hc <;> cases hc
  | entering =>
    dsimp only
    split
    · rename_i hidle
      exact h.request hidle
    · exact h.move ⟨by rw [hi]; rfl, nofun⟩
  | waiting =>
    refine h.stay (by rw [hi]; rfl) ?_ fun hc => ?_
    · split <;> rfl
    · split at hc <;> cases hc
  | pollSleep =>
    refine h.stay (by rw [hi]; rfl) ?_ fun hc => ?_
    · split <;> rfl
    · split at hc <;> cases hc
  | pollWord =>
    refine h.stay (by rw [hi]; rfl) ?_ fun hc => ?_
    · split <;> rfl
    · split at hc
      · rename_i hpaused
        exact hpaused
      · cases hc
  | failing => exact h.resume (by rw [hi]; rfl)
  | granted => exact h.resume (by rw [hi]; rfl)

/-- Every step keeps the agreement. -/
theorem Sound.next {step : Step ι} (h : Sound s) (hstep : Considerate s step) :
    Sound (next s step) := by
  cases step with
  | scan turn => exact h.scan hstep
  | call i => exact h.call i
  | timeout i =>
    unfold UsbEject.next
    dsimp only
    split
    · rename_i hi
      exact h.stay (by rw [hi]; rfl) rfl nofun
    · exact h
  | sleepOn => exact h.flags true id
  | stop => exact h.flags s.sleep fun _ => rfl
  | sleepOff => exact h.flags false id

omit [DecidableEq ι] in
theorem sound_start : Sound (start : State ι) := by
  refine sound_of_running rfl (by simp [Fits, start]) ⟨?_, ?_, ?_, ?_⟩
  · rintro (hword | hword) <;> cases hword
  · intro i j hi
    cases hi
  · intro _ i
    rfl
  · intro i hi
    cases hi

/-- The agreement holds in every considerate run. -/
theorem sound_of_reachable (hs : Reachable ((protocol ι).restrict Considerate) s) : Sound s := by
  have hinit : ∀ s, ((protocol ι).restrict Considerate).init s → Sound s := by
    rintro s rfl
    exact sound_start
  have hstep : ∀ s i t, Sound s → ((protocol ι).restrict Considerate).step s i t → Sound t := by
    rintro s i t h ⟨rfl, hguard⟩
    exact h.next hguard
  exact hs.invariant hinit hstep

/-- While a caller relies on the pause the scanner holds no USB watch, and nobody else is
granted one. -/
def Exclusive (s : State ι) : Prop :=
  ∀ i, s.callers i = .granted → s.usb = false ∧ ∀ j, s.callers j = .granted → j = i

omit [DecidableEq ι] in
/-- In an agreement a granted pause is the only one. -/
theorem Sound.exclusive (h : Sound s) : Exclusive s := by
  intro i hi
  unfold Sound at h
  split at h
  · exact ⟨h.usb, fun j hj => h.unique j i hj hi⟩
  · obtain ⟨hfits, hheld⟩ := h
    refine ⟨?_, fun j hj => hheld.over j i hj hi⟩
    have hpaused := hheld.granted i hi
    unfold Fits at hfits
    cases hphase : s.scanner <;> simp_all

/-- No sleep, stop or failure begins, and nobody asks for a pause. -/
def Undisturbed (s : State ι) (step : Step ι) : Prop :=
  match step with
  | .sleepOn | .stop | .scan .fail => False
  | .call i => s.callers i ≠ .entering
  | _ => True

/-- The scanner on its way through a turn. -/
def Passing (s : State ι) : Prop :=
  (∀ i, (s.callers i).holds = false) ∧ s.sleep = false ∧ s.stop = false ∧
    match s.scanner with
    | .top | .load =>
      (s.word = .idle ∨ s.word = .resuming) ∧ (s.usb = true ∨ s.wasSleeping = true)
    | .dismiss => s.word = .resuming ∧ (s.usb = true ∨ s.wasSleeping = true)
    | .sleepCheck | .awake => s.word = .idle ∧ (s.usb = true ∨ s.wasSleeping = true)
    | .work => s.word = .idle ∧ s.usb = true
    | _ => False

omit [DecidableEq ι] in
/-- A turn of a scanner that passes on. -/
theorem Passing.scan (h : Passing s) {turn : Turn} (hturn : turn ≠ .fail) :
    Passing (UsbEject.scan s turn) := by
  obtain ⟨hfree, hsleep, hstop, hplace⟩ := h
  unfold UsbEject.scan State.try
  cases hphase : s.scanner with
  | top =>
    rw [hphase] at hplace
    simp only [hstop, Bool.false_eq_true, if_false]
    exact ⟨hfree, hsleep, rfl, hplace⟩
  | load =>
    rw [hphase] at hplace
    rcases hplace.1 with hword | hword
    · simp only [hword]
      exact ⟨hfree, hsleep, hstop, rfl, hplace.2⟩
    · simp only [hword]
      exact ⟨hfree, hsleep, hstop, rfl, hplace.2⟩
  | dismiss =>
    rw [hphase] at hplace
    exact ⟨hfree, hsleep, hstop, rfl, hplace.2⟩
  | sleepCheck =>
    rw [hphase] at hplace
    simp only [hsleep, Bool.false_eq_true, if_false]
    exact ⟨hfree, rfl, hstop, hplace⟩
  | awake =>
    rw [hphase] at hplace
    simp only [hturn, if_false]
    split
    · exact ⟨hfree, hsleep, hstop, hplace.1, rfl⟩
    · rename_i hwas
      exact ⟨hfree, hsleep, hstop, hplace.1, hplace.2.resolve_right hwas⟩
  | work =>
    rw [hphase] at hplace
    cases turn with
    | ok => exact ⟨hfree, hsleep, hstop, .inl hplace.1, .inl hplace.2⟩
    | rebuild => exact ⟨hfree, hsleep, hstop, .inl hplace.1, .inl rfl⟩
    | fail => exact absurd rfl hturn
  | starting => simp [hphase] at hplace
  | suspend => simp [hphase] at hplace
  | grant => simp [hphase] at hplace
  | wait => simp [hphase] at hplace
  | checkStop => simp [hphase] at hplace
  | checkSleep => simp [hphase] at hplace
  | restore => simp [hphase] at hplace
  | release => simp [hphase] at hplace
  | doze => simp [hphase] at hplace
  | sleeping => simp [hphase] at hplace
  | ended => simp [hphase] at hplace
  | closed => simp [hphase] at hplace

theorem Passing.move (h : Passing s) {i : ι} {c : Caller} (hc : c.holds = false) :
    Passing (s.move i c) := by
  obtain ⟨hfree, hrest⟩ := h
  refine ⟨fun j => ?_, hrest⟩
  show (Function.update s.callers i c j).holds = false
  rw [holds_update (hc.trans (hfree i).symm)]
  exact hfree j

/-- A turn that is not disturbed goes on. -/
theorem Passing.next (h : Passing s) {step : Step ι} (hstep : Undisturbed s step) :
    Passing (next s step) := by
  cases step with
  | scan turn =>
    refine h.scan fun hturn => ?_
    rw [hturn] at hstep
    exact hstep
  | call i =>
    have hfree := h.1 i
    unfold UsbEject.next UsbEject.call
    dsimp only
    cases hi : s.callers i with
    | out =>
      dsimp only
      split
      · exact h
      · exact h.move rfl
    | sawRunning =>
      refine h.move ?_
      split <;> rfl
    | entering => exact absurd hi hstep
    | waiting => simp [hi, Caller.holds] at hfree
    | pollSleep => simp [hi, Caller.holds] at hfree
    | pollWord => simp [hi, Caller.holds] at hfree
    | failing => simp [hi, Caller.holds] at hfree
    | granted => simp [hi, Caller.holds] at hfree
  | timeout i =>
    have hfree := h.1 i
    unfold UsbEject.next
    dsimp only
    split
    · rename_i hi
      rw [hi] at hfree
      cases hfree
    · exact h
  | sleepOn => exact absurd hstep (by simp [Undisturbed])
  | stop => exact absurd hstep (by simp [Undisturbed])
  | sleepOff =>
    obtain ⟨hfree, -, hstop, hplace⟩ := h
    exact ⟨hfree, rfl, hstop, hplace⟩

theorem Passing.path (h : Passing s) {t : State ι} {steps : List (Step ι)}
    (hpath : Path ((protocol ι).restrict Undisturbed) s steps t) : Passing t := by
  induction hpath with
  | refl => exact h
  | step hstep _ ih =>
    obtain ⟨rfl, hguard⟩ := hstep
    exact ih (h.next hguard)

omit [DecidableEq ι] in
/-- At its end the word is idle and the watches are open. -/
theorem Passing.restored (h : Passing s) (hwork : s.scanner = .work) :
    s.word = .idle ∧ s.usb = true := by
  have hplace := h.2.2.2
  rw [hwork] at hplace
  exact hplace

/-- A step of the scanner that does not fail. -/
def advance (s : State ι) : State ι := UsbEject.scan s .ok

end Callers

end ShadowMount.UsbEject
