import ShadowMount.ConfigWatch.Files

/-!
# No change of the configuration stays unnoticed

What the scanner knows of each file, followed through every interleaving of edits with its
own actions.  A registered descriptor of the present vnode sees every later change, so a
change can only slip through where the scanner takes up a watch without reading the file
afterwards.  This happens at three places: a descriptor that was opened at the start is
registered much later without a reload; a file is replaced between its opening and its
registration; a probe recovers one file while the other stays unavailable, and no reload is
scheduled then.

Main results:

- Theorem {lit}`changes_noticed`: in every run that keeps clear of these places, a file that
  differs from what was loaded has something pending whenever the loop is at rest.
- Theorem {lit}`change_before_registration_lost`: an edit between the start and the
  registration is forgotten.
-/

namespace ShadowMount.ConfigWatch

open Foundation

variable {j : Fin 2} {now : Nat} {gone : Bool} {rest : List (Fin 2 × Bool)}

namespace Gaps

variable (g : Gaps) (i : Fin 2)

/-- The changes of a file from the beginning of the call until the file is opened. -/
def untilOpen : List Change :=
  changesOf i (if i = 0 then g.beforeOpen else g.beforeOpen ++ g.betweenOpens)

/-- The changes of a file between its opening and the end of the opening loop. -/
def sinceOpen : List Change :=
  changesOf i (if i = 0 then g.betweenOpens else [])

/-- The changes of a file from the beginning of `register_config_file_watch` until its
descriptor is registered. -/
def untilRegister : List Change :=
  changesOf i (if i = 0 then g.beforeRegister else g.beforeRegister ++ g.betweenRegisters)

/-- The changes of a file once its descriptor is registered. -/
def sinceRegister : List Change :=
  changesOf i (if i = 0 then g.betweenRegisters ++ g.afterRegister else g.afterRegister)

end Gaps

namespace File

variable (f : File) (g : Gaps) (i : Fin 2)

/-- What the opening loop does to one file. -/
def opened : File :=
  ((f.changes (g.untilOpen i)).openFd (g.openOk i)).changes (g.sinceOpen i)

/-- What `register_config_file_watch` does to one file. -/
def registeredIn : File :=
  ((f.changes (g.untilRegister i)).register (g.registerOk i)).changes (g.sinceRegister i)

end File

theorem changesOf_append (i : Fin 2) (es ds : List Edit) :
    changesOf i (es ++ ds) = changesOf i es ++ changesOf i ds := by
  simp [changesOf]

namespace Watch

variable (s : Watch)

@[simp]
theorem setFile_phase (i : Fin 2) (f : File) : (s.setFile i f).phase = s.phase := rfl

@[simp]
theorem setFile_batch (i : Fin 2) (f : File) : (s.setFile i f).batch = s.batch := rfl

@[simp]
theorem setFile_reloadPending (i : Fin 2) (f : File) :
    (s.setFile i f).reloadPending = s.reloadPending := rfl

@[simp]
theorem setFile_probeDueUs (i : Fin 2) (f : File) :
    (s.setFile i f).probeDueUs = s.probeDueUs := rfl

@[simp]
theorem setFile_files_self (i : Fin 2) (f : File) : (s.setFile i f).files i = f :=
  Function.update_self ..

theorem setFile_files_of_ne {i : Fin 2} (hij : j ≠ i) (f : File) :
    (s.setFile i f).files j = s.files j :=
  Function.update_of_ne hij ..

/-- Changes of the files touch nothing else. -/
theorem edits_frame (es : List Edit) :
    (s.edits es).phase = s.phase ∧ (s.edits es).batch = s.batch ∧
      (s.edits es).reloadPending = s.reloadPending ∧
      (s.edits es).probeDueUs = s.probeDueUs := by
  induction es generalizing s with
  | nil => exact ⟨rfl, rfl, rfl, rfl⟩
  | cons e es ih => exact ih (s.edit e)

@[simp]
theorem edits_phase (es : List Edit) : (s.edits es).phase = s.phase := (s.edits_frame es).1

@[simp]
theorem edits_batch (es : List Edit) : (s.edits es).batch = s.batch := (s.edits_frame es).2.1

@[simp]
theorem edits_reloadPending (es : List Edit) :
    (s.edits es).reloadPending = s.reloadPending := (s.edits_frame es).2.2.1

@[simp]
theorem edits_probeDueUs (es : List Edit) : (s.edits es).probeDueUs = s.probeDueUs :=
  (s.edits_frame es).2.2.2

theorem edit_files (e : Edit) (i : Fin 2) :
    (s.edit e).files i = (s.files i).changes (changesOf i [e]) := by
  by_cases hi : e.file = i
  · subst hi
    simp [edit, changesOf]
  · simp [edit, changesOf, hi, setFile_files_of_ne s (Ne.symm hi)]

/-- A file sees its own changes in their order. -/
@[simp]
theorem edits_files (es : List Edit) (i : Fin 2) :
    (s.edits es).files i = (s.files i).changes (changesOf i es) := by
  induction es generalizing s with
  | nil => rfl
  | cons e es ih =>
    have hsplit : changesOf i (e :: es) = changesOf i [e] ++ changesOf i es :=
      changesOf_append i [e] es
    rw [hsplit, File.changes_append, ← s.edit_files]
    exact ih (s.edit e)

@[simp]
theorem probeIfLost_phase (now : Nat) (i : Fin 2) : (s.probeIfLost now i).phase = s.phase := by
  unfold probeIfLost
  split <;> rfl

@[simp]
theorem probeIfLost_batch (now : Nat) (i : Fin 2) : (s.probeIfLost now i).batch = s.batch := by
  unfold probeIfLost
  split <;> rfl

@[simp]
theorem probeIfLost_reloadPending (now : Nat) (i : Fin 2) :
    (s.probeIfLost now i).reloadPending = s.reloadPending := by
  unfold probeIfLost
  split <;> rfl

@[simp]
theorem probeIfLost_files (now : Nat) (i : Fin 2) : (s.probeIfLost now i).files = s.files := by
  unfold probeIfLost
  split <;> rfl

/-- A file that is not open makes the probe due. -/
theorem probeIfLost_probeDueUs (now : Nat) {i : Fin 2} (h : (s.files i).fd = none) :
    (s.probeIfLost now i).probeDueUs ≠ 0 := by
  simp [probeIfLost, h, scheduleConfigProbe, configProbeIntervalUs]

theorem probeIfLost_keeps (now : Nat) (i : Fin 2) (h : s.probeDueUs ≠ 0) :
    (s.probeIfLost now i).probeDueUs ≠ 0 := by
  unfold probeIfLost
  split
  · simp [scheduleConfigProbe, configProbeIntervalUs]
  · exact h

theorem openFiles_frame (now : Nat) (g : Gaps) :
    (s.openFiles now g).phase = s.phase ∧ (s.openFiles now g).batch = s.batch ∧
      (s.openFiles now g).reloadPending = s.reloadPending := by
  simp [openFiles, openFile]

/-- Each file is opened on its own. -/
theorem openFiles_files (now : Nat) (g : Gaps) (i : Fin 2) :
    (s.openFiles now g).files i = (s.files i).opened g i := by
  have h01 : (0 : Fin 2) ≠ 1 := by decide
  match i with
  | 0 =>
    simp [openFiles, openFile, File.opened, Gaps.untilOpen, Gaps.sinceOpen,
      setFile_files_of_ne _ h01]
  | 1 =>
    simp [openFiles, openFile, File.opened, Gaps.untilOpen, Gaps.sinceOpen,
      setFile_files_of_ne _ h01.symm, changesOf_append, File.changes_append]
    simp [changesOf]

theorem registerConfigFileWatch_frame (now : Nat) (g : Gaps) :
    (s.registerConfigFileWatch now g).phase = s.phase ∧
      (s.registerConfigFileWatch now g).batch = s.batch ∧
      (s.registerConfigFileWatch now g).reloadPending = s.reloadPending := by
  simp [registerConfigFileWatch, registerFile]

theorem registerConfigFileWatch_files (now : Nat) (g : Gaps) (i : Fin 2) :
    (s.registerConfigFileWatch now g).files i = (s.files i).registeredIn g i := by
  have h01 : (0 : Fin 2) ≠ 1 := by decide
  match i with
  | 0 =>
    simp [registerConfigFileWatch, registerFile, File.registeredIn, Gaps.untilRegister,
      Gaps.sinceRegister, setFile_files_of_ne _ h01, changesOf_append, File.changes_append]
  | 1 =>
    simp [registerConfigFileWatch, registerFile, File.registeredIn, Gaps.untilRegister,
      Gaps.sinceRegister, setFile_files_of_ne _ h01.symm, changesOf_append,
      File.changes_append]

/-- A file without a descriptor has a probe due. -/
theorem registerConfigFileWatch_probeDueUs (now : Nat) (g : Gaps) {i : Fin 2}
    (h : ((s.registerConfigFileWatch now g).files i).fd = none) :
    (s.registerConfigFileWatch now g).probeDueUs ≠ 0 := by
  have h01 : (0 : Fin 2) ≠ 1 := by decide
  match i with
  | 0 =>
    simp only [registerConfigFileWatch, edits_probeDueUs]
    refine probeIfLost_keeps _ _ _ ?_
    simp only [setFile_probeDueUs, edits_probeDueUs]
    refine probeIfLost_probeDueUs _ _ ?_
    simpa [registerConfigFileWatch, registerFile, setFile_files_of_ne _ h01] using h
  | 1 =>
    simp only [registerConfigFileWatch, edits_probeDueUs]
    refine probeIfLost_probeDueUs _ _ ?_
    simpa [registerConfigFileWatch, registerFile, setFile_files_of_ne _ h01.symm] using h

end Watch

namespace Change

/-- Changes are applied one after another. -/
theorem results_append (cs ds : List Change) (held : Option Text) :
    results (cs ++ ds) held = results ds (results cs held) :=
  List.foldl_append

end Change

namespace Gaps

variable (g : Gaps) (i : Fin 2)

/-- The changes of a file between its opening and its registration. -/
def unwatched : List Change := g.sinceOpen i ++ g.untilRegister i

/-- Is the watch of a lost file taken up by these calls? -/
def recovers (f : File) : Bool :=
  f.fd.isNone && g.openOk i && g.registerOk i &&
    (Change.results (g.untilOpen i) f.present).isSome

/-- A file whose watch is taken up is neither replaced nor removed before it is
registered. -/
def Keeps (f : File) : Prop :=
  g.recovers i f = true → ∀ c ∈ g.unwatched i, c.inPlace = true

/-- A file whose watch is taken up still holds what was loaded. -/
def FindsLoaded (f : File) : Prop :=
  g.recovers i f = true →
    Change.results (g.untilOpen i ++ g.unwatched i) f.present = f.loaded

/-- A descriptor of the start is registered while its vnode is still the present one and
holds what was loaded. -/
def StartsLoaded (f : File) : Prop :=
  f.fd ≠ none → g.registerOk i = true →
    f.fd = some f.generation ∧ (∀ c ∈ g.untilRegister i, c.inPlace = true) ∧
      Change.results (g.untilRegister i) f.present = f.loaded

end Gaps

namespace File

variable {f : File} {g : Gaps} {i : Fin 2} {stale pending : Prop}

/-- The descriptor belongs to the present vnode, or the scanner is told otherwise. -/
def Current (f : File) (stale : Prop) : Prop :=
  ∀ v, f.fd = some v → v = f.generation ∨ f.queued = some true ∨ stale

theorem Watched.current (h : f.Watched stale) : f.Current stale :=
  fun v hv => (h v hv).2

/-- A registered file that is current is watched. -/
theorem Current.register {ok : Bool} (h : ok = true → f.Current stale) :
    (f.register ok).Watched stale := by
  unfold File.register
  split
  · rename_i hnone
    exact Watched.of_lost (Option.isNone_iff_eq_none.mp hnone)
  · split
    · rename_i hok
      exact fun v hv => ⟨rfl, h hok v hv⟩
    · exact Watched.of_lost rfl

/-- Registration keeps what is accounted for. -/
theorem Accounted.register {ok : Bool} (h : ok = true → f.Accounted pending) :
    (f.register ok).Accounted pending := by
  unfold File.register
  split
  · rename_i hnone
    exact Accounted.of_lost (Option.isNone_iff_eq_none.mp hnone)
  · split
    · rename_i hok
      exact h hok
    · exact Accounted.of_lost rfl

theorem opened_of_some {v : Nat} (h : f.fd = some v) :
    f.opened g i = f.changes (g.untilOpen i ++ g.sinceOpen i) := by
  simp [opened, openFd, h, changes_append]

/-- A lost file stays lost, or gets a descriptor of the vnode that is there when it is
opened. -/
theorem opened_of_none (h : f.fd = none) :
    (f.opened g i).fd = none ∨
      (g.openOk i = true ∧ (Change.results (g.untilOpen i) f.present).isSome = true ∧
        f.opened g i =
          { f.changes (g.untilOpen i) with
            fd := some (f.changes (g.untilOpen i)).generation
            registered := false }.changes (g.sinceOpen i)) := by
  by_cases hok : g.openOk i = true ∧ (f.changes (g.untilOpen i)).present.isSome = true
  · right
    refine ⟨hok.1, by rw [← f.changes_present]; exact hok.2, ?_⟩
    simp [opened, openFd, h, hok.1, hok.2]
  · left
    have hfail : (g.openOk i && (f.changes (g.untilOpen i)).present.isSome) = false := by
      simpa using hok
    simp [opened, openFd, h, hfail]

theorem opened_loaded : (f.opened g i).loaded = f.loaded := by
  unfold opened openFd
  split
  · simp
  · split <;> simp

theorem opened_idle (h : f.Idle) : (f.opened g i).Idle := by
  have hbefore := h.changes (g.untilOpen i)
  refine Idle.changes ?_ (g.sinceOpen i)
  unfold openFd
  split
  · exact hbefore
  · split
    · exact ⟨rfl, hbefore.2⟩
    · exact hbefore

theorem opened_present :
    (f.opened g i).present = Change.results (g.untilOpen i ++ g.sinceOpen i) f.present := by
  have hopen : ∀ (f : File) ok, (f.openFd ok).present = f.present := by
    intro f ok
    unfold openFd
    split
    · rfl
    · split <;> rfl
  unfold opened
  rw [changes_present, hopen, changes_present, Change.results_append]

/-- Opening a watched file again keeps it current. -/
theorem Watched.opened_current (h : f.Watched stale) (hkeeps : g.Keeps i f)
    (hok : g.registerOk i = true) :
    ((f.opened g i).changes (g.untilRegister i)).Current stale := by
  cases hfd : f.fd with
  | some v =>
    rw [opened_of_some hfd]
    exact ((h.changes _).changes _).current
  | none =>
    rcases opened_of_none (g := g) (i := i) hfd with hlost | ⟨hopen, hsome, heq⟩
    · intro v hv
      rw [changes_fd, hlost] at hv
      cases hv
    · have hplace : ∀ c ∈ g.sinceOpen i ++ g.untilRegister i, c.inPlace = true :=
        hkeeps (by simp [Gaps.recovers, hfd, hopen, hok, hsome])
      intro v hv
      left
      rw [heq, ← changes_append] at hv ⊢
      rw [changes_fd] at hv
      rw [changes_generation _ hplace]
      exact (Option.some.inj hv).symm

/-- A file found as it was loaded needs no reload. -/
theorem Accounted.opened (h : f.Accounted pending) (hw : f.Watched stale)
    (hstale : stale → pending) (hfinds : g.FindsLoaded i f) (hok : g.registerOk i = true) :
    ((f.opened g i).changes (g.untilRegister i)).Accounted pending := by
  cases hfd : f.fd with
  | some v =>
    rw [opened_of_some hfd, ← changes_append]
    exact h.changes hw hstale _
  | none =>
    rcases opened_of_none (g := g) (i := i) hfd with hlost | ⟨hopen, hsome, -⟩
    · exact Accounted.of_lost (by rw [changes_fd, hlost])
    · have hloaded := hfinds (by simp [Gaps.recovers, hfd, hopen, hok, hsome])
      intro hne
      refine absurd ?_ hne
      rw [changes_present, opened_present, ← Change.results_append, changes_loaded,
        opened_loaded, List.append_assoc]
      exact hloaded

theorem Current.ofStart (h : g.StartsLoaded i f) (hok : g.registerOk i = true) :
    (f.changes (g.untilRegister i)).Current stale := by
  intro v hv
  rw [changes_fd] at hv
  obtain ⟨hfd, hplace, -⟩ := h (by simp [hv]) hok
  left
  rw [f.changes_generation hplace]
  exact Option.some.inj (hv.symm.trans hfd)

theorem Accounted.ofStart (h : g.StartsLoaded i f) (hok : g.registerOk i = true) :
    (f.changes (g.untilRegister i)).Accounted pending := by
  by_cases hfd : f.fd = none
  · exact Accounted.of_lost (by rw [changes_fd, hfd])
  · intro hne
    refine absurd ?_ hne
    rw [changes_present, changes_loaded]
    exact (h hfd hok).2.2

end File

/-- A run keeps clear of the places where a change can slip through: a descriptor of the
start is registered before its file changes; a file that is opened anew is not replaced
before it is registered; a probe that recovers a changed file recovers all that is lost, or
a reload is pending. -/
def Guard (s : Watch) : Step → Prop
  | .beginLoop _ g => s.phase = .initialized → ∀ i, g.StartsLoaded i (s.files i)
  | .handle _ g =>
    ∀ i rest, s.batch = (i, true) :: rest → (s.files i).fd ≠ none →
      ∀ j, g.Keeps j ((s.setFile i (s.files i).close).files j)
  | .probe now g =>
    s.configProbeDue now = true →
      (∀ i, g.Keeps i (s.files i)) ∧
        (s.reloadPending = true ∨
          (∀ i, ((s.files i).fd ≠ none ∧ g.registerOk i = true) ∨
            g.recovers i (s.files i) = true) ∨
          ∀ i, g.FindsLoaded i (s.files i))
  | .resume _ g => AtRest s → ∀ i, g.Keeps i (s.files i).close
  | _ => True

/-- What holds of the files while the loop runs. -/
structure Following (s : Watch) : Prop where
  lost : ∀ i, (s.files i).fd = none → s.probeDueUs ≠ 0
  watched : ∀ i, (s.files i).Watched ((i, true) ∈ s.batch)
  accounted : ∀ i,
    (s.files i).Accounted (s.reloadPending = true ∨ ∃ gone, (i, gone) ∈ s.batch)

/-- What holds in every state of a guarded run. -/
structure Sound (s : Watch) : Prop where
  early : s.phase ≠ .running → s.batch = [] ∧ ∀ i, (s.files i).Idle
  following : s.phase = .running → Following s

variable {s : Watch}

/-- Changes between steps are followed. -/
theorem Following.edits (h : Following s) (es : List Edit) : Following (s.edits es) where
  lost i hi := by
    rw [s.edits_files, File.changes_fd] at hi
    rw [s.edits_probeDueUs]
    exact h.lost i hi
  watched i := by
    rw [s.edits_files, s.edits_batch]
    exact (h.watched i).changes _
  accounted i := by
    rw [s.edits_files, s.edits_batch, s.edits_reloadPending]
    exact (h.accounted i).changes (h.watched i) (fun hi => .inr ⟨true, hi⟩) _

theorem Following.scheduleConfigReload (hlost : ∀ i, (s.files i).fd = none → s.probeDueUs ≠ 0)
    (hwatched : ∀ i, (s.files i).Watched ((i, true) ∈ s.batch)) :
    Following (s.scheduleConfigReload now) where
  lost := hlost
  watched := hwatched
  accounted _ := File.Accounted.of_pending (.inl rfl)

/-- After the registration every file is watched. -/
theorem registered_watched {g : Gaps} (hcurrent : ∀ i, g.registerOk i = true →
      ((s.files i).changes (g.untilRegister i)).Current ((i, true) ∈ s.batch)) (i : Fin 2) :
    ((s.registerConfigFileWatch now g).files i).Watched
      ((i, true) ∈ (s.registerConfigFileWatch now g).batch) := by
  rw [s.registerConfigFileWatch_files, (s.registerConfigFileWatch_frame now g).2.1]
  exact (File.Current.register (hcurrent i)).changes _

theorem Following.registered {g : Gaps} (hcurrent : ∀ i, g.registerOk i = true →
      ((s.files i).changes (g.untilRegister i)).Current ((i, true) ∈ s.batch))
    (haccounted : ∀ i, g.registerOk i = true →
      ((s.files i).changes (g.untilRegister i)).Accounted
        (s.reloadPending = true ∨ ∃ gone, (i, gone) ∈ s.batch)) :
    Following (s.registerConfigFileWatch now g) where
  lost i hi := s.registerConfigFileWatch_probeDueUs now g hi
  watched := registered_watched hcurrent
  accounted i := by
    obtain ⟨-, hbatch, hpending⟩ := s.registerConfigFileWatch_frame now g
    rw [s.registerConfigFileWatch_files, hbatch, hpending]
    exact (File.Accounted.register (haccounted i)).changes
      (File.Current.register (hcurrent i)) (fun hi => .inr ⟨true, hi⟩) _

theorem openFiles_current {g : Gaps} (hwatched : ∀ i, (s.files i).Watched ((i, true) ∈ s.batch))
    (hkeeps : ∀ i, g.Keeps i (s.files i)) (i : Fin 2) (hok : g.registerOk i = true) :
    (((s.openFiles now g).files i).changes (g.untilRegister i)).Current
      ((i, true) ∈ (s.openFiles now g).batch) := by
  rw [s.openFiles_files, (s.openFiles_frame now g).2.1]
  exact (hwatched i).opened_current (hkeeps i) hok

/-- Behind a reopening the scanner follows the files. -/
theorem Following.reopened {g : Gaps} (hwatched : ∀ i, (s.files i).Watched ((i, true) ∈ s.batch))
    (hkeeps : ∀ i, g.Keeps i (s.files i)) :
    Following ((s.reopenConfigFileWatch now g).scheduleConfigReload now) :=
  Following.scheduleConfigReload
    (fun _ hi => (s.openFiles now g).registerConfigFileWatch_probeDueUs now g hi)
    (registered_watched (openFiles_current hwatched hkeeps))

/-- Opening the files anew without a reload, when those that are recovered hold what was
loaded. -/
theorem Following.reopened_loaded {g : Gaps}
    (hwatched : ∀ i, (s.files i).Watched ((i, true) ∈ s.batch)) (haccounted : ∀ i,
      (s.files i).Accounted (s.reloadPending = true ∨ ∃ gone, (i, gone) ∈ s.batch))
    (hkeeps : ∀ i, g.Keeps i (s.files i))
    (hfinds : s.reloadPending = true ∨ ∀ i, g.FindsLoaded i (s.files i)) :
    Following (s.reopenConfigFileWatch now g) := by
  refine Following.registered (openFiles_current hwatched hkeeps) ?_
  intro i hok
  obtain ⟨-, hbatch, hpending⟩ := s.openFiles_frame now g
  rw [s.openFiles_files, hbatch, hpending]
  rcases hfinds with hreload | hfinds
  · exact File.Accounted.of_pending (.inl hreload)
  · exact (haccounted i).opened (hwatched i) (fun hi => .inr ⟨true, hi⟩) (hfinds i) hok

theorem Sound.edit (h : Sound s) (e : Edit) : Sound (s.edit e) where
  early hp := by
    obtain ⟨hbatch, hidle⟩ := h.early hp
    refine ⟨hbatch, fun i => ?_⟩
    rw [s.edit_files]
    exact (hidle i).changes _
  following hp := (h.following hp).edits [e]

theorem Sound.init (h : Sound s) (now : Nat) (g : Gaps) : Sound (s.init now g) := by
  unfold Watch.init
  split
  · rename_i hp
    obtain ⟨hbatch, hidle⟩ := h.early (by rw [hp]; decide)
    refine ⟨fun _ => ⟨(s.openFiles_frame now g).2.1.trans hbatch, fun i => ?_⟩, nofun⟩
    change File.Idle ((s.openFiles now g).files i)
    rw [s.openFiles_files]
    exact File.opened_idle (hidle i)
  · exact h

/-- The first registration of the loop keeps the invariant. -/
theorem Sound.beginLoop (h : Sound s) (now : Nat) (g : Gaps)
    (hguard : Guard s (.beginLoop now g)) : Sound (s.beginLoop now g) := by
  unfold Watch.beginLoop
  split
  · rename_i hp
    have hfollowing : Following (s.registerConfigFileWatch now g) :=
      Following.registered (fun i hok => File.Current.ofStart (hguard hp i) hok)
        (fun i hok => File.Accounted.ofStart (hguard hp i) hok)
    exact ⟨fun hne => absurd rfl hne,
      fun _ => ⟨hfollowing.lost, hfollowing.watched, hfollowing.accounted⟩⟩
  · exact h

/-- An event moves from the queue of the kernel to the batch. -/
theorem Following.fetchEvent (h : Following s) {i : Fin 2} (hq : (s.files i).queued = some gone) :
    Following { s.setFile i { s.files i with queued := none } with
      batch := s.batch ++ [(i, gone)] } where
  lost j hj := by
    by_cases hij : j = i
    · subst hij
      exact h.lost j (by simpa using hj)
    · exact h.lost j (by simpa [s.setFile_files_of_ne hij] using hj)
  watched j := by
    by_cases hij : j = i
    · subst hij
      intro v hv
      obtain ⟨hr, hv'⟩ := h.watched j v (by simpa using hv)
      simp only [Watch.setFile_files_self, hq] at hv' ⊢
      refine ⟨hr, hv'.imp_right fun hold => .inr ?_⟩
      rcases hold with hgone | hold
      · simp [Option.some.inj hgone]
      · exact List.mem_append_left _ hold
    · simp only [s.setFile_files_of_ne hij]
      exact (h.watched j).mono fun hmem => List.mem_append_left _ hmem
  accounted j := by
    by_cases hij : j = i
    · subst hij
      exact File.Accounted.of_pending (.inr ⟨gone, by simp⟩)
    · simp only [s.setFile_files_of_ne hij]
      exact (h.accounted j).mono fun hp => hp.imp_right fun ⟨gone', hmem⟩ =>
        ⟨gone', List.mem_append_left _ hmem⟩

/-- The events of the queue are fetched. -/
theorem Sound.fetch (h : Sound s) (order : List (Fin 2)) : Sound (s.fetch order) := by
  unfold Watch.fetch
  split
  · rename_i hrest
    have hrun : s.phase = .running ∧ Following s := ⟨hrest.1, h.following hrest.1⟩
    clear hrest h
    -- Every turn keeps the invariant of the running loop.
    induction order generalizing s with
    | nil => exact ⟨fun hne => absurd hrun.1 hne, fun _ => hrun.2⟩
    | cons i order ih =>
      rw [List.foldl_cons]
      apply ih
      split
      · rename_i gone hq
        exact ⟨hrun.1, hrun.2.fetchEvent hq⟩
      · exact hrun
  · exact h

/-- The rest of a batch is enough for the files that its first event does not concern. -/
theorem Following.watched_tail (h : Following s) {i : Fin 2} (hbatch : s.batch = (i, gone) :: rest)
    (hj : (s.files j).fd = none ∨ gone = false ∨ j ≠ i) :
    (s.files j).Watched ((j, true) ∈ rest) := by
  rcases hj with hlost | hdrop
  · exact File.Watched.of_lost hlost
  · refine (h.watched j).mono fun hmem => ?_
    rw [hbatch] at hmem
    rcases List.mem_cons.mp hmem with heq | hmem
    · obtain ⟨rfl, rfl⟩ := Prod.mk.inj heq
      rcases hdrop with hfalse | hne
      · cases hfalse
      · exact absurd rfl hne
    · exact hmem

theorem Following.accounted_tail (h : Following s) {i : Fin 2}
    (hbatch : s.batch = (i, gone) :: rest) (hj : (s.files j).fd = none ∨ j ≠ i) :
    (s.files j).Accounted (s.reloadPending = true ∨ ∃ gone, (j, gone) ∈ rest) := by
  rcases hj with hlost | hne
  · exact File.Accounted.of_lost hlost
  · refine (h.accounted j).mono fun hp => hp.imp_right fun ⟨gone', hmem⟩ => ⟨gone', ?_⟩
    rw [hbatch] at hmem
    rcases List.mem_cons.mp hmem with heq | hmem
    · exact absurd (Prod.mk.inj heq).1 hne
    · exact hmem

theorem Sound.of_following (hp : s.phase = .running) (h : Following s) : Sound s :=
  ⟨fun hne => absurd hp hne, fun _ => h⟩

theorem reopenConfigFileWatch_phase (s : Watch) (now : Nat) (g : Gaps) :
    (s.reopenConfigFileWatch now g).phase = s.phase := by
  unfold Watch.reopenConfigFileWatch
  rw [(Watch.registerConfigFileWatch_frame _ now g).1, (s.openFiles_frame now g).1]

/-- One event of the batch is handled. -/
theorem Sound.handle (h : Sound s) (now : Nat) (g : Gaps)
    (hguard : Guard s (.handle now g)) : Sound (s.handle now g) := by
  unfold Watch.handle
  split
  · exact h
  · rename_i i gone rest hbatch
    have hp : s.phase = .running := by
      by_contra hne
      have hempty := (h.early hne).1
      rw [hbatch] at hempty
      cases hempty
    have hf := h.following hp
    dsimp only
    split
    · rename_i hnone
      have hlost := Option.isNone_iff_eq_none.mp hnone
      have hj : ∀ j, (s.files j).fd = none ∨ j ≠ i := by
        intro j
        by_cases hij : j = i
        · exact .inl (hij ▸ hlost)
        · exact .inr hij
      exact .of_following hp
        ⟨hf.lost, fun j => hf.watched_tail hbatch ((hj j).imp_right .inr),
          fun j => hf.accounted_tail hbatch (hj j)⟩
    · rename_i hsome
      split
      · rename_i hgone
        subst hgone
        refine .of_following ?_ (Following.reopened ?_ ?_)
        · exact (reopenConfigFileWatch_phase _ now g).trans hp
        · intro j
          by_cases hij : j = i
          · subst hij
            exact File.Watched.of_lost (by simp [File.close])
          · simp only [Watch.setFile_files_of_ne _ hij]
            exact hf.watched_tail hbatch (.inr (.inr hij))
        · exact hguard i rest hbatch fun hnone => hsome (Option.isNone_iff_eq_none.mpr hnone)
      · rename_i hkept
        exact .of_following hp (Following.scheduleConfigReload hf.lost
          fun j => hf.watched_tail hbatch (.inr (.inl (Bool.eq_false_iff.mpr hkept))))

/-- A file that is reopened has a descriptor again. -/
theorem reopened_fd {f : File} {g : Gaps} {i : Fin 2}
    (h : (f.fd ≠ none ∧ g.registerOk i = true) ∨ g.recovers i f = true) :
    ((f.opened g i).registeredIn g i).fd ≠ none := by
  have hregister : ∀ f' : File, f'.fd ≠ none → g.registerOk i = true →
      (f'.registeredIn g i).fd ≠ none := by
    intro f' hf' hok
    simp [File.registeredIn, File.register, hok, hf']
  rcases h with ⟨hfd, hok⟩ | hrecovers
  · refine hregister _ ?_ hok
    obtain ⟨v, hv⟩ := Option.ne_none_iff_exists'.mp hfd
    rw [File.opened_of_some hv, File.changes_fd]
    exact hfd
  · simp only [Gaps.recovers, Bool.and_eq_true, Option.isNone_iff_eq_none] at hrecovers
    obtain ⟨⟨⟨hnone, hopen⟩, hok⟩, hsome⟩ := hrecovers
    refine hregister _ ?_ hok
    rw [← f.changes_present] at hsome
    simp [File.opened, File.openFd, hnone, hopen, hsome]

/-- A probe opens what was missing. -/
theorem Sound.probe (h : Sound s) (now : Nat) (g : Gaps)
    (hguard : Guard s (.probe now g)) : Sound (s.probe now g) := by
  unfold Watch.probe
  split
  · rename_i hdue
    obtain ⟨hkeeps, hfinds⟩ := hguard hdue
    have hp : s.phase = .running := by
      simp only [Watch.configProbeDue, Bool.and_eq_true, decide_eq_true_eq] at hdue
      exact hdue.1.1.1.1
    have hf := h.following hp
    have hphase : ({ s with probeDueUs := 0 }.reopenConfigFileWatch now g).phase = .running :=
      (reopenConfigFileWatch_phase _ now g).trans hp
    dsimp only
    split
    · exact .of_following hphase (Following.reopened hf.watched hkeeps)
    · rename_i hlost
      -- Some file stays lost, so that not all of them were recovered.
      have hsome : s.reloadPending = true ∨ ∀ i, g.FindsLoaded i (s.files i) := by
        rcases hfinds with hpending | hall | hfinds
        · exact .inl hpending
        · have hfd : ∀ i, (({ s with probeDueUs := 0 }.reopenConfigFileWatch now g).files i).fd
              ≠ none := by
            intro i
            unfold Watch.reopenConfigFileWatch
            rw [Watch.registerConfigFileWatch_files, Watch.openFiles_files]
            exact reopened_fd (hall i)
          simp [Option.isSome_iff_ne_none, hfd] at hlost
        · exact .inr hfinds
      exact .of_following hphase
        (Following.reopened_loaded hf.watched hf.accounted hkeeps hsome)
  · exact h

/-- The scanner resumes and opens the files anew. -/
theorem Sound.resume (h : Sound s) (now : Nat) (g : Gaps)
    (hguard : Guard s (.resume now g)) : Sound (s.resume now g) := by
  unfold Watch.resume
  split
  · rename_i hrest
    have hclosed : ∀ i, (((s.setFile 0 (s.files 0).close).setFile 1
        ((s.setFile 0 (s.files 0).close).files 1).close).files i) = (s.files i).close := by
      have h01 : (0 : Fin 2) ≠ 1 := by decide
      intro i
      match i with
      | 0 => simp [Watch.setFile_files_of_ne _ h01]
      | 1 => simp [Watch.setFile_files_of_ne _ h01.symm]
    refine .of_following ?_ (Following.reopened ?_ ?_)
    · exact (reopenConfigFileWatch_phase _ now g).trans hrest.1
    · intro i
      rw [hclosed]
      exact File.Watched.of_lost rfl
    · intro i
      rw [hclosed]
      exact hguard hrest i
  · exact h

/-- A loaded file is accounted for. -/
theorem Watch.load_accounted (s : Watch) (i : Fin 2) (pending : Prop) :
    ((s.load i).files i).Accounted pending := by
  intro hne
  exact absurd (by simp [Watch.load]) hne

theorem Watch.load_watched {stale : Fin 2 → Prop} (i : Fin 2)
    (h : ∀ j, (s.files j).Watched (stale j)) (j : Fin 2) :
    ((s.load i).files j).Watched (stale j) := by
  by_cases hij : j = i
  · subst hij
    simp only [Watch.load, Watch.setFile_files_self]
    exact h j
  · simp only [Watch.load, Watch.setFile_files_of_ne _ hij]
    exact h j

theorem Watch.load_fd (s : Watch) (i j : Fin 2) : ((s.load i).files j).fd = (s.files j).fd := by
  by_cases hij : j = i
  · subst hij
    simp [Watch.load]
  · simp [Watch.load, Watch.setFile_files_of_ne _ hij]

/-- A reload takes the contents as they are. -/
theorem Sound.reload (h : Sound s) (now : Nat) (between : List Edit) :
    Sound (s.reload now between) := by
  unfold Watch.reload
  split
  · rename_i hdue
    obtain ⟨hp, hbatch, -, -⟩ := hdue
    have hf := h.following hp
    have hstale : ∀ (i : Fin 2) {p : Prop}, (i, true) ∈ s.batch → p := by
      intro i p hmem
      rw [hbatch] at hmem
      cases hmem
    generalize hcleared : ({ s with reloadPending := false, reloadReadyAfterUs := 0 } : Watch) = t
    have hfiles : t.files = s.files := by rw [← hcleared]
    have ht : t.phase = .running ∧ t.batch = s.batch ∧ t.probeDueUs = s.probeDueUs := by
      rw [← hcleared]
      exact ⟨hp, rfl, rfl⟩
    have hwatched : ∀ i, ((t.load 0).files i).Watched ((i, true) ∈ s.batch) :=
      Watch.load_watched 0 (by rw [hfiles]; exact hf.watched)
    -- File 0 is followed from its own reading on, file 1 is read last.
    have hfirst : ((((t.load 0).edits between).load 1).files 0).Accounted False := by
      have h01 : (0 : Fin 2) ≠ 1 := by decide
      simp only [Watch.load, Watch.setFile_files_of_ne _ h01]
      rw [Watch.edits_files]
      exact (t.load_accounted 0 False).changes (hwatched 0) (hstale 0) _
    have hlast := ((t.load 0).edits between).load_accounted 1 False
    refine .of_following ?_ ⟨?_, ?_, ?_⟩
    · simp only [Watch.load, Watch.setFile_phase, Watch.edits_phase]
      exact ht.1
    · intro i hi
      rw [Watch.load_fd, Watch.edits_files, File.changes_fd, Watch.load_fd, hfiles] at hi
      simp only [Watch.load, Watch.setFile_probeDueUs, Watch.edits_probeDueUs, ht.2.2]
      exact hf.lost i hi
    · refine Watch.load_watched 1 fun i => ?_
      simp only [Watch.load, Watch.setFile_batch, Watch.edits_batch, ht.2.1]
      rw [Watch.edits_files]
      exact (hwatched i).changes _
    · intro i
      match i with
      | 0 => exact hfirst.mono False.elim
      | 1 => exact hlast.mono False.elim
  · exact h

/-- One step keeps the invariant. -/
theorem Sound.next (h : Sound s) {step : Step} (hguard : Guard s step) :
    Sound (s.next step) := by
  cases step with
  | edit e => exact h.edit e
  | init now g => exact h.init now g
  | beginLoop now g => exact h.beginLoop now g hguard
  | fetch order => exact h.fetch order
  | handle now g => exact h.handle now g hguard
  | probe now g => exact h.probe now g hguard
  | reload now between => exact h.reload now between
  | resume now g => exact h.resume now g hguard

theorem Sound.initial (contents : Fin 2 → Option Text) : Sound (Watch.initial contents) :=
  ⟨fun _ => ⟨rfl, fun _ => ⟨rfl, rfl⟩⟩, nofun⟩

/-- The invariant holds on every run. -/
theorem sound_of_reachable (hs : Reachable (system.restrict Guard) s) : Sound s := by
  have hinit : ∀ s, (system.restrict Guard).init s → Sound s := by
    rintro s ⟨contents, rfl⟩
    exact .initial contents
  have hstep : ∀ s step t, Sound s → (system.restrict Guard).step s step t → Sound t := by
    rintro s step t hs ⟨rfl, hguard⟩
    exact hs.next hguard
  exact hs.invariant hinit hstep

/-- With an empty batch every change is noticed. -/
theorem Following.noticed (h : Following s) (hbatch : s.batch = []) : Noticed s := by
  intro i hne
  rcases h.accounted i hne with (hpending | ⟨gone, hmem⟩) | hqueued | hlost
  · exact .inl hpending
  · rw [hbatch] at hmem
    cases hmem
  · exact .inr (.inl hqueued)
  · exact .inr (.inr ⟨hlost, h.lost i hlost⟩)

/-- In every run that keeps clear of the unwatched moments, a file that differs from what
was loaded has a reload or an event pending, or is going to be probed. -/
theorem changes_noticed (s : Watch) (hs : Reachable (system.restrict Guard) s)
    (hrest : AtRest s) : Noticed s :=
  ((sound_of_reachable hs).following hrest.1).noticed hrest.2

instance (g : Gaps) (i : Fin 2) (f : File) : Decidable (g.Keeps i f) :=
  inferInstanceAs (Decidable (_ → _))

instance (g : Gaps) (i : Fin 2) (f : File) : Decidable (g.FindsLoaded i f) :=
  inferInstanceAs (Decidable (_ → _))

instance (g : Gaps) (i : Fin 2) (f : File) : Decidable (g.StartsLoaded i f) :=
  inferInstanceAs (Decidable (_ → _ → _ ∧ _ ∧ _))

theorem Guard.handle_iff (now : Nat) (g : Gaps) {i : Fin 2} (hbatch : s.batch = (i, true) :: rest) :
    Guard s (.handle now g) ↔ ((s.files i).fd ≠ none →
      ∀ j, g.Keeps j ((s.setFile i (s.files i).close).files j)) := by
  constructor
  · exact fun h => h i rest hbatch
  · intro h i' rest' hbatch'
    cases hbatch.symm.trans hbatch'
    exact h

instance Guard.decidable (s : Watch) : ∀ step, Decidable (Guard s step)
  | .edit _ => isTrue trivial
  | .init _ _ => isTrue trivial
  | .beginLoop _ g =>
    inferInstanceAs (Decidable (s.phase = .initialized → ∀ i, g.StartsLoaded i (s.files i)))
  | .fetch _ => isTrue trivial
  | .handle now g =>
    match hbatch : s.batch with
    | [] => isTrue fun _ _ h => nomatch hbatch.symm.trans h
    | (_, false) :: _ => isTrue fun _ _ h => nomatch hbatch.symm.trans h
    | (i, true) :: _ =>
      decidable_of_iff ((s.files i).fd ≠ none →
        ∀ j, g.Keeps j ((s.setFile i (s.files i).close).files j))
        (Guard.handle_iff now g hbatch).symm
  | .probe now g =>
    inferInstanceAs (Decidable (s.configProbeDue now = true →
      (∀ i, g.Keeps i (s.files i)) ∧
        (s.reloadPending = true ∨
          (∀ i, ((s.files i).fd ≠ none ∧ g.registerOk i = true) ∨
            g.recovers i (s.files i) = true) ∨
          ∀ i, g.FindsLoaded i (s.files i))))
  | .reload _ _ => isTrue trivial
  | .resume _ g => inferInstanceAs (Decidable (AtRest s → ∀ i, g.Keeps i (s.files i).close))

/-- System calls that succeed, with nothing between them. -/
def Gaps.quiet : Gaps where
  openOk _ := true
  registerOk _ := true
  beforeOpen := []
  betweenOpens := []
  beforeRegister := []
  betweenRegisters := []
  afterRegister := []

/-- Both files are there and empty. -/
def emptyFiles : Watch := Watch.initial fun _ => some []

/-- `profiles.ini` is replaced while the loop runs, the event is handled, and the file
is removed while it is reloaded. -/
def replacedRun : List Step :=
  [.init 0 .quiet, .beginLoop 0 .quiet, .edit ⟨1, .replace ['a']⟩, .fetch [0, 1],
    .handle 5 .quiet, .reload 250005 [⟨0, .write ['b']⟩], .edit ⟨1, .remove⟩]

theorem changes_noticed_replaced :
    AtRest (replacedRun.foldl Watch.next emptyFiles) ∧
      Noticed (replacedRun.foldl Watch.next emptyFiles) := by
  have hrest : AtRest (replacedRun.foldl Watch.next emptyFiles) := by decide +kernel
  have hstep : ∀ s step, Guard s step → (system.restrict Guard).step s step (s.next step) :=
    fun _ _ hguard => ⟨rfl, hguard⟩
  have hreach : Reachable (system.restrict Guard) (replacedRun.foldl Watch.next emptyFiles) :=
    .of_admits hstep (.start ⟨_, rfl⟩) (by decide +kernel)
  exact ⟨hrest, changes_noticed _ hreach hrest⟩

/-- `config.ini` is written between the start of the scanner and its loop. -/
def earlyWriteRun : List Step :=
  [.init 0 .quiet, .edit ⟨0, .write ['a']⟩, .beginLoop 0 .quiet]

/-- An edit between the start and the registration is forgotten: the loop is at rest, the
file is not what was loaded, and nothing is pending. -/
theorem change_before_registration_lost :
    ∃ s, Reachable system s ∧ AtRest s ∧ ¬ Noticed s := by
  refine ⟨earlyWriteRun.foldl Watch.next emptyFiles, ?_, by decide +kernel, by decide +kernel⟩
  have hstep : ∀ s step, True → system.step s step (s.next step) := fun _ _ _ => rfl
  exact .of_admits hstep (.start ⟨_, rfl⟩) (by decide +kernel)

end ShadowMount.ConfigWatch
