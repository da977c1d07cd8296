import ShadowMount.Storage.Model

/-!
# Storage - what the parts of a transfer do

One lemma for each part of a transfer: what it leaves at the destination, what it
leaves to be flushed, and what it says about the log.  Throughout, an action with the
result {lit}`none` has succeeded.
-/

namespace ShadowMount.Storage

open Foundation

variable {r r₁ r' : Option Errno} {phase : Phase} {c : Call} {effect : World → Except Errno World}
  {base : Option Tree} {before : Bytes} {path : Path} {side : Side}

abbrev State := Machine World Step Errno

/-- A statement about the world now and after every call so far. -/
def Always (I : World → Prop) (m : State) : Prop :=
  I m.world ∧ ∀ e ∈ m.log, I e.world

/-- The calls whose failure makes a transfer fail: flushes and closes, but for the
handle that keeps the session of the destination. -/
def Call.isChecked : Call → Bool
  | .startFsync _ | .fdatasync _ | .close _ _ | .closedir .source _ => true
  | _ => false

/-- All flushes and closes so far have succeeded. -/
def Flawless (m : State) : Prop :=
  ∀ e ∈ m.log, e.call.call.isChecked = true → e.error = none

/-- All steps of cleanups so far have succeeded. -/
def CleanupOk (m : State) : Prop :=
  ∀ e ∈ m.log, e.call.phase = .cleanup → e.error = none

variable {m m' : State}

theorem CleanupOk.of_log (h : CleanupOk m') (hlog : m.log ⊆ m'.log) : CleanupOk m :=
  fun e he => h e (hlog he)

/-- The files that are not flushed are those that wait in the window. -/
def Flushed (window : Window) (m : State) : Prop :=
  ∀ path ∈ m.world.unflushed, path ∈ window.getD []

/-- An action of a transfer: it leaves the source alone, and it fails if a flush or a
close fails. -/
structure Sound (m : State) (result : Option Errno) (m' : State) : Prop where
  kept : ∀ t, Always (fun w => w.source = t) m → Always (fun w => w.source = t) m'
  flawless : result = none → Flawless m → Flawless m'
  log : m.log ⊆ m'.log

theorem Sound.refl (m : State) (result : Option Errno) : Sound m result m :=
  ⟨fun _ h => h, fun _ h => h, List.Subset.refl _⟩

variable {m₁ m₂ : State}

theorem Sound.trans (h₁ : Sound m r₁ m₁) (h₂ : Sound m₁ r m₂) (hr : r = none → r₁ = none) :
    Sound m r m₂ where
  kept t h := h₂.kept t (h₁.kept t h)
  flawless hnone h := h₂.flawless hnone (h₁.flawless (hr hnone) h)
  log := List.Subset.trans h₁.log h₂.log

/-- A longer log says more. -/
theorem Sound.weaken (h : Sound m r m') (hr : r' = none → r = none) : Sound m r' m' where
  kept := h.kept
  flawless hnone hm := h.flawless (hr hnone) hm
  log := h.log

/-- What one call did. -/
structure Called (phase : Phase) (c : Call) (effect : World → Except Errno World) (m : State)
    (r : Option Errno) (m' : State) : Prop where
  log : m'.log = ⟨⟨phase, c⟩, r, m'.world⟩ :: m.log
  done : r = none → effect m.world = .ok m'.world
  failed : r ≠ none → m'.world = m.world

theorem countedCall_spec (phase : Phase) (c : Call) (effect : Nat → World → Except Errno World)
    (m : State) : Satisfies (countedCall ⟨phase, c⟩ effect) m fun r m' =>
      Called phase c (effect r.2) m r.1 m' := by
  refine satisfies_countedCall ?_ ?_
  · intro e count
    exact ⟨rfl, nofun, fun _ => rfl⟩
  · intro count world hok
    exact ⟨rfl, fun _ => hok, fun h => absurd rfl h⟩

/-- A call has its effect or none. -/
theorem act_spec (phase : Phase) (c : Call) (effect : World → Except Errno World) (m : State) :
    Satisfies (act phase c effect) m (Called phase c effect m) := by
  refine (countedCall_spec phase c (fun _ => effect) m).seq ?_
  intro r m' h
  exact h

theorem Called.always (h : Called phase c effect m r m') {I : World → Prop} (hI : I m'.world)
    (hm : Always I m) : Always I m' := by
  refine ⟨hI, ?_⟩
  intro e he
  rw [h.log] at he
  rcases List.mem_cons.mp he with rfl | he
  · exact hI
  · exact hm.2 e he

theorem Called.grown (h : Called phase c effect m r m') : m.log ⊆ m'.log := by
  rw [h.log]
  exact List.subset_cons_self _ _

theorem Called.cleanupOk (h : Called phase c effect m r m') (hphase : phase = .cleanup)
    (hm : CleanupOk m') : r = none := by
  unfold CleanupOk at hm
  rw [h.log] at hm
  exact hm _ List.mem_cons_self hphase

theorem Called.flawless (h : Called phase c effect m r m')
    (hchecked : c.isChecked = true → r = none) (hm : Flawless m) : Flawless m' := by
  intro e he
  rw [h.log] at he
  rcases List.mem_cons.mp he with rfl | he
  · exact hchecked
  · exact hm e he

/-- A call that leaves the source alone and passes its error on is sound. -/
theorem Called.sound (h : Called phase c effect m r m')
    (heffect : ∀ w w', effect w = .ok w' → w'.source = w.source)
    (hr : r' = none → c.isChecked = true → r = none) : Sound m r' m' where
  kept := by
    intro t hm
    refine h.always ?_ hm
    by_cases hnone : r = none
    · exact (heffect _ _ (h.done hnone)).trans hm.1
    · rw [h.failed hnone]
      exact hm.1
  flawless hnone := h.flawless (hr hnone)
  log := h.grown

/-- A call that only asks. -/
structure Asked (phase : Phase) (c : Call) (m : State) (r : Option Errno) (m' : State) : Prop where
  world : m'.world = m.world
  always : ∀ I, Always I m → Always I m'
  flawless : (c.isChecked = true → r = none) → Flawless m → Flawless m'
  log : m.log ⊆ m'.log
  complete : phase = .cleanup → CleanupOk m' → r = none

theorem Called.asked (h : Called phase c effect m r m')
    (heffect : ∀ w w', effect w = .ok w' → w' = w) : Asked phase c m r m' := by
  have hworld : m'.world = m.world := by
    by_cases hr : r = none
    · exact heffect _ _ (h.done hr)
    · exact h.failed hr
  refine ⟨hworld, ?_, h.flawless, h.grown, h.cleanupOk⟩
  intro I hm
  refine h.always ?_ hm
  rw [hworld]
  exact hm.1

theorem Asked.sound (h : Asked phase c m r m') (hr : r' = none → c.isChecked = true → r = none) :
    Sound m r' m' where
  kept _ hm := h.always _ hm
  flawless hnone := h.flawless (hr hnone)
  log := h.log

/-- A question leaves the world alone. -/
theorem ask_spec (phase : Phase) (c : Call) (m : State) :
    Satisfies (ask phase c) m (Asked phase c m) := by
  refine (act_spec phase c Except.ok m).mono ?_
  intro r m' h
  exact h.asked fun w w' heq => (Except.ok.inj heq).symm

theorem cancelled_asked (m : State) :
    Satisfies cancelled m fun r m' => Asked .transfer .cancelled m r m' := by
  refine (ask_spec .transfer .cancelled m).seq ?_
  intro r m' h
  cases r with
  | none => exact h
  | some e => exact ⟨h.world, h.always, fun _ => h.flawless fun hc => (by cases hc), h.log,
      nofun⟩

theorem cancelled_spec (m : State) :
    Satisfies cancelled m fun r m' => m'.world = m.world ∧ Sound m r m' := by
  refine (cancelled_asked m).mono ?_
  intro r m' h
  exact ⟨h.world, h.sound fun hnone _ => hnone⟩

theorem joinStoragePath_spec (opts : Options) (phase : Phase) (side : Side) (path : Path)
    (m : State) :
    Satisfies (joinStoragePath opts phase side path) m (Asked phase (.joinPath side path) m) := by
  refine (act_spec phase _ _ m).mono ?_
  intro r m' h
  refine h.asked ?_
  intro w w' heq
  split at heq
  · cases heq
  · exact (Except.ok.inj heq).symm

theorem orElse_eq_none : orElse r r' = none ↔ r = none ∧ r' = none := by
  cases r with
  | none => simp [orElse]
  | some e => simp [orElse]

theorem unlessFailed_spec {status : Option Errno} {action : Action}
    {post : Option Errno → State → Prop} (hskip : ∀ e, status = some e → post (some e) m)
    (hrun : status = none → Satisfies action m post) :
    Satisfies (unlessFailed status action) m post := by
  cases status with
  | none => exact hrun rfl
  | some e => exact hskip e rfl

theorem onlyIf_spec {condition : Bool} {action : Action} {post : Option Errno → State → Prop}
    (hskip : condition = false → post none m) (hrun : condition = true → Satisfies action m post) :
    Satisfies (onlyIf condition action) m post := by
  cases condition with
  | false => exact hskip rfl
  | true => exact hrun rfl

/-- A call that puts something new. -/
theorem put_spec (path : Path) (put : World → World) (hc : c.isChecked = false)
    (heffect : ∀ w, effect w =
      if (lookup path w.destination).isSome then .error .EEXIST else .ok (put w))
    (hsource : ∀ w, (put w).source = w.source) (m : State) :
    Satisfies (act .transfer c effect) m fun r m' =>
      (∀ r', Sound m r' m') ∧ (r ≠ none → m'.world = m.world) ∧
        (r = none → lookup path m.world.destination = none ∧ m'.world = put m.world) := by
  have hok : ∀ w w', effect w = .ok w' → lookup path w.destination = none ∧ w' = put w := by
    intro w w' heq
    rw [heffect] at heq
    split at heq
    · cases heq
    · rename_i habsent
      exact ⟨by simpa using habsent, (Except.ok.inj heq).symm⟩
  refine (act_spec .transfer c effect m).mono ?_
  intro r m' h
  refine ⟨?_, h.failed, fun hr => hok _ _ (h.done hr)⟩
  intro r'
  refine h.sound ?_ ?_
  · intro w w' heq
    rw [(hok w w' heq).2]
    exact hsource w
  · intro _ hc'
    rw [hc] at hc'
    cases hc'

/-- A flush that succeeds takes the file off the unflushed ones. -/
theorem flush_spec (path : Path) (m : State) :
    Satisfies (act .transfer (.fdatasync path) (World.flush path)) m fun r m' =>
      Sound m r m' ∧ m'.world.destination = m.world.destination ∧
        (r = none → m'.world.unflushed = m.world.unflushed.filter fun q => decide (q ≠ path)) ∧
        (r ≠ none → m'.world = m.world) := by
  refine (act_spec .transfer (.fdatasync path) (World.flush path) m).mono ?_
  intro r m' h
  have heffect : ∀ w w', World.flush path w = .ok w' → w'.source = w.source := by
    intro w w' heq
    rw [← Except.ok.inj heq]
  refine ⟨h.sound heffect (fun hr _ => hr), ?_, ?_, h.failed⟩
  · by_cases hr : r = none
    · rw [← Except.ok.inj (h.done hr)]
    · rw [h.failed hr]
  · intro hr
    rw [← Except.ok.inj (h.done hr)]

/-- One file is flushed and closed. -/
theorem finishPendingFile_spec (path : Path) (status : Option Errno) (m : State) :
    Satisfies (finishPendingFile path status) m fun r m' =>
      Sound m r m' ∧ m'.world.destination = m.world.destination ∧
        (r = none → status = none ∧
          m'.world.unflushed = m.world.unflushed.filter fun q => decide (q ≠ path)) := by
  unfold finishPendingFile
  -- the three steps are a check for cancellation, the flush and the close
  refine .andThen (fun r m₁ => m₁.world = m.world ∧ Sound m r m₁ ∧
    (r = none → status = none)) ?_ ?_
  · refine unlessFailed_spec ?_ ?_
    · rintro e rfl
      exact ⟨rfl, .refl m _, id⟩
    · intro hstatus
      refine (cancelled_spec m).mono ?_
      rintro r m₁ ⟨hworld, hsound⟩
      exact ⟨hworld, hsound, fun _ => hstatus⟩
  · rintro r₁ m₁ ⟨hworld, hsound, hstatus⟩
    refine .andThen (fun r m₂ => Sound m r m₂ ∧
      m₂.world.destination = m.world.destination ∧ (r = none → status = none ∧
        m₂.world.unflushed = m.world.unflushed.filter fun q => decide (q ≠ path))) ?_ ?_
    · refine unlessFailed_spec ?_ ?_
      · rintro e rfl
        exact ⟨hsound, by rw [hworld], nofun⟩
      · intro hr₁
        refine (flush_spec path m₁).mono ?_
        rintro r₂ m₂ ⟨hsound₂, hdest, hflush, -⟩
        refine ⟨hsound.trans hsound₂ (fun _ => hr₁), by rw [hdest, hworld], ?_⟩
        intro hr₂
        rw [hflush hr₂, hworld]
        exact ⟨hstatus hr₁, rfl⟩
    · rintro r₂ m₂ ⟨hsound₂, hdest, hflush⟩
      refine (ask_spec .transfer (.close .destination path) m₂).seq ?_
      intro r₃ m₃ hclose
      refine .pure ⟨?_, by rw [hclose.world, hdest], ?_⟩
      · exact hsound₂.trans (hclose.sound fun h _ => (orElse_eq_none.mp h).2)
          (fun h => (orElse_eq_none.mp h).1)
      · intro hr
        rw [hclose.world]
        exact hflush (orElse_eq_none.mp hr).1

/-- The oldest pending file is flushed, if there is one. -/
theorem finishOldestFile_spec (pending : List Path) (status : Option Errno) (m : State) :
    Satisfies (finishOldestFile pending status) m fun r m' =>
      Sound m r.1 m' ∧ m'.world.destination = m.world.destination ∧
        (r.1 = none → (∀ q ∈ m.world.unflushed, q ∈ pending) →
          ∀ q ∈ m'.world.unflushed, q ∈ r.2) := by
  cases pending with
  | nil =>
    refine .pure ⟨.refl m _, rfl, ?_⟩
    intro _ hm
    exact hm
  | cons path rest =>
    refine (finishPendingFile_spec path status m).seq ?_
    rintro r m' ⟨hsound, hdest, hflush⟩
    refine .pure ⟨hsound, hdest, ?_⟩
    intro hr hm q hq
    rw [(hflush hr).2, List.mem_filter, decide_eq_true_eq] at hq
    rcases List.mem_cons.mp (hm q hq.1) with rfl | hrest
    · exact absurd rfl hq.2
    · exact hrest

/-- The waiting files are flushed and closed. -/
theorem finishPendingFiles_spec (paths : List Path) (status : Option Errno) (m : State) :
    Satisfies (finishPendingFiles paths status) m fun r m' =>
      Sound m r m' ∧ m'.world.destination = m.world.destination ∧
        (r = none → status = none ∧
          ∀ q ∈ m'.world.unflushed, q ∈ m.world.unflushed ∧ q ∉ paths) := by
  induction paths generalizing status m with
  | nil =>
    refine .pure ⟨.refl m _, rfl, ?_⟩
    intro hstatus
    exact ⟨hstatus, fun q hq => ⟨hq, List.not_mem_nil⟩⟩
  | cons path rest ih =>
    refine (finishPendingFile_spec path status m).seq ?_
    rintro r₁ m₁ ⟨hsound₁, hdest₁, hflush₁⟩
    refine (ih (orElse status r₁) m₁).mono ?_
    rintro r m' ⟨hsound, hdest, hflush⟩
    refine ⟨hsound₁.trans hsound ?_, hdest.trans hdest₁, ?_⟩
    · intro hr
      exact (orElse_eq_none.mp (hflush hr).1).2
    · intro hr
      obtain ⟨hstatus, hleft⟩ := hflush hr
      obtain ⟨hstatus, hr₁⟩ := orElse_eq_none.mp hstatus
      refine ⟨hstatus, ?_⟩
      intro q hq
      obtain ⟨hmem, hrest⟩ := hleft q hq
      rw [(hflush₁ hr₁).2, List.mem_filter, decide_eq_true_eq] at hmem
      exact ⟨hmem.1, by simp [hmem.2, hrest]⟩

/-- A part of the copy of a file: it adds to what is there, all that it should if it
succeeds. -/
structure Wrote (path : Path) (base : Option Tree) (before added : Bytes) (m : State)
    (r : Option Errno) (m' : State) : Prop where
  sound : Sound m r m'
  unflushed : m'.world.unflushed = m.world.unflushed
  data : ∃ bytes, m'.world.destination = setAt path (some (.file bytes)) base ∧
    (r = none → bytes = before ++ added)

/-- A write appends a part of its buffer to the file. -/
theorem write_spec (path : Path) (buffer : Bytes) (m : State)
    (hdest : m.world.destination = setAt path (some (.file before)) base) :
    Satisfies (countedCall ⟨.transfer, .write path⟩ fun count =>
        World.write path (buffer.take count)) m fun r m' =>
      Wrote path base before (buffer.take r.2) m r.1 m' := by
  refine (countedCall_spec _ _ _ m).mono ?_
  intro r m' h
  have hsource : ∀ w w', World.write path (buffer.take r.2) w = .ok w' →
      w'.source = w.source := by
    intro w w' heq
    rw [← Except.ok.inj heq]
  refine ⟨h.sound hsource (fun hr _ => hr), ?_, ?_⟩
  · by_cases hr : r.1 = none
    · rw [← Except.ok.inj (h.done hr)]
    · rw [h.failed hr]
  · by_cases hr : r.1 = none
    · refine ⟨before ++ buffer.take r.2, ?_, fun _ => rfl⟩
      rw [← Except.ok.inj (h.done hr)]
      simp only [hdest, modifyAt_setAt]
      rfl
    · exact ⟨before, by rw [h.failed hr, hdest], fun hnone => absurd hnone hr⟩

theorem Wrote.refl (hdest : m.world.destination = setAt path (some (.file before)) base)
    (r : Option Errno) : Wrote path base before [] m r m :=
  ⟨.refl m r, rfl, before, hdest, fun _ => (List.append_nil before).symm⟩

/-- Of a failed write it does not matter what it was to add. -/
theorem Wrote.fail {added added' : Bytes} (h : Wrote path base before added m r m')
    (hr : r' ≠ none) : Wrote path base before added' m r' m' where
  sound := h.sound.weaken (fun hnone => absurd hnone hr)
  unflushed := h.unflushed
  data := by
    rcases h.data with ⟨bytes, hbytes, -⟩
    exact ⟨bytes, hbytes, fun hnone => absurd hnone hr⟩

theorem Wrote.trans {added₁ added₂ : Bytes} (h₁ : Wrote path base before added₁ m none m₁)
    (h₂ : Wrote path base (before ++ added₁) added₂ m₁ r m₂) :
    Wrote path base before (added₁ ++ added₂) m r m₂ where
  sound := h₁.sound.trans h₂.sound (fun _ => rfl)
  unflushed := h₂.unflushed.trans h₁.unflushed
  data := by
    rcases h₂.data with ⟨bytes, hbytes, hdata⟩
    exact ⟨bytes, hbytes, fun hr => by rw [hdata hr, List.append_assoc]⟩

theorem Wrote.of_world (hdest : m.world.destination = setAt path (some (.file before)) base)
    (hworld : m'.world = m.world) (hsound : Sound m r m') : Wrote path base before [] m r m' :=
  ⟨hsound, by rw [hworld], before, by rw [hworld, hdest],
    fun _ => (List.append_nil before).symm⟩

theorem Wrote.destination {added : Bytes} (h : Wrote path base before added m none m') :
    m'.world.destination = setAt path (some (.file (before ++ added))) base := by
  rcases h.data with ⟨bytes, hbytes, hdata⟩
  rw [hbytes, hdata rfl]

/-- A buffer is written in parts. -/
theorem writeStorageBuffer_spec (path : Path) (buffer : Bytes)
    (hdest : m.world.destination = setAt path (some (.file before)) base) :
    Satisfies (writeStorageBuffer path buffer) m (Wrote path base before buffer m) := by
  induction hlength : buffer.length using Nat.strongRecOn generalizing buffer before m with
  | _ n ih =>
    rw [writeStorageBuffer]
    split
    · rename_i hnil
      rw [hnil]
      exact .pure (Wrote.refl hdest _)
    · rename_i hne
      refine (cancelled_spec m).seq ?_
      rintro r₁ m₁ ⟨hworld₁, hsound₁⟩
      have hwrote₁ := Wrote.of_world hdest hworld₁ hsound₁
      cases r₁ with
      | some e => exact .pure (hwrote₁.fail (by simp))
      | none =>
        refine (write_spec path buffer m₁ hwrote₁.destination).seq ?_
        rintro ⟨r₂, count⟩ m₂ hwrote₂
        have hwrote := hwrote₁.trans hwrote₂
        cases r₂ with
        | some e => exact .pure (hwrote.fail (by simp))
        | none =>
          simp only
          split
          · exact .pure (hwrote.fail (by simp))
          · rename_i hcount
            -- the rest of the buffer is shorter
            have hne' : buffer.length ≠ 0 := by simpa using hne
            have hshorter : (buffer.drop count).length < n := by
              rw [List.length_drop]
              omega
            refine (ih _ hshorter _ hwrote.destination rfl).mono ?_
            intro r m' hrest
            have htotal := hwrote.trans hrest
            rw [List.nil_append, List.take_append_drop] at htotal
            exact htotal

/-- The bytes are copied in order. -/
theorem copyData_spec (path : Path) (size : Nat) (rest : Bytes)
    (hdest : m.world.destination = setAt path (some (.file before)) base) :
    Satisfies (copyData path size rest) m (Wrote path base before rest m) := by
  induction hlength : rest.length using Nat.strongRecOn generalizing rest before m with
  | _ n ih =>
    rw [copyData]
    refine (cancelled_spec m).seq ?_
    rintro r₁ m₁ ⟨hworld₁, hsound₁⟩
    have hwrote₁ := Wrote.of_world hdest hworld₁ hsound₁
    cases r₁ with
    | some e => exact .pure (hwrote₁.fail (by simp))
    | none =>
      refine (countedCall_spec .transfer (.read path) _ m₁).seq ?_
      rintro ⟨r₂, count⟩ m₂ hread
      have hasked := hread.asked fun w w' heq => (Except.ok.inj heq).symm
      have hwrote₂ := hwrote₁.trans
        (Wrote.of_world hwrote₁.destination hasked.world (hasked.sound fun hr _ => hr))
      cases r₂ with
      | some e => exact .pure (hwrote₂.fail (by simp))
      | none =>
        simp only
        split
        · rename_i hnil
          rw [hnil]
          exact .pure hwrote₂
        · rename_i hne
          refine .bind
            ((writeStorageBuffer_spec path _ hwrote₂.destination).mono ?_)
          rintro r₃ m₃ hwrote₃
          have hwrote := hwrote₂.trans hwrote₃
          cases r₃ with
          | some e => exact .pure (hwrote.fail (by simp))
          | none =>
            have hne' : rest.length ≠ 0 := by simpa using hne
            refine (ih _ ?_ _ hwrote.destination rfl).mono ?_
            · rw [List.length_drop]
              omega
            · intro r m' hrest
              have htotal := hwrote.trans hrest
              rw [List.nil_append, List.nil_append, List.take_append_drop] at htotal
              exact htotal

theorem World.unlink_eq_ok {w w' : World} (h : World.unlink side path w = .ok w') :
    w' = w.setTree side (setAt path none (w.tree side)) := by
  unfold World.unlink at h
  split at h
  · cases h
  · cases h
  · exact (Except.ok.inj h).symm

theorem World.rmdir_eq_ok {w w' : World} (h : World.rmdir side path w = .ok w') :
    w' = w.setTree side (setAt path none (w.tree side)) := by
  unfold World.rmdir at h
  split at h
  · exact (Except.ok.inj h).symm
  · cases h
  · cases h

@[simp]
theorem World.tree_setTree (w : World) (side : Side) (t : Option Tree) :
    (w.setTree side t).tree side = t := by
  cases side <;> rfl

/-- Part of a removal: all but the tree of one side stays as it is, a failed close is
reported, and a cleanup whose steps all succeed reports no error. -/
structure Removing (phase : Phase) (side : Side) (m : State) (r : Option Errno) (m' : State) :
    Prop where
  rest : ∀ I K : World → Prop, (∀ w t, I w → I (w.setTree side t)) → (∀ w, I w → K w) →
    I m.world → (∀ e ∈ m.log, K e.world) → I m'.world ∧ ∀ e ∈ m'.log, K e.world
  flawless : r = none → Flawless m → Flawless m'
  log : m.log ⊆ m'.log
  complete : phase = .cleanup → CleanupOk m' → r = none

theorem Removing.trans (h₁ : Removing phase side m r₁ m₁) (h₂ : Removing phase side m₁ r m₂)
    (hr : r = none → r₁ = none) : Removing phase side m r m₂ where
  rest I K hI hK hm hlog :=
    h₂.rest I K hI hK (h₁.rest I K hI hK hm hlog).1 (h₁.rest I K hI hK hm hlog).2
  flawless hnone h := h₂.flawless hnone (h₁.flawless (hr hnone) h)
  log := List.Subset.trans h₁.log h₂.log
  complete := h₂.complete

theorem Removing.both {r₂ : Option Errno} (h₁ : Removing phase side m r₁ m₁)
    (h₂ : Removing phase side m₁ r₂ m₂) : Removing phase side m (orElse r₁ r₂) m₂ where
  rest I K hI hK hm hlog :=
    h₂.rest I K hI hK (h₁.rest I K hI hK hm hlog).1 (h₁.rest I K hI hK hm hlog).2
  flawless hnone h := h₂.flawless (orElse_eq_none.mp hnone).2
    (h₁.flawless (orElse_eq_none.mp hnone).1 h)
  log := List.Subset.trans h₁.log h₂.log
  complete hphase h := orElse_eq_none.mpr
    ⟨h₁.complete hphase (h.of_log h₂.log), h₂.complete hphase h⟩

theorem Asked.removing (h : Asked phase c m r m') (side : Side) : Removing phase side m r m' where
  rest I K _ hK hm hlog := by
    rw [h.world]
    exact ⟨hm, (h.always K ⟨hK _ hm, hlog⟩).2⟩
  flawless hnone := h.flawless fun _ => hnone
  log := h.log
  complete := h.complete

theorem Called.removing (h : Called phase c effect m r m') (path : Path)
    (heffect : ∀ w w', effect w = .ok w' → w' = w.setTree side (setAt path none (w.tree side))) :
    Removing phase side m r m' ∧ ∃ node,
      m'.world.tree side = setAt path node (m.world.tree side) ∧ (r = none → node = none) := by
  refine ⟨⟨?_, fun hr => h.flawless fun _ => hr, h.grown, h.cleanupOk⟩, ?_⟩
  · intro I K hI hK hm hlog
    have hafter : I m'.world := by
      by_cases hr : r = none
      · rw [heffect _ _ (h.done hr)]
        exact hI _ _ hm
      · rw [h.failed hr]
        exact hm
    exact ⟨hafter, (h.always (hK _ hafter) ⟨hK _ hm, hlog⟩).2⟩
  · by_cases hr : r = none
    · exact ⟨none, by rw [heffect _ _ (h.done hr), World.tree_setTree], fun _ => rfl⟩
    · refine ⟨lookup path (m.world.tree side), ?_, fun hnone => absurd hnone hr⟩
      rw [setAt_lookup, h.failed hr]

/-- The result of a removal. -/
def Removed (phase : Phase) (side : Side) (path : Path) (m : State) (r : Option Errno)
    (m' : State) : Prop :=
  Removing phase side m r m' ∧ ∃ node,
    m'.world.tree side = setAt path node (m.world.tree side) ∧ (r = none → node = none)

/-- Nothing was taken away. -/
theorem Removing.unchanged (h : Removing phase side m r m') (hworld : m'.world = m.world)
    (hr : r ≠ none) : Removed phase side path m r m' :=
  ⟨h, lookup path (m.world.tree side), by rw [setAt_lookup, hworld],
    fun hnone => absurd hnone hr⟩

/-- A file, or a node that is neither file nor directory, is taken away. -/
theorem deleteLeaf_spec (phase : Phase) (side : Side) (path : Path) (m : State) :
    Satisfies (ask phase (.lstat side path) >>= fun r => match r with
      | some e => Pure.pure (some e)
      | none => act phase (.unlink side path) (World.unlink side path)) m
      (Removed phase side path m) := by
  refine (ask_spec phase _ m).seq ?_
  intro r₁ m₁ hstat
  cases r₁ with
  | some e => exact .pure ((hstat.removing side).unchanged hstat.world (by simp))
  | none =>
    refine (act_spec phase _ _ m₁).mono ?_
    intro r m' h
    obtain ⟨hremoving, hplace⟩ := h.removing path fun w w' => World.unlink_eq_ok
    rw [hstat.world] at hplace
    exact ⟨(hstat.removing side).trans hremoving fun _ => rfl, hplace⟩

mutual

/-- A removal takes away what is at the path, or fails. -/
theorem deleteTree_spec (opts : Options) (phase : Phase) (side : Side) : ∀ (tree : Tree)
    (path : Path) (m : State), lookup path (m.world.tree side) = some tree →
    Satisfies (deleteTree opts phase side tree path) m (Removed phase side path m)
  | .file bytes, path, m, _ => deleteLeaf_spec phase side path m
  | .other, path, m, _ => deleteLeaf_spec phase side path m
  | .dir entries, path, m, hlookup => by
    refine (ask_spec phase _ m).seq ?_
    intro r₁ m₁ hstat
    cases r₁ with
    | some e => exact Satisfies.pure ((hstat.removing side).unchanged hstat.world (by simp))
    | none =>
      refine (ask_spec phase _ m₁).seq ?_
      intro r₂ m₂ hopen
      have hopened := (hstat.removing side).trans (hopen.removing side) fun _ => rfl
      have hworld := hopen.world.trans hstat.world
      cases r₂ with
      | some e => exact .pure (hopened.unchanged hworld (by simp))
      | none =>
        rw [← hworld] at hlookup
        refine .bind
          ((deleteEntries_spec opts phase side entries path m₂ hlookup).mono ?_)
        rintro r₃ m₃ ⟨hremoving₃, left, hleft, hnil⟩
        rw [hworld] at hleft
        refine (ask_spec phase _ m₃).seq ?_
        intro r₄ m₄ hclose
        have hclosed := (hopened.trans hremoving₃ fun _ => rfl).both (hclose.removing side)
        rw [← hclose.world] at hleft
        cases herror : orElse r₃ r₄ with
        | some e =>
          refine .pure ⟨?_, some (.dir left), hleft, nofun⟩
          rw [← herror]
          exact hclosed
        | none =>
          refine (act_spec phase _ _ m₄).mono ?_
          intro r m' h
          obtain ⟨hremoving, node, hnode, hnone⟩ :=
            h.removing path fun w w' => World.rmdir_eq_ok
          refine ⟨hclosed.trans hremoving fun _ => herror, node, ?_, hnone⟩
          rw [hnode, hleft, setAt_setAt]

/-- The entries of a directory are removed one by one. -/
theorem deleteEntries_spec (opts : Options) (phase : Phase) (side : Side) : ∀ (entries : Forest)
    (path : Path) (m : State), lookup path (m.world.tree side) = some (.dir entries) →
    Satisfies (deleteEntries opts phase side entries path) m fun r m' =>
      Removing phase side m r m' ∧ ∃ left,
        m'.world.tree side = setAt path (some (.dir left)) (m.world.tree side) ∧
        (r = none → left = .nil)
  | .nil, path, m, hlookup => by
    refine (ask_spec phase _ m).mono ?_
    intro r m' h
    refine ⟨h.removing side, .nil, ?_, fun _ => rfl⟩
    rw [h.world, ← hlookup, setAt_lookup]
  | .cons name tree rest, path, m, hlookup => by
    have hsame : m.world.tree side =
        setAt path (some (.dir (.cons name tree rest))) (m.world.tree side) := by
      rw [← hlookup, setAt_lookup]
    refine (ask_spec phase _ m).seq ?_
    intro r₁ m₁ hread
    cases r₁ with
    | some e =>
      refine .pure
        ⟨hread.removing side, .cons name tree rest, ?_, nofun⟩
      rw [hread.world]
      exact hsame
    | none =>
      refine (joinStoragePath_spec opts phase side _ m₁).seq ?_
      intro r₂ m₂ hjoin
      have hjoined := (hread.removing side).trans (hjoin.removing side) fun _ => rfl
      have hworld := hjoin.world.trans hread.world
      cases r₂ with
      | some e =>
        refine .pure ⟨hjoined, .cons name tree rest, ?_, nofun⟩
        rw [hworld]
        exact hsame
      | none =>
        have hchild : lookup (path ++ [name]) (m₂.world.tree side) = some tree := by
          rw [hworld, lookup_concat, hlookup]
          simp [child, Forest.find]
        refine .bind
          ((deleteTree_spec opts phase side tree (path ++ [name]) m₂ hchild).mono ?_)
        rintro r₃ m₃ ⟨hremoving₃, node, hnode, hnone⟩
        have hdeleted := hjoined.trans hremoving₃ fun _ => rfl
        rw [hworld, hsame, setAt_concat, Forest.alter_first] at hnode
        cases r₃ with
        | some e => exact .pure ⟨hdeleted, _, hnode, nofun⟩
        | none =>
          rw [hnone rfl] at hnode
          simp only at hnode
          have hrest : lookup path (m₃.world.tree side) = some (.dir rest) := by
            rw [hnode]
            exact lookup_setAt hlookup _
          refine (deleteEntries_spec opts phase side rest path m₃ hrest).mono ?_
          rintro r m' ⟨hremoving, left, hleft, hnil⟩
          refine ⟨hdeleted.trans hremoving fun _ => rfl, left, ?_, hnil⟩
          rw [hleft, hnode, setAt_setAt]

end

/-- A removed path is gone, or the error says that something is left. -/
theorem deleteStoragePath_spec (opts : Options) (phase : Phase) (side : Side) (path : Path)
    (m : State) :
    Satisfies (deleteStoragePath opts phase side path) m (Removed phase side path m) := by
  unfold deleteStoragePath
  refine .bind (satisfies_currentWorld ?_)
  split
  · rename_i tree hlookup
    exact deleteTree_spec opts phase side tree path m hlookup
  · refine (act_spec phase _ _ m).mono ?_
    intro r m' h
    have hasked := h.asked fun w w' heq => by cases heq
    have hr : r ≠ none := fun hr => by cases h.done hr
    exact (hasked.removing side).unchanged hasked.world hr

/-- A cleanup is part of a transfer that fails. -/
theorem Removing.sound (h : Removing phase .destination m r m') (hr : r' ≠ none) :
    Sound m r' m' where
  kept t hm := h.rest (fun w => w.source = t) (fun w => w.source = t) (fun _ _ hw => hw)
    (fun _ hw => hw) hm.1 hm.2
  flawless hnone := absurd hnone hr
  log := h.log

/-- The end of the copy of a file, with what became of the file. -/
structure ClosedFile (path : Path) (base : Option Tree) (result : Option Errno) (m : State)
    (r : Option Errno) (m' : State) : Prop where
  sound : Sound m r m'
  done : r = none → result = none ∧ m'.world.destination = m.world.destination ∧
    m'.world.unflushed = m.world.unflushed.filter fun q => decide (q ≠ path)
  place : ∃ node, m'.world.destination = setAt path node base
  removed : r ≠ none → CleanupOk m' → m'.world.destination = setAt path none base

/-- A file is flushed and closed, or an error is reported and the file is taken
away. -/
theorem closeRegularFile_spec (path : Path) (result : Option Errno) (sourceOpen : Bool)
    {bytes : Bytes} (hdest : m.world.destination = setAt path (some (.file bytes)) base) :
    Satisfies (closeRegularFile path result sourceOpen) m (ClosedFile path base result m) := by
  unfold closeRegularFile
  refine .andThen (fun r m₁ => Sound m r m₁ ∧
    m₁.world.destination = m.world.destination ∧ (r = none → result = none ∧
      m₁.world.unflushed = m.world.unflushed.filter fun q => decide (q ≠ path))) ?_ ?_
  · refine unlessFailed_spec ?_ ?_
    · rintro e rfl
      exact ⟨.refl m _, rfl, nofun⟩
    · intro hresult
      refine (flush_spec path m).mono ?_
      rintro r m₁ ⟨hsound, hdest₁, hflush, -⟩
      exact ⟨hsound, hdest₁, fun hr => ⟨hresult, hflush hr⟩⟩
  · rintro r₁ m₁ ⟨hsound₁, hdest₁, hflush⟩
    refine (ask_spec .transfer (.close .destination path) m₁).seq ?_
    intro r₂ m₂ hclose
    refine .andThen (fun r m₃ => m₃.world = m₁.world ∧
      Sound m (orElse (orElse r₁ r₂) r) m₃) ?_ ?_
    · have hsound₂ : Sound m (orElse r₁ r₂) m₂ :=
        hsound₁.trans (hclose.sound fun h _ => (orElse_eq_none.mp h).2)
          fun h => (orElse_eq_none.mp h).1
      refine onlyIf_spec ?_ ?_
      · intro _
        exact ⟨hclose.world, hsound₂.weaken fun h => (orElse_eq_none.mp h).1⟩
      · intro _
        refine (ask_spec .transfer (.close .source path) m₂).mono ?_
        intro r₃ m₃ hclose'
        exact ⟨hclose'.world.trans hclose.world,
          hsound₂.trans (hclose'.sound fun h _ => (orElse_eq_none.mp h).2)
            fun h => (orElse_eq_none.mp h).1⟩
    · rintro r₃ m₃ ⟨hworld₃, hsound₃⟩
      cases herror : orElse (orElse r₁ r₂) r₃ with
      | none =>
        rw [herror] at hsound₃
        have hr₁ : r₁ = none := (orElse_eq_none.mp (orElse_eq_none.mp herror).1).1
        refine .pure ⟨hsound₃, ?_, ⟨some (.file bytes), ?_⟩, fun h => absurd rfl h⟩
        · intro _
          rw [hworld₃]
          exact ⟨(hflush hr₁).1, hdest₁, (hflush hr₁).2⟩
        · rw [hworld₃, hdest₁, hdest]
      | some e =>
        rw [herror] at hsound₃
        refine (act_spec .cleanup _ _ m₃).seq ?_
        intro r₄ m₄ hunlink
        obtain ⟨hremoving, node, hnode, hnone⟩ :=
          hunlink.removing path fun w w' => World.unlink_eq_ok
        have hnode' : m₄.world.destination = setAt path node base := by
          have htree : m₃.world.tree .destination = setAt path (some (.file bytes)) base := by
            rw [World.tree, hworld₃, hdest₁, hdest]
          rw [htree, setAt_setAt] at hnode
          exact hnode
        have hdone : ∀ e' : Errno, ClosedFile path base result m (some e') m₄ := by
          intro e'
          refine ⟨?_, nofun, ⟨node, hnode'⟩, ?_⟩
          · exact hsound₃.trans (hremoving.sound (by simp)) nofun
          · intro _ hcleanup
            rw [hnode', hnone (hremoving.complete rfl hcleanup)]
        cases r₄ with
        | none => exact .pure (hdone e)
        | some e' => exact .pure (hdone _)

end ShadowMount.Storage
