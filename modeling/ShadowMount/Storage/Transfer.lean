import ShadowMount.Storage.Calls

/-!
# Storage - copies

A copy leaves its source alone and, unless a step of its cleanup fails, leaves no
destination behind when it fails.  When it succeeds the destination is the tree of
the source, and every file of it has been flushed.
-/

namespace ShadowMount.Storage

open Foundation

variable {path : Path} {tree : Tree} {window : Window} {m m' m₁ : State} {e : Errno}
  {base : Option Tree} {bytes : Bytes}

/-- What is put at a path is found there. -/
def Reaches (path : Path) (t : Option Tree) : Prop :=
  ∀ tree, lookup path (setAt path (some tree) t) = some tree

theorem reaches_nil (t : Option Tree) : Reaches [] t := fun _ => rfl

theorem Forest.find_alter_some (name : Text) (tree : Tree) : ∀ entries : Forest,
    (entries.alter name fun _ => some tree).find name = some tree
  | .nil => by simp [Forest.alter, Forest.find]
  | .cons n first rest => by
    unfold Forest.alter
    split
    · rename_i hn
      simp [Forest.find, hn]
    · rename_i hn
      rw [Forest.find, if_neg hn]
      exact Forest.find_alter_some name tree rest

theorem reaches_concat {t : Option Tree} (h : Reaches path t) (name : Text) (entries : Forest) :
    Reaches (path ++ [name]) (setAt path (some (.dir entries)) t) := by
  intro tree
  rw [setAt_concat, lookup_concat, h]
  exact Forest.find_alter_some name tree entries

/-- What a copy of a tree leaves behind, with the window for the files behind it. -/
structure Copied (tree : Tree) (path : Path) (window : Window) (m : State)
    (r : Option Errno × Window) (m' : State) : Prop where
  sound : Sound m r.1 m'
  place : ∃ node, m'.world.destination = setAt path node m.world.destination ∧
    (r.1 = none → node = some tree ∧ lookup path m.world.destination = none)
  flushed : r.1 = none → Flushed window m → Flushed r.2 m'
  alone : window = none → r.2 = none
  removed : r.1 ≠ none → window = none → CleanupOk m' →
    m'.world.destination = m.world.destination ∨
      m'.world.destination = setAt path none m.world.destination

theorem Copied.of_world {window' : Window} (hsound : Sound m (some e) m')
    (hdest : m'.world.destination = m.world.destination)
    (hwindow : window = none → window' = none) :
    Copied tree path window m (some e, window') m' where
  sound := hsound
  place := ⟨lookup path m.world.destination, by rw [setAt_lookup, hdest], nofun⟩
  flushed h := by cases h
  alone := hwindow
  removed _ _ _ := .inl hdest

/-- A step before the copy that leaves the destination alone. -/
theorem Copied.after {r : Option Errno × Window} (hsound : Sound m none m₁)
    (hworld : m₁.world = m.world) (h : Copied tree path window m₁ r m') :
    Copied tree path window m r m' where
  sound := hsound.trans h.sound fun _ => rfl
  place := by
    rw [← hworld]
    exact h.place
  flushed hr hm := h.flushed hr (by unfold Flushed; rw [hworld]; exact hm)
  alone := h.alone
  removed := by
    rw [← hworld]
    exact h.removed

theorem flushed_append {waiting : List Path} {unflushed : List Path}
    (h : ∀ q ∈ unflushed, q ∈ waiting) : ∀ q ∈ path :: unflushed, q ∈ waiting ++ [path] := by
  intro q hq
  rcases List.mem_cons.mp hq with rfl | hq
  · simp
  · simp [h q hq]

/-- A copied file waits for its flush. -/
theorem queueRegularFile_spec (path : Path) (waiting : List Path)
    (hdest : m.world.destination = setAt path (some (.file bytes)) base) :
    Satisfies (queueRegularFile path waiting) m fun r m' =>
      Sound m r.1 m' ∧ (∃ node, m'.world.destination = setAt path node base ∧
        (r.1 = none → node = some (.file bytes))) ∧
      (r.1 = none → (∀ q ∈ m.world.unflushed, q ∈ waiting ++ [path]) → Flushed r.2 m') := by
  unfold queueRegularFile
  refine (ask_spec .transfer (.startFsync path) m).seq ?_
  intro r₁ m₁ hstart
  rw [← hstart.world] at hdest
  cases r₁ with
  | some e =>
    refine (closeRegularFile_spec path (some e) true hdest).seq ?_
    intro r m' hclosed
    refine .pure ⟨?_, ?_, ?_⟩
    · exact (hstart.sound fun h _ => h).trans hclosed.sound fun hr => by cases (hclosed.done hr).1
    · rcases hclosed.place with ⟨node, hnode⟩
      exact ⟨node, hnode, fun hr => by cases (hclosed.done hr).1⟩
    · intro hr
      cases (hclosed.done hr).1
  | none =>
    refine (ask_spec .transfer (.close .source path) m₁).seq ?_
    intro r₂ m₂ hclose
    rw [← hclose.world] at hdest
    have hworld : m₂.world = m.world := hclose.world.trans hstart.world
    have hsound : Sound m r₂ m₂ :=
      (hstart.sound fun _ _ => rfl).trans (hclose.sound fun h _ => h) fun _ => rfl
    cases r₂ with
    | some e =>
      refine (closeRegularFile_spec path (some e) false hdest).seq ?_
      intro r m' hclosed
      refine .pure ⟨?_, ?_, ?_⟩
      · exact hsound.trans hclosed.sound fun hr => by cases (hclosed.done hr).1
      · rcases hclosed.place with ⟨node, hnode⟩
        exact ⟨node, hnode, fun hr => by cases (hclosed.done hr).1⟩
      · intro hr
        cases (hclosed.done hr).1
    | none =>
      simp only
      split
      · refine (finishOldestFile_spec (waiting ++ [path]) none m₂).seq ?_
        rintro ⟨r, left⟩ m' ⟨hsound', hdest', hflush⟩
        refine .pure ⟨hsound.trans hsound' fun _ => rfl,
          ⟨_, hdest'.trans hdest, fun _ => rfl⟩, ?_⟩
        intro hr hm
        rw [← hworld] at hm
        exact hflush hr hm
      · refine .pure ⟨hsound, ⟨_, hdest, fun _ => rfl⟩, ?_⟩
        intro _ hm
        unfold Flushed
        rw [hworld]
        exact hm

/-- The data of a file is there, or an error is about to be reported. -/
structure Filled (bytes : Bytes) (path : Path) (m : State) (r : Option Errno) (m' : State) :
    Prop where
  sound : Sound m r m'
  absent : lookup path m.world.destination = none
  unflushed : m'.world.unflushed = path :: m.world.unflushed
  data : ∃ written, m'.world.destination = setAt path (some (.file written)) m.world.destination ∧
    (r = none → written = bytes)

theorem Filled.close {result : Option Errno} (h : Filled bytes path m result m₁) (window : Window)
    (sourceOpen : Bool) :
    Satisfies (closeRegularFile path result sourceOpen >>= fun r => Pure.pure (r, window)) m₁
      (Copied (.file bytes) path window m) := by
  rcases h.data with ⟨written, hdest, hwritten⟩
  refine (closeRegularFile_spec path result sourceOpen hdest).seq ?_
  intro r m' hclosed
  refine .pure ⟨?_, ?_, ?_, id, ?_⟩
  · exact h.sound.trans hclosed.sound fun hr => (hclosed.done hr).1
  · by_cases hr : r = none
    · obtain ⟨hresult, hsame, -⟩ := hclosed.done hr
      refine ⟨some (.file written), hsame.trans hdest, fun _ => ⟨?_, h.absent⟩⟩
      rw [hwritten hresult]
    · rcases hclosed.place with ⟨node, hnode⟩
      exact ⟨node, hnode, fun hnone => absurd hnone hr⟩
  · intro hr hm q hq
    rw [(hclosed.done hr).2.2, h.unflushed, List.mem_filter, decide_eq_true_eq] at hq
    rcases List.mem_cons.mp hq.1 with rfl | hmem
    · exact absurd rfl hq.2
    · exact hm q hmem
  · intro hr _ hcleanup
    exact .inr (hclosed.removed hr hcleanup)

theorem Filled.queue (h : Filled bytes path m none m₁) (waiting : List Path) :
    Satisfies (queueRegularFile path waiting) m₁ (Copied (.file bytes) path (some waiting) m) := by
  rcases h.data with ⟨written, hdest, hwritten⟩
  refine (queueRegularFile_spec path waiting hdest).mono ?_
  rintro r m' ⟨hsound, ⟨node, hnode, hdone⟩, hflushed⟩
  refine ⟨h.sound.trans hsound fun _ => rfl, ⟨node, hnode, ?_⟩, ?_, nofun, ?_⟩
  · intro hr
    rw [hdone hr, hwritten rfl]
    exact ⟨rfl, h.absent⟩
  · intro hr hm
    refine hflushed hr ?_
    rw [h.unflushed]
    exact flushed_append hm
  · intro _ hwindow
    cases hwindow

/-- A file is copied. -/
theorem copyRegularFile_spec (opts : Options) (bytes : Bytes) (path : Path) (window : Window)
    (m : State) :
    Satisfies (copyRegularFile opts bytes path window) m
      (Copied (.file bytes) path window m) := by
  unfold copyRegularFile
  refine (ask_spec .transfer (.openFile .source path) m).seq ?_
  intro r₁ m₁ hopen
  have hsound₁ : ∀ r, Sound m r m₁ := fun r => hopen.sound fun _ h => by cases h
  cases r₁ with
  | some e => exact .pure (.of_world (hsound₁ _) (by rw [hopen.world]) id)
  | none =>
    refine (put_spec path (fun w =>
      { w with
        destination := setAt path (some (.file [])) w.destination
        unflushed := path :: w.unflushed }) rfl (fun w => rfl) (fun w => rfl) m₁).seq ?_
    rintro r₂ m₂ ⟨hsound₂, hfailed₂, hdone₂⟩
    cases r₂ with
    | some e =>
      refine (ask_spec .transfer (.close .source path) m₂).seq ?_
      intro r₃ m₃ hclose
      refine .pure (.of_world ?_ ?_ id)
      · exact ((hsound₁ none).trans (hsound₂ (some e)) fun h => by cases h).trans
          (hclose.sound fun h => by cases h) fun h => by cases h
      · rw [hclose.world, hfailed₂ (by simp), hopen.world]
    | none =>
      obtain ⟨habsent, hworld₂⟩ := hdone₂ rfl
      rw [hopen.world] at habsent hworld₂
      have hdest₂ : m₂.world.destination =
          setAt path (some (.file [])) m.world.destination := by
        rw [hworld₂]
      have hunflushed₂ : m₂.world.unflushed = path :: m.world.unflushed := by
        rw [hworld₂]
      refine (copyData_spec path bytes.length bytes hdest₂).seq ?_
      intro r₃ m₃ hwrote
      refine .andThen (Filled bytes path m) ?_ ?_
      · have hsound₃ : Sound m r₃ m₃ :=
          ((hsound₁ none).trans (hsound₂ none) fun _ => rfl).trans hwrote.sound fun _ => rfl
        have hfilled : ∀ r m₄, m₄.world = m₃.world → Sound m r m₄ → (r = none → r₃ = none) →
            Filled bytes path m r m₄ := by
          intro r m₄ hworld hsound hr
          refine ⟨hsound, habsent, by rw [hworld, hwrote.unflushed, hunflushed₂], ?_⟩
          rcases hwrote.data with ⟨written, hdest, hdata⟩
          exact ⟨written, by rw [hworld, hdest], fun hnone => hdata (hr hnone)⟩
        refine unlessFailed_spec ?_ ?_
        · rintro e rfl
          exact hfilled (some e) m₃ rfl hsound₃ id
        · intro hr₃
          rw [hr₃] at hsound₃
          refine onlyIf_spec ?_ ?_
          · intro _
            exact hfilled none m₃ rfl hsound₃ fun _ => hr₃
          · intro _
            refine (ask_spec .transfer (.fchmod path) m₃).mono ?_
            intro r₄ m₄ hchmod
            exact hfilled r₄ m₄ hchmod.world
              (hsound₃.trans (hchmod.sound fun _ h => by cases h) fun _ => rfl) fun _ => hr₃
      · intro r₄ m₄ hfilled
        split
        · exact hfilled.queue _
        · exact hfilled.close _ true

/-- Entries listed behind one another. -/
def Forest.append : Forest → Forest → Forest
  | .nil, more => more
  | .cons name tree rest, more => .cons name tree (rest.append more)

theorem Forest.append_assoc : ∀ a b c : Forest, (a.append b).append c = a.append (b.append c)
  | .nil, _, _ => rfl
  | .cons name tree rest, b, c => by
    simp only [Forest.append, Forest.append_assoc rest b c]

theorem Forest.append_nil : ∀ a : Forest, a.append .nil = a
  | .nil => rfl
  | .cons name tree rest => by simp only [Forest.append, Forest.append_nil rest]

theorem Forest.alter_absent {name : Text} (tree : Tree) : ∀ {entries : Forest},
    entries.find name = none →
    (entries.alter name fun _ => some tree) = entries.append (.cons name tree .nil)
  | .nil, _ => rfl
  | .cons n first rest, h => by
    unfold Forest.find at h
    split at h
    · cases h
    · rename_i hn
      simp only [Forest.alter, if_neg hn, Forest.append, Forest.alter_absent tree h]

/-- The end of the copy of a directory, with what became of it. -/
structure EndedDirectory (path : Path) (base : Option Tree) (result : Option Errno) (m : State)
    (r : Option Errno) (m' : State) : Prop where
  sound : Sound m r m'
  done : r = none → result = none ∧ m'.world = m.world
  place : ∃ node, m'.world.destination = setAt path node base
  removed : r ≠ none → CleanupOk m' → m'.world.destination = setAt path none base

theorem endDirectory_spec (opts : Options) (path : Path) (opened : Bool) (result : Option Errno)
    {left : Forest} (hdest : m.world.destination = setAt path (some (.dir left)) base) :
    Satisfies (endDirectory opts path opened result) m (EndedDirectory path base result m) := by
  unfold endDirectory
  refine (ask_spec .transfer (.closedir .source path) m).seq ?_
  intro r₁ m₁ hclose
  refine .andThen (fun _ m₂ => m₂.world = m.world ∧ Sound m (orElse result r₁) m₂) ?_ ?_
  · have hsound₁ : Sound m (orElse result r₁) m₁ :=
      hclose.sound fun h _ => (orElse_eq_none.mp h).2
    refine onlyIf_spec ?_ ?_
    · intro _
      exact ⟨hclose.world, hsound₁⟩
    · intro _
      refine (ask_spec .transfer (.closedir .destination path) m₁).mono ?_
      intro r₂ m₂ hclose'
      exact ⟨hclose'.world.trans hclose.world,
        hsound₁.trans (hclose'.sound fun _ h => by cases h) id⟩
  · rintro - m₂ ⟨hworld, hsound₂⟩
    rw [← hworld] at hdest
    cases herror : orElse result r₁ with
    | none =>
      rw [herror] at hsound₂
      refine .pure ⟨hsound₂, ?_, ⟨_, hdest⟩, fun h => absurd rfl h⟩
      intro _
      exact ⟨(orElse_eq_none.mp herror).1, hworld⟩
    | some e =>
      rw [herror] at hsound₂
      refine (deleteStoragePath_spec opts .cleanup .destination path m₂).seq ?_
      rintro r₃ m₃ ⟨hremoving, node, hnode, hnone⟩
      have hnode' : m₃.world.destination = setAt path node base := by
        have htree : m₂.world.tree .destination = setAt path (some (.dir left)) base := hdest
        rw [htree, setAt_setAt] at hnode
        exact hnode
      have hdone : ∀ e' : Errno, EndedDirectory path base result m (some e') m₃ := by
        intro e'
        refine ⟨?_, (fun h => by cases h), ⟨node, hnode'⟩, ?_⟩
        · exact hsound₂.trans (hremoving.sound (by simp)) fun h => by cases h
        · intro _ hcleanup
          rw [hnode', hnone (hremoving.complete rfl hcleanup)]
      cases r₃ with
      | none => exact .pure (hdone e)
      | some e' => exact .pure (hdone _)

theorem beginCopy_spec (path : Path) (m : State) :
    Satisfies (beginCopy path) m fun r m' => m'.world = m.world ∧ Sound m r m' := by
  unfold beginCopy
  refine (cancelled_spec m).seq ?_
  rintro r₁ m₁ ⟨hworld, hsound⟩
  cases r₁ with
  | some e => exact .pure ⟨hworld, hsound⟩
  | none =>
    refine (ask_spec .transfer (.lstat .source path) m₁).mono ?_
    intro r m' hstat
    exact ⟨hstat.world.trans hworld, hsound.trans (hstat.sound fun h _ => h) fun _ => rfl⟩

theorem openDestination_spec (opts : Options) (path : Path) (m : State) :
    Satisfies (openDestination opts path) m fun _ m' => m'.world = m.world ∧ Sound m none m' := by
  unfold openDestination
  split
  · refine (ask_spec .transfer (.opendir .destination path) m).seq ?_
    intro r m' hopen
    exact .pure ⟨hopen.world, hopen.sound nofun⟩
  · exact .pure ⟨rfl, .refl m none⟩

/-- What the copy of the entries of a directory leaves behind. -/
structure CopiedEntries (entries : Forest) (path : Path) (base : Option Tree) (done : Forest)
    (window : Window) (m : State) (r : Option Errno × Window) (m' : State) : Prop where
  sound : Sound m r.1 m'
  place : ∃ left, m'.world.destination = setAt path (some (.dir left)) base ∧
    (r.1 = none → left = done.append entries)
  flushed : r.1 = none → Flushed window m → Flushed r.2 m'

theorem CopiedEntries.of_world {entries : Forest} {done : Forest} {window' : Window}
    (hdest : m.world.destination = setAt path (some (.dir done)) base)
    (hsound : Sound m (some e) m') (hworld : m'.world = m.world) :
    CopiedEntries entries path base done window m (some e, window') m' where
  sound := hsound
  place := ⟨done, by rw [hworld, hdest], nofun⟩
  flushed h := by cases h

/-- A directory is copied. -/
theorem copyDirectory_spec (opts : Options) {entries : Forest} (path : Path) (window : Window)
    {copyChildren : Window → Program (Option Errno × Window)}
    (hreach : Reaches path m.world.destination)
    (hchildren : ∀ window' m' done, Reaches path m.world.destination →
      m'.world.destination = setAt path (some (.dir done)) m.world.destination →
      Satisfies (copyChildren window') m'
        (CopiedEntries entries path m.world.destination done window' m')) :
    Satisfies (copyDirectory opts path window copyChildren) m
      (Copied (.dir entries) path window m) := by
  unfold copyDirectory
  have hwindow : window = none → (window.map fun _ => ([] : List Path)) = none := by
    rintro rfl
    rfl
  refine (finishPendingFiles_spec (window.getD []) none m).seq ?_
  rintro r₁ m₁ ⟨hsound₁, hdest₁, hflush₁⟩
  cases r₁ with
  | some e => exact .pure (.of_world hsound₁ hdest₁ hwindow)
  | none =>
    refine (put_spec path (fun w =>
      { w with destination := setAt path (some (.dir .nil)) w.destination })
      rfl (fun w => rfl) (fun w => rfl) m₁).seq ?_
    rintro r₂ m₂ ⟨hsound₂, hfailed₂, hdone₂⟩
    have hmade : ∀ r, Sound m r m₂ := fun r =>
      (hsound₁.trans (hsound₂ none) fun _ => rfl).trans (.refl m₂ r) fun _ => rfl
    cases r₂ with
    | some e =>
      exact .pure
        (.of_world (hmade _) (by rw [hfailed₂ (by simp), hdest₁]) hwindow)
    | none =>
      obtain ⟨habsent, hworld₂⟩ := hdone₂ rfl
      rw [hdest₁] at habsent
      have hdest₂ : m₂.world.destination =
          setAt path (some (.dir .nil)) m.world.destination := by
        rw [hworld₂, ← hdest₁]
      refine (ask_spec .transfer (.opendir .source path) m₂).seq ?_
      intro r₃ m₃ hopen
      rw [← hopen.world] at hdest₂
      cases r₃ with
      | some e =>
        refine (act_spec .cleanup _ _ m₃).seq ?_
        intro r₄ m₄ hrmdir
        obtain ⟨hremoving, node, hnode, hnone⟩ :=
          hrmdir.removing path fun w w' => World.rmdir_eq_ok
        have hnode' : m₄.world.destination = setAt path node m.world.destination := by
          have htree : m₃.world.tree .destination =
              setAt path (some (.dir .nil)) m.world.destination := hdest₂
          rw [htree, setAt_setAt] at hnode
          exact hnode
        refine .pure ⟨?_, ⟨node, hnode', (fun h => by cases h)⟩,
          (fun h => by cases h), hwindow, ?_⟩
        · exact ((hmade none).trans (hopen.sound fun h => by cases h) fun _ => rfl).trans
            (hremoving.sound (by simp)) id
        · intro _ _ hcleanup
          exact .inr (by rw [hnode', hnone (hremoving.complete rfl hcleanup)])
      | none =>
        refine (openDestination_spec opts path m₃).seq ?_
        rintro opened m₄ ⟨hworld₄, hsound₄⟩
        rw [← hworld₄] at hdest₂
        have hopened : Sound m none m₄ :=
          ((hmade none).trans (hopen.sound nofun) fun _ => rfl).trans
            hsound₄ fun _ => rfl
        refine (hchildren _ m₄ .nil hreach hdest₂).seq ?_
        rintro ⟨r₅, waiting⟩ m₅ hentries
        refine (finishPendingFiles_spec (waiting.getD []) r₅ m₅).seq ?_
        rintro r₆ m₆ ⟨hsound₆, hdest₆, hflush₆⟩
        rcases hentries.place with ⟨left, hleft, hall⟩
        rw [← hdest₆] at hleft
        refine (endDirectory_spec opts path opened r₆ hleft).seq ?_
        intro r₇ m₇ hended
        refine .pure ⟨?_, ?_, ?_, hwindow, ?_⟩
        · exact ((hopened.trans hentries.sound fun _ => rfl).trans hsound₆
            fun hr => (hflush₆ hr).1).trans hended.sound fun hr => (hended.done hr).1
        · by_cases hr : r₇ = none
          · obtain ⟨hr₆, hworld₇⟩ := hended.done hr
            refine ⟨some (.dir left), by rw [hworld₇, hleft], fun _ => ⟨?_, habsent⟩⟩
            rw [hall (hflush₆ hr₆).1]
            rfl
          · rcases hended.place with ⟨node, hnode⟩
            exact ⟨node, hnode, fun hnone => absurd hnone hr⟩
        · -- nothing waits any more, neither from here nor from above
          intro hr hm q hq
          obtain ⟨hr₆, hworld₇⟩ := hended.done hr
          rw [hworld₇] at hq
          obtain ⟨hr₅, hleft₆⟩ := hflush₆ hr₆
          have hempty : Flushed (if opened then some [] else none) m₄ := by
            intro q hq
            rw [hworld₄, hopen.world, hworld₂] at hq
            obtain ⟨hmem, hnot⟩ := (hflush₁ rfl).2 q hq
            exact absurd (hm q hmem) hnot
          obtain ⟨hmem, hnot⟩ := hleft₆ q hq
          exact absurd (hentries.flushed hr₅ hempty q hmem) hnot
        · intro hr _ hcleanup
          exact .inr (hended.removed hr hcleanup)

mutual

/-- What a copy of a tree leaves at its path. -/
theorem copyStoragePath_spec (opts : Options) : ∀ (tree : Tree) (path : Path) (window : Window)
    (m : State), Reaches path m.world.destination →
    Satisfies (copyStoragePath opts tree path window) m (Copied tree path window m)
  | .file bytes, path, window, m, _ => by
    refine (beginCopy_spec path m).seq ?_
    rintro r₁ m₁ ⟨hworld, hsound⟩
    cases r₁ with
    | some e => exact Satisfies.pure (Copied.of_world hsound (by rw [hworld]) id)
    | none =>
      refine (copyRegularFile_spec opts bytes path window m₁).mono ?_
      intro r m' hcopied
      exact hcopied.after hsound hworld
  | .other, path, window, m, _ => by
    refine (beginCopy_spec path m).seq ?_
    rintro r₁ m₁ ⟨hworld, hsound⟩
    cases r₁ with
    | some e => exact Satisfies.pure (Copied.of_world hsound (by rw [hworld]) id)
    | none =>
      exact Satisfies.pure (Copied.of_world (hsound.weaken fun _ => rfl) (by rw [hworld]) id)
  | .dir entries, path, window, m, hreach => by
    refine (beginCopy_spec path m).seq ?_
    rintro r₁ m₁ ⟨hworld₁, hsound₁⟩
    cases r₁ with
    | some e => exact Satisfies.pure (Copied.of_world hsound₁ (by rw [hworld₁]) id)
    | none =>
      rw [← hworld₁] at hreach
      refine (copyDirectory_spec opts path window hreach
        (fun window' m' done => copyEntries_spec opts entries path window' m' _ done)).mono ?_
      intro r m' hcopied
      exact hcopied.after hsound₁ hworld₁

/-- The loop copies all entries of the directory, or fails. -/
theorem copyEntries_spec (opts : Options) : ∀ (entries : Forest) (path : Path) (window : Window)
    (m : State) (base : Option Tree) (done : Forest), Reaches path base →
    m.world.destination = setAt path (some (.dir done)) base →
    Satisfies (copyEntries opts entries path window) m
      (CopiedEntries entries path base done window m)
  | .nil, path, window, m, base, done, _, hdest => by
    refine (ask_spec .transfer (.readdir .source path) m).seq ?_
    intro r m' hread
    refine Satisfies.pure ⟨hread.sound fun h _ => h, ⟨done, by rw [hread.world, hdest], ?_⟩, ?_⟩
    · intro _
      exact (Forest.append_nil done).symm
    · intro _ hm
      unfold Flushed
      rw [hread.world]
      exact hm
  | .cons name tree rest, path, window, m, base, done, hreach, hdest => by
    refine (ask_spec .transfer (.readdir .source path) m).seq ?_
    intro r₁ m₁ hread
    have hsound₁ : ∀ r, Sound m r m₁ := fun r => hread.sound nofun
    cases r₁ with
    | some e => exact .pure (.of_world hdest (hsound₁ _) hread.world)
    | none =>
      refine (joinStoragePath_spec opts .transfer .source _ m₁).seq ?_
      intro r₂ m₂ hjoin₂
      have hsound₂ : ∀ r, Sound m r m₂ := fun r =>
        (hsound₁ r).trans (hjoin₂.sound nofun) id
      have hworld₂ := hjoin₂.world.trans hread.world
      cases r₂ with
      | some e => exact .pure (.of_world hdest (hsound₂ _) hworld₂)
      | none =>
        refine .bind
          ((joinStoragePath_spec opts .transfer .destination _ m₂).mono ?_)
        intro r₃ m₃ hjoin₃
        have hsound₃ : ∀ r, Sound m r m₃ := fun r =>
          (hsound₂ r).trans (hjoin₃.sound nofun) id
        have hworld₃ := hjoin₃.world.trans hworld₂
        cases r₃ with
        | some e => exact .pure (.of_world hdest (hsound₃ _) hworld₃)
        | none =>
          have hdest₃ : m₃.world.destination = setAt path (some (.dir done)) base := by
            rw [hworld₃, hdest]
          have hreach₃ : Reaches (path ++ [name]) m₃.world.destination := by
            rw [hdest₃]
            exact reaches_concat hreach name done
          refine .bind
            ((copyStoragePath_spec opts tree (path ++ [name]) window m₃ hreach₃).mono ?_)
          rintro ⟨r₄, window₄⟩ m₄ hcopied
          have hsound₄ := (hsound₃ none).trans hcopied.sound fun _ => rfl
          have hflushed₄ : r₄ = none → Flushed window m → Flushed window₄ m₄ := by
            intro hr hm
            refine hcopied.flushed hr ?_
            unfold Flushed
            rw [hworld₃]
            exact hm
          rcases hcopied.place with ⟨node, hnode, hdone⟩
          rw [hdest₃, setAt_concat] at hnode
          cases r₄ with
          | some e =>
            exact .pure ⟨hsound₄, ⟨_, hnode, nofun⟩,
              nofun⟩
          | none =>
            -- the entry was not there, so it is listed behind the others
            obtain ⟨rfl, habsent⟩ := hdone rfl
            rw [hdest₃, lookup_concat, hreach] at habsent
            rw [Forest.alter_absent tree habsent] at hnode
            refine (copyEntries_spec opts rest path window₄ m₄ base _ hreach hnode).mono ?_
            intro r m' hentries
            refine ⟨hsound₄.trans hentries.sound fun _ => rfl, ?_, ?_⟩
            · rcases hentries.place with ⟨left, hleft, hall⟩
              refine ⟨left, hleft, ?_⟩
              intro hr
              rw [hall hr, Forest.append_assoc]
              rfl
            · intro hr hm
              exact hentries.flushed hr (hflushed₄ rfl hm)

end

theorem lstatDestination_spec (m : State) :
    Satisfies lstatDestination m fun r m' => m'.world = m.world ∧ (∀ r', Sound m r' m') ∧
      (r = none → m.world.destination = none) := by
  unfold lstatDestination
  refine (ask_spec .transfer (.lstat .destination []) m).seq ?_
  intro r₁ m₁ hstat
  refine .bind (satisfies_currentWorld ?_)
  refine .pure ⟨hstat.world, (fun r' => hstat.sound nofun), ?_⟩
  rw [hstat.world]
  intro hr
  cases hdest : m.world.destination with
  | none => rfl
  | some tree =>
    rw [hdest] at hr
    split at hr <;> cases hr

/-- What a copy leaves behind. -/
structure CopyDone (tree : Tree) (m : State) (r : Option Errno) (m' : State) : Prop where
  sound : Sound m r m'
  done : r = none → m'.world.destination = some tree ∧
    (m.world.unflushed = [] → m'.world.unflushed = [])
  removed : r ≠ none → CleanupOk m' → m'.world.destination = m.world.destination

theorem CopyDone.of_world (hsound : Sound m (some e) m') (hworld : m'.world = m.world) :
    CopyDone tree m (some e) m' :=
  ⟨hsound, (fun h => by cases h), fun _ _ => by rw [hworld]⟩

/-- What a copy leaves at the destination. -/
theorem copyPathProgress_spec (opts : Options) (hsource : m.world.source = some tree) :
    Satisfies (copyPathProgress opts) m (CopyDone tree m) := by
  unfold copyPathProgress
  refine (ask_spec .transfer .validate m).seq ?_
  intro r₁ m₁ hvalid
  have hsound₁ : ∀ r, Sound m r m₁ := fun r => hvalid.sound nofun
  cases r₁ with
  | some e => exact .pure (.of_world (hsound₁ _) hvalid.world)
  | none =>
    refine (lstatDestination_spec m₁).seq ?_
    rintro r₂ m₂ ⟨hworld₂, hsound₂, habsent⟩
    rw [hvalid.world] at hworld₂ habsent
    have hstat : ∀ r, Sound m r m₂ := fun r => (hsound₁ r).trans (hsound₂ r) id
    cases r₂ with
    | some e => exact .pure (.of_world (hstat _) hworld₂)
    | none =>
      refine (ask_spec .transfer .malloc m₂).seq ?_
      intro r₃ m₃ hmalloc
      have hworld₃ := hmalloc.world.trans hworld₂
      have hsound₃ : ∀ r, Sound m r m₃ := fun r =>
        (hstat r).trans (hmalloc.sound nofun) id
      cases r₃ with
      | some e => exact .pure (.of_world (hsound₃ _) hworld₃)
      | none =>
        refine .bind (satisfies_currentWorld ?_)
        rw [hworld₃, hsource]
        refine .bind
          ((copyStoragePath_spec opts tree [] none m₃ (reaches_nil _)).mono ?_)
        rintro ⟨r, window⟩ m' hcopied
        refine .pure ⟨(hsound₃ none).trans hcopied.sound fun _ => rfl, ?_, ?_⟩
        · intro hr
          rcases hcopied.place with ⟨node, hnode, hdone⟩
          refine ⟨hnode.trans (hdone hr).1, ?_⟩
          intro hempty
          have hflushed : Flushed none m₃ := by
            unfold Flushed
            rw [hworld₃, hempty]
            simp
          have hafter := hcopied.flushed hr hflushed
          rw [hcopied.alone rfl] at hafter
          exact List.eq_nil_iff_forall_not_mem.mpr fun q hq => by simpa using hafter q hq
        · intro hr hcleanup
          have hnone : m₃.world.destination = none := by rw [hworld₃, habsent rfl]
          rcases hcopied.removed hr rfl hcleanup with hsame | hgone
          · rw [hsame, hworld₃]
          · rw [hgone, habsent rfl]
            rfl

end ShadowMount.Storage
