import ShadowMount.Storage.Transfer

/-!
# Storage - replacing a directory

{lit}`sm_storage_replace_directory_progress` copies a tree into a fresh staging directory
beside the destination, moves the previous tree there, and moves the new one into place.
The staging directory is deleted at the end, unless the previous tree could not be moved back.

The world has the source, the destination and the staging directory.  The copy works on the
entry {lit}`new` of the staging directory, and the deletion on the whole of it; both are the
programs of the other transfers, run on a part of this world.

Main results:

- Theorem {lit}`replaceDirectory_allOrNothing`: at every moment one complete tree is at the
  destination or held in the staging directory, and success means that it is the new one.
-/

namespace ShadowMount.Storage

open Foundation

/-- The trees of a replacement, and the files of the copy that are not flushed. -/
structure Places where
  source : Option Tree
  target : Option Tree
  staging : Option Tree
  unflushed : List Path

/-- The calls of a replacement. -/
inductive ReplaceCall where
  /-- A call of the copy. -/
  | copy (step : Step)
  /-- A call of the deletion of the staging directory. -/
  | cleanup (step : Step)
  | validate
  | lstatSource
  | lstatDestination
  | realpath
  | join
  | mkdtemp
  | cancelled
  | beginFinalize
  /-- `rename(destination, previous)`. -/
  | setAside
  /-- `rename(fresh, destination)`. -/
  | install
  /-- `rename(previous, destination)`. -/
  | rollBack
deriving DecidableEq

abbrev Replacement (α : Type) := Exec Places ReplaceCall Errno α

/-- The parameters of a replacement. -/
structure ReplaceOptions where
  sourceRoot : Text
  stagingRoot : Text
  remoteSource : Bool
  remoteDestination : Bool
  finalize : Bool

/-- The parameters of the copy. -/
def ReplaceOptions.copy (opts : ReplaceOptions) : Options where
  sourceRoot := opts.sourceRoot
  destinationRoot := opts.stagingRoot ++ "/new".toList
  remoteSource := opts.remoteSource
  remoteDestination := opts.remoteDestination
  finalize := false

/-- The parameters of the deletion. -/
def ReplaceOptions.cleanup (opts : ReplaceOptions) : Options where
  sourceRoot := opts.sourceRoot
  destinationRoot := opts.stagingRoot
  remoteSource := opts.remoteSource
  remoteDestination := opts.remoteDestination
  finalize := false

/-- The entries of the staging directory. -/
def newEntry : Path := ["new".toList]

def oldEntry : Path := ["old".toList]

/-- The part of the world that the copy works on. -/
def Places.copyWorld (w : Places) : World := ⟨w.source, lookup newEntry w.staging, w.unflushed⟩

def Places.setCopyWorld (v : World) (w : Places) : Places :=
  { w with
    source := v.source
    staging := setAt newEntry v.destination w.staging
    unflushed := v.unflushed }

/-- The part of the world that the deletion works on. -/
def Places.stagingWorld (w : Places) : World := ⟨w.source, w.staging, w.unflushed⟩

def Places.setStagingWorld (v : World) (w : Places) : Places :=
  { w with source := v.source, staging := v.destination, unflushed := v.unflushed }

/-- A call that changes nothing. -/
def check (c : ReplaceCall) : Replacement (Option Errno) := call c Except.ok

/-- `lstat` of a place. -/
def lstatOf (c : ReplaceCall) (place : Places → Option Tree) : Replacement (Except Errno Tree) := do
  let error ← check c
  let w ← currentWorld
  return match error with
    | some .ENOENT | none => match place w with
        | some tree => .ok tree
        | none => .error .ENOENT
    | some e => .error e

def Tree.isDir : Tree → Bool
  | .dir _ => true
  | _ => false

/-- The first look at the destination. -/
def checkDestination : Replacement (Option Errno) := do
  match ← lstatOf .lstatDestination Places.target with
  | .ok tree => if !tree.isDir then return some .ENOTDIR else check .realpath
  | .error e => return if e = .ENOENT then none else some e

/-- `mkdtemp`. -/
def Places.makeStaging (w : Places) : Except Errno Places :=
  .ok { w with staging := some (.dir .nil) }

def Places.setAside (w : Places) : Except Errno Places :=
  .ok { w with target := none, staging := setAt oldEntry w.target w.staging }

def Places.install (w : Places) : Except Errno Places :=
  .ok { w with target := lookup newEntry w.staging, staging := setAt newEntry none w.staging }

def Places.rollBack (w : Places) : Except Errno Places :=
  .ok { w with target := lookup oldEntry w.staging, staging := setAt oldEntry none w.staging }

/-- The previous tree is moved into the staging directory, if there is one. -/
def setPreviousAside : Replacement (Except Errno Bool) := do
  match ← lstatOf .lstatDestination Places.target with
  | .ok tree =>
    if !tree.isDir then return .error .ENOTDIR
    else match ← call .setAside Places.setAside with
      | some e => return .error e
      | none => return .ok true
  | .error e => return if e = .ENOENT then .ok false else .error e

/-- The commit step: the error, and whether the previous tree must be kept. -/
def commit : Replacement (Option Errno × Bool) := do
  match ← setPreviousAside with
  | .error e => return (some e, false)
  | .ok aside =>
    match ← call .install Places.install with
    | none => return (none, false)
    | some e =>
      if aside then
        match ← call .rollBack Places.rollBack with
        | none => return (some e, false)
        | some _ => return (some e, true)
      else return (some e, false)

/-- The callback before the commit, if there is one. -/
def askFinalize (opts : ReplaceOptions) : Replacement (Option Errno) :=
  if opts.finalize then check .beginFinalize else return none

/-- Copy and commit, with the staging directory in place. -/
def stage (opts : ReplaceOptions) : Replacement (Option Errno × Bool) := do
  match ← check .join with
  | some e => return (some e, false)
  | none =>
  match ← zoom Places.copyWorld Places.setCopyWorld .copy (copyPathProgress opts.copy) with
  | some e => return (some e, false)
  | none =>
  match ← check .cancelled with
  | some _ => return (some .ECANCELED, false)
  | none =>
  match ← askFinalize opts with
  | some _ => return (some .ECANCELED, false)
  | none => commit

/-- `sm_storage_replace_directory_progress`. -/
def replaceDirectoryProgress (opts : ReplaceOptions) : Replacement (Option Errno) := do
  match ← check .validate with
  | some e => return some e
  | none =>
  match ← lstatOf .lstatSource Places.source with
  | .error e => return some e
  | .ok tree =>
  if !tree.isDir then return some .ENOTDIR
  else
  match ← checkDestination with
  | some e => return some e
  | none =>
  match ← check .join with
  | some e => return some e
  | none =>
  match ← call .mkdtemp Places.makeStaging with
  | some e => return some e
  | none =>
    let (status, keepPrevious) ← stage opts
    if keepPrevious then return status
    else
      return orElse status (← zoom Places.stagingWorld Places.setStagingWorld .cleanup
        (deleteStoragePath opts.cleanup .cleanup .destination []))

/-- One complete tree is there: the new one at the destination, or the old one at the
destination, or the old one in the staging directory.  Where there was no old tree the
destination may be absent. -/
def AllOrNothing (source old : Option Tree) (w : Places) : Prop :=
  (source ≠ none ∧ w.target = source) ∨ w.target = old ∨
    (w.target = none ∧ lookup oldEntry w.staging = old)

/-- At every moment so far one complete tree was there, and the source is as it was. -/
structure Safe (source old : Option Tree) (m : Machine Places ReplaceCall Errno) : Prop where
  always : m.Always (AllOrNothing source old)
  source : m.world.source = source

variable {source old : Option Tree} {m m' : Machine Places ReplaceCall Errno}

theorem Forest.find_alter_ne {name name' : Text} (h : name' ≠ name)
    (f : Option Tree → Option Tree) : ∀ entries : Forest,
    (entries.alter name f).find name' = entries.find name'
  | .nil => by
    simp only [Forest.alter]
    split
    · simp [Forest.find, h.symm]
    · rfl
  | .cons n tree rest => by
    simp only [Forest.alter]
    split
    · rename_i hn
      split
      · simp [Forest.find, hn, h.symm]
      · simp [Forest.find, hn, h.symm]
    · simp only [Forest.find]
      rw [Forest.find_alter_ne h f rest]

theorem Safe.record (h : Safe source old m) {c : ReplaceCall} {error : Option Errno} {w : Places}
    (hw : AllOrNothing source old w) (hsource : w.source = source) :
    Safe source old (m.record c error w) :=
  ⟨h.always.record hw, hsource⟩

theorem check_spec (c : ReplaceCall) (h : Safe source old m) :
    Satisfies (check c) m fun _ m' => Safe source old m' ∧ m'.world = m.world := by
  refine satisfies_call ?_ ?_
  · intro e
    exact ⟨h.record h.always.1 h.source, rfl⟩
  · intro w hw
    cases hw
    exact ⟨h.record h.always.1 h.source, rfl⟩

theorem lstatOf_spec (c : ReplaceCall) (place : Places → Option Tree) (h : Safe source old m) :
    Satisfies (lstatOf c place) m fun r m' => Safe source old m' ∧ m'.world = m.world ∧
      (∀ tree, r = .ok tree → place m.world = some tree) ∧
      (r = .error .ENOENT → place m.world = none) := by
  unfold lstatOf
  refine .andThen _ (check_spec c h) ?_
  rintro error m' ⟨hsafe, hworld⟩
  refine .bind (satisfies_currentWorld ?_)
  rw [hworld]
  refine .pure ⟨hsafe, hworld, ?_⟩
  split
  · split
    · rename_i tree hplace
      exact ⟨fun t ht => (by cases ht; exact hplace), fun hr => (by cases hr)⟩
    · rename_i hplace
      exact ⟨fun t ht => (by cases ht), fun _ => hplace⟩
  · split
    · rename_i tree hplace
      exact ⟨fun t ht => (by cases ht; exact hplace), fun hr => (by cases hr)⟩
    · rename_i hplace
      exact ⟨fun t ht => (by cases ht), fun _ => hplace⟩
  · rename_i e hother
    refine ⟨fun t ht => (by cases ht), fun hr => ?_⟩
    cases hr
    exact absurd rfl hother

theorem checkDestination_spec (h : Safe source old m) :
    Satisfies checkDestination m fun _ m' => Safe source old m' ∧ m'.world = m.world := by
  unfold checkDestination
  refine .andThen _ (lstatOf_spec _ _ h) ?_
  rintro r m₁ ⟨hsafe, hworld, -⟩
  split
  · split
    · exact .pure ⟨hsafe, hworld⟩
    · refine (check_spec .realpath hsafe).mono ?_
      rintro _ m' ⟨hsafe', hworld'⟩
      exact ⟨hsafe', hworld'.trans hworld⟩
  · exact .pure ⟨hsafe, hworld⟩

/-- The staging directory holds the new tree, and the old one is at its place. -/
structure Staged (source old : Option Tree) (w : Places) : Prop where
  given : source ≠ none
  target : w.target = old
  staging : ∃ entries, w.staging = some (.dir entries)
  new : lookup newEntry w.staging = source

/-- The old tree is out of the way. -/
structure Cleared (source old : Option Tree) (aside : Bool) (w : Places) : Prop where
  given : source ≠ none
  target : w.target = none
  new : lookup newEntry w.staging = source
  previous : if aside then lookup oldEntry w.staging = old else old = none

theorem Staged.setAside {w w' : Places} {tree : Tree} (h : Staged source old w)
    (htree : w.target = some tree) (hw : w.setAside = .ok w') : Cleared source old true w' := by
  cases hw
  obtain ⟨hsource, htarget, ⟨entries, hstaging⟩, hnew⟩ := h
  have hne : "new".toList ≠ "old".toList := by decide
  refine ⟨hsource, rfl, ?_, ?_⟩
  · rw [← hnew]
    simp only [hstaging]
    show (entries.alter "old".toList _).find "new".toList = entries.find "new".toList
    exact Forest.find_alter_ne hne _ entries
  · rw [if_pos rfl, ← htarget]
    simp only [hstaging, htree]
    exact Forest.find_alter_some "old".toList tree entries

theorem Cleared.allOrNothing {w : Places} {aside : Bool} (h : Cleared source old aside w) :
    AllOrNothing source old w := by
  have hold := h.previous
  split at hold
  · exact .inr (.inr ⟨h.target, hold⟩)
  · exact .inr (.inl (h.target.trans hold.symm))

theorem setPreviousAside_spec (h : Safe source old m) (hstaged : Staged source old m.world) :
    Satisfies setPreviousAside m fun r m' => Safe source old m' ∧ match r with
      | .error _ => m'.world.target = old
      | .ok aside => Cleared source old aside m'.world := by
  unfold setPreviousAside
  refine .andThen _ (lstatOf_spec _ _ h) ?_
  rintro r m₁ ⟨hsafe, hworld, hfound, habsent⟩
  cases r with
  | ok tree =>
    dsimp only
    split
    · exact .pure ⟨hsafe, by rw [hworld]; exact hstaged.target⟩
    · refine .bind (satisfies_call ?_ ?_)
      · intro e
        exact .pure ⟨hsafe.record hsafe.always.1 hsafe.source, by
          show m₁.world.target = old
          rw [hworld]
          exact hstaged.target⟩
      · intro w hw
        rw [hworld] at hw
        have hcleared := hstaged.setAside (hfound tree rfl) hw
        refine .pure ⟨hsafe.record hcleared.allOrNothing ?_, hcleared⟩
        cases hw
        exact h.source
  | error e =>
    dsimp only
    split
    · rename_i henoent
      rw [henoent] at habsent
      have hnone : old = none := by
        rw [← hstaged.target]
        exact habsent rfl
      refine .pure ⟨hsafe, hstaged.given, ?_, ?_, hnone⟩
      · rw [hworld]
        exact habsent rfl
      · rw [hworld]
        exact hstaged.new
    · exact .pure ⟨hsafe, by rw [hworld]; exact hstaged.target⟩

/-- What copy and commit leave behind: a complete tree at the destination, unless the previous
one must be kept in the staging directory. -/
structure Committed (source old : Option Tree) (r : Option Errno × Bool)
    (m : Machine Places ReplaceCall Errno) : Prop where
  safe : Safe source old m
  done : r.1 = none → source ≠ none ∧ m.world.target = source
  settled : r.2 = false → (source ≠ none ∧ m.world.target = source) ∨ m.world.target = old

theorem Committed.failed (h : Safe source old m) (htarget : m.world.target = old) (e : Errno) :
    Committed source old (some e, false) m :=
  ⟨h, fun hr => (by cases hr), fun _ => .inr htarget⟩

/-- The commit of a staged directory. -/
theorem commit_spec (h : Safe source old m) (hstaged : Staged source old m.world) :
    Satisfies commit m (Committed source old) := by
  unfold commit
  refine .andThen _ (setPreviousAside_spec h hstaged) ?_
  rintro r m₁ ⟨hsafe, hr⟩
  cases r with
  | error e => exact .pure (.failed hsafe hr e)
  | ok aside =>
    have hcleared : Cleared source old aside m₁.world := hr
    refine .bind (satisfies_call ?_ ?_)
    · -- The new tree cannot be moved into place.
      intro e
      dsimp only
      split
      · rename_i haside
        have hold := hcleared.previous
        rw [if_pos haside] at hold
        have hfailed : Safe source old (m₁.record .install (some e) m₁.world) :=
          hsafe.record hsafe.always.1 hsafe.source
        refine .bind (satisfies_call ?_ ?_)
        · intro e'
          refine .pure ⟨hfailed.record hsafe.always.1 hsafe.source,
            fun hr => (by cases hr), fun hkeep => (by cases hkeep)⟩
        · intro w hw
          cases hw
          have hback : AllOrNothing source old
              { m₁.world with
                target := lookup oldEntry m₁.world.staging
                staging := setAt oldEntry none m₁.world.staging } := .inr (.inl hold)
          exact .pure (.failed (hfailed.record hback hsafe.source) hold e)
      · rename_i haside
        have hold := hcleared.previous
        rw [if_neg haside] at hold
        exact .pure (.failed (hsafe.record hsafe.always.1 hsafe.source)
          (hcleared.target.trans hold.symm) e)
    · intro w hw
      cases hw
      have htarget : lookup newEntry m₁.world.staging = source := hcleared.new
      exact .pure ⟨hsafe.record (.inl ⟨hcleared.given, htarget⟩) hsafe.source,
        fun _ => ⟨hcleared.given, htarget⟩, fun _ => .inl ⟨hcleared.given, htarget⟩⟩

theorem copy_spec (opts : ReplaceOptions) {tree : Tree} (h : Safe source old m)
    (hsource : source = some tree) (htarget : m.world.target = old)
    (hstaging : m.world.staging = some (.dir .nil)) :
    Satisfies (zoom Places.copyWorld Places.setCopyWorld .copy (copyPathProgress opts.copy)) m
      fun r m' => Safe source old m' ∧ m'.world.target = old ∧
        (r = none → Staged source old m'.world) := by
  have hcopy : m.world.copyWorld.source = some tree := h.source.trans hsource
  refine .zoom (copyPathProgress_spec opts.copy hcopy) ?_
  intro r n m' hdone hworld hlog
  have hkept := hdone.sound.kept m.world.source ⟨rfl, fun e he => (by cases he)⟩
  have htarget' : ∀ v, (Places.setCopyWorld v m.world).target = old := fun _ => htarget
  refine ⟨⟨h.always.zoom hworld hlog fun v => .inr (.inl (htarget' v)), ?_⟩, ?_, fun hr => ?_⟩
  · rw [hworld]
    exact hkept.1.trans h.source
  · rw [hworld]
    exact htarget' _
  · rw [hworld]
    have hstaging' : (Places.setCopyWorld n.world m.world).staging =
        some (.dir (Forest.nil.alter "new".toList fun _ => some tree)) := by
      show setAt newEntry n.world.destination m.world.staging = _
      rw [(hdone.done hr).1, hstaging]
      rfl
    refine ⟨by simp [hsource], htarget' _, ⟨_, hstaging'⟩, ?_⟩
    rw [hstaging', hsource]
    exact Forest.find_alter_some "new".toList tree .nil

theorem askFinalize_spec (opts : ReplaceOptions) (h : Safe source old m) :
    Satisfies (askFinalize opts) m fun _ m' => Safe source old m' ∧ m'.world = m.world := by
  unfold askFinalize
  split
  · exact check_spec _ h
  · exact .pure ⟨h, rfl⟩

theorem stage_spec (opts : ReplaceOptions) {tree : Tree} (h : Safe source old m)
    (hsource : source = some tree) (htarget : m.world.target = old)
    (hstaging : m.world.staging = some (.dir .nil)) :
    Satisfies (stage opts) m (Committed source old) := by
  unfold stage
  refine .andThen _ (check_spec .join h) ?_
  rintro r₁ m₁ ⟨hsafe₁, hworld₁⟩
  have htarget₁ : m₁.world.target = old := by rw [hworld₁, htarget]
  cases r₁ with
  | some e => exact .pure (.failed hsafe₁ htarget₁ e)
  | none =>
    refine .andThen _
      (copy_spec opts hsafe₁ hsource htarget₁ (by rw [hworld₁, hstaging])) ?_
    rintro r₂ m₂ ⟨hsafe₂, htarget₂, hstaged⟩
    cases r₂ with
    | some e => exact .pure (.failed hsafe₂ htarget₂ e)
    | none =>
      refine .andThen _ (check_spec .cancelled hsafe₂) ?_
      rintro r₃ m₃ ⟨hsafe₃, hworld₃⟩
      have htarget₃ : m₃.world.target = old := by rw [hworld₃, htarget₂]
      cases r₃ with
      | some e => exact .pure (.failed hsafe₃ htarget₃ _)
      | none =>
        refine .andThen _ (askFinalize_spec opts hsafe₃) ?_
        rintro r₄ m₄ ⟨hsafe₄, hworld₄⟩
        have htarget₄ : m₄.world.target = old := by rw [hworld₄, htarget₃]
        cases r₄ with
        | some e => exact .pure (.failed hsafe₄ htarget₄ _)
        | none =>
          refine commit_spec hsafe₄ ?_
          rw [hworld₄, hworld₃]
          exact hstaged rfl

/-- What a replacement leaves behind. -/
structure Replaced (source old : Option Tree) (r : Option Errno)
    (m : Machine Places ReplaceCall Errno) : Prop where
  safe : Safe source old m
  done : r = none → source ≠ none ∧ m.world.target = source

theorem cleanup_spec (opts : ReplaceOptions) {status : Option Errno}
    (h : Committed source old (status, false) m) :
    Satisfies (zoom Places.stagingWorld Places.setStagingWorld .cleanup
      (deleteStoragePath opts.cleanup .cleanup .destination [])) m
      fun deleted m' => Replaced source old (orElse status deleted) m' := by
  refine .zoom (deleteStoragePath_spec opts.cleanup .cleanup .destination [] _) ?_
  rintro deleted n m' ⟨hremoving, -⟩ hworld hlog
  have hkept := hremoving.rest (fun w => w.source = m.world.source) (fun _ => True)
    (fun _ _ hw => hw) (fun _ _ => trivial) rfl (fun _ _ => trivial)
  have hput : ∀ v, AllOrNothing source old (Places.setStagingWorld v m.world) := by
    intro v
    rcases h.settled rfl with hnew | hold
    · exact .inl hnew
    · exact .inr (.inl hold)
  refine ⟨⟨h.safe.always.zoom hworld hlog hput, ?_⟩, fun hr => ?_⟩
  · rw [hworld]
    exact hkept.1.trans h.safe.source
  · rw [hworld]
    exact h.done (orElse_eq_none.mp hr).1

theorem Replaced.failed (h : Safe source old m) (e : Errno) : Replaced source old (some e) m :=
  ⟨h, fun hr => (by cases hr)⟩

/-- What a replacement leaves behind. -/
theorem replaceDirectoryProgress_spec (opts : ReplaceOptions) (h : Safe source old m)
    (htarget : m.world.target = old) :
    Satisfies (replaceDirectoryProgress opts) m (Replaced source old) := by
  unfold replaceDirectoryProgress
  refine .andThen _ (check_spec .validate h) ?_
  rintro r₁ m₁ ⟨hsafe₁, hworld₁⟩
  cases r₁ with
  | some e => exact .pure (Replaced.failed hsafe₁ e)
  | none =>
  refine .andThen _ (lstatOf_spec .lstatSource Places.source hsafe₁) ?_
  rintro r₂ m₂ ⟨hsafe₂, hworld₂, hfound, -⟩
  cases r₂ with
  | error e => exact .pure (Replaced.failed hsafe₂ e)
  | ok tree =>
  have hsource : source = some tree := by
    rw [← hsafe₁.source]
    exact hfound tree rfl
  dsimp only
  split
  · exact .pure (Replaced.failed hsafe₂ _)
  · refine .andThen _ (checkDestination_spec hsafe₂) ?_
    rintro r₃ m₃ ⟨hsafe₃, hworld₃⟩
    cases r₃ with
    | some e => exact .pure (Replaced.failed hsafe₃ e)
    | none =>
    refine .andThen _ (check_spec .join hsafe₃) ?_
    rintro r₄ m₄ ⟨hsafe₄, hworld₄⟩
    have htarget₄ : m₄.world.target = old := by
      rw [hworld₄, hworld₃, hworld₂, hworld₁, htarget]
    cases r₄ with
    | some e => exact .pure (Replaced.failed hsafe₄ e)
    | none =>
    refine .bind (satisfies_call ?_ ?_)
    · intro e
      exact .pure (Replaced.failed (hsafe₄.record hsafe₄.always.1 hsafe₄.source) e)
    · intro w hw
      cases hw
      have hsafe₅ : Safe source old (m₄.record .mkdtemp none
          { m₄.world with staging := some (.dir .nil) }) :=
        hsafe₄.record (.inr (.inl htarget₄)) hsafe₄.source
      refine .andThen _ (stage_spec opts hsafe₅ hsource htarget₄ rfl) ?_
      rintro ⟨status, keepPrevious⟩ m₆ hcommitted
      cases keepPrevious with
      | true => exact .pure ⟨hcommitted.safe, hcommitted.done⟩
      | false => exact cleanup_spec opts hcommitted

/-- A machine at the start of a replacement. -/
def startReplacing (source target : Option Tree) (answers : Nat → Answer Errno) :
    Machine Places ReplaceCall Errno where
  answers := answers
  clock := 0
  world := ⟨source, target, none, []⟩
  log := []

/-- Whatever fails, at every moment of a replacement one complete tree is at the destination
or held in the staging directory; and a replacement that succeeds has put the new tree into
place.  The source is never touched. -/
theorem replaceDirectory_allOrNothing (opts : ReplaceOptions) (source target : Option Tree)
    (answers : Nat → Answer Errno) :
    (replaceDirectoryProgress opts (startReplacing source target answers)).2.Always
        (AllOrNothing source target) ∧
      ((replaceDirectoryProgress opts (startReplacing source target answers)).1 = none →
        source ≠ none ∧
        (replaceDirectoryProgress opts (startReplacing source target answers)).2.world.target =
          source) ∧
      (replaceDirectoryProgress opts (startReplacing source target answers)).2.world.source =
        source := by
  have hstart : Safe source target (startReplacing source target answers) :=
    ⟨⟨.inr (.inl rfl), fun e he => (by cases he)⟩, rfl⟩
  have hreplaced := replaceDirectoryProgress_spec opts hstart rfl
  exact ⟨hreplaced.safe.always, hreplaced.done, hreplaced.safe.source⟩

end ShadowMount.Storage
