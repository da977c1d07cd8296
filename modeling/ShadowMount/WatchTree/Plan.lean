import ShadowMount.WatchTree.Depth

/-!
# What a walk watches

A walk that is not halted watches a set of directories that depends on the answers about the paths
below its start only.  The set is computed here by a plan, and the walk of the source is shown to
follow it: it fails where the plan does, and otherwise adds exactly the planned directories.
-/

namespace ShadowMount.WatchTree

open Foundation Config WatchRegistry

variable {path dirPath : Text} {depth scanDepth : Nat} {α β : Type} {entries : List DirEntry}
  {f : α → Option β} {as : List α} {bs : List β}

/-- What registering a watch on a directory comes to: a failure, or whether it is watched. -/
def registers (v : View) (path : Text) : Option Bool :=
  if !v.grows path then none
  else if (v.openDirectory path).isNone then some false
  else if !v.accepts path then none
  else some true

/-- The directories among the entries, or a failure to classify one. -/
def childDirectories (v : View) (skipBackportsRoot : Bool) (dirPath : Text) :
    List DirEntry → Option (List Text)
  | [] => some []
  | entry :: rest =>
    let others := childDirectories v skipBackportsRoot dirPath rest
    if entry.skipped skipBackportsRoot dirPath then others
    else
      match classifyScanTreeEntry v (entry.path dirPath) entry.type with
      | .error failure => if failure = .denied then others else none
      | .ok false => others
      | .ok true => others.map (entry.path dirPath :: ·)

/-- Is the directory watched at most for itself? -/
def passedOver (v : View) (config : RuntimeState) (scanRoot : Text) (scanDepth : Nat)
    (dirPath : Text) (depth : Nat) : Bool :=
  0 < depth && (isDistinctConfiguredScanRoot config scanRoot dirPath ||
    isUnderImageMountBase dirPath ||
    (decide (scanDepth ≤ depth) || directoryHasGameParam v.stat dirPath))

/-- The directories that a walk watches, with their depths, or a failure of the walk. -/
def watchPlan (v : View) (config : RuntimeState) (scanRoot : Text) (scanDepth : Nat) :
    Nat → Text → Nat → Option (List (Text × Nat))
  | 0, dirPath, depth =>
    if passedOver v config scanRoot scanDepth dirPath depth then some []
    else (registers v dirPath).map fun watched => if watched then [(dirPath, depth)] else []
  | remaining + 1, dirPath, depth =>
    if passedOver v config scanRoot scanDepth dirPath depth then some []
    else
      (registers v dirPath).bind fun watched =>
        let own := if watched then [(dirPath, depth)] else []
        match v.opendir dirPath with
        | .error failure => if failure = .other then none else some own
        | .ok listing =>
          if (LoopEnd.ended listing.readError).result true listing.closeError then
            ((childDirectories v (skipsBackports scanRoot depth) dirPath
              listing.entries).bind fun children =>
                children.mapM fun path =>
                  watchPlan v config scanRoot scanDepth remaining path (depth + 1)).map
              fun plans => own ++ plans.flatten
          else none

/-- The directories of a list of subscriptions, with their kinds and depths. -/
def directories (watches : List Subscription) : Set (Text × WatchKind × Nat) :=
  {d | ∃ e ∈ watches, d = (e.path, e.kind, e.depth)}

/-- The watch on a directory of the tree. -/
def treeWatch (d : Text × Nat) : Text × WatchKind × Nat := (d.1, kindAt d.2, d.2 % 256)

@[simp]
theorem directories_nil : directories [] = ∅ := by
  simp [directories]

theorem directories_append (a b : List Subscription) :
    directories (a ++ b) = directories a ∪ directories b := by
  ext d
  simp only [directories, List.mem_append, Set.mem_ofPred_eq, Set.mem_union]
  constructor
  · rintro ⟨e, he | he, rfl⟩
    · exact .inl ⟨e, he, rfl⟩
    · exact .inr ⟨e, he, rfl⟩
  · rintro (⟨e, he, rfl⟩ | ⟨e, he, rfl⟩)
    · exact ⟨e, .inl he, rfl⟩
    · exact ⟨e, .inr he, rfl⟩

/-- The entries below the start of a walk are accepted ones, and their kind and depth are those
that the walk gives them. -/
def Fits (v : View) (root start : Text) (watches : List Subscription) : Prop :=
  ∀ e ∈ watches, Under start e.path → v.accepts e.path = true ∧
    ∀ depth, Descends root e.path depth → e.kind = kindAt depth ∧ e.depth = depth % 256

/-- The planned directories are added, and nothing else. -/
structure Adds (v : View) (root start : Text) (plan : List (Text × Nat))
    (watches watches' : List Subscription) : Prop where
  directories : directories watches' = directories watches ∪ {d | ∃ p ∈ plan, d = treeWatch p}
  fits : Fits v root start watches'

/-- A step of a walk follows its plan. -/
def Follows (v : View) (root start : Text) (plan : Option (List (Text × Nat)))
    (watches : List Subscription) (ok : Bool) (watches' : List Subscription) : Prop :=
  match plan with
  | none => ok = false
  | some plan => ok = true ∧ Adds v root start plan watches watches'

variable {v : View} {config : RuntimeState} {root start : Text} {watches : List Subscription}

theorem Adds.refl (h : Fits v root start watches) : Adds v root start [] watches watches where
  directories := by simp
  fits := h

theorem Adds.trans {plan plan' : List (Text × Nat)} {watches' watches'' : List Subscription}
    (h : Adds v root start plan watches watches')
    (h' : Adds v root start plan' watches' watches'') :
    Adds v root start (plan ++ plan') watches watches'' where
  directories := by
    rw [h'.directories, h.directories]
    ext d
    simp only [Set.mem_union, Set.mem_ofPred_eq, List.mem_append]
    grind
  fits := h'.fits

/-- Registering a watch on a directory of the tree does what `registers` says. -/
theorem registerScannerWatchEntry_follows (hfits : Fits v root start watches)
    (hpath : Descends root path depth) (hroot : root ≠ []) (hstart : Under start path) :
    Follows v root start ((registers v path).map fun watched =>
        if watched then [(path, depth)] else []) watches
      (registerScannerWatchEntry v path (kindAt depth) (depth % 256) watches).1
      (registerScannerWatchEntry v path (kindAt depth) (depth % 256) watches).2 := by
  unfold registerScannerWatchEntry registers Follows
  cases hgrows : v.grows path with
  | false => simp
  | true =>
    cases hopen : v.openDirectory path with
    | none => simpa using Adds.refl hfits
    | some fd =>
      simp only [Bool.not_true, Bool.false_eq_true, if_false, Option.isNone_some]
      cases hfind : watches.find? fun e => e.path = path && v.sameDirectory e.fd path with
      | some existing =>
        -- an entry that exists was accepted, and says the same
        have hmem := List.mem_of_find?_eq_some hfind
        have hsame : existing.path = path := by
          have hfound := List.find?_some hfind
          simp only [Bool.and_eq_true, decide_eq_true_eq] at hfound
          exact hfound.1
        obtain ⟨haccepts, hlabels⟩ := hfits existing hmem (by rwa [hsame])
        obtain ⟨hkind, hdepth⟩ := hlabels depth (by rwa [hsame])
        rw [hsame] at haccepts
        simp only [haccepts, hkind, hdepth, Bool.not_true, Bool.false_eq_true, if_false,
          Option.map_some, if_true, decide_true, Bool.and_self, true_and]
        refine ⟨?_, hfits⟩
        ext d
        simp only [Set.mem_union, Set.mem_ofPred_eq, List.mem_singleton, exists_eq_left]
        refine ⟨.inl, ?_⟩
        rintro (hd | rfl)
        · exact hd
        · exact ⟨existing, hmem, by rw [treeWatch, hsame, hkind, hdepth]⟩
      | none =>
        cases haccepts : v.accepts path with
        | false => simp
        | true =>
          simp only [Bool.not_true, Bool.false_eq_true, if_false, Option.map_some, if_true,
            true_and]
          refine ⟨?_, ?_⟩
          · rw [directories_append]
            congr 1
            ext d
            simp [directories, treeWatch]
          · intro e he hunder
            rcases List.mem_append.mp he with he | he
            · exact hfits e he hunder
            · rw [List.mem_singleton.mp he]
              refine ⟨haccepts, fun depth' hdepth' => ?_⟩
              rw [hpath.depth_unique hdepth' hroot]
              exact ⟨rfl, rfl⟩

/-- Nothing asks the walk to halt. -/
def View.Idle (v : View) : Prop := ∀ n, v.halted n = false

theorem View.Idle.poll (hidle : v.Idle) {σ : Type} (w : Walking σ) :
    w.poll v = (false, { w with polls := w.polls + 1 }) := by
  unfold Walking.poll
  rw [hidle]

theorem View.Idle.pace (hidle : v.Idle) {σ : Type} (w : Walking σ) (entries : Nat) :
    ∃ polls, w.pace v entries = (false, { w with polls := polls }) := by
  unfold Walking.pace
  split
  · exact ⟨_, hidle.poll w⟩
  · exact ⟨_, rfl⟩

theorem bind_mapM_cons (f : α → Option β) (a : α) (others : Option (List α)) :
    (others.map (a :: ·)).bind (List.mapM f) =
      (f a).bind fun b => (others.bind (List.mapM f)).map (b :: ·) := by
  cases others with
  | none =>
    cases f a with
    | none => rfl
    | some b => rfl
  | some others =>
    simp only [Option.map_some, Option.bind_some, List.mapM_cons]
    cases f a with
    | none => rfl
    | some b =>
      cases List.mapM f others with
      | none => rfl
      | some bs => rfl

/-- The loop follows the plans of the directories it finds. -/
def LoopFollows (v : View) (root start : Text) (plan : Option (List (List (Text × Nat))))
    (readError : Option Failure) (watches : List Subscription) (loopEnd : LoopEnd)
    (watches' : List Subscription) : Prop :=
  match plan with
  | none => loopEnd = .aborted ∨ ∃ failure ≠ Failure.denied, loopEnd = .ended (some failure)
  | some plans => loopEnd = .ended readError ∧ Adds v root start plans.flatten watches watches'

/-- The entries of a directory follow their plans. -/
theorem readEntries_follows (hidle : v.Idle) (skipBackportsRoot : Bool) (readError : Option Failure)
    (descend : Text → Walking (List Subscription) → Bool × Walking (List Subscription))
    (plan : Text → Option (List (Text × Nat)))
    (hdescend : ∀ entry ∈ entries, ∀ w, Fits v root start w.data →
      Follows v root start (plan (entry.path dirPath)) w.data (descend (entry.path dirPath) w).1
        (descend (entry.path dirPath) w).2.data) (count : Nat) {w : Walking (List Subscription)}
    (hfits : Fits v root start w.data) :
    LoopFollows v root start
      ((childDirectories v skipBackportsRoot dirPath entries).bind (List.mapM plan))
        readError w.data
      (readEntries v true skipBackportsRoot dirPath readError descend entries count w).1
      (readEntries v true skipBackportsRoot dirPath readError descend entries count w).2.data := by
  induction entries generalizing count w with
  | nil =>
    simp only [childDirectories, Option.bind_some, List.mapM_nil, readEntries, hidle.poll]
    exact ⟨rfl, Adds.refl hfits⟩
  | cons entry rest ih =>
    have hrest := fun (w : Walking (List Subscription)) hfits =>
      @ih (fun e he => hdescend e (List.mem_cons_of_mem _ he)) (count + 1) w hfits
    obtain ⟨polls, hpace⟩ := hidle.pace
      { w with polls := w.polls + 1 + 1 } (count + 1)
    simp only [childDirectories, readEntries, hidle.poll, hpace]
    by_cases hskip : entry.skipped skipBackportsRoot dirPath = true
    · simp only [hskip, if_true]
      exact hrest ⟨polls, w.data⟩ hfits
    · simp only [hskip, Bool.false_eq_true, if_false]
      cases hclass : classifyScanTreeEntry v (entry.path dirPath) entry.type with
      | error failure =>
        simp only [Bool.true_and, decide_eq_true_eq]
        by_cases hdenied : failure = .denied
        · simp only [hdenied, if_true]
          exact hrest ⟨polls, w.data⟩ hfits
        · simp only [hdenied, if_false]
          exact .inr ⟨failure, hdenied, rfl⟩
      | ok isDir =>
        cases isDir with
        | false => exact hrest ⟨polls, w.data⟩ hfits
        | true =>
          simp only [bind_mapM_cons]
          have hhere := hdescend entry List.mem_cons_self ⟨polls, w.data⟩ hfits
          generalize descend (entry.path dirPath) ⟨polls, w.data⟩ = here at hhere
          obtain ⟨ok, w'⟩ := here
          cases hplan : plan (entry.path dirPath) with
          | none =>
            rw [hplan] at hhere
            cases hhere
            exact .inl rfl
          | some own =>
            rw [hplan] at hhere
            obtain ⟨rfl, hadds⟩ := hhere
            have hothers := hrest w' hadds.fits
            simp only [Option.bind_some]
            cases hbind : (childDirectories v skipBackportsRoot dirPath rest).bind
                (List.mapM plan) with
            | none =>
              rw [hbind] at hothers
              exact hothers
            | some plans =>
              rw [hbind] at hothers
              exact ⟨hothers.1, hadds.trans hothers.2⟩

theorem passedOver_eq_true (h : passedOver v config root scanDepth path depth = true)
    (hidle : v.Idle) (w : Walking (List Subscription)) :
    ∃ polls, enterDirectory v config (watchCallbacks v scanDepth) root path depth w =
      (.returns true, { w with polls := polls }) := by
  simp only [passedOver, Bool.and_eq_true, decide_eq_true_eq, Bool.or_eq_true] at h
  obtain ⟨hpos, hwhy⟩ := h
  simp only [enterDirectory, hidle.poll, hpos, decide_true, Bool.true_and]
  by_cases hdistinct : isDistinctConfiguredScanRoot config root path = true
  · rw [if_pos hdistinct]
    exact ⟨_, rfl⟩
  · have hvisit : registerWatchDirectoryVisit v scanDepth path depth w.data =
        (.skipDescend, w.data) := by
      unfold registerWatchDirectoryVisit
      simp only [hpos, decide_true, Bool.true_and, Bool.or_eq_true, decide_eq_true_eq]
      split
      next => rfl
      next hbase =>
        rw [if_pos]
        simpa [hdistinct, hbase] using hwhy
    rw [if_neg hdistinct, watchCallbacks]
    dsimp only
    rw [hvisit]
    exact ⟨_, rfl⟩

/-- A directory that is not passed over is entered. -/
theorem passedOver_eq_false (h : passedOver v config root scanDepth path depth = false)
    (hidle : v.Idle) (w : Walking (List Subscription)) :
    ∃ polls, enterDirectory v config (watchCallbacks v scanDepth) root path depth w =
      match registerScannerWatchEntry v path (kindAt depth) (depth % 256) w.data with
      | (true, watches) => (.descends, ⟨polls, watches⟩)
      | (false, watches) => (.returns false, ⟨polls, watches⟩) := by
  have hnot : ∀ {b : Bool}, (b = true → passedOver v config root scanDepth path depth = true) →
      b = false := by
    intro b hb
    cases b with
    | false => rfl
    | true => exact absurd (hb rfl) (by simp [h])
  have hdistinct : (decide (0 < depth) && isDistinctConfiguredScanRoot config root path) = false :=
    hnot (by simp only [passedOver]; grind)
  have hbase : (decide (0 < depth) && isUnderImageMountBase path) = false :=
    hnot (by simp only [passedOver]; grind)
  have hgame : (decide (0 < depth) &&
      (decide (scanDepth ≤ depth) || directoryHasGameParam v.stat path)) = false :=
    hnot (by simp only [passedOver]; grind)
  refine ⟨w.polls + 1 + 1, ?_⟩
  simp only [enterDirectory, hidle.poll, hdistinct, Bool.false_eq_true, if_false, watchCallbacks,
    registerWatchDirectoryVisit, hbase, hgame]
  cases registerScannerWatchEntry v path (kindAt depth) (depth % 256) w.data with
  | mk ok watches => cases ok <;> rfl

/-- A directory entered is watched as planned. -/
theorem enterDirectory_follows (hidle : v.Idle) {w : Walking (List Subscription)}
    (hfits : Fits v root start w.data) (hpath : Descends root path depth) (hroot : root ≠ [])
    (hstart : Under start path) (hpassed : passedOver v config root scanDepth path depth = false) :
    match registers v path with
    | none => (enterDirectory v config (watchCallbacks v scanDepth) root path depth w).1 =
        .returns false
    | some watched =>
      (enterDirectory v config (watchCallbacks v scanDepth) root path depth w).1 = .descends ∧
        Adds v root start (if watched then [(path, depth)] else []) w.data
          (enterDirectory v config (watchCallbacks v scanDepth) root path depth w).2.data := by
  have hregister := registerScannerWatchEntry_follows hfits hpath hroot hstart
  obtain ⟨polls, henter⟩ := passedOver_eq_false hpassed hidle w
  rw [henter]
  generalize registerScannerWatchEntry v path (kindAt depth) (depth % 256) w.data = result
    at hregister ⊢
  obtain ⟨ok, watches⟩ := result
  cases hregisters : registers v path with
  | none =>
    rw [hregisters] at hregister
    cases hregister
    rfl
  | some watched =>
    rw [hregisters] at hregister
    obtain ⟨rfl, hadds⟩ := hregister
    exact ⟨rfl, hadds⟩

theorem LoopFollows.result {plans : Option (List (List (Text × Nat)))}
    {readError : Option Failure} {watches' watches'' : List Subscription} {loopEnd : LoopEnd}
    (h : LoopFollows v root start plans readError watches' loopEnd watches'')
    {own : List (Text × Nat)} (hown : Adds v root start own watches watches')
    (closeError : Option Failure) :
    Follows v root start
      (if (LoopEnd.ended readError).result true closeError then
        plans.map fun plans => own ++ plans.flatten else none)
      watches (loopEnd.result true closeError) watches'' := by
  cases plans with
  | none =>
    simp only [Option.map_none, ite_self]
    rcases h with rfl | ⟨failure, hfailure, rfl⟩
    · rfl
    · simp [Follows, LoopEnd.result, hfailure]
  | some plans =>
    obtain ⟨rfl, hadds⟩ := h
    cases hresult : (LoopEnd.ended readError).result true closeError with
    | false => rfl
    | true => exact ⟨rfl, hown.trans hadds⟩

/-- A walk follows its plan. -/
theorem walk_follows (hidle : v.Idle) (hroot : root ≠ []) (scanDepth : Nat) {remaining : Nat}
    {path : Text} {depth : Nat} (hpath : Descends root path depth) (hstart : Under start path)
    {w : Walking (List Subscription)} (hfits : Fits v root start w.data) :
    Follows v root start (watchPlan v config root scanDepth remaining path depth) w.data
      (smScanTreeWalk v config (watchCallbacks v scanDepth) root remaining path depth w).1
      (smScanTreeWalk v config (watchCallbacks v scanDepth) root remaining path depth
        w).2.data := by
  induction remaining generalizing path depth w with
  | zero =>
    simp only [watchPlan, smScanTreeWalk]
    cases hpassed : passedOver v config root scanDepth path depth with
    | true =>
      obtain ⟨polls, henter⟩ := passedOver_eq_true hpassed hidle w
      rw [henter]
      exact ⟨rfl, Adds.refl hfits⟩
    | false =>
      have henter := enterDirectory_follows hidle hfits hpath hroot hstart hpassed
      generalize enterDirectory v config (watchCallbacks v scanDepth) root path depth w = result
        at henter ⊢
      obtain ⟨entered, w'⟩ := result
      cases hregisters : registers v path with
      | none =>
        rw [hregisters] at henter
        cases henter
        rfl
      | some watched =>
        rw [hregisters] at henter
        obtain ⟨rfl, hadds⟩ := henter
        exact ⟨rfl, hadds⟩
  | succ remaining ih =>
    simp only [watchPlan, smScanTreeWalk]
    cases hpassed : passedOver v config root scanDepth path depth with
    | true =>
      obtain ⟨polls, henter⟩ := passedOver_eq_true hpassed hidle w
      rw [henter]
      exact ⟨rfl, Adds.refl hfits⟩
    | false =>
      have henter := enterDirectory_follows hidle hfits hpath hroot hstart hpassed
      generalize enterDirectory v config (watchCallbacks v scanDepth) root path depth w = result
        at henter ⊢
      obtain ⟨entered, w'⟩ := result
      cases hregisters : registers v path with
      | none =>
        rw [hregisters] at henter
        cases henter
        rfl
      | some watched =>
        rw [hregisters] at henter
        obtain ⟨rfl, hadds⟩ := henter
        cases hopen : v.opendir path with
        | error failure =>
          cases failure <;> first | exact rfl | exact ⟨rfl, hadds⟩
        | ok listing =>
          have hpathNe := hpath.ne_nil hroot
          have hchild : ∀ entry ∈ listing.entries, ∀ w,
              Fits v root start w.data →
              Follows v root start
                (watchPlan v config root scanDepth remaining (entry.path path) (depth + 1))
                w.data
                (smScanTreeWalk v config (watchCallbacks v scanDepth) root remaining
                  (entry.path path) (depth + 1) w).1
                (smScanTreeWalk v config (watchCallbacks v scanDepth) root remaining
                  (entry.path path) (depth + 1) w).2.data := by
            intro entry _ w hfits
            exact ih (hpath.child entry.plain)
              (hstart.trans (under_child hpathNe entry.plain)) hfits
          have hloop := readEntries_follows hidle (skipsBackports root depth)
            listing.readError
            (fun path => smScanTreeWalk v config (watchCallbacks v scanDepth) root
              remaining path (depth + 1))
            (fun path => watchPlan v config root scanDepth remaining path (depth + 1))
            hchild 0 hadds.fits
          exact hloop.result hadds listing.closeError

theorem mapM_cons_eq_some {a : α} :
    (a :: as).mapM f = some bs ↔
      ∃ b bs', f a = some b ∧ as.mapM f = some bs' ∧ bs = b :: bs' := by
  rw [List.mapM_cons]
  cases f a with
  | none => simp
  | some b =>
    cases as.mapM f with
    | none => simp
    | some bs' => simp [eq_comm]

theorem mem_of_mapM_eq_some (h : as.mapM f = some bs) (b : β) :
    b ∈ bs ↔ ∃ a ∈ as, f a = some b := by
  induction as generalizing bs with
  | nil =>
    rw [List.mapM_nil] at h
    cases h
    simp
  | cons a as ih =>
    obtain ⟨first', rest, hfirst, hrest, rfl⟩ := mapM_cons_eq_some.mp h
    simp only [List.mem_cons, ih hrest, exists_eq_or_imp, hfirst, Option.some.injEq]
    rw [eq_comm]

theorem exists_of_mapM_eq_some (h : as.mapM f = some bs) {a : α} (ha : a ∈ as) :
    ∃ b ∈ bs, f a = some b := by
  induction as generalizing bs with
  | nil => cases ha
  | cons a' as ih =>
    obtain ⟨first', rest, hfirst, hrest, rfl⟩ := mapM_cons_eq_some.mp h
    rcases List.mem_cons.mp ha with rfl | ha
    · exact ⟨first', List.mem_cons_self, hfirst⟩
    · obtain ⟨b, hb, hfa⟩ := ih hrest ha
      exact ⟨b, List.mem_cons_of_mem _ hb, hfa⟩

theorem exists_mapM_eq_some (h : ∀ a ∈ as, (f a).isSome) : ∃ bs, as.mapM f = some bs := by
  induction as with
  | nil => exact ⟨[], rfl⟩
  | cons a as ih =>
    obtain ⟨b, hb⟩ := Option.isSome_iff_exists.mp (h a List.mem_cons_self)
    obtain ⟨bs, hbs⟩ := ih fun a' ha' => h a' (List.mem_cons_of_mem _ ha')
    exact ⟨b :: bs, mapM_cons_eq_some.mpr ⟨b, bs, hb, hbs, rfl⟩⟩

theorem mapM_congr {g : α → Option β} (h : ∀ a ∈ as, f a = g a) : as.mapM f = as.mapM g := by
  induction as with
  | nil => rfl
  | cons a as ih =>
    rw [List.mapM_cons, List.mapM_cons, h a List.mem_cons_self,
      ih fun a' ha' => h a' (List.mem_cons_of_mem _ ha')]

/-- A child is one of the entries. -/
theorem childDirectories_mem {skipBackportsRoot : Bool} {children : List Text}
    (h : childDirectories v skipBackportsRoot dirPath entries = some children)
    (hpath : path ∈ children) :
    ∃ entry ∈ entries, path = entry.path dirPath ∧ path.length < maxPath := by
  induction entries generalizing children with
  | nil =>
    cases h
    cases hpath
  | cons entry rest ih =>
    have hrest : ∀ {others : List Text},
        childDirectories v skipBackportsRoot dirPath rest = some others → path ∈ others →
        ∃ e ∈ entry :: rest, path = e.path dirPath ∧ path.length < maxPath := by
      intro others hothers hmem
      obtain ⟨e, he, hwhere⟩ := ih hothers hmem
      exact ⟨e, List.mem_cons_of_mem _ he, hwhere⟩
    simp only [childDirectories] at h
    split at h
    next => exact hrest h hpath
    next hskip =>
      split at h
      next failure _ =>
        split at h
        next => exact hrest h hpath
        next => cases h
      next => exact hrest h hpath
      next =>
        obtain ⟨others, hothers, rfl⟩ := Option.map_eq_some_iff.mp h
        rcases List.mem_cons.mp hpath with rfl | hmem
        · refine ⟨entry, List.mem_cons_self, rfl, ?_⟩
          simp only [DirEntry.skipped, Bool.or_eq_true, decide_eq_true_eq, not_or] at hskip
          omega
        · exact hrest hothers hmem

/-- What is known of a planned directory. -/
structure Placed (root : Text) (scanDepth : Nat) (dirPath : Text) (depth : Nat)
    (d : Text × Nat) : Prop where
  descends : Descends root d.1 d.2
  under : Under dirPath d.1
  depth_le : depth ≤ d.2
  eq_of_depth : d.2 = depth → d.1 = dirPath
  inner : 0 < d.2 → isUnderImageMountBase d.1 = false ∧ d.2 < scanDepth
  length_lt : d.1.length < maxPath

theorem placed_own (hpath : Descends root path depth) (hlen : path.length < maxPath)
    (hpassed : passedOver v config root scanDepth path depth = false) :
    Placed root scanDepth path depth (path, depth) where
  descends := hpath
  under := Under.refl path
  depth_le := le_rfl
  eq_of_depth := fun _ => rfl
  inner := by
    intro hpos
    simp only [passedOver, hpos, decide_true, Bool.true_and, Bool.or_eq_false_iff,
      decide_eq_false_iff_not, not_le] at hpassed
    exact ⟨hpassed.1.2, hpassed.2.1⟩
  length_lt := hlen

/-- Where planned directories are. -/
theorem watchPlan_placed {remaining : Nat} (hroot : root ≠ []) (hpath : Descends root path depth)
    (hlen : path.length < maxPath) {plan : List (Text × Nat)}
    (h : watchPlan v config root scanDepth remaining path depth = some plan) :
    ∀ d ∈ plan, Placed root scanDepth path depth d := by
  induction remaining generalizing path depth plan with
  | zero =>
    unfold watchPlan at h
    split at h
    next =>
      cases h
      simp
    next hpassed =>
      obtain ⟨watched, -, rfl⟩ := Option.map_eq_some_iff.mp h
      intro d hd
      cases watched with
      | false => cases hd
      | true =>
        rw [List.mem_singleton.mp hd]
        exact placed_own hpath hlen (Bool.not_eq_true _ ▸ hpassed)
  | succ remaining ih =>
    unfold watchPlan at h
    split at h
    next =>
      cases h
      simp
    next hpassed =>
      obtain ⟨watched, -, hplan⟩ := Option.bind_eq_some_iff.mp h
      have hown : ∀ d ∈ (if watched then [(path, depth)] else []),
          Placed root scanDepth path depth d := by
        intro d hd
        cases watched with
        | false => cases hd
        | true =>
          rw [List.mem_singleton.mp hd]
          exact placed_own hpath hlen (Bool.not_eq_true _ ▸ hpassed)
      dsimp only at hplan
      split at hplan
      next =>
        split at hplan
        next => cases hplan
        next =>
          cases hplan
          exact hown
      next listing _ =>
        split at hplan
        next =>
          obtain ⟨plans, hplans, rfl⟩ := Option.map_eq_some_iff.mp hplan
          obtain ⟨children, hchildren, hmap⟩ := Option.bind_eq_some_iff.mp hplans
          intro d hd
          rcases List.mem_append.mp hd with hd | hd
          · exact hown d hd
          · obtain ⟨inner, hinner, hd⟩ := List.mem_flatten.mp hd
            obtain ⟨c, hc, hinner⟩ := (mem_of_mapM_eq_some hmap inner).mp hinner
            obtain ⟨entry, -, rfl, hclen⟩ := childDirectories_mem hchildren hc
            have hplaced := ih (hpath.child entry.plain) hclen hinner d hd
            have hdepth := hplaced.depth_le
            exact
              { descends := hplaced.descends
                under := (under_child (hpath.ne_nil hroot) entry.plain).trans hplaced.under
                depth_le := by omega
                eq_of_depth := fun heq => by omega
                inner := hplaced.inner
                length_lt := hplaced.length_lt }
        next => cases hplan

/-- The answers about a path are the same.  Of a directory, this includes the types of the entries,
which `lstat` tells where `readdir` does not. -/
structure SameAt (before after : View) (path : Text) : Prop where
  stat : after.stat path = before.stat path
  opendir : after.opendir path = before.opendir path
  types : ∀ listing, before.opendir path = .ok listing → ∀ entry ∈ listing.entries,
    after.lstat (entry.path path) = before.lstat (entry.path path)
  grows : after.grows path = before.grows path
  openDirectory : (after.openDirectory path).isNone = (before.openDirectory path).isNone
  accepts : after.accepts path = before.accepts path

section Congr

variable {before after : View}

theorem SameAt.registers (h : SameAt before after path) :
    registers after path = registers before path := by
  unfold WatchTree.registers
  rw [h.grows, h.openDirectory, h.accepts]

theorem under_append {rest : Text} (hdir : dirPath ≠ []) (hrest : rest ≠ []) :
    Under dirPath (dirPath ++ '/' :: rest) := by
  unfold Under
  rw [components_append_cons hdir hrest]
  exact List.prefix_append _ _

theorem directoryHasGameParam_congr (hdir : dirPath ≠ [])
    (h : ∀ path, Under dirPath path → SameAt before after path) :
    directoryHasGameParam after.stat dirPath = directoryHasGameParam before.stat dirPath := by
  have hnames : ∀ names : List Text,
      findGameParam after.stat dirPath names = findGameParam before.stat dirPath names := by
    intro names
    induction names with
    | nil => rfl
    | cons name names ih =>
      have hunder : Under dirPath (dirPath ++ "/sce_sys/".toList ++ name) := by
        rw [List.append_assoc]
        exact under_append hdir (by simp)
      simp only [findGameParam, ih, (h _ hunder).stat]
  exact hnames _

theorem childDirectories_congr {skipBackportsRoot : Bool}
    (h : ∀ entry ∈ entries, after.lstat (entry.path dirPath) = before.lstat (entry.path dirPath)) :
    childDirectories after skipBackportsRoot dirPath entries =
      childDirectories before skipBackportsRoot dirPath entries := by
  induction entries with
  | nil => rfl
  | cons entry rest ih =>
    have hclass : classifyScanTreeEntry after (entry.path dirPath) entry.type =
        classifyScanTreeEntry before (entry.path dirPath) entry.type := by
      unfold classifyScanTreeEntry
      rw [h entry List.mem_cons_self]
    simp only [childDirectories, ih fun e he => h e (List.mem_cons_of_mem _ he), hclass]

theorem passedOver_congr (hne : path ≠ []) (h : ∀ p, Under path p → SameAt before after p) :
    passedOver after config root scanDepth path depth =
      passedOver before config root scanDepth path depth := by
  unfold passedOver
  rw [directoryHasGameParam_congr hne h]

/-- The plan depends on the answers below its start only. -/
theorem watchPlan_congr (hroot : root ≠ []) {remaining : Nat} (hpath : Descends root path depth)
    (h : ∀ p, Under path p → SameAt before after p) :
    watchPlan after config root scanDepth remaining path depth =
      watchPlan before config root scanDepth remaining path depth := by
  induction remaining generalizing path depth with
  | zero =>
    have hne := hpath.ne_nil hroot
    simp only [watchPlan, passedOver_congr hne h, (h path (Under.refl path)).registers]
  | succ remaining ih =>
    have hne := hpath.ne_nil hroot
    have hself := h path (Under.refl path)
    have hchildren : ∀ listing : Listing, before.opendir path = .ok listing →
        (childDirectories after (skipsBackports root depth) path listing.entries).bind
            (List.mapM fun p => watchPlan after config root scanDepth remaining p (depth + 1)) =
          (childDirectories before (skipsBackports root depth) path listing.entries).bind
            (List.mapM fun p =>
              watchPlan before config root scanDepth remaining p (depth + 1)) := by
      intro listing hlisting
      rw [childDirectories_congr (hself.types listing hlisting)]
      cases hc : childDirectories before (skipsBackports root depth) path listing.entries with
      | none => rfl
      | some children =>
        apply mapM_congr
        intro c hmem
        obtain ⟨entry, -, rfl, -⟩ := childDirectories_mem hc hmem
        exact ih (hpath.child entry.plain) fun p hp =>
          h p ((under_child hne entry.plain).trans hp)
    simp only [watchPlan, passedOver_congr hne h, hself.registers, hself.opendir]
    cases hopen : before.opendir path with
    | error failure => rfl
    | ok listing => simp only [hchildren listing hopen]

end Congr

end ShadowMount.WatchTree
