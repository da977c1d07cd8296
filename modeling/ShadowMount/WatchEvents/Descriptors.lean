import ShadowMount.WatchEvents.Model

/-!
# The scanner's view of its descriptors

The scanner never asks the kernel what a descriptor number is open for: it looks the number up in
its registry and in the variables of its control files.  These agree with the descriptor table of
the process, and every handler keeps the agreement.  What is open after a handler was open before
it, under the same number, or is a new opening.
-/

namespace ShadowMount.WatchEvents

open Foundation
open Config hiding maxScanPaths
open WatchRegistry WatchRegistry.Registry WatchTree

variable {fd opened : Nat} {s : Scanner} {t : Registry} {opening : Option Opening} {e : WatchEntry}

/-- Every opening is one of those so far, and is there under one number only. -/
structure Located (opened : Nat) (table : Descriptors) : Prop where
  fresh : ∀ fd o, table fd = some o → o.serial < opened
  unique : ∀ fd fd' o o', table fd = some o → table fd' = some o' → o.serial = o'.serial → fd = fd'

/-- A later table: what is open now was open before, under the same number, or was opened since. -/
structure Later (opened : Nat) (table : Descriptors) (opened' : Nat) (table' : Descriptors) :
    Prop where
  grows : opened ≤ opened'
  same : ∀ fd o, table' fd = some o → table fd = some o ∨ opened ≤ o.serial

variable {n n' : Nat} {table table' : Descriptors}

theorem Later.refl (n : Nat) (table : Descriptors) : Later n table n table :=
  ⟨le_rfl, fun _ _ h => .inl h⟩

theorem Later.trans {m : Nat} {later : Descriptors} (h : Later n table n' table')
    (h' : Later n' table' m later) : Later n table m later := by
  refine ⟨h.grows.trans h'.grows, fun fd o ho => ?_⟩
  rcases h'.same fd o ho with hold | hnew
  · exact h.same fd o hold
  · exact .inr (h.grows.trans hnew)

/-- An opening that is still there is there under its number. -/
theorem Later.number (h : Later n table n' table') (hlocated : Located n table) {fd' : Nat}
    {o : Opening} (ho : table fd = some o) (ho' : table' fd' = some o) : fd' = fd := by
  rcases h.same fd' o ho' with hsame | hnew
  · exact hlocated.unique fd' fd o o hsame ho rfl
  · exact absurd (hlocated.fresh fd o ho) (Nat.not_lt.mpr hnew)

/-- Closing numbers. -/
theorem Located.shrink (h : Located n table) (hsub : ∀ fd o, table' fd = some o → table fd = some o)
    (hopened : n ≤ n') : Located n' table' ∧ Later n table n' table' :=
  ⟨⟨fun fd o ho => (h.fresh fd o (hsub fd o ho)).trans_le hopened,
    fun fd fd' o o' ho ho' => h.unique fd fd' o o' (hsub fd o ho) (hsub fd' o' ho')⟩,
    hopened, fun fd o ho => .inl (hsub fd o ho)⟩

/-- A new opening, under a number that is free. -/
theorem Located.update (h : Located n table) (fd : Nat) (file : File) :
    Located (n + 1) (Function.update table fd (some ⟨n, file⟩)) ∧
      Later n table (n + 1) (Function.update table fd (some ⟨n, file⟩)) := by
  have hcases : ∀ x o, Function.update table fd (some ⟨n, file⟩) x = some o →
      (x = fd ∧ o.serial = n) ∨ (table x = some o ∧ o.serial < n) := by
    intro x o ho
    by_cases hx : x = fd
    · rw [hx, Function.update_self] at ho
      cases ho
      exact .inl ⟨hx, rfl⟩
    · rw [Function.update_of_ne hx] at ho
      exact .inr ⟨ho, h.fresh x o ho⟩
  refine ⟨⟨fun x o ho => ?_, fun x x' o o' ho ho' hserial => ?_⟩, n.le_succ, fun x o ho => ?_⟩
  · rcases hcases x o ho with ⟨-, hnew⟩ | ⟨-, hold⟩
    · omega
    · omega
  · rcases hcases x o ho with ⟨hx, hnew⟩ | ⟨hx, hold⟩ <;>
      rcases hcases x' o' ho' with ⟨hx', hnew'⟩ | ⟨hx', hold'⟩
    · rw [hx, hx']
    · omega
    · omega
    · exact h.unique x x' o o' hx hx' hserial
  · rcases hcases x o ho with ⟨-, hnew⟩ | ⟨hx, -⟩
    · exact .inr hnew.ge
    · exact .inl hx

/-- The registry agrees with the descriptor table. -/
structure Agrees (s : Tables) : Prop where
  sound : s.registry.Sound
  current : s.registry.Current
  trimmed : ∀ i < s.registry.count,
    strlcpy maxPath (s.registry.records i).path = (s.registry.records i).path
  watched : ∀ fd, isOpen s.registry.log fd = true ↔
    ∃ path, fileAt s.descriptors fd = some (.directory path)
  path : ∀ i < s.registry.count,
    fileAt s.descriptors (s.registry.records i).fd = some (.directory (s.registry.records i).path)
  located : Located s.opened s.descriptors

/-- The numbers of the control files are the same. -/
def SameControl (before after : Descriptors) : Prop :=
  ∀ fd file, (∀ path, file ≠ .directory path) →
    (fileAt after fd = some file ↔ fileAt before fd = some file)

/-- The scanner agrees with the descriptor table. -/
structure Mirrors (s : Scanner) : Prop where
  agrees : Agrees s.tables
  config : ∀ i fd, s.configFds i = some fd ↔ fileAt s.descriptors fd = some (.config i)
  manual : ∀ fd, s.manualFd = some fd ↔ fileAt s.descriptors fd = some .manual

theorem SameControl.refl (table : Descriptors) : SameControl table table := fun _ _ _ => .rfl

theorem SameControl.trans {a b c : Descriptors} (h : SameControl a b) (h' : SameControl b c) :
    SameControl a c := fun fd file hfile => (h' fd file hfile).trans (h fd file hfile)

/-- What the registry does keeps the agreement, and the numbers of the control files. -/
structure Kept (before after : Tables) : Prop where
  agrees : Agrees after
  control : SameControl before.descriptors after.descriptors
  later : Later before.opened before.descriptors after.opened after.descriptors

theorem Kept.refl {s : Tables} (h : Agrees s) : Kept s s := ⟨h, SameControl.refl _, Later.refl _ _⟩

theorem Kept.trans {s t u : Tables} (h : Kept s t) (h' : Kept t u) : Kept s u :=
  ⟨h'.agrees, h.control.trans h'.control, h.later.trans h'.later⟩

/-- The call ends, and keeps the agreement. -/
def Keeps (s : Tables) (result : Option (Bool × Tables)) : Prop :=
  ∃ ok t, result = some (ok, t) ∧ Kept s t

theorem Kept.keeps {s t : Tables} (h : Kept s t) {result : Option (Bool × Tables)}
    (h' : Keeps t result) : Keeps s result := by
  rcases h' with ⟨ok, u, hresult, hkept⟩
  exact ⟨ok, u, hresult, h.trans hkept⟩

/-- The scanner agrees with the descriptor table after something was done, and what is open was
open before or is new. -/
structure Follows (before after : Scanner) : Prop where
  mirrors : Mirrors after
  later : Later before.opened before.descriptors after.opened after.descriptors

theorem Mirrors.follows (h : Mirrors s) : Follows s s := ⟨h, Later.refl _ _⟩

theorem Follows.trans {t u : Scanner} (h : Follows s t) (h' : Follows t u) : Follows s u :=
  ⟨h'.mirrors, h.later.trans h'.later⟩

theorem Mirrors.withTables (h : Mirrors s) {t : Tables} (ht : Kept s.tables t) :
    Follows s (s.withTables t) where
  mirrors :=
    { agrees := ht.agrees
      config := fun i fd => (h.config i fd).trans (ht.control fd (.config i) (by simp)).symm
      manual := fun fd => (h.manual fd).trans (ht.control fd .manual (by simp)).symm }
  later := ht.later

theorem freeNumber_eq_some {table : Descriptors} {number : Option Nat} :
    freeNumber table number = some fd ↔ number = some fd ∧ table fd = none := by
  unfold freeNumber
  rw [Option.filter_eq_some_iff]
  simp

theorem fileAt_eq_none {table : Descriptors} : fileAt table fd = none ↔ table fd = none :=
  Option.map_eq_none_iff

theorem tableAfter_of_eq {before after : List FdCall} {table : Descriptors}
    (h : isOpen after fd = isOpen before fd) :
    tableAfter before after opening table fd = table fd := if_pos h

theorem isOpen_of_records {s : Registry} (hs : s.Sound) (ht : t.Sound)
    (hrecords : t.records = s.records) (hcount : t.count = s.count) (fd : Nat) :
    isOpen t.log fd = isOpen s.log fd := by
  rw [Bool.eq_iff_iff, ht.owned.opened, hs.owned.opened, hrecords, hcount]

theorem isOpen_of_update {s : Registry} (hs : s.Sound) (ht : t.Sound)
    (hrecords : t.records = Function.update s.records s.count e) (hcount : t.count = s.count + 1)
    (fd : Nat) : isOpen t.log fd = true ↔ isOpen s.log fd = true ∨ fd = e.fd := by
  rw [ht.owned.opened, hs.owned.opened, hrecords, hcount]
  constructor
  · rintro ⟨i, hi, hfd⟩
    by_cases hlast : i = s.count
    · rw [hlast, Function.update_self] at hfd
      exact .inr hfd.symm
    · rw [Function.update_of_ne hlast] at hfd
      exact .inl ⟨i, by omega, hfd⟩
  · rintro (⟨i, hi, hfd⟩ | rfl)
    · refine ⟨i, by omega, ?_⟩
      rw [Function.update_of_ne (by omega)]
      exact hfd
    · exact ⟨s.count, by omega, by rw [Function.update_self]⟩

theorem Agrees.same {s : Tables} (h : Agrees s) (ht : t.Sound) (hcurrent : t.Current)
    (hrecords : t.records = s.registry.records) (hcount : t.count = s.registry.count)
    (hopened : s.opened ≤ opened) :
    Kept s ⟨t, tableAfter s.registry.log t.log opening s.descriptors, opened⟩ := by
  have hopen := isOpen_of_records h.sound ht hrecords hcount
  have htable : tableAfter s.registry.log t.log opening s.descriptors = s.descriptors := by
    funext fd
    exact tableAfter_of_eq (hopen fd)
  rcases h.located.shrink (fun fd o ho => ho) hopened with ⟨hlocated, hlater⟩
  rw [htable]
  refine ⟨⟨ht, hcurrent, ?_, ?_, ?_, hlocated⟩, SameControl.refl _, hlater⟩
  · rw [hrecords, hcount]
    exact h.trimmed
  · intro fd
    dsimp only
    rw [hopen fd]
    exact h.watched fd
  · rw [hrecords, hcount]
    exact h.path

/-- A new entry for a number that is open for its directory. -/
theorem Agrees.shared {s : Tables} (h : Agrees s) (ht : t.Sound) (hcurrent : t.Current)
    (hrecords : t.records = Function.update s.registry.records s.registry.count e)
    (hcount : t.count = s.registry.count + 1) (htrimmed : strlcpy maxPath e.path = e.path)
    (hnumber : fileAt s.descriptors e.fd = some (.directory e.path)) (hopened : s.opened ≤ opened) :
    Kept s ⟨t, tableAfter s.registry.log t.log opening s.descriptors, opened⟩ := by
  have hopen : ∀ fd, isOpen t.log fd = isOpen s.registry.log fd := by
    intro fd
    rw [Bool.eq_iff_iff, isOpen_of_update h.sound ht hrecords hcount]
    refine or_iff_left_of_imp ?_
    rintro rfl
    exact (h.watched _).mpr ⟨_, hnumber⟩
  have htable : tableAfter s.registry.log t.log opening s.descriptors = s.descriptors := by
    funext fd
    exact tableAfter_of_eq (hopen fd)
  rcases h.located.shrink (fun fd o ho => ho) hopened with ⟨hlocated, hlater⟩
  rw [htable]
  refine ⟨⟨ht, hcurrent, ?_, ?_, ?_, hlocated⟩, SameControl.refl _, hlater⟩
  · intro i hi
    dsimp only at hi ⊢
    rw [hrecords]
    by_cases hlast : i = s.registry.count
    · rw [hlast, Function.update_self]
      exact htrimmed
    · rw [Function.update_of_ne hlast]
      exact h.trimmed i (by omega)
  · intro fd
    dsimp only
    rw [hopen fd]
    exact h.watched fd
  · intro i hi
    dsimp only at hi ⊢
    rw [hrecords]
    by_cases hlast : i = s.registry.count
    · rw [hlast, Function.update_self]
      exact hnumber
    · rw [Function.update_of_ne hlast]
      exact h.path i (by omega)

/-- A new entry for a number that is opened for its directory. -/
theorem Agrees.added {s : Tables} (h : Agrees s) (ht : t.Sound) (hcurrent : t.Current)
    (hrecords : t.records = Function.update s.registry.records s.registry.count e)
    (hcount : t.count = s.registry.count + 1) (htrimmed : strlcpy maxPath e.path = e.path)
    (hnumber : s.descriptors e.fd = none) :
    Kept s ⟨t, tableAfter s.registry.log t.log (some ⟨s.opened, .directory e.path⟩) s.descriptors,
      s.opened + 1⟩ := by
  have hopen := isOpen_of_update h.sound ht hrecords hcount
  have hother : ∀ fd, fd ≠ e.fd → isOpen t.log fd = isOpen s.registry.log fd := by
    intro fd hne
    rw [Bool.eq_iff_iff, hopen fd]
    simp [hne]
  have hwas : isOpen s.registry.log e.fd = false := by
    rw [← Bool.not_eq_true, h.watched, fileAt_eq_none.mpr hnumber]
    rintro ⟨path, hpath⟩
    cases hpath
  have htable : tableAfter s.registry.log t.log (some ⟨s.opened, .directory e.path⟩)
      s.descriptors = Function.update s.descriptors e.fd
        (some ⟨s.opened, .directory e.path⟩) := by
    funext fd
    by_cases hfd : fd = e.fd
    · subst hfd
      rw [Function.update_self]
      have hopened : isOpen t.log e.fd = true := (hopen e.fd).mpr (.inr rfl)
      unfold tableAfter
      rw [hopened, hwas]
      rfl
    · rw [Function.update_of_ne hfd]
      exact tableAfter_of_eq (hother fd hfd)
  have hfile : ∀ fd, fileAt (Function.update s.descriptors e.fd
      (some ⟨s.opened, .directory e.path⟩)) fd =
        if fd = e.fd then some (.directory e.path) else fileAt s.descriptors fd := by
    intro fd
    unfold fileAt
    rw [Function.update_apply]
    split
    · rfl
    · rfl
  rcases h.located.update e.fd (.directory e.path) with ⟨hlocated, hlater⟩
  rw [htable]
  refine ⟨⟨ht, hcurrent, ?_, ?_, ?_, hlocated⟩, ?_, hlater⟩
  · intro i hi
    dsimp only at hi ⊢
    rw [hrecords]
    by_cases hlast : i = s.registry.count
    · rw [hlast, Function.update_self]
      exact htrimmed
    · rw [Function.update_of_ne hlast]
      exact h.trimmed i (by omega)
  · intro fd
    dsimp only
    rw [hfile]
    by_cases hfd : fd = e.fd
    · rw [if_pos hfd]
      exact ⟨fun _ => ⟨_, rfl⟩, fun _ => (hopen fd).mpr (.inr hfd)⟩
    · rw [if_neg hfd, hother fd hfd]
      exact h.watched fd
  · intro i hi
    dsimp only at hi ⊢
    rw [hrecords, hfile]
    by_cases hlast : i = s.registry.count
    · rw [hlast, Function.update_self, if_pos rfl]
    · rw [Function.update_of_ne hlast]
      have hold := h.path i (by omega)
      have hne : (s.registry.records i).fd ≠ e.fd := by
        intro hfd
        rw [hfd, fileAt_eq_none.mpr hnumber] at hold
        cases hold
      rw [if_neg hne]
      exact hold
  · intro fd file hfile'
    dsimp only
    rw [hfile]
    by_cases hfd : fd = e.fd
    · rw [if_pos hfd, hfd, fileAt_eq_none.mpr hnumber]
      refine ⟨fun heq => absurd (Option.some.inj heq).symm (hfile' e.path), fun heq => ?_⟩
      cases heq
    · rw [if_neg hfd]

/-- Registering a watch keeps the agreement, and does not touch the control files. -/
theorem Agrees.register {s : Tables} (h : Agrees s) (r : Request) (a : Answers) :
    Keeps s (s.register r a) := by
  have hfresh : ∀ fd, freeNumber s.descriptors a.fd = some fd →
      isOpen s.registry.log fd = false := by
    intro fd hfd
    have hnone := (freeNumber_eq_some.mp hfd).2
    rw [← Bool.not_eq_true, h.watched, fileAt_eq_none.mpr hnone]
    rintro ⟨path, hpath⟩
    cases hpath
  rcases h.sound.register r { a with fd := freeNumber s.descriptors a.fd } hfresh with
    ⟨ok, t, ht, hreg, hadded⟩
  have hcurrent := hreg.current h.current
  have htrimmed := strlcpy_strlcpy maxPath r.path
  unfold Tables.register
  dsimp only
  rw [ht]
  refine ⟨ok, _, rfl, ?_⟩
  cases hadded with
  | same hrecords hcount =>
    exact h.same hreg.sound hcurrent hrecords hcount s.opened.le_succ
  | own fd hanswered _ hrecords hcount =>
    exact h.added hreg.sound hcurrent hrecords hcount htrimmed
      (freeNumber_eq_some.mp hanswered).2
  | shared fd hsearch hrecords hcount =>
    rcases searchShared_done hsearch with hnone | ⟨i, hi, hfd, hfits⟩
    · cases hnone
    · have hlt := List.mem_range.mp hi
      have hpath : strlcpy maxPath r.path = (s.registry.records i).path := by
        rw [← hfits.path]
        exact h.trimmed i hlt
      refine h.shared hreg.sound hcurrent hrecords hcount htrimmed ?_ s.opened.le_succ
      show fileAt s.descriptors fd = some (.directory (strlcpy maxPath r.path))
      rw [hpath, ← hfd]
      exact h.path i hlt

theorem thinned_entry {s : Registry} (h : Thinned s t) {i : Nat} (hi : i < t.count) :
    ∃ k < s.count,
      (t.records i).fd = (s.records k).fd ∧ (t.records i).path = (s.records k).path := by
  induction h generalizing i with
  | refl => exact ⟨i, hi, rfl, rfl⟩
  | tail _ hstep ih =>
    rcases hstep with ⟨index, hindex, rfl⟩
    have hremoved := removeAt_removed hindex
    rw [hremoved.count] at hi
    rcases hremoved.records i hi with ⟨owns, howns⟩
    rcases ih (movedFrom_lt hindex hi).1 with ⟨k, hk, hfd, hpath⟩
    rw [howns]
    exact ⟨k, hk, hfd, hpath⟩

/-- Removing the watches of a root keeps the agreement if the index could be rebuilt. -/
theorem Agrees.removeRoot {s : Tables} (h : Agrees s) (root : Fin WatchRegistry.maxScanPaths)
    (grows : Bool) :
    ∃ ok t, s.removeRoot root grows = some (ok, t) ∧ (ok = true → Kept s t) := by
  have hrebuilds : (Operation.removeRoot root grows).rebuilds = true := rfl
  rcases removal_spec h.sound hrebuilds with ⟨ok, u, hresult, hleaves⟩
  have hremoved : s.registry.removeScanRootWatchEntries root grows = some (ok, u) := hresult
  rcases hleaves.thinned with ⟨left, hthin, hrecords, hcount⟩
  have hentry : ∀ i < u.count, ∃ k < s.registry.count,
      (u.records i).fd = (s.registry.records k).fd ∧
      (u.records i).path = (s.registry.records k).path := by
    intro i hi
    rw [hcount] at hi
    rw [hrecords]
    exact thinned_entry hthin hi
  have hclosed : ∀ fd, isOpen u.log fd = true → isOpen s.registry.log fd = true := by
    intro fd hopen
    rcases (hleaves.sound.owned.opened fd).mp hopen with ⟨i, hi, hfd⟩
    rcases hentry i hi with ⟨k, hk, hold, _⟩
    exact (h.sound.owned.opened fd).mpr ⟨k, hk, hold.symm.trans hfd⟩
  have hkept : ∀ fd, isOpen u.log fd = true →
      tableAfter s.registry.log u.log none s.descriptors fd = s.descriptors fd := by
    intro fd hopen
    exact tableAfter_of_eq (hopen.trans (hclosed fd hopen).symm)
  have hsub : ∀ fd o, tableAfter s.registry.log u.log none s.descriptors fd = some o →
      s.descriptors fd = some o := by
    intro fd o ho
    unfold tableAfter at ho
    split at ho
    · exact ho
    · simp at ho
  rcases h.located.shrink hsub le_rfl with ⟨hlocated, hlater⟩
  unfold Tables.removeRoot
  rw [hremoved]
  refine ⟨ok, _, rfl, fun hok =>
    ⟨⟨hleaves.sound, hleaves.current hok h.current, ?_, ?_, ?_, hlocated⟩, ?_, hlater⟩⟩
  · intro i hi
    rcases hentry i hi with ⟨k, hk, _, hpath⟩
    dsimp only
    rw [hpath]
    exact h.trimmed k hk
  · intro fd
    constructor
    · intro hopen
      dsimp only
      unfold fileAt
      rw [hkept fd hopen]
      exact (h.watched fd).mp (hclosed fd hopen)
    · rintro ⟨path, hpath⟩
      dsimp only at hpath ⊢
      unfold fileAt tableAfter at hpath
      split at hpath
      next hsame =>
        rw [hsame]
        exact (h.watched fd).mpr ⟨path, hpath⟩
      next => simp at hpath
  · intro i hi
    rcases hentry i hi with ⟨k, hk, hfd, hpath⟩
    have hopen : isOpen u.log (u.records i).fd = true :=
      (hleaves.sound.owned.opened _).mpr ⟨i, hi, rfl⟩
    dsimp only
    unfold fileAt
    rw [hkept _ hopen, hfd, hpath]
    exact h.path k hk
  · intro fd file hfile
    dsimp only
    by_cases hsame : isOpen u.log fd = isOpen s.registry.log fd
    · unfold fileAt
      rw [tableAfter_of_eq hsame]
    · have hnone : fileAt (tableAfter s.registry.log u.log none s.descriptors) fd = none := by
        unfold fileAt tableAfter
        rw [if_neg hsame]
        simp
      have hwas : isOpen s.registry.log fd = true := by
        by_contra hclosed'
        cases hopen : isOpen u.log fd with
        | true => exact hclosed' (hclosed fd hopen)
        | false => exact hsame (hopen.trans (Bool.not_eq_true _ ▸ hclosed').symm)
      rcases (h.watched fd).mp hwas with ⟨path, hpath⟩
      rw [hnone, hpath]
      constructor
      · intro heq
        cases heq
      · intro heq
        exact absurd (Option.some.inj heq).symm (hfile path)

section Walks

variable {σ : Type} {P : σ → Prop} {v : View} {w w' : Walking σ} {answer : Bool}

theorem poll_data (h : w.poll v = (answer, w')) : w'.data = w.data := by
  cases h
  rfl

theorem pace_data {entries : Nat} (h : w.pace v entries = (answer, w')) : w'.data = w.data := by
  unfold Walking.pace at h
  split at h
  · exact poll_data h
  · cases h
    rfl

theorem readEntries_keeps {skipPermissionErrors skipBackportsRoot : Bool} {dirPath : Text}
    {readError : Option Failure} {descend : Text → Walking σ → Bool × Walking σ}
    (hdescend : ∀ path w, P w.data → P (descend path w).2.data) (entries : List DirEntry)
    (count : Nat) (h : P w.data) :
    P (readEntries v skipPermissionErrors skipBackportsRoot dirPath readError descend entries count
      w).2.data := by
  induction entries generalizing count w with
  | nil =>
    unfold readEntries
    split
    next hpoll => rwa [poll_data hpoll]
    next hpoll => rwa [poll_data hpoll]
  | cons entry entries ih =>
    unfold readEntries
    dsimp only
    split
    next w₁ hpoll => rwa [poll_data hpoll]
    next w₁ hpoll =>
      rw [← poll_data hpoll] at h
      split
      next w₂ hpoll => rwa [poll_data hpoll]
      next w₂ hpoll =>
        rw [← poll_data hpoll] at h
        split
        next w₃ hpace => rwa [pace_data hpace]
        next w₃ hpace =>
          rw [← pace_data hpace] at h
          split
          · exact ih _ h
          · split
            · split
              · exact ih _ h
              · exact h
            · exact ih _ h
            · have hbelow := hdescend (entry.path dirPath) w₃ h
              split
              next w₄ hdown =>
                rw [hdown] at hbelow
                exact hbelow
              next w₄ hdown =>
                rw [hdown] at hbelow
                exact ih _ hbelow

theorem enterDirectory_keeps {config : RuntimeState} {callbacks : Callbacks σ}
    (hvisit : ∀ dirPath depth data, P data → P (callbacks.onDirectory dirPath depth data).2)
    (scanRoot dirPath : Text) (depth : Nat) (h : P w.data) :
    P (enterDirectory v config callbacks scanRoot dirPath depth w).2.data := by
  have hafter := hvisit dirPath depth w.data h
  unfold enterDirectory
  split
  next w₁ hpoll => rwa [poll_data hpoll]
  next w₁ hpoll =>
    have h₁ := poll_data hpoll
    split
    · rwa [h₁]
    · split
      next w₂ hpoll => rwa [poll_data hpoll, h₁]
      next w₂ hpoll =>
        rw [poll_data hpoll, h₁]
        split
        next hcall =>
          rw [hcall] at hafter
          exact hafter
        next hcall =>
          rw [hcall] at hafter
          exact hafter
        next hcall =>
          rw [hcall] at hafter
          exact hafter

/-- What the callback keeps, the walk keeps. -/
theorem smScanTreeWalk_keeps {config : RuntimeState} {callbacks : Callbacks σ}
    (hvisit : ∀ dirPath depth data, P data → P (callbacks.onDirectory dirPath depth data).2)
    (scanRoot : Text) (remaining : Nat) (dirPath : Text) (depth : Nat) (h : P w.data) :
    P (smScanTreeWalk v config callbacks scanRoot remaining dirPath depth w).2.data := by
  induction remaining generalizing dirPath depth w with
  | zero =>
    have henter : P (enterDirectory v config callbacks scanRoot dirPath depth w).2.data :=
      enterDirectory_keeps hvisit scanRoot dirPath depth h
    unfold smScanTreeWalk
    split
    next hcall =>
      rw [hcall] at henter
      exact henter
    next hcall =>
      rw [hcall] at henter
      exact henter
  | succ remaining ih =>
    have henter : P (enterDirectory v config callbacks scanRoot dirPath depth w).2.data :=
      enterDirectory_keeps hvisit scanRoot dirPath depth h
    unfold smScanTreeWalk
    split
    next hcall =>
      rw [hcall] at henter
      exact henter
    next hcall =>
      rw [hcall] at henter
      split
      · exact henter
      · exact readEntries_keeps (fun path w hw => ih path (depth + 1) hw) _ 0 henter

end Walks

theorem registerVisit_keeps {s : Tables} {e : ParentView} {root : Fin WatchRegistry.maxScanPaths}
    {scanDepth depth : Nat} {dirPath : Text} {data : Option Tables}
    (h : ∃ t, data = some t ∧ Kept s t) :
    ∃ t, (registerVisit e root scanDepth dirPath depth data).2 = some t ∧ Kept s t := by
  rcases h with ⟨t, rfl, hkept⟩
  unfold registerVisit
  split
  · exact ⟨t, rfl, hkept⟩
  · split
    · exact ⟨t, rfl, hkept⟩
    · rw [Option.bind_some]
      rcases hkept.agrees.register ⟨some root, dirPath, kindAt depth, depth % 256⟩
        (e.answers dirPath) with ⟨ok, u, hresult, hregistered⟩
      rw [hresult]
      cases ok with
      | true => exact ⟨u, rfl, hkept.trans hregistered⟩
      | false => exact ⟨u, rfl, hkept.trans hregistered⟩

theorem Agrees.registerParent {s : Tables} (h : Agrees s) (e : ParentView)
    (root : Fin WatchRegistry.maxScanPaths) (scanRoot : Text) :
    Keeps s (registerParent e root scanRoot s) := by
  unfold WatchEvents.registerParent
  split
  · exact ⟨true, s, rfl, .refl h⟩
  · exact h.register _ _

/-- A tree is registered. -/
theorem Agrees.registerTree {s : Tables} (h : Agrees s) (config : RuntimeState) (e : ParentView)
    (root : Fin WatchRegistry.maxScanPaths) (scanRoot : Text) :
    Keeps s (registerTree config e root scanRoot s) := by
  unfold WatchEvents.registerTree
  split
  · exact h.registerParent e root scanRoot
  · have hwalk : ∃ t, (smScanTreeWalk e.tree config
        (registerCallbacks e root (getScanDepthForRoot config scanRoot)) scanRoot
        (getScanDepthForRoot config scanRoot) scanRoot 0 ⟨0, some s⟩).2.data = some t ∧
      Kept s t := by
      apply smScanTreeWalk_keeps (P := fun data : Option Tables => ∃ t, data = some t ∧ Kept s t)
      · intro dirPath depth data hdata
        exact registerVisit_keeps hdata
      · exact ⟨s, rfl, .refl h⟩
    rcases hwalk with ⟨t, ht, hkept⟩
    dsimp only
    split
    next hcall =>
      rw [hcall] at ht
      cases ht
    next hcall =>
      rw [hcall] at ht
      cases ht
      exact ⟨false, t, rfl, hkept⟩
    next hcall =>
      rw [hcall] at ht
      cases ht
      exact hkept.keeps (hkept.agrees.registerParent e root scanRoot)

/-- The handler ends, and keeps the agreement unless it fails. -/
def Sustains (s : Scanner) (result : Option (Bool × Scanner)) : Prop :=
  ∃ ok t, result = some (ok, t) ∧ (ok = true → Follows s t)

theorem Mirrors.sustains (h : Mirrors s) (ok : Bool) : Sustains s (some (ok, s)) :=
  ⟨ok, s, rfl, fun _ => h.follows⟩

theorem Mirrors.withPresence (h : Mirrors s)
    (presence : Fin WatchRegistry.maxScanPaths → Presence) :
    Mirrors { s with presence := presence } :=
  ⟨h.agrees, h.config, h.manual⟩

theorem Sustains.withPresence {presence : Fin WatchRegistry.maxScanPaths → Presence}
    {result : Option (Bool × Scanner)} (h : Sustains { s with presence := presence } result) :
    Sustains s result := by
  rcases h with ⟨ok, t, hresult, hkept⟩
  exact ⟨ok, t, hresult, fun hok => ⟨(hkept hok).mirrors, (hkept hok).later⟩⟩

/-- The tree of a root is rebuilt. -/
theorem Mirrors.rebuildTree (h : Mirrors s) (config : RuntimeState) (e : ParentView)
    (root : Fin WatchRegistry.maxScanPaths) : Sustains s (rebuildTree config e root s) := by
  unfold WatchEvents.rebuildTree
  split
  · exact h.sustains false
  next scanRoot hroot =>
    rcases h.agrees.removeRoot root e.grows with ⟨ok, t, hremoved, hkept⟩
    rw [hremoved]
    cases ok with
    | false => exact ⟨false, _, rfl, nofun⟩
    | true =>
      have hleft := hkept rfl
      rcases hleft.agrees.registerTree config e root scanRoot with ⟨ok, u, hresult, hregistered⟩
      dsimp only
      rw [hresult]
      refine ⟨ok, _, rfl, fun _ => ?_⟩
      have hseen := h.withPresence (Function.update s.presence root (e.identityAgain scanRoot))
      have hfollows := hseen.withTables (hleft.trans hregistered)
      exact ⟨hfollows.mirrors, hfollows.later⟩

/-- So does the handler that rebuilds watch trees. -/
theorem Mirrors.handleScanRootParentEvent (h : Mirrors s) (config : RuntimeState) (e : ParentView)
    (root : Fin WatchRegistry.maxScanPaths) (watchedPath : Text) :
    Sustains s (handleScanRootParentEvent config e root watchedPath s) := by
  unfold WatchEvents.handleScanRootParentEvent
  split
  · exact h.sustains false
  · have hseen := fun presence => h.withPresence presence
    dsimp only
    split
    · split
      · exact ((hseen _).rebuildTree config e root).withPresence
      · exact ((hseen _).sustains true).withPresence
    · split
      · exact ((hseen _).sustains true).withPresence
      · split
        · split
          · exact ((hseen _).rebuildTree config e root).withPresence
          · exact ((hseen _).sustains true).withPresence
        · split
          · exact ((hseen _).rebuildTree config e root).withPresence
          · exact ((hseen _).sustains true).withPresence

theorem fileAt_update {table : Descriptors} {x : Nat} :
    fileAt (Function.update table fd opening) x =
      if x = fd then opening.map Opening.file else fileAt table x := by
  unfold fileAt
  rw [Function.update_apply]
  split
  · rfl
  · rfl

/-- An entry of the descriptor table may change. -/
theorem Agrees.update {s : Tables} (h : Agrees s)
    (hbefore : ∀ path, fileAt s.descriptors fd ≠ some (.directory path))
    (hafter : ∀ path, opening.map Opening.file ≠ some (.directory path))
    (hlocated : Located opened (Function.update s.descriptors fd opening)) :
    Agrees ⟨s.registry, Function.update s.descriptors fd opening, opened⟩ := by
  have htable : ∀ x path, fileAt (Function.update s.descriptors fd opening) x =
      some (.directory path) ↔ fileAt s.descriptors x = some (.directory path) := by
    intro x path
    rw [fileAt_update]
    split
    next hx => simp [hx, hbefore path, hafter path]
    next => exact .rfl
  refine ⟨h.sound, h.current, h.trimmed, ?_, ?_, hlocated⟩
  · intro x
    dsimp only
    simp only [htable]
    exact h.watched x
  · intro i hi
    exact (htable _ _).mpr (h.path i hi)

/-- A number is closed. -/
theorem Located.close (h : Located n table) (fd : Nat) :
    Located n (Function.update table fd none) ∧
      Later n table n (Function.update table fd none) := by
  refine h.shrink (fun x o ho => ?_) le_rfl
  by_cases hx : x = fd
  · rw [hx, Function.update_self] at ho
    cases ho
  · rwa [Function.update_of_ne hx] at ho

theorem Mirrors.closeConfig (h : Mirrors s) (i : Fin 2) : Follows s (s.closeConfig i) := by
  unfold Scanner.closeConfig
  split
  · exact h.follows
  next fd hfd =>
    have hopen := (h.config i fd).mp hfd
    rcases h.agrees.located.close fd with ⟨hlocated, hlater⟩
    refine ⟨⟨h.agrees.update (fun path => ?_) (by simp) hlocated, fun k x => ?_, fun x => ?_⟩,
      hlater⟩
    · show fileAt s.descriptors fd ≠ _
      simp [hopen]
    · have hmirror := h.config k x
      have hown := h.config i x
      dsimp only
      rw [fileAt_update]
      grind [Function.update_apply]
    · have hmirror := h.manual x
      dsimp only
      rw [fileAt_update]
      grind

theorem Mirrors.openConfig (h : Mirrors s) (v : EventView) (i : Fin 2) :
    Follows s (s.openConfig v i) := by
  unfold Scanner.openConfig
  split
  next fd hclosed hnumber =>
    have hfree := fileAt_eq_none.mpr (freeNumber_eq_some.mp hnumber).2
    rcases h.agrees.located.update fd (.config i) with ⟨hlocated, hlater⟩
    refine ⟨⟨h.agrees.update (fun path => ?_) (by simp) hlocated, fun k x => ?_, fun x => ?_⟩,
      hlater⟩
    · show fileAt s.descriptors fd ≠ _
      simp [hfree]
    · have hmirror := h.config k x
      have hown := h.config i x
      dsimp only
      rw [fileAt_update]
      grind [Function.update_apply]
    · have hmirror := h.manual x
      dsimp only
      rw [fileAt_update]
      grind
  next => exact h.follows

theorem Mirrors.watchConfig (h : Mirrors s) (v : EventView) (i : Fin 2) :
    Follows s (s.watchConfig v i) := by
  unfold Scanner.watchConfig
  split
  · exact h.follows
  · exact h.closeConfig i

theorem Mirrors.reopenConfigFileWatch (h : Mirrors s) (v : EventView) :
    Follows s (s.reopenConfigFileWatch v) := by
  have hfirst := h.openConfig v 0
  have hsecond := hfirst.mirrors.openConfig v 1
  have hthird := hsecond.mirrors.watchConfig v 0
  exact ((hfirst.trans hsecond).trans hthird).trans (hthird.mirrors.watchConfig v 1)

theorem Mirrors.closeManual (h : Mirrors s) : Follows s s.closeManual := by
  unfold Scanner.closeManual
  split
  · exact h.follows
  next fd hfd =>
    have hopen := (h.manual fd).mp hfd
    rcases h.agrees.located.close fd with ⟨hlocated, hlater⟩
    refine ⟨⟨h.agrees.update (fun path => ?_) (by simp) hlocated, fun k x => ?_, fun x => ?_⟩,
      hlater⟩
    · show fileAt s.descriptors fd ≠ _
      simp [hopen]
    · have hmirror := h.config k x
      dsimp only
      rw [fileAt_update]
      grind
    · have hmirror := h.manual x
      dsimp only
      rw [fileAt_update]
      grind

end ShadowMount.WatchEvents
