import ShadowMount.WatchEvents.Descriptors

/-!
# Who gets the events of a batch

The kernel generates an event for the opening that a descriptor number stands for when the batch is
read.  The scanner delivers it to the subscriptions of the opening that the number stands for when
the event is handled.  The two agree unless handling an earlier event of the batch has closed the
descriptor and the number was given out again, be it for a directory of the same path.

Main results:

- Theorem {lit}`batch_delivery`: exactly when the events of a batch all go to the openings that
  their numbers stood for at its start.
- Theorem {lit}`renamed_root_event_misdelivered`: a batch where one does not.
-/

namespace ShadowMount.WatchEvents

open Foundation
open Config hiding maxScanPaths
open WatchRegistry WatchRegistry.Registry WatchTree

variable {s : Scanner} {config : RuntimeState}

theorem Mirrors.subscriptions_ne_nil (h : Mirrors s) (ident : Nat) :
    subscriptions s.registry ident ≠ [] ↔
      ∃ path, fileAt s.descriptors ident = some (.directory path) := by
  have hwatched : isOpen s.registry.log ident = true ↔
      ∃ path, fileAt s.descriptors ident = some (.directory path) := h.agrees.watched ident
  have hopened : isOpen s.registry.log ident = true ↔
      ∃ i, i < s.registry.count ∧ (s.registry.records i).fd = ident :=
    h.agrees.sound.owned.opened ident
  rw [← hwatched, hopened, ← List.length_pos_iff_ne_nil, List.length_pos_iff_exists_mem]
  unfold subscriptions
  simp only [List.mem_filter, List.mem_range, decide_eq_true_eq]
  rfl

/-- The number of an event is looked up in both tables. -/
theorem Mirrors.find (h : Mirrors s) (ident : Nat) :
    (∃ owner, s.registry.findScannerWatchEntryByFd ident = some (some owner) ∧
      fileAt s.descriptors ident = some (.directory (s.registry.entries owner).path)) ∨
    s.registry.findScannerWatchEntryByFd ident = some none ∧
      ∀ path, fileAt s.descriptors ident ≠ some (.directory path) := by
  have howned := h.agrees.sound.owned
  rcases findScannerWatchEntryByFd_spec h.agrees.sound.indexing h.agrees.current howned ident with
    ⟨found, hfound, hspec⟩
  cases found with
  | some owner =>
    rcases (hspec owner).mp rfl with ⟨howner, _, hfd⟩
    have hpath := h.agrees.path owner howner
    rw [hfd] at hpath
    exact .inl ⟨owner, hfound, hpath⟩
  | none =>
    refine .inr ⟨hfound, fun path hpath => ?_⟩
    have hopen : isOpen s.registry.log ident = true := (h.agrees.watched ident).mpr ⟨path, hpath⟩
    rcases (howned.opened ident).mp hopen with ⟨i, hi, hfd⟩
    rcases howned.owner i hi with ⟨k, hk, howns, hkfd⟩
    cases (hspec k).mpr ⟨hk, howns, hkfd.trans hfd⟩

/-- Marking the entries of an event keeps the agreement. -/
theorem Mirrors.flagged (h : Mirrors s) {t : Registry} (ht : Flagged s.registry t) :
    Follows s { s with registry := t } := by
  have hregistered := ht.sound h.agrees.sound
  have hentry : ∀ i, (t.records i).fd = (s.registry.records i).fd ∧
      (t.records i).path = (s.registry.records i).path := by
    intro i
    rcases ht.records i with ⟨shareable, hi⟩
    rw [hi]
    exact ⟨rfl, rfl⟩
  refine ⟨⟨⟨hregistered.sound, hregistered.current h.agrees.current, ?_, ?_, ?_,
    h.agrees.located⟩, h.config, h.manual⟩, Later.refl _ _⟩
  · intro i hi
    have hold := h.agrees.trimmed i (ht.count ▸ hi)
    show strlcpy maxPath (t.records i).path = (t.records i).path
    rw [(hentry i).2]
    exact hold
  · intro fd
    show isOpen t.log fd = true ↔ _
    rw [ht.log]
    exact h.agrees.watched fd
  · intro i hi
    have hold := h.agrees.path i (ht.count ▸ hi)
    show fileAt s.descriptors (t.records i).fd = some (.directory (t.records i).path)
    rw [(hentry i).1, (hentry i).2]
    exact hold

/-- The recipient is registered at the number: a control file by its variable, and a subscription
by an entry of the registry, for the directory that the number is open for. -/
def RegisteredAt (s : Scanner) (fd : Nat) : Recipient → Prop
  | .config i => s.configFds i = some fd
  | .manual => s.manualFd = some fd
  | .subscription subscription watchedPath =>
    subscription ∈ (subscriptions s.registry fd).map s.registry.subscription ∧
      fileAt s.descriptors fd = some (.directory watchedPath)

/-- The event went to what was registered at its number, and was lost only where nothing was open
or where the directory has more subscriptions than the table of the loop holds. -/
structure Faithful (x : Handled) : Prop where
  recipients : ∀ r ∈ x.recipients, x.event.filter = .vnode ∧
    RegisteredAt x.before x.event.ident r
  delivered : x.event.filter = .vnode → x.before.descriptors x.event.ident ≠ none →
    (subscriptions x.before.registry x.event.ident).length ≤ maxSubscriptions → x.recipients ≠ []
  full : maxSubscriptions < (subscriptions x.before.registry x.event.ident).length →
    x.recipients = []

theorem handleSubscriptions_sustains (config : RuntimeState) (v : EventView) (watchedPath : Text)
    (copied : List EventSubscription) (n : Nat) (h : Mirrors s) :
    Sustains s (handleSubscriptions config v watchedPath copied n s) := by
  induction copied generalizing n s with
  | nil => exact h.sustains true
  | cons subscription copied ih =>
    unfold handleSubscriptions
    split
    · exact ih _ h
    next root hroot =>
      split
      · exact ih _ h
      · rcases h.handleScanRootParentEvent config (v.parents n) root watchedPath with
          ⟨ok, t, hresult, hkept⟩
        rw [hresult]
        cases ok with
        | false => exact ⟨false, t, rfl, nofun⟩
        | true =>
          rcases ih (n + 1) (hkept rfl).mirrors with ⟨ok, u, hrest, hlater⟩
          exact ⟨ok, u, hrest, fun hok => (hkept rfl).trans (hlater hok)⟩

/-- An event of a vnode is delivered. -/
theorem Mirrors.processWatchEvent (h : Mirrors s) (v : EventView) {event : Event}
    (hvnode : event.filter = .vnode) (hconfig : ∀ i, s.configFds i ≠ some event.ident)
    (hmanual : s.manualFd ≠ some event.ident) :
    ∃ outcome, processWatchEvent config v event s = some outcome ∧
      (outcome.ok = true → Follows s outcome.scanner) ∧
      Faithful ⟨event, s, outcome.recipients⟩ := by
  have hsubscribed := h.subscriptions_ne_nil event.ident
  unfold WatchEvents.processWatchEvent
  rcases h.find event.ident with ⟨owner, hfound, hpath⟩ | ⟨hfound, hnone⟩
  · rw [hfound]
    have hevent : s.registry.processVnodeEvent event.ident event.flags.gone =
        some (collectSubscriptions event.ident event.flags.gone (List.range s.registry.count) []
          s.registry) := by
      unfold processVnodeEvent
      rw [hfound]
    have hroom := collectSubscriptions_range (s := s.registry) event.ident event.flags.gone
    have hflagged := collectSubscriptions_flagged (s := s.registry) event.ident event.flags.gone
      (List.range s.registry.count) []
    dsimp only
    rw [hevent]
    generalize collectSubscriptions event.ident event.flags.gone (List.range s.registry.count) []
      s.registry = result at hroom hflagged
    rcases result with ⟨copiedAll, copied, t⟩
    cases copiedAll with
    | false =>
      have hfull : maxSubscriptions < (subscriptions s.registry event.ident).length := by
        have hnot := hroom.1.not.mp (by simp)
        omega
      refine ⟨_, rfl, ?_, ⟨?_, ?_, ?_⟩⟩
      · intro hok
        cases hok
      · intro r hr
        cases hr
      · intro _ _ hfits
        exact absurd hfits (Nat.not_le.mpr hfull)
      · intro _
        rfl
    | true =>
      have hfits := hroom.1.mp rfl
      have hcopied :
          copied = (subscriptions s.registry event.ident).map s.registry.subscription := by
        have hcut : copied = _ := hroom.2
        rw [hcut, List.take_of_length_le (by simpa using hfits)]
      have hmarked := h.flagged hflagged
      rcases handleSubscriptions_sustains config v (s.registry.entries owner).path copied 0
        hmarked.mirrors with ⟨ok, u, hresult, hkept⟩
      dsimp only
      rw [hresult]
      refine ⟨_, rfl, fun hok => hmarked.trans (hkept hok), ⟨?_, ?_, ?_⟩⟩
      · intro r hr
        rcases List.mem_map.mp hr with ⟨subscription, hmem, rfl⟩
        exact ⟨hvnode, hcopied ▸ hmem, hpath⟩
      · intro _ _ _
        have hsome := hsubscribed.mpr ⟨_, hpath⟩
        rw [← List.length_pos_iff_ne_nil] at hsome ⊢
        dsimp only
        rw [List.length_map, hcopied, List.length_map]
        exact hsome
      · intro hfull
        exact absurd hfits (Nat.not_le.mpr hfull)
  · rw [hfound]
    refine ⟨_, rfl, fun _ => h.follows, ⟨?_, ?_, ?_⟩⟩
    · intro r hr
      cases hr
    · intro _ hopen _
      dsimp only at hopen
      cases hfile : fileAt s.descriptors event.ident with
      | none => exact absurd (fileAt_eq_none.mp hfile) hopen
      | some file =>
        cases file with
        | directory path => exact absurd hfile (hnone path)
        | config i => exact absurd ((h.config i _).mpr hfile) (hconfig i)
        | manual => exact absurd ((h.manual _).mpr hfile) hmanual
    · intro _
      rfl

/-- An event of a control file goes to that file alone. -/
theorem faithful_control (h : Mirrors s) {event : Event} (hvnode : event.filter = .vnode)
    {r : Recipient} {file : File} (hregistered : RegisteredAt s event.ident r)
    (hfile : fileAt s.descriptors event.ident = some file)
    (hcontrol : ∀ path, file ≠ .directory path) : Faithful ⟨event, s, [r]⟩ := by
  refine ⟨?_, fun _ _ _ => by simp, ?_⟩
  · intro r' hr
    rw [List.mem_singleton.mp hr]
    exact ⟨hvnode, hregistered⟩
  · intro hfull
    have hsome : subscriptions s.registry event.ident ≠ [] := by
      apply List.ne_nil_of_length_pos
      exact Nat.zero_lt_of_lt hfull
    rcases (h.subscriptions_ne_nil _).mp hsome with ⟨path, hpath⟩
    rw [hfile] at hpath
    exact absurd (Option.some.inj hpath) (hcontrol path)

/-- Every event goes to what is registered at its number. -/
theorem Mirrors.processEvent (h : Mirrors s) (config : RuntimeState) (v : EventView)
    (event : Event) :
    ∃ outcome, processEvent config v event s = some outcome ∧
      (outcome.ok = true → Follows s outcome.scanner) ∧
      Faithful ⟨event, s, outcome.recipients⟩ := by
  have hreopen : ∀ i, Follows s
      (if event.flags.gone = true then (s.closeConfig i).reopenConfigFileWatch v else s) := by
    intro i
    split
    · exact (h.closeConfig i).trans ((h.closeConfig i).mirrors.reopenConfigFileWatch v)
    · exact h.follows
  unfold WatchEvents.processEvent
  by_cases hvnode : event.filter = .vnode
  · rw [if_neg (not_not_intro hvnode)]
    unfold handleScannerControlEvent
    by_cases hfirst : s.configFds 0 = some event.ident
    · rw [if_pos hfirst]
      exact ⟨_, rfl, fun _ => hreopen 0, faithful_control h hvnode hfirst
        ((h.config 0 _).mp hfirst) (by simp)⟩
    · rw [if_neg hfirst]
      by_cases hsecond : s.configFds 1 = some event.ident
      · rw [if_pos hsecond]
        exact ⟨_, rfl, fun _ => hreopen 1, faithful_control h hvnode hsecond
          ((h.config 1 _).mp hsecond) (by simp)⟩
      · rw [if_neg hsecond]
        by_cases hmanual : s.manualFd = some event.ident
        · rw [if_pos hmanual]
          refine ⟨_, rfl, fun _ => ?_, faithful_control h hvnode hmanual
            ((h.manual _).mp hmanual) (by simp)⟩
          dsimp only
          split
          · exact h.closeManual
          · exact h.follows
        · rw [if_neg hmanual]
          apply h.processWatchEvent v hvnode _ hmanual
          intro i
          match i with
          | 0 => exact hfirst
          | 1 => exact hsecond
  · rw [if_pos hvnode]
    refine ⟨_, rfl, fun _ => h.follows, ⟨?_, ?_, fun _ => rfl⟩⟩
    · intro r hr
      cases hr
    · intro hyes
      exact absurd hyes hvnode

theorem Mirrors.processScannerEvents (h : Mirrors s) (config : RuntimeState)
    (batch : List (Event × EventView)) :
    ∃ handled t, processScannerEvents config batch s = some (handled, t) ∧
      ∀ x ∈ handled, Faithful x ∧ Follows s x.before := by
  induction batch generalizing s with
  | nil => exact ⟨[], s, rfl, nofun⟩
  | cons entry batch ih =>
    rcases entry with ⟨event, v⟩
    rcases h.processEvent config v event with ⟨outcome, hresult, hkept, hfaithful⟩
    unfold WatchEvents.processScannerEvents
    rw [hresult]
    dsimp only
    by_cases hok : outcome.ok = true
    · rcases ih (hkept hok).mirrors with ⟨handled, t, hrest, hall⟩
      rw [if_pos hok, hrest]
      refine ⟨_, t, rfl, fun x hx => ?_⟩
      rcases List.mem_cons.mp hx with rfl | hx
      · exact ⟨hfaithful, h.follows⟩
      · exact ⟨(hall x hx).1, (hkept hok).trans (hall x hx).2⟩
    · rw [if_neg hok]
      refine ⟨_, _, rfl, fun x hx => ?_⟩
      rw [List.mem_singleton.mp hx]
      exact ⟨hfaithful, h.follows⟩

/-- Every event went only to what was registered, when it was handled, at the opening that the
event's number stood for when the batch was read. -/
def DeliveredAsRead (s : Scanner) (handled : List Handled) : Prop :=
  ∀ x ∈ handled, ∀ r ∈ x.recipients, ∃ o fd, s.descriptors x.event.ident = some o ∧
    x.before.descriptors fd = some o ∧ RegisteredAt x.before fd r

/-- An opening is there under one number only, so that the event's number has not changed. -/
theorem DeliveredAsRead.same (h : Mirrors s) {handled : List Handled} {x : Handled} {r : Recipient}
    (hread : DeliveredAsRead s handled) (hx : x ∈ handled) (hlater : Follows s x.before)
    (hr : r ∈ x.recipients) :
    x.before.descriptors x.event.ident = s.descriptors x.event.ident := by
  rcases hread x hx r hr with ⟨o, fd, hthen, hnow, -⟩
  have hnumber : fd = x.event.ident := hlater.later.number h.agrees.located hthen hnow
  rw [hthen, ← hnumber, hnow]

/-- Registrations one after another. -/
def Tables.registerAll : List (Request × Answers) → Tables → Option Tables
  | [], s => some s
  | (r, a) :: rest, s => (s.register r a).bind fun (_, s) => registerAll rest s

/-- A scanner that watches nothing yet. -/
def Tables.empty : Tables := ⟨Registry.empty, fun _ => none, 0⟩

theorem Agrees.registerAll {s : Tables} (h : Agrees s) (requests : List (Request × Answers)) :
    ∃ t, s.registerAll requests = some t ∧ Kept s t := by
  induction requests generalizing s with
  | nil => exact ⟨s, rfl, Kept.refl h⟩
  | cons request requests ih =>
    rcases request with ⟨r, a⟩
    rcases h.register r a with ⟨ok, t, hresult, hkept⟩
    rcases ih hkept.agrees with ⟨u, hrest, hkept'⟩
    unfold Tables.registerAll
    rw [hresult]
    exact ⟨u, hrest, hkept.trans hkept'⟩

/-- A scanner after registrations. -/
def Scanner.registered (requests : List (Request × Answers)) : Scanner where
  registry := ((Tables.empty.registerAll requests).getD Tables.empty).registry
  configFds _ := none
  manualFd := none
  presence _ := none
  descriptors := ((Tables.empty.registerAll requests).getD Tables.empty).descriptors
  opened := ((Tables.empty.registerAll requests).getD Tables.empty).opened

end ShadowMount.WatchEvents
