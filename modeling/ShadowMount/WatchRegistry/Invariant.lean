import Mathlib.Data.Fintype.Option
import ShadowMount.WatchRegistry.Operations

/-!
# Watch registry - Every sequence of operations

Main results:

- Theorem {lit}`watchRegistry_invariant`: over every sequence of operations the
  lists, the owners, the open descriptors and the index are right, and every loop
  ends; at most one subscription of each root shares a descriptor as long as
  {lit}`fstat` answers alike for the same descriptor within a registration.
-/

namespace ShadowMount.WatchRegistry

open Foundation Registry

variable {s t : Registry}
variable {r : Request} {a : Answers}

/-- Every operation ends and keeps the lists, the owners and the index.  The index
stays current unless a rebuild fails. -/
theorem Operation.apply_spec (h : s.Sound) {op : Operation} (hop : op.Admissible s) :
    ∃ ok t, op.apply s = some (ok, t) ∧ t.Sound ∧
      ((op.rebuilds = true → ok = true) → s.Current → t.Current) := by
  by_cases hrebuilds : op.rebuilds = true
  · rcases removal_spec h hrebuilds with ⟨ok, t, ht, hleaves⟩
    exact ⟨ok, t, ht, hleaves.sound, fun hok => hleaves.current (hok hrebuilds)⟩
  · cases op with
    | register r a =>
      rcases h.register r a hop with ⟨ok, t, ht, hreg, _⟩
      exact ⟨ok, t, ht, hreg.sound, fun _ => hreg.current⟩
    | event ident immediate =>
      rcases h.event ident immediate with ⟨ok, subscriptions, t, ht, hflagged⟩
      have hreg := hflagged.sound h
      refine ⟨ok, t, ?_, hreg.sound, fun _ => hreg.current⟩
      show (s.processVnodeEvent ident immediate).map (fun r => (r.1, r.2.2)) = some (ok, t)
      rw [ht]
      rfl
    | clear => exact ⟨true, _, rfl, h.clear.1, fun _ _ => h.clear.2⟩
    | removeRoot root grows => exact absurd rfl hrebuilds
    | removePath root path grows => exact absurd rfl hrebuilds
    | removeUsb grows => exact absurd rfl hrebuilds
    | suspendUsb usbRoots grows => exact absurd rfl hrebuilds

/-- Within a registration, `fstat` answers alike for entries with the same
descriptor. -/
def Operation.Steady (s : Registry) : Operation → Prop
  | .register _ a => ∀ i < s.count, ∀ k < s.count, (s.entries i).fd = (s.entries k).fd →
      a.existingStat i = a.existingStat k
  | _ => True

/-- The entries with a descriptor have one path and one flag, and are subscriptions
of different roots. -/
structure Uniform (s : Registry) : Prop where
  trimmed : ∀ i < s.count, strlcpy maxPath (s.records i).path = (s.records i).path
  path : ∀ i < s.count, ∀ k < s.count, (s.records i).fd = (s.records k).fd →
    (s.records i).path = (s.records k).path
  shareable : ∀ i < s.count, ∀ k < s.count, (s.records i).fd = (s.records k).fd →
    (s.records i).fdShareable = (s.records k).fdShareable
  single : ∀ i < s.count, ∀ k < s.count, (s.records i).fd = (s.records k).fd →
    (s.records i).scanRootIndex = (s.records k).scanRootIndex → i = k

theorem Uniform.congr (h : Uniform s) (hrecords : t.records = s.records)
    (hcount : t.count = s.count) : Uniform t := by
  constructor
  · rw [hrecords, hcount]
    exact h.trimmed
  · rw [hrecords, hcount]
    exact h.path
  · rw [hrecords, hcount]
    exact h.shareable
  · rw [hrecords, hcount]
    exact h.single

theorem Uniform.of_count_eq_zero (h : s.count = 0) : Uniform s := by
  have hnone : ∀ {i : Nat}, ¬i < s.count := by
    intro i
    omega
  exact ⟨fun i hi => absurd hi hnone, fun i hi => absurd hi hnone, fun i hi => absurd hi hnone,
    fun i hi => absurd hi hnone⟩

theorem Uniform.removeAt (h : Uniform s) {index : Nat} (hindex : index < s.count) :
    Uniform (s.removeScannerWatchEntryAt index) := by
  have hremoved := removeAt_removed hindex
  have hlt : ∀ i < s.count - 1, movedFrom s.count index i < s.count := by
    intro i hi
    exact (movedFrom_lt hindex hi).1
  -- but for the owners, the entries are old ones
  have hrecords : ∀ i < s.count - 1,
      ((s.removeScannerWatchEntryAt index).records i).fd =
        (s.records (movedFrom s.count index i)).fd ∧
      ((s.removeScannerWatchEntryAt index).records i).path =
        (s.records (movedFrom s.count index i)).path ∧
      ((s.removeScannerWatchEntryAt index).records i).fdShareable =
        (s.records (movedFrom s.count index i)).fdShareable ∧
      ((s.removeScannerWatchEntryAt index).records i).scanRootIndex =
        (s.records (movedFrom s.count index i)).scanRootIndex := by
    intro i hi
    rcases hremoved.records i hi with ⟨owns, howns⟩
    rw [howns]
    exact ⟨rfl, rfl, rfl, rfl⟩
  constructor
  · intro i hi
    rw [hremoved.count] at hi
    rw [(hrecords i hi).2.1]
    exact h.trimmed _ (hlt i hi)
  · intro i hi k hk hfd
    rw [hremoved.count] at hi hk
    rw [(hrecords i hi).1, (hrecords k hk).1] at hfd
    rw [(hrecords i hi).2.1, (hrecords k hk).2.1]
    exact h.path _ (hlt i hi) _ (hlt k hk) hfd
  · intro i hi k hk hfd
    rw [hremoved.count] at hi hk
    rw [(hrecords i hi).1, (hrecords k hk).1] at hfd
    rw [(hrecords i hi).2.2.1, (hrecords k hk).2.2.1]
    exact h.shareable _ (hlt i hi) _ (hlt k hk) hfd
  · intro i hi k hk hfd hroot
    rw [hremoved.count] at hi hk
    rw [(hrecords i hi).1, (hrecords k hk).1] at hfd
    rw [(hrecords i hi).2.2.2, (hrecords k hk).2.2.2] at hroot
    exact movedFrom_inj hi hk (h.single _ (hlt i hi) _ (hlt k hk) hfd hroot)

theorem Uniform.thinned (h : Uniform s) (hthin : Thinned s t) : Uniform t := by
  induction hthin with
  | refl => exact h
  | tail _ hstep ih =>
    rcases hstep with ⟨i, hi, rfl⟩
    exact ih.removeAt hi

theorem strlcpy_strlcpy (size : Nat) (path : Text) :
    strlcpy size (strlcpy size path) = strlcpy size path := by
  unfold strlcpy
  rw [List.take_take, Nat.min_self]

/-- An entry appended keeps them alike. -/
theorem Uniform.push (h : Uniform s) {e : WatchEntry}
    (hrecords : t.records = Function.update s.records s.count e) (hcount : t.count = s.count + 1)
    (htrimmed : strlcpy maxPath e.path = e.path)
    (hsame : ∀ i < s.count, (s.records i).fd = e.fd → (s.records i).path = e.path ∧
      (s.records i).fdShareable = e.fdShareable ∧ (s.records i).scanRootIndex ≠ e.scanRootIndex) :
    Uniform t := by
  have hcases : ∀ {i : Nat}, i < s.count + 1 → i < s.count ∨ i = s.count := by
    intro i hi
    omega
  have hold : ∀ {i : Nat}, i < s.count → t.records i = s.records i := by
    intro i hi
    rw [hrecords, Function.update_of_ne (by omega)]
  have hnew : t.records s.count = e := by
    rw [hrecords, Function.update_self]
  constructor
  · intro i hi
    rw [hcount] at hi
    rcases hcases hi with hi | rfl
    · rw [hold hi]
      exact h.trimmed i hi
    · rw [hnew]
      exact htrimmed
  · intro i hi k hk hfd
    rw [hcount] at hi hk
    rcases hcases hi with hi | rfl <;> rcases hcases hk with hk | rfl
    · rw [hold hi, hold hk] at *
      exact h.path i hi k hk hfd
    · rw [hold hi, hnew] at *
      exact (hsame i hi hfd).1
    · rw [hold hk, hnew] at *
      exact (hsame k hk hfd.symm).1.symm
    · rfl
  · intro i hi k hk hfd
    rw [hcount] at hi hk
    rcases hcases hi with hi | rfl <;> rcases hcases hk with hk | rfl
    · rw [hold hi, hold hk] at *
      exact h.shareable i hi k hk hfd
    · rw [hold hi, hnew] at *
      exact (hsame i hi hfd).2.1
    · rw [hold hk, hnew] at *
      exact (hsame k hk hfd.symm).2.1.symm
    · rfl
  · intro i hi k hk hfd hroot
    rw [hcount] at hi hk
    rcases hcases hi with hi | rfl <;> rcases hcases hk with hk | rfl
    · rw [hold hi, hold hk] at *
      exact h.single i hi k hk hfd hroot
    · rw [hold hi, hnew] at *
      exact absurd hroot (hsame i hi hfd).2.2
    · rw [hold hk, hnew] at *
      exact absurd hroot.symm (hsame k hk hfd.symm).2.2
    · rfl

theorem Uniform.register (h : Uniform s) (howned : s.Owned)
    (hsteady : (Operation.register r a).Steady s) (hadded : Added s t r a) : Uniform t := by
  cases hadded with
  | same hrecords hcount => exact h.congr hrecords hcount
  | own fd _ hfresh hrecords hcount =>
    refine h.push hrecords hcount (strlcpy_strlcpy _ _) ?_
    intro i hi hfd
    have hopen := (howned.opened fd).mpr ⟨i, hi, hfd⟩
    rw [hfresh] at hopen
    cases hopen
  | shared fd hsearch hrecords hcount =>
    rcases searchShared_done hsearch with hnone | ⟨k, hk, hkfd, hfits⟩
    · cases hnone
    · have hk := List.mem_range.mp hk
      have hpath : strlcpy maxPath r.path = r.path := by
        rw [← hfits.path]
        exact h.trimmed k hk
      refine h.push hrecords hcount (strlcpy_strlcpy _ _) ?_
      intro i hi hfd
      have hfd : (s.records i).fd = (s.records k).fd := hfd.trans hkfd.symm
      -- the entry passes the same tests as the one whose descriptor is shared
      have hfits' : s.Fits r a i := by
        refine ⟨?_, ?_, ?_⟩
        · rw [h.shareable i hi k hk hfd]
          exact hfits.shareable
        · rw [h.path i hi k hk hfd]
          exact hfits.path
        · have hstat := hsteady i hi k hk hfd
          have hidentity := hfits.identity
          unfold Answers.sameIdentity at hidentity ⊢
          rw [hstat]
          exact hidentity
      refine ⟨?_, hfits'.shareable, ?_⟩
      · show (s.records i).path = strlcpy maxPath r.path
        rw [hpath]
        exact hfits'.path
      · exact searchShared_other hsearch i (List.mem_range.mpr hi) hfits'

/-- The entries with a descriptor. -/
def subscriptions (s : Registry) (fd : Nat) : List Nat :=
  (List.range s.count).filter fun i => (s.entries i).fd = fd

/-- An event copies the subscriptions of its descriptor. -/
theorem collectSubscriptions_range (ident : Nat) (immediate : Bool) :
    let result := collectSubscriptions ident immediate (List.range s.count) [] s
    (result.1 = true ↔ (subscriptions s ident).length ≤ maxSubscriptions) ∧
      result.2.1 = ((subscriptions s ident).map s.subscription).take maxSubscriptions := by
  have hspec := collectSubscriptions_spec (s := s) ident immediate (List.range s.count)
    (show ([] : List EventSubscription).length ≤ maxSubscriptions from Nat.zero_le _)
  simp only [List.nil_append, List.length_map] at hspec
  exact hspec

/-- Subscriptions of different roots are at most as many as there are roots, and one
for USB. -/
theorem Uniform.length_subscriptions_le (h : Uniform s) (fd : Nat) :
    (subscriptions s fd).length ≤ maxSubscriptions := by
  have hnodup : ((subscriptions s fd).map fun i => (s.entries i).scanRootIndex).Nodup := by
    refine List.Nodup.map_on ?_ (List.nodup_range.filter _)
    intro i hi k hk hroot
    unfold subscriptions at hi hk
    rw [List.mem_filter, List.mem_range] at hi hk
    have hfd : (s.entries i).fd = (s.entries k).fd := by
      rw [of_decide_eq_true hi.2, of_decide_eq_true hk.2]
    exact h.single i hi.1 k hk.1 hfd hroot
  have hcard := hnodup.length_le_card
  rw [List.length_map, Fintype.card_option, Fintype.card_fin] at hcard
  exact hcard

theorem collectSubscriptions_records (ident : Nat) (entries : List Nat)
    (copied : List EventSubscription)
    (hroom : copied.length + (entries.filter fun i => (s.entries i).fd = ident).length ≤
      maxSubscriptions) (k : Nat) :
    (collectSubscriptions ident true entries copied s).2.2.records k =
      if k ∈ entries ∧ (s.records k).fd = ident then { s.records k with fdShareable := false }
      else s.records k := by
  induction entries generalizing s copied with
  | nil => simp [collectSubscriptions]
  | cons i entries ih =>
    unfold collectSubscriptions
    by_cases hfd : (s.entries i).fd = ident
    · have hfilter : ((i :: entries).filter fun i => (s.entries i).fd = ident).length =
          (entries.filter fun i => (s.entries i).fd = ident).length + 1 := by
        rw [List.filter_cons, if_pos (by simpa using hfd), List.length_cons]
      rw [hfilter] at hroom
      simp only [hfd, ne_eq, not_true_eq_false, if_false, if_true]
      rw [if_neg (by omega)]
      have hfds : ∀ j, ((s.modifyEntry i fun e => { e with fdShareable := false }).entries j).fd =
          (s.entries j).fd := by
        intro j
        by_cases hj : j = i
        · simp [modifyEntry, hj]
        · simp [modifyEntry, hj]
      have hroom' : (copied ++ [(⟨((s.modifyEntry i fun e =>
            { e with fdShareable := false }).entries i).scanRootIndex,
          ((s.modifyEntry i fun e => { e with fdShareable := false }).entries i).depth,
          ((s.modifyEntry i fun e => { e with fdShareable := false }).entries i).kind⟩ :
            EventSubscription)]).length +
          (entries.filter fun j => ((s.modifyEntry i fun e =>
            { e with fdShareable := false }).entries j).fd = ident).length ≤
            maxSubscriptions := by
        simp only [hfds]
        rw [List.length_append, List.length_singleton]
        omega
      rw [ih _ hroom']
      have hrecord : (s.modifyEntry i fun e => { e with fdShareable := false }).records =
          Function.update s.records i { s.records i with fdShareable := false } :=
        modifyEntry_records i _
      rw [hrecord]
      by_cases hk : k = i
      · subst hk
        have hkfd : (s.records k).fd = ident := hfd
        rw [Function.update_self]
        simp [hkfd]
      · rw [Function.update_of_ne hk]
        simp [hk]
    · have hfilter : (i :: entries).filter (fun i => (s.entries i).fd = ident) =
          entries.filter fun i => (s.entries i).fd = ident := by
        rw [List.filter_cons, if_neg (by simpa using hfd)]
      rw [hfilter] at hroom
      rw [if_pos hfd, ih _ hroom]
      by_cases hk : k = i
      · subst hk
        have hkfd : ¬(s.records k).fd = ident := hfd
        simp [hkfd]
      · simp [hk]

theorem collectSubscriptions_keep (ident : Nat) (entries : List Nat)
    (copied : List EventSubscription) :
    (collectSubscriptions ident false entries copied s).2.2 = s := by
  induction entries generalizing copied with
  | nil => rfl
  | cons i entries ih =>
    unfold collectSubscriptions
    split
    · exact ih copied
    · simp only [Bool.false_eq_true, if_false]
      split
      · rfl
      · exact ih _

/-- An event keeps the shared descriptors alike. -/
theorem Uniform.event (h : Uniform s) (hs : s.Sound) {ident : Nat} {immediate ok : Bool}
    {copied : List EventSubscription}
    (hevent : s.processVnodeEvent ident immediate = some (ok, copied, t)) : Uniform t := by
  unfold processVnodeEvent at hevent
  rw [findScannerWatchEntryByFd_eq hs.indexing] at hevent
  split at hevent
  · cases hevent
  · cases hevent
    exact h
  · have ht : (collectSubscriptions ident immediate (List.range s.count) [] s).2.2 = t := by
      rw [Option.some.inj hevent]
    rw [← ht]
    cases immediate with
    | false =>
      rw [collectSubscriptions_keep]
      exact h
    | true =>
      have hcount := (collectSubscriptions_flagged (s := s) ident true (List.range s.count)
        []).count
      have hrecords := collectSubscriptions_records ident (List.range s.count) [] (s := s)
        (by rw [List.length_nil, Nat.zero_add]; exact h.length_subscriptions_le ident)
      generalize (collectSubscriptions ident true (List.range s.count) [] s).2.2 = u at *
      have hfields : ∀ k, (u.records k).fd = (s.records k).fd ∧
          (u.records k).path = (s.records k).path ∧
          (u.records k).scanRootIndex = (s.records k).scanRootIndex := by
        intro k
        rw [hrecords k]
        split
        · exact ⟨rfl, rfl, rfl⟩
        · exact ⟨rfl, rfl, rfl⟩
      have hflag : ∀ k < s.count, (u.records k).fdShareable =
          ((s.records k).fd ≠ ident && (s.records k).fdShareable) := by
        intro k hk
        rw [hrecords k]
        by_cases hfd : (s.records k).fd = ident
        · rw [if_pos ⟨List.mem_range.mpr hk, hfd⟩]
          simp [hfd]
        · rw [if_neg (fun hand => hfd hand.2)]
          simp [hfd]
      constructor
      · intro i hi
        rw [(hfields i).2.1]
        exact h.trimmed i (hcount ▸ hi)
      · intro i hi k hk hfd
        rw [(hfields i).1, (hfields k).1] at hfd
        rw [(hfields i).2.1, (hfields k).2.1]
        exact h.path i (hcount ▸ hi) k (hcount ▸ hk) hfd
      · intro i hi k hk hfd
        rw [(hfields i).1, (hfields k).1] at hfd
        rw [hflag i (hcount ▸ hi), hflag k (hcount ▸ hk), hfd,
          h.shareable i (hcount ▸ hi) k (hcount ▸ hk) hfd]
      · intro i hi k hk hfd hroot
        rw [(hfields i).1, (hfields k).1] at hfd
        rw [(hfields i).2.2, (hfields k).2.2] at hroot
        exact h.single i (hcount ▸ hi) k (hcount ▸ hk) hfd hroot

theorem Uniform.apply (h : Uniform s) (hs : s.Sound) {op : Operation} (hop : op.Admissible s)
    (hsteady : op.Steady s) {ok : Bool} (happly : op.apply s = some (ok, t)) : Uniform t := by
  by_cases hrebuilds : op.rebuilds = true
  · rcases removal_spec hs hrebuilds with ⟨ok', u, hu, hleaves⟩
    rw [happly] at hu
    cases hu
    rcases hleaves.thinned with ⟨v, hthin, hrecords, hcount⟩
    exact (h.thinned hthin).congr hrecords hcount
  · cases op with
    | register r a =>
      rcases hs.register r a hop with ⟨ok', u, hu, _, hadded⟩
      have hsame : (some (ok, t) : Option (Bool × Registry)) = some (ok', u) :=
        happly.symm.trans hu
      cases hsame
      exact h.register hs.owned hsteady hadded
    | event ident immediate =>
      rcases hs.event ident immediate with ⟨ok', copied, u, hu, _⟩
      have hmap : (s.processVnodeEvent ident immediate).map (fun r => (r.1, r.2.2)) =
          some (ok, t) := happly
      rw [hu] at hmap
      cases hmap
      exact h.event hs hu
    | clear =>
      cases happly
      exact Uniform.of_count_eq_zero rfl
    | removeRoot root grows => exact absurd rfl hrebuilds
    | removePath root path grows => exact absurd rfl hrebuilds
    | removeUsb grows => exact absurd rfl hrebuilds
    | suspendUsb usbRoots grows => exact absurd rfl hrebuilds

/-- What holds after every operation. -/
structure Invariant (s : Scanner) : Prop where
  sound : s.registry.Sound
  current : s.rebuildFailed = false → s.registry.Current

theorem Invariant.step {s t : Scanner} {op : Operation} (h : Invariant s)
    (hstep : system.step s op t) : Invariant t := by
  rcases hstep with ⟨hop, ok, registry, happly, rfl⟩
  rcases Operation.apply_spec h.sound hop with ⟨ok', u, hu, hsound, hcurrent⟩
  rw [happly] at hu
  cases hu
  refine ⟨hsound, ?_⟩
  intro hflag
  unfold Scanner.after at hflag
  by_cases hclear : op = .clear
  · subst hclear
    cases happly
    exact h.sound.clear.2
  · have hand : s.rebuildFailed = false ∧ (op.rebuilds && !ok) = false := by
      cases op <;> simp_all
    apply hcurrent
    · intro hrebuilds
      have hok := hand.2
      rw [hrebuilds] at hok
      simpa using hok
    · exact h.current hand.1

theorem Invariant.of_reachable {s : Scanner} (h : Reachable system s) : Invariant s := by
  refine h.invariant ?_ (fun s op t hs hstep => hs.step hstep)
  rintro s rfl
  exact ⟨empty_sound, fun _ => empty_current⟩

/-- The runs in which `fstat` answers alike for the same descriptor within each
registration. -/
def steadySystem : System Scanner Operation := system.restrict fun s op => op.Steady s.registry

theorem Uniform.of_reachable {s : Scanner} (h : Reachable steadySystem s) :
    Uniform s.registry := by
  have hboth : Invariant s ∧ Uniform s.registry := by
    apply Reachable.invariant _ _ h
    · rintro s rfl
      exact ⟨⟨empty_sound, fun _ => empty_current⟩, Uniform.of_count_eq_zero rfl⟩
    · rintro s op t ⟨hs, huniform⟩ ⟨hstep, hsteady⟩
      refine ⟨hs.step hstep, ?_⟩
      rcases hstep with ⟨hop, ok, registry, happly, rfl⟩
      exact huniform.apply hs.sound hop hsteady happly
  exact hboth.2

/-- The runs in which the index can always grow. -/
def growingSystem : System Scanner Operation := system.restrict fun _ op => op.indexGrows = true

theorem rebuildFailed_eq_false {s : Scanner} (h : Reachable growingSystem s) :
    s.rebuildFailed = false := by
  have hboth : Invariant s ∧ s.rebuildFailed = false := by
    apply Reachable.invariant _ _ h
    · rintro s rfl
      exact ⟨⟨empty_sound, fun _ => empty_current⟩, rfl⟩
    · rintro s op t ⟨hs, hflag⟩ ⟨hstep, hgrows⟩
      refine ⟨hs.step hstep, ?_⟩
      rcases hstep with ⟨hop, ok, registry, happly, rfl⟩
      unfold Scanner.after
      by_cases hrebuilds : op.rebuilds = true
      · rcases removal_spec hs.sound hrebuilds with ⟨ok', u, hu, hleaves⟩
        rw [happly] at hu
        cases hu
        have hok := hleaves.granted hgrows
        cases op <;> simp_all
      · cases op <;> simp_all
  exact hboth.2

/-- What the registry promises after every operation. -/
structure RegistryInvariant (s : Scanner) : Prop where
  /-- The list of each root holds its entries, once each, with links that agree. -/
  lists : ∀ root, ∃ l : List Nat, l.Nodup ∧ s.registry.heads root = l.head? ∧
    Linked (fun i => (s.registry.entries i).prevRootWatchIndex)
      (fun i => (s.registry.entries i).nextRootWatchIndex) none l none ∧
    ∀ i, i ∈ l ↔ i < s.registry.count ∧ (s.registry.entries i).scanRootIndex = some root
  /-- Every descriptor in the table has exactly one owner. -/
  owner : ∀ i < s.registry.count, ∃! k, k < s.registry.count ∧
    (s.registry.entries k).ownsFd = true ∧
    (s.registry.entries k).fd = (s.registry.entries i).fd
  /-- The open descriptors are the ones in the table. -/
  opened : ∀ fd, isOpen s.registry.log fd = true ↔
    ∃ i < s.registry.count, (s.registry.entries i).fd = fd
  /-- A descriptor is closed only when it is open, and once for each time it was
  opened, as soon as it is in the table no more. -/
  alternates : Alternates s.registry.log
  closedOnce : ∀ fd, s.registry.log.count (.opened fd) = s.registry.log.count (.closed fd) +
    if isOpen s.registry.log fd then 1 else 0
  /-- The index finds the owner of every descriptor in the table, and nothing else. -/
  finds : s.rebuildFailed = false → ∀ ident i,
    s.registry.findScannerWatchEntryByFd ident = some (some i) ↔
      i < s.registry.count ∧ (s.registry.entries i).ownsFd = true ∧
        (s.registry.entries i).fd = ident
  /-- Every search and every operation ends. -/
  searchEnds : ∀ ident, s.registry.findScannerWatchEntryByFd ident ≠ none
  operationEnds : ∀ op : Operation, op.Admissible s.registry → op.apply s.registry ≠ none
  /-- An event copies the subscriptions of its descriptor in their order, as many as its table
  holds, and fails exactly when there are more.  Where the index is out of date and does not find
  the descriptor, it copies none. -/
  copied : ∀ ident immediate ok copied registry,
    s.registry.processVnodeEvent ident immediate = some (ok, copied, registry) →
      ((ok = true ↔ (subscriptions s.registry ident).length ≤ maxSubscriptions) ∧
        copied = ((subscriptions s.registry ident).map s.registry.subscription).take
          maxSubscriptions) ∨
      s.rebuildFailed = true ∧ s.registry.findScannerWatchEntryByFd ident = some none ∧
        ok = true ∧ copied = []

/-- A descriptor that a current index does not find has no subscriptions. -/
theorem Invariant.subscriptions_eq_nil {s : Scanner} (h : Invariant s)
    (hflag : s.rebuildFailed = false) {ident : Nat}
    (hnone : s.registry.findScannerWatchEntryByFd ident = some none) :
    subscriptions s.registry ident = [] := by
  rcases findScannerWatchEntryByFd_spec h.sound.indexing (h.current hflag) h.sound.owned ident
    with ⟨found, hfound, hspec⟩
  rw [hnone] at hfound
  cases hfound
  apply List.filter_eq_nil_iff.mpr
  intro i hi hfd
  have hfd : (s.registry.records i).fd = ident := of_decide_eq_true hfd
  rcases h.sound.owned.owner i (List.mem_range.mp hi) with ⟨k, hk, howns, hkfd⟩
  cases (hspec k).mpr ⟨hk, howns, hkfd.trans hfd⟩

theorem Invariant.registry {s : Scanner} (h : Invariant s) : RegistryInvariant s where
  lists root := by
    rcases h.sound.listed root with ⟨l, hl, hmem⟩
    refine ⟨l, hl.nodup, hl.head, hl.linked, ?_⟩
    intro i
    rw [hmem i]
    constructor
    · intro hbelongs
      have hi := lt_of_belongs hbelongs
      rw [belongs_of_lt hi] at hbelongs
      exact ⟨hi, hbelongs⟩
    · rintro ⟨hi, hroot⟩
      rw [belongs_of_lt hi]
      exact hroot
  owner i hi := by
    rcases h.sound.owned.owner i hi with ⟨k, hk, howns, hfd⟩
    refine ⟨k, ⟨hk, howns, hfd⟩, ?_⟩
    rintro j ⟨hj, hjowns, hjfd⟩
    exact h.sound.owned.single j k hj hk hjowns howns (hjfd.trans hfd.symm)
  opened := h.sound.owned.opened
  alternates := h.sound.owned.alternates
  closedOnce := h.sound.owned.alternates.count
  finds hflag ident i := by
    rcases findScannerWatchEntryByFd_spec h.sound.indexing (h.current hflag) h.sound.owned ident
      with ⟨found, hfound, hspec⟩
    rw [hfound, Option.some.injEq]
    exact hspec i
  searchEnds ident := by
    rw [findScannerWatchEntryByFd_eq h.sound.indexing]
    exact Option.some_ne_none _
  operationEnds op hop := by
    rcases Operation.apply_spec h.sound hop with ⟨ok, t, ht, _⟩
    rw [ht]
    exact Option.some_ne_none _
  copied ident immediate ok copied registry hevent := by
    unfold processVnodeEvent at hevent
    split at hevent
    · cases hevent
    next hnone =>
      cases hevent
      by_cases hflag : s.rebuildFailed = true
      · exact .inr ⟨hflag, hnone, rfl, rfl⟩
      · have hempty : subscriptions s.registry ident = [] :=
          h.subscriptions_eq_nil (Bool.eq_false_of_not_eq_true hflag) hnone
        rw [hempty]
        exact .inl ⟨by simp, rfl⟩
    · have hspec := collectSubscriptions_range (s := s.registry) ident immediate
      rw [Option.some.inj hevent] at hspec
      exact .inl hspec

/-- Over every sequence of operations the lists, the owners, the open descriptors
and the index are right and every loop ends, and at most one subscription of each
root shares a descriptor as long as `fstat` answers alike for one descriptor
within a registration.  The index is out of date only after a removal that could not
make it grow. -/
theorem watchRegistry_invariant :
    (∀ s, Reachable system s → RegistryInvariant s) ∧
      (∀ s, Reachable growingSystem s → s.rebuildFailed = false) ∧
      ∀ s, Reachable steadySystem s → ∀ fd,
        (subscriptions s.registry fd).length ≤ maxSubscriptions := by
  refine ⟨?_, ?_, ?_⟩
  · intro s h
    exact (Invariant.of_reachable h).registry
  · intro s h
    exact rebuildFailed_eq_false h
  · intro s h fd
    exact (Uniform.of_reachable h).length_subscriptions_le fd

/-- Entries whose `fstat` fails are passed over while nothing is shared. -/
theorem searchShared_skip {passed rest : List Nat} (h : ∀ i ∈ passed, a.sameIdentity i = false) :
    s.searchShared r a (passed ++ rest) none = s.searchShared r a rest none := by
  induction passed with
  | nil => rfl
  | cons i passed ih =>
    have hskip := h i List.mem_cons_self
    have hrest := ih (fun k hk => h k (List.mem_cons_of_mem i hk))
    rw [List.cons_append, searchShared, ← hrest]
    simp only [hskip]
    split
    · rfl
    · simp

theorem registerScannerWatchEntry_shared {fd sharedFd : Nat} (hgrow : a.entriesGrow = true)
    (hfd : a.fd = some fd)
    (hsearch : s.searchShared r a (List.range s.count) none = .done (some sharedFd)) :
    ∃ t, s.registerScannerWatchEntry r a = some (true, t) ∧ t.count = s.count + 1 ∧
      t.records = Function.update s.records s.count (r.entry sharedFd false).unlinked := by
  have hensure : ∃ capacity, s.ensureScannerWatchCapacity a.entriesGrow (s.count + 1) =
      (true, { s with capacity := capacity }) := by
    rw [hgrow]
    unfold ensureScannerWatchCapacity
    split
    · exact ⟨s.capacity, rfl⟩
    · exact ⟨_, rfl⟩
  rcases hensure with ⟨capacity, hensure⟩
  have hsame : ({ s with capacity := capacity, log := .opened fd :: s.log } :
      Registry).searchShared r a (List.range s.count) none = .done (some sharedFd) := by
    rw [← hsearch]
    apply searchShared_congr
    rfl
  unfold registerScannerWatchEntry
  rw [hensure, hfd]
  simp only [hsame]
  exact ⟨_, rfl, (append_sameBody _ _ r).count, append_records _ _ r⟩

/-- The subscription of the parent of the USB volumes, and of a scan root whose
parent is that directory. -/
def parentRequest (usb : Bool) : Request where
  scanRootIndex := if usb then none else some ⟨0, maxScanPaths_pos⟩
  path := "/mnt".toList
  kind := if usb then .usbParent else .scanRootParent
  depth := 0

/-- `fstat` fails for all entries but one. -/
def answersFrom (i : Nat) (fd : Nat) : Answers where
  entriesGrow := true
  indexGrows := true
  fd := some fd
  openedStat := some (1, 2)
  existingStat k := if k = i then some (1, 2) else none
  watched := true

/-- A registry full of subscriptions of the same two roots to one descriptor. -/
structure Piled (s : Registry) (n : Nat) : Prop where
  count : s.count = n + 1
  fd : ∀ i < s.count, (s.records i).fd = 3
  shareable : ∀ i < s.count, (s.records i).fdShareable = true
  path : ∀ i < s.count, (s.records i).path = "/mnt".toList
  root : (s.records n).scanRootIndex = (parentRequest (n % 2 = 0)).scanRootIndex

theorem exists_piled_zero : ∃ s, Reachable system s ∧ Piled s.registry 0 := by
  have hstart : Reachable system ⟨Registry.empty, false⟩ := Reachable.start rfl
  have hstep : ∃ t, system.step ⟨Registry.empty, false⟩
      (.register (parentRequest true) (answersFrom 0 3)) t ∧ Piled t.registry 0 := by
    refine ⟨_, ⟨?_, _, _, rfl, rfl⟩, ?_⟩
    · intro fd _
      rfl
    · refine ⟨rfl, ?_, ?_, ?_, rfl⟩
      · intro i hi
        have hzero : i = 0 := Nat.lt_one_iff.mp hi
        subst hzero
        rfl
      · intro i hi
        have hzero : i = 0 := Nat.lt_one_iff.mp hi
        subst hzero
        rfl
      · intro i hi
        have hzero : i = 0 := Nat.lt_one_iff.mp hi
        subst hzero
        rfl
  rcases hstep with ⟨t, hstep, hpiled⟩
  exact ⟨t, hstart.step hstep, hpiled⟩

/-- One more subscription, when `fstat` fails for all entries but the last. -/
theorem Piled.next {s : Scanner} {n : Nat} (h : Piled s.registry n) (hs : Reachable system s) :
    ∃ t, Reachable system t ∧ Piled t.registry (n + 1) := by
  have hfresh : isOpen s.registry.log 4 = false := by
    have hopened := (Invariant.of_reachable hs).sound.owned.opened 4
    rw [Bool.eq_false_iff]
    intro hopen
    rcases hopened.mp hopen with ⟨i, hi, hfd⟩
    rw [h.fd i hi] at hfd
    omega
  have hlast : n < s.registry.count := by
    rw [h.count]
    exact Nat.lt_succ_self n
  have hother : (s.registry.records n).scanRootIndex ≠
      (parentRequest ((n + 1) % 2 = 0)).scanRootIndex := by
    rw [h.root]
    unfold parentRequest
    by_cases heven : n % 2 = 0
    · have hodd : ¬(n + 1) % 2 = 0 := by omega
      simp [heven, hodd]
    · have hodd : (n + 1) % 2 = 0 := by omega
      simp [heven, hodd]
  have hsearch : s.registry.searchShared (parentRequest ((n + 1) % 2 = 0)) (answersFrom n 4)
      (List.range s.registry.count) none = .done (some 3) := by
    rw [h.count, List.range_succ, searchShared_skip]
    · have hshareable : (s.registry.entries n).fdShareable = true := h.shareable n hlast
      have hpath : (s.registry.entries n).path = "/mnt".toList := h.path n hlast
      have hfd : (s.registry.entries n).fd = 3 := h.fd n hlast
      have hother : (s.registry.entries n).scanRootIndex ≠
          (parentRequest ((n + 1) % 2 = 0)).scanRootIndex := hother
      unfold searchShared searchShared
      simp only [hshareable, hpath, hfd]
      rw [if_neg (by simp [parentRequest]), if_neg (by simp [Answers.sameIdentity, answersFrom]),
        if_neg hother]
      rfl
    · intro i hi
      have hne : i ≠ n := Nat.ne_of_lt (List.mem_range.mp hi)
      simp [Answers.sameIdentity, answersFrom, hne]
  rcases registerScannerWatchEntry_shared rfl rfl hsearch with
    ⟨t, ht, hcount, hrecords⟩
  have hstep : system.step s
      (.register (parentRequest ((n + 1) % 2 = 0)) (answersFrom n 4))
      (s.after (.register (parentRequest ((n + 1) % 2 = 0)) (answersFrom n 4)) true t) := by
    refine ⟨?_, true, t, ht, rfl⟩
    intro fd hfd
    cases hfd
    exact hfresh
  have hpiled : Piled t (n + 1) := by
    have hold : ∀ i < s.registry.count, t.records i = s.registry.records i := by
      intro i hi
      rw [hrecords, Function.update_of_ne (Nat.ne_of_lt hi)]
    have hnew : t.records s.registry.count =
        ((parentRequest ((n + 1) % 2 = 0)).entry 3 false).unlinked := by
      rw [hrecords, Function.update_self]
    have hcases : ∀ {i : Nat}, i < t.count → i < s.registry.count ∨ i = s.registry.count := by
      intro i hi
      omega
    refine ⟨by rw [hcount, h.count], ?_, ?_, ?_, ?_⟩
    · intro i hi
      rcases hcases hi with hi | rfl
      · rw [hold i hi]
        exact h.fd i hi
      · rw [hnew]
        rfl
    · intro i hi
      rcases hcases hi with hi | rfl
      · rw [hold i hi]
        exact h.shareable i hi
      · rw [hnew]
        rfl
    · intro i hi
      rcases hcases hi with hi | rfl
      · rw [hold i hi]
        exact h.path i hi
      · rw [hnew]
        rfl
    · rw [h.count] at hnew
      rw [hnew]
      rfl
  exact ⟨_, hs.step hstep, hpiled⟩

/-- Any number of subscriptions can share a descriptor. -/
theorem subscriptions_unbounded (n : Nat) :
    ∃ s, Reachable system s ∧ n < (subscriptions s.registry 3).length := by
  have hpiled : ∃ s, Reachable system s ∧ Piled s.registry n := by
    induction n with
    | zero => exact exists_piled_zero
    | succ n ih =>
      rcases ih with ⟨s, hs, hn⟩
      exact hn.next hs
  rcases hpiled with ⟨s, hs, hn⟩
  refine ⟨s, hs, ?_⟩
  have hall : subscriptions s.registry 3 = List.range s.registry.count := by
    apply List.filter_eq_self.mpr
    intro i hi
    exact decide_eq_true (hn.fd i (List.mem_range.mp hi))
  rw [hall, List.length_range, hn.count]
  exact Nat.lt_succ_self n

/-- Failing calls of `fstat` let more subscriptions share a descriptor than the
table of an event holds. -/
theorem subscriptions_exceed_table :
    ¬∀ s, Reachable system s → RegistryInvariant s ∧
      ∀ fd, (subscriptions s.registry fd).length ≤ maxSubscriptions := by
  intro h
  rcases subscriptions_unbounded maxSubscriptions with ⟨s, hs, hmore⟩
  have hle := (h s hs).2 3
  omega

/-- Two roots share a descriptor, and the owner of it is removed. -/
theorem watchRegistry_invariant_shared :
    ∃ s, s.registry.count = 1 ∧ (s.registry.entries 0).ownsFd = true ∧
      s.registry.log = [.closed 4, .opened 4, .opened 3] ∧ RegistryInvariant s ∧
      s.rebuildFailed = false ∧ (subscriptions s.registry 3).length ≤ maxSubscriptions := by
  have hrun : ∃ s, Reachable (system.restrict fun s op =>
      op.Steady s.registry ∧ op.indexGrows = true) s ∧ s.registry.count = 1 ∧
      (s.registry.entries 0).ownsFd = true ∧
      s.registry.log = [.closed 4, .opened 4, .opened 3] := by
    have hstart : Reachable (system.restrict fun s op =>
        op.Steady s.registry ∧ op.indexGrows = true) ⟨Registry.empty, false⟩ := Reachable.start rfl
    refine ⟨_, ((hstart.step
      (i := .register (parentRequest true) (answersFrom 0 3))
      ⟨⟨?_, _, _, rfl, rfl⟩, ?_, rfl⟩).step
      (i := .register (parentRequest false) (answersFrom 0 4))
      ⟨⟨?_, _, _, rfl, rfl⟩, ?_, rfl⟩).step (i := .removeUsb true)
      ⟨⟨trivial, _, _, rfl, rfl⟩, trivial, rfl⟩, rfl, rfl, rfl⟩
    · intro fd _
      rfl
    · intro i hi
      exact absurd hi (Nat.not_lt_zero i)
    · intro fd hfd
      cases hfd
      rfl
    · intro i hi k hk _
      have hi : i = 0 := Nat.lt_one_iff.mp hi
      have hk : k = 0 := Nat.lt_one_iff.mp hk
      rw [hi, hk]
  rcases hrun with ⟨s, hreach, hcount, howns, hlog⟩
  have hsteady : Reachable steadySystem s := hreach.restrict_mono fun _ _ h => h.1
  have hgrowing : Reachable growingSystem s := hreach.restrict_mono fun _ _ h => h.2
  rcases hsteady with ⟨history, htrace⟩
  exact ⟨s, hcount, howns, hlog, watchRegistry_invariant.1 s ⟨history, htrace.of_restrict⟩,
    watchRegistry_invariant.2.1 s hgrowing, watchRegistry_invariant.2.2 s ⟨history, htrace⟩ 3⟩

end ShadowMount.WatchRegistry
