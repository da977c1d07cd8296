import ShadowMount.FakelibCache.Model

/-!
# Fakelib cache - What a call can do to a cache

Of the cache of a title two things are looked at: the manifest, if it can be read, and the
entries of the fakelib directory.  This file says once what each file system call does,
and what follows for these two.  A rename of a temporary cache is not among the calls
here.
-/

namespace ShadowMount.FakelibCache

open Foundation

variable {name t : Text} {a b : Option Node} {w : World} {st : FakelibCache.Stat}

abbrev State := Machine World Call Fault

abbrev CallEvent := Event World Call Fault

namespace Entries

theorem find_put_self (name : Text) (node : Node) (entries : Entries) :
    (entries.put name node).find name = some node := by
  fun_induction put name node entries with
  | case1 => simp [find]
  | case2 old rest => simp [find]
  | case3 n old rest hne ih => simp [find, hne, ih]

theorem find_put_other {other : Text} (h : other ≠ name) (node : Node) (entries : Entries) :
    (entries.put name node).find other = entries.find other := by
  fun_induction put name node entries with
  | case1 => simp [find, h.symm]
  | case2 old rest => simp [find, h.symm]
  | case3 n old rest hne ih => simp [find, ih]

theorem find_erase_self (name : Text) (entries : Entries) :
    (entries.erase name).find name = none := by
  fun_induction erase name entries with
  | case1 => rfl
  | case2 node rest ih => exact ih
  | case3 n node rest hne ih => simp [find, hne, ih]

theorem find_erase_other {other : Text} (h : other ≠ name) (entries : Entries) :
    (entries.erase name).find other = entries.find other := by
  fun_induction erase name entries with
  | case1 => rfl
  | case2 node rest ih => simp [find, h.symm, ih]
  | case3 n node rest hne ih => simp [find, ih]

end Entries

/-- What is left of an entry when something below a directory is taken away. -/
theorem child_eraseAt (name : Text) (path : Path) (node : Option Node) (k : Text) :
    Node.child k (eraseAt (name :: path) node) =
      if k = name then eraseAt path (Node.child name node) else Node.child k node := by
  have hmissing : eraseAt path none = none := by
    cases path <;> rfl
  rcases node with _ | (_ | ⟨st, entries⟩ | _)
  case some.dir =>
    rw [eraseAt]
    by_cases hk : k = name
    · subst hk
      cases hnode : eraseAt path (entries.find k) with
      | none => simp [Node.child, Node.entries?, Entries.find_erase_self, hnode]
      | some new => simp [Node.child, Node.entries?, Entries.find_put_self, hnode]
    · cases eraseAt path (entries.find name) with
      | none => simp [Node.child, Node.entries?, Entries.find_erase_other hk, hk]
      | some new => simp [Node.child, Node.entries?, Entries.find_put_other hk, hk]
  all_goals simp [eraseAt, Node.child, Node.entries?, hmissing]

/-- The manifest of a cache, if it can be read. -/
def manifestOf (root : Option Node) : Option Manifest := (readManifest root).map Prod.fst

theorem readManifest_congr (h : Node.child manifestName a = Node.child manifestName b) :
    readManifest a = readManifest b := by
  unfold readManifest
  rw [h]

theorem manifestOf_congr (h : Node.child manifestName a = Node.child manifestName b) :
    manifestOf a = manifestOf b := by
  unfold manifestOf
  rw [readManifest_congr h]

theorem manifestOf_eq_none {root : Option Node}
    (h : Node.regular? (Node.child manifestName root) = none) : manifestOf root = none := by
  unfold manifestOf readManifest
  split
  · rename_i heq
    rw [heq] at h
    cases h
  · rfl

theorem fakelibEntries_congr (h : Node.child fakelibName a = Node.child fakelibName b) :
    fakelibEntries a = fakelibEntries b := by
  unfold fakelibEntries
  rw [h]

theorem fakelibName_ne_manifestName : fakelibName ≠ manifestName := by decide

/-- The calls that only ask for something. -/
def Call.isProbe : Call → Bool
  | .guard | .askProtected | .lookRoot | .other => true
  | _ => false

/-- What the calls do, other than the rename of a temporary cache. -/
inductive Effect (w : World) : CallEvent → Prop where
  | probe {c : Call} (hc : c.isProbe = true) (error : Option Fault) : Effect w ⟨c, error, w⟩
  | failed (c : Call) (e : Fault) : Effect w ⟨c, some e, w⟩
  | deleted (path : Path) : Effect w ⟨.delete path, none, w.erase path⟩
  | unlinked (titleId : Text) :
      Effect w ⟨.unlinkManifest titleId, none, w.erase [titleId, manifestName]⟩
  | kept {titleId : Text} {st : FakelibCache.Stat} {entries : Entries}
      (h : w.node [titleId, manifestName] = some (.dir st entries)) :
      Effect w ⟨.unlinkManifest titleId, none, w⟩
  | temporary (titleId : Text) (node : Option Node) (error : Option Fault) :
      Effect w ⟨.other, error, w.setCache (tempName titleId) node⟩
  | touched {titleId : Text} {st : FakelibCache.Stat} {content : Content}
      (h : w.node [titleId, manifestName] = some (.file st content)) (now : Nat) :
      Effect w ⟨.other, none,
        w.putEntry titleId manifestName (.file { st with mtimeSec := now } content)⟩
  | source (path : Text) (node : Option Node) : Effect w ⟨.guard, none, w.setSource path node⟩

/-- Something below the fakelib directory of a title was deleted. -/
def deletesBelow (t : Text) (e : CallEvent) : Bool :=
  e.error.isNone &&
    match e.call with
    | .delete (t' :: name :: _ :: _) => t' = t && name = fakelibName
    | _ => false

/-- The manifest of a title or its fakelib directory was deleted. -/
def invalidates (t : Text) (e : CallEvent) : Bool :=
  e.error.isNone &&
    match e.call with
    | .unlinkManifest t' => t' = t
    | .delete [t', name] => t' = t && (name = manifestName || name = fakelibName)
    | _ => false

/-- What a call leaves of the cache of a title. -/
structure Quiet (t : Text) (w : World) (e : CallEvent) : Prop where
  manifest : manifestOf (e.world.cache t) = manifestOf (w.cache t) ∨
    manifestOf (e.world.cache t) = none
  entries : fakelibEntries (e.world.cache t) = fakelibEntries (w.cache t) ∨
    fakelibEntries (e.world.cache t) = none ∨ deletesBelow t e = true
  gone : fakelibEntries (w.cache t) = none → fakelibEntries (e.world.cache t) = none
  invalidated : invalidates t e = true →
    manifestOf (e.world.cache t) = none ∨ fakelibEntries (e.world.cache t) = none

variable {e : CallEvent}

theorem Quiet.of_same (h : e.world.cache t = w.cache t)
    (hvalid : invalidates t e = true → manifestOf (w.cache t) = none) : Quiet t w e where
  manifest := .inl (by rw [h])
  entries := .inl (by rw [h])
  gone hgone := by
    rw [h]
    exact hgone
  invalidated he := by
    rw [h]
    exact .inl (hvalid he)

theorem World.cache_erase_other (h : t ≠ name) (w : World) (path : Path) :
    (w.erase (name :: path)).cache t = w.cache t := by
  simp [World.erase, World.setCache, h]

theorem World.cache_erase_self (w : World) (t : Text) (path : Path) :
    (w.erase (t :: path)).cache t = eraseAt path (w.cache t) := by
  simp [World.erase, World.setCache]

theorem eraseAt_cons_cases (name : Text) (path : Path) (node : Option Node) :
    eraseAt (name :: path) node = node ∨
      Node.regular? (eraseAt (name :: path) node) = none ∧ (Node.entries? node).isSome := by
  rcases node with _ | (_ | ⟨st, entries⟩ | _)
  case some.dir =>
    refine .inr ⟨?_, rfl⟩
    rw [eraseAt]
    split <;> rfl
  all_goals exact .inl rfl

/-- To delete an entry of a title leaves no stale cache. -/
theorem quiet_deleted_entry (t : Text) (w : World) (c : Call) (name : Text) (path : Path)
    (hbelow : path ≠ [] → name = fakelibName →
      deletesBelow t ⟨c, none, w.erase (t :: name :: path)⟩ = true)
    (hvalid : invalidates t ⟨c, none, w.erase (t :: name :: path)⟩ = true →
      path = [] ∧ (name = manifestName ∨ name = fakelibName)) :
    Quiet t w ⟨c, none, w.erase (t :: name :: path)⟩ := by
  have hchild : ∀ k, Node.child k ((w.erase (t :: name :: path)).cache t) =
      if k = name then eraseAt path (Node.child name (w.cache t))
      else Node.child k (w.cache t) := by
    intro k
    rw [World.cache_erase_self, child_eraseAt]
  have hgone : path = [] → Node.child name ((w.erase (t :: name :: path)).cache t) = none := by
    rintro rfl
    rw [hchild, if_pos rfl]
    rfl
  refine ⟨?_, ?_, ?_, ?_⟩
  · by_cases hname : manifestName = name
    · subst hname
      cases path with
      | nil => exact .inr (manifestOf_eq_none (by rw [hgone rfl]; rfl))
      | cons x rest =>
        have hself := hchild manifestName
        rw [if_pos rfl] at hself
        rcases eraseAt_cons_cases x rest (Node.child manifestName (w.cache t)) with
          hsame | ⟨hdir, -⟩
        · exact .inl (manifestOf_congr (hself.trans hsame))
        · exact .inr (manifestOf_eq_none (by rw [hself]; exact hdir))
    · exact .inl (manifestOf_congr (by rw [hchild, if_neg hname]))
  · by_cases hname : fakelibName = name
    · subst hname
      cases path with
      | nil => exact .inr (.inl (by unfold fakelibEntries; rw [hgone rfl]; rfl))
      | cons x rest => exact .inr (.inr (hbelow (List.cons_ne_nil _ _) rfl))
    · exact .inl (fakelibEntries_congr (by rw [hchild, if_neg hname]))
  · intro hnone
    by_cases hname : fakelibName = name
    · subst hname
      unfold fakelibEntries at hnone ⊢
      have hself := hchild fakelibName
      rw [if_pos rfl] at hself
      rw [hself]
      cases path with
      | nil => rfl
      | cons x rest =>
        rcases eraseAt_cons_cases x rest (Node.child fakelibName (w.cache t)) with hsame | ⟨-, hdir⟩
        · rw [hsame]
          exact hnone
        · rw [hnone] at hdir
          cases hdir
    · exact (fakelibEntries_congr (by rw [hchild, if_neg hname])).trans hnone
  · intro he
    obtain ⟨hpath, rfl | rfl⟩ := hvalid he
    · exact .inl (manifestOf_eq_none (by rw [hgone hpath]; rfl))
    · exact .inr (by unfold fakelibEntries; rw [hgone hpath]; rfl)

/-- A deletion leaves no stale cache. -/
theorem quiet_deleted (t : Text) (w : World) (path : Path) :
    Quiet t w ⟨.delete path, none, w.erase path⟩ := by
  rcases path with _ | ⟨name, _ | ⟨entry, rest⟩⟩
  · exact Quiet.of_same rfl nofun
  · by_cases hname : t = name
    · subst hname
      have hcache : (w.erase [t]).cache t = none := by
        rw [World.cache_erase_self]
        rfl
      have hmanifest : manifestOf ((w.erase [t]).cache t) = none := by
        rw [hcache]
        rfl
      have hentries : fakelibEntries ((w.erase [t]).cache t) = none := by
        rw [hcache]
        rfl
      exact ⟨.inr hmanifest, .inr (.inl hentries), fun _ => hentries, fun _ => .inl hmanifest⟩
    · exact Quiet.of_same (World.cache_erase_other hname w _) nofun
  · by_cases hname : t = name
    · subst hname
      refine quiet_deleted_entry t w _ entry rest ?_ ?_
      · intro hrest hentry
        obtain ⟨x, rest, rfl⟩ := List.exists_cons_of_ne_nil hrest
        simp [deletesBelow, hentry]
      · intro he
        cases rest with
        | nil => simpa [invalidates] using he
        | cons x rest => simp [invalidates] at he
    · refine Quiet.of_same (World.cache_erase_other hname w _) ?_
      intro he
      cases rest with
      | nil => simp [invalidates, Ne.symm hname] at he
      | cons x rest => simp [invalidates] at he

theorem tempName_ne (ht : isSupportedGameTitleId t = true) (titleId : Text) :
    t ≠ tempName titleId := by
  rintro rfl
  simp only [isSupportedGameTitleId, Bool.and_eq_true, decide_eq_true_eq, List.all_eq_true] at ht
  obtain ⟨⟨⟨hlength, -⟩, hdigits⟩, -⟩ := ht
  have hfive : titleId.length = 5 := by
    simp only [tempName, List.length_append] at hlength
    exact Nat.add_right_cancel (hlength : titleId.length + 4 = 5 + 4)
  have hdot : '.' ∈ (tempName titleId).drop 4 := by
    rw [tempName, List.drop_append_of_le_length (by omega)]
    exact List.mem_append_right _ (by decide)
  exact absurd (hdigits '.' hdot) (by decide)

theorem World.child_putEntry {entries : Entries} (hdir : w.cache name = some (.dir st entries))
    (entry : Text) (new : Node) (k : Text) :
    Node.child k ((w.putEntry name entry new).cache name) =
      if k = entry then some new else Node.child k (w.cache name) := by
  unfold World.putEntry
  rw [hdir]
  simp only [World.setCache, if_pos, Node.child, Node.entries?, Option.bind_some]
  split
  · rename_i heq
    rw [heq, Entries.find_put_self]
  · rename_i hne
    rw [Entries.find_put_other hne]

theorem World.cache_putEntry_other (h : t ≠ name) (w : World) (entry : Text) (new : Node) :
    (w.putEntry name entry new).cache t = w.cache t := by
  unfold World.putEntry
  split
  · simp [World.setCache, h]
  · rfl

theorem manifestOf_touch {st' : FakelibCache.Stat} {content : Content}
    (ha : Node.child manifestName a = some (.file st content))
    (hb : Node.child manifestName b = some (.file st' content)) : manifestOf b = manifestOf a := by
  unfold manifestOf readManifest
  rw [ha, hb]
  cases content with
  | bytes data => rfl
  | manifest m =>
    simp only
    split <;> rfl

/-- A touched manifest is still that of its cache. -/
theorem quiet_touched (t : Text) {titleId : Text} {content : Content}
    (h : w.node [titleId, manifestName] = some (.file st content)) (now : Nat) :
    Quiet t w ⟨.other, none,
      w.putEntry titleId manifestName (.file { st with mtimeSec := now } content)⟩ := by
  by_cases hname : t = titleId
  · subst hname
    have hchild : Node.child manifestName (w.cache t) = some (.file st content) := h
    obtain ⟨st', entries, hdir⟩ : ∃ st' entries, w.cache t = some (.dir st' entries) := by
      rcases hnode : w.cache t with _ | (_ | ⟨st', entries⟩ | _)
      case some.dir => exact ⟨st', entries, rfl⟩
      all_goals
        rw [hnode] at hchild
        cases hchild
    have hput := World.child_putEntry hdir manifestName (.file { st with mtimeSec := now } content)
    have hmanifest := manifestOf_touch hchild ((hput manifestName).trans (if_pos rfl))
    have hentries := fakelibEntries_congr
      ((hput fakelibName).trans (if_neg fakelibName_ne_manifestName))
    exact ⟨.inl hmanifest, .inl hentries, fun hnone => hentries.trans hnone,
      nofun⟩
  · exact Quiet.of_same (World.cache_putEntry_other hname w _ _) nofun

/-- Every call leaves the manifest and the entries of a title or takes them away, unless it
deletes something below the fakelib directory. -/
theorem Effect.quiet (ht : isSupportedGameTitleId t = true) (h : Effect w e) : Quiet t w e := by
  cases h with
  | probe hc error =>
    refine Quiet.of_same rfl ?_
    intro he
    rename_i c
    cases c <;> simp [invalidates, Call.isProbe] at he hc
  | failed c e => exact Quiet.of_same rfl (by intro he; simp [invalidates] at he)
  | deleted path => exact quiet_deleted t w path
  | unlinked titleId =>
    by_cases hname : t = titleId
    · subst hname
      exact quiet_deleted_entry t w _ manifestName [] (fun h => absurd rfl h)
        fun _ => ⟨rfl, .inl rfl⟩
    · refine Quiet.of_same (World.cache_erase_other hname w _) ?_
      intro he
      simp [invalidates, Ne.symm hname] at he
  | @kept titleId st entries h =>
    refine Quiet.of_same rfl ?_
    intro he
    have hname : titleId = t := by simpa [invalidates] using he
    subst hname
    exact manifestOf_eq_none (by rw [show Node.child manifestName _ = _ from h]; rfl)
  | temporary titleId node error =>
    refine Quiet.of_same ?_ (by intro he; simp [invalidates] at he)
    simp [World.setCache, tempName_ne ht titleId]
  | touched h now => exact quiet_touched t h now
  | source path node => exact Quiet.of_same rfl nofun

theorem Effect.builds (h : Effect w e) : e.world.builds = w.builds := by
  cases h with
  | deleted path => cases path <;> rfl
  | touched h now =>
    simp only [World.putEntry]
    split <;> rfl
  | probe | failed | unlinked | kept | temporary | source => rfl

/-- What is left of the cache of a title after some calls. -/
structure Traced (t : Text) (start : World) (log : Log) (w : World) : Prop where
  builds : w.builds = start.builds
  manifest : manifestOf (w.cache t) = manifestOf (start.cache t) ∨ manifestOf (w.cache t) = none
  entries : fakelibEntries (w.cache t) = fakelibEntries (start.cache t) ∨
    fakelibEntries (w.cache t) = none ∨ log.any (deletesBelow t) = true
  invalidated : log.any (invalidates t) = true →
    manifestOf (w.cache t) = none ∨ fakelibEntries (w.cache t) = none

theorem Traced.start (t : Text) (w : World) : Traced t w [] w where
  builds := rfl
  manifest := .inl rfl
  entries := .inl rfl
  invalidated h := by cases h

/-- One call extends the trace. -/
theorem Traced.call (ht : isSupportedGameTitleId t = true) {start : World} {log : Log}
    (h : Traced t start log w) (he : Effect w e) : Traced t start (e :: log) e.world := by
  have hquiet := he.quiet ht
  have hkept : manifestOf (w.cache t) = none → manifestOf (e.world.cache t) = none := by
    intro hnone
    rcases hquiet.manifest with hsame | hgone
    · rw [hsame, hnone]
    · exact hgone
  refine ⟨he.builds.trans h.builds, ?_, ?_, ?_⟩
  · rcases hquiet.manifest with hsame | hgone
    · rw [hsame]
      exact h.manifest
    · exact .inr hgone
  · rw [List.any_cons]
    rcases hquiet.entries with hsame | hgone | hbelow
    · rcases h.entries with hstart | hnone | hlog
      · exact .inl (hsame.trans hstart)
      · exact .inr (.inl (hsame.trans hnone))
      · exact .inr (.inr (by rw [hlog, Bool.or_true]))
    · exact .inr (.inl hgone)
    · exact .inr (.inr (by rw [hbelow, Bool.true_or]))
  · intro hany
    rw [List.any_cons, Bool.or_eq_true] at hany
    rcases hany with hnow | hbefore
    · exact hquiet.invalidated hnow
    · exact (h.invalidated hbefore).imp hkept hquiet.gone

/-- What a sequence of calls leaves of a cache. -/
theorem traced_of_calls (ht : isSupportedGameTitleId t = true) {m m' : State}
    (h : Calls Effect m m') (hlog : m.log = []) : Traced t m.world m'.log m'.world := by
  refine Calls.invariant (Traced t m.world) h ?_ fun _ _ _ hw he => hw.call ht he
  rw [hlog]
  exact Traced.start t m.world

/-- A cache holds a published build: the manifest is the one of the build, and the directory
its result. -/
structure Holds (b : Build) (m : Manifest) (entries : Entries) : Prop where
  manifest : b.manifest = m
  result : m.build b.sources = some entries
  signatures : m.recipe.manifest b.sources = some m

/-- If the cache of a title has a manifest and a directory, they are those of a build. -/
def Honest (t : Text) (w : World) : Prop :=
  ∀ m entries, manifestOf (w.cache t) = some m → fakelibEntries (w.cache t) = some entries →
    ∃ b ∈ w.builds, Holds b m entries

theorem Honest.of_missing (h : manifestOf (w.cache t) = none ∨ fakelibEntries (w.cache t) = none) :
    Honest t w := by
  intro m entries hm hentries
  rcases h with hnone | hnone
  · rw [hnone] at hm
    cases hm
  · rw [hnone] at hentries
    cases hentries

/-- What was deleted below the fakelib directory of a title went together with the manifest
or the directory. -/
def Intact (t : Text) (log : Log) : Prop :=
  log.any (deletesBelow t) = true → log.any (invalidates t) = true

instance (t : Text) (log : Log) : Decidable (Intact t log) :=
  inferInstanceAs (Decidable (_ → _))

/-- A cache that holds the build its manifest tells of still does after calls that leave it
intact. -/
theorem Traced.honest {start : World} {log : Log} (h : Traced t start log w)
    (hintact : Intact t log) (hstart : Honest t start) : Honest t w := by
  rcases h.entries with hentries | hnone | hbelow
  · rcases h.manifest with hmanifest | hnone
    · intro m entries hm he
      rw [h.builds]
      exact hstart m entries (hmanifest ▸ hm) (hentries ▸ he)
    · exact Honest.of_missing (.inl hnone)
  · exact Honest.of_missing (.inr hnone)
  · exact Honest.of_missing (h.invalidated (hintact hbelow))

end ShadowMount.FakelibCache
