import ShadowMount.Smb.Address

/-!
# Addresses below one another

An accepted address lies below the base directory of its connection, and
{lit}`sm_smb_path_within` compares the directories that two addresses are resolved to.  Two
connections may lead to one share, so the comparison is about directories of servers and not
about connections; servers, shares and components are compared without letter case.

Main results:

- Theorem {lit}`addresses_stay_inside`: the accepted addresses of loaded connections and their
  comparison.
- Theorem {lit}`pathWithin_across_connections`: addresses of different connections, one below the
  other.
-/

namespace ShadowMount.Smb

open Foundation SmbConfig

variable {s : Config.RuntimeState} {name path root : Text} {c : Connection} {a b : Resolved}

/-- The connections in memory are those of a document that was accepted. -/
def Loaded (s : Config.RuntimeState) : Prop :=
  ∃ d, Config.readSmbConnections d = some s.smb

theorem Loaded.connection (h : Loaded s) (hget : configSmbGet s name = some c) :
    validate c = true ∧ fold name = fold c.name := by
  obtain ⟨d, hread⟩ := h
  have hnamed : connectionNamed d name = some c := by
    rw [← (reads_of_readSmbConnections hread).named name]
    exact hget
  obtain ⟨sect, -, hsect⟩ := Option.bind_eq_some_iff.mp hnamed
  have hsame : sameNoCase name c.name = true :=
    @List.find?_some _ (fun c : Connection => sameNoCase name c.name) _ _ hget
  refine ⟨?_, sameNoCase_iff.mp hsame⟩
  unfold Config.readSmbConnection at hsect
  split at hsect
  · cases hsect
  · dsimp only at hsect
    split at hsect
    · split at hsect
      · rename_i hvalid
        cases hsect
        exact hvalid
      · cases hsect
    · cases hsect

theorem eq_of_fold_eq {a b : Text} (hb : ∀ c ∈ b, c.isAlpha = false) (h : fold a = fold b) :
    a = b := by
  induction b generalizing a with
  | nil => simpa [fold] using h
  | cons d b ih =>
    cases a with
    | nil => simp [fold] at h
    | cons c a =>
      simp only [fold, List.map_cons, List.cons.injEq] at h
      have hd := hb d List.mem_cons_self
      rw [(toLower_eq_iff hd).mp (h.1.trans ((toLower_eq_iff hd).mpr rfl)),
        ih (fun c hc => hb c (List.mem_cons_of_mem _ hc)) h.2]

theorem Loaded.isPlainComponent (h : Loaded s) (hget : configSmbGet s name = some c) :
    isPlainComponent name = true := by
  obtain ⟨hvalid, hfold⟩ := h.connection hget
  have hname : c.name ≠ [] ∧ c.name ≠ ".".toList ∧ c.name ≠ "..".toList := by
    simp only [validate, validateName, Bool.and_eq_true, decide_eq_true_eq] at hvalid
    exact ⟨hvalid.1.1.1.2.1.1.1.1.1.2, hvalid.1.1.1.2.1.1.1.1.2, hvalid.1.1.1.2.1.1.1.2⟩
  have hother : ∀ dots : Text, (∀ ch ∈ dots, ch.isAlpha = false) → c.name ≠ dots → name ≠ dots := by
    intro dots hdots hne hdot
    rw [hdot] at hfold
    exact hne (eq_of_fold_eq hdots hfold.symm)
  simp only [Smb.isPlainComponent, Bool.and_eq_true, decide_eq_true_eq]
  refine ⟨⟨hother _ ?_ hname.1, hother _ ?_ hname.2.1⟩, hother _ ?_ hname.2.2⟩
  all_goals simp

/-- The address `path` lies inside the connection: it is the name of the connection followed by
the components `inner`, and it is resolved to these components below the directory of the
connection.  The rebuilt path is the address without its last slash.  No component is empty or a dot
entry. -/
structure Inside (s : Config.RuntimeState) (path : Text) (a : Resolved) (name : Text)
    (inner : List Text) (c : Connection) : Prop where
  connection : configSmbGet s name = some c
  active : c.active = true
  scheme : Smb.scheme <+: path
  segments : Smb.segments (path.drop 6) = name :: inner
  rebuilt : a.path = dropTrailingSlash path
  directory : ∃ server base, Smb.segments (c.path.drop 6) = server :: a.share :: base ∧
    a.server = fold server ∧ components '/' a.relative = base ++ inner
  plainPath : ∀ component ∈ name :: inner, isPlainComponent component = true
  plainRelative : ∀ component ∈ components '/' a.relative, isPlainComponent component = true

/-- An accepted address lies inside of its connection. -/
theorem inside_of_parseAddress (h : Loaded s) (ha : parseAddress s path = some a) :
    (∃ name inner c, Inside s path a name inner c) ∧ parseAddress s a.path = some a := by
  obtain ⟨name, rest, c, hresolves, below, rfl, hinput⟩ := exists_resolves ha
  refine ⟨⟨name, components '/' rest, c, ?_⟩, parseAddress_path hresolves⟩
  obtain ⟨hconnection, hactive, ⟨hne, hname, -⟩, hsafe, hbare, ⟨base, hbase, hbelow⟩, hpath,
    -, -⟩ := hresolves
  obtain ⟨server, hserver, hdirectory⟩ := segments_baseAddress hbase
  obtain ⟨-, hsafeBase, -⟩ := baseAddress_eq_some hbase
  have hrelative :
      components '/' a.relative = components '/' base.relative ++ components '/' rest := by
    rw [hbelow]
    exact components_join '/' base.relative rest
  have hrest : ∀ component ∈ components '/' rest, isPlainComponent component = true := by
    rw [← segments_of_getLast hbare]
    exact (safeComponents_iff.mp hsafe).2.2
  refine ⟨hconnection, hactive, List.prefix_append _ _, ?_, ?_,
    ⟨server, components '/' base.relative, ?_, ?_, hrelative⟩, ?_, ?_⟩
  · have hdrop : (Smb.scheme ++ below).drop 6 = below := List.drop_left' rfl
    unfold Smb.segments
    rw [hdrop, hinput, components_join, components_single hne hname]
    rfl
  · have hbelowNe : below ≠ [] := by
      rintro rfl
      simp [dropTrailingSlash_nil, join, hne] at hinput
    rw [hpath, dropTrailingSlash_append hbelowNe, hinput]
  · rw [hdirectory, hbelow]
  · rw [hbelow]
    exact hserver
  · intro component hcomponent
    rcases List.mem_cons.mp hcomponent with rfl | hcomponent
    · exact h.isPlainComponent hconnection
    · exact hrest component hcomponent
  · rw [hrelative]
    intro component hcomponent
    rcases List.mem_append.mp hcomponent with hcomponent | hcomponent
    · refine (safeComponents_iff.mp hsafeBase).2.2 component ?_
      rw [hdirectory]
      exact List.mem_cons_of_mem _ (List.mem_cons_of_mem _ hcomponent)
    · exact hrest component hcomponent

/-- The directory of one address is, letter case aside, that of the other or lies below it. -/
def Below (a b : Resolved) : Prop :=
  fold a.server = fold b.server ∧ fold a.share = fold b.share ∧
    (components '/' b.relative).map fold <+: (components '/' a.relative).map fold

theorem Below.refl (a : Resolved) : Below a a := ⟨rfl, rfl, List.prefix_refl _⟩

theorem Below.trans {c : Resolved} (hab : Below a b) (hbc : Below b c) : Below a c :=
  ⟨hab.1.trans hbc.1, hab.2.1.trans hbc.2.1, hbc.2.2.trans hab.2.2⟩

/-- The comparison of relative paths, by components. -/
theorem within_relative_iff (relative root : Text) :
    (sameNoCase (relative.take root.length) root = true ∧
      (root = [] ∨ relative.drop root.length = [] ∨
        (relative.drop root.length).head? = some '/')) ↔
      (components '/' root).map fold <+: (components '/' relative).map fold := by
  have hlower : ∀ a : Char, a.toLower = Char.toLower '/' → a = '/' := fun a ha =>
    (toLower_eq_iff rfl).mp ha
  have hcomponents : ∀ path : Text,
      (components '/' path).map fold = components '/' (fold path) := fun path =>
    (components_map hlower path).symm
  rw [hcomponents, hcomponents, ← within_iff, sameNoCase_iff]
  have hsplit : fold relative =
      fold (relative.take root.length) ++ fold (relative.drop root.length) := by
    rw [← fold_append, List.take_append_drop]
  constructor
  · rintro ⟨htake, rfl | hdrop⟩
    · exact .inl rfl
    · refine .inr ⟨fold (relative.drop root.length), by rw [hsplit, htake], ?_⟩
      intro ch hch
      rcases hdrop with hnil | hhead
      · rw [hnil] at hch
        cases hch
      · simp only [fold, List.head?_map, hhead, Option.map_some, Option.mem_def,
          Option.some.injEq] at hch
        rw [← hch]
        rfl
  · rintro (hnil | ⟨tail, htail, hhead⟩)
    · have hroot : root = [] := by simpa [fold] using hnil
      subst hroot
      exact ⟨rfl, .inl rfl⟩
    · have hlength : (fold root).length ≤ (fold relative).length := by
        rw [htail, List.length_append]
        exact Nat.le_add_right _ _
      rw [length_fold, length_fold] at hlength
      obtain ⟨htake, hdrop⟩ := List.append_inj (hsplit.symm.trans htail)
        (by rw [length_fold, length_fold, List.length_take, Nat.min_eq_left hlength])
      refine ⟨htake, .inr ?_⟩
      cases hrest : relative.drop root.length with
      | nil => exact .inl rfl
      | cons ch rest =>
        refine .inr ?_
        rw [hrest] at hdrop
        have hch : ch.toLower = '/' := hhead _ (by rw [← hdrop]; rfl)
        rw [(toLower_eq_iff rfl).mp hch]
        rfl

theorem pathWithin_iff (ha : parseAddress s path = some a) (hb : parseAddress s root = some b) :
    pathWithin s path root = true ↔ Below a b := by
  unfold pathWithin Below
  rw [ha, hb, ← within_relative_iff]
  simp only [Bool.and_eq_true, Bool.or_eq_true, decide_eq_true_eq, sameNoCase_iff, and_assoc,
    or_assoc]

theorem Inside.below_iff {name' : Text} {inner inner' : List Text}
    (ha : Inside s path a name inner c) (hb : Inside s root b name' inner' c) :
    Below a b ↔ inner'.map fold <+: inner.map fold := by
  obtain ⟨server, base, hdirectory, hserver, hrelative⟩ := ha.directory
  obtain ⟨server', base', hdirectory', hserver', hrelative'⟩ := hb.directory
  rw [hdirectory, List.cons.injEq, List.cons.injEq] at hdirectory'
  obtain ⟨rfl, hshare, rfl⟩ := hdirectory'
  unfold Below
  rw [hserver, hserver', hshare, hrelative, hrelative', List.map_append, List.map_append,
    List.prefix_append_right_inj]
  simp

theorem isSome_of_pathWithin (h : pathWithin s path root = true) :
    ∃ a b, parseAddress s path = some a ∧ parseAddress s root = some b := by
  unfold pathWithin at h
  split at h
  · rename_i a b ha hb
    exact ⟨a, b, ha, hb⟩
  · cases h

/-- Accepted addresses stay inside the connections that they name, their rebuilt paths are resolved
to the same addresses, and the comparison is the prefix relation on the directories they lead to. -/
theorem addresses_stay_inside {s : Config.RuntimeState} (h : Loaded s) :
    (∀ path a, parseAddress s path = some a →
      (∃ name inner c, Inside s path a name inner c) ∧ parseAddress s a.path = some a) ∧
    (∀ path root a b, parseAddress s path = some a → parseAddress s root = some b →
      (pathWithin s path root = true ↔ Below a b) ∧
      ∀ name inner name' inner' c, Inside s path a name inner c → Inside s root b name' inner' c →
        (pathWithin s path root = true ↔ inner'.map fold <+: inner.map fold)) ∧
    (∀ path, (parseAddress s path).isSome = true → pathWithin s path path = true) ∧
    ∀ p q r, pathWithin s p q = true → pathWithin s q r = true → pathWithin s p r = true := by
  refine ⟨fun path a ha => inside_of_parseAddress h ha, fun path root a b ha hb => ?_,
    fun path hsome => ?_, fun p q r hpq hqr => ?_⟩
  · refine ⟨pathWithin_iff ha hb, fun name inner name' inner' c hinside hinside' => ?_⟩
    rw [pathWithin_iff ha hb]
    exact hinside.below_iff hinside'
  · obtain ⟨a, ha⟩ := Option.isSome_iff_exists.mp hsome
    rw [pathWithin_iff ha ha]
    exact Below.refl a
  · obtain ⟨a, b, ha, hb⟩ := isSome_of_pathWithin hpq
    obtain ⟨-, c, -, hc⟩ := isSome_of_pathWithin hqr
    rw [pathWithin_iff ha hb] at hpq
    rw [pathWithin_iff hb hc] at hqr
    rw [pathWithin_iff ha hc]
    exact hpq.trans hqr

/-- A file with two connections, one to a directory of the other. -/
def twoNasFile : Text :=
  ("[config]\nversion = 2\n[smb:a]\npath = smb://h/s\n[smb:b]\npath = smb://h/s/d\n").toList

def nasDirectory : Connection := ⟨"b".toList, "smb://h/s/d".toList, [], [], true, false⟩

def nasRoot : Connection := ⟨"a".toList, "smb://h/s".toList, [], [], true, false⟩

/-- The defaults with the connections of the file. -/
def twoNasState : Config.RuntimeState :=
  { Config.initRuntimeConfigDefaults with smb := [nasRoot, nasDirectory] }

theorem loaded_twoNasState : Loaded twoNasState := by
  have hread : ((Ini.read false twoNasFile).bind Config.readSmbConnections) =
      some [nasRoot, nasDirectory] := by
    decide +kernel
  obtain ⟨d, -, hd⟩ := Option.bind_eq_some_iff.mp hread
  exact ⟨d, hd⟩

/-- What a path below the share is resolved to. -/
def nasAddress (path relative : String) : Resolved :=
  ⟨⟨"h".toList, "s".toList, relative.toList, [], [], [], false⟩, path.toList⟩

/-- An address with a last slash lies inside its connection, an address of the other connection lies
within it, and its sibling with a longer name does not. -/
theorem addresses_stay_inside_two :
    Loaded twoNasState ∧
      (∃ name inner c,
        Inside twoNasState "smb://A/d/".toList (nasAddress "smb://A/d" "d") name inner c) ∧
      parseAddress twoNasState "smb://A/d".toList = some (nasAddress "smb://A/d" "d") ∧
      pathWithin twoNasState "smb://b/x".toList "smb://A/d/".toList = true ∧
      ¬pathWithin twoNasState "smb://a/dx".toList "smb://A/d/".toList = true := by
  have hstay := addresses_stay_inside loaded_twoNasState
  have hdirectory : parseAddress twoNasState "smb://A/d/".toList =
      some (nasAddress "smb://A/d" "d") := by
    decide +kernel
  have hother : parseAddress twoNasState "smb://b/x".toList =
      some (nasAddress "smb://b/x" "d/x") := by
    decide +kernel
  have hsibling : parseAddress twoNasState "smb://a/dx".toList =
      some (nasAddress "smb://a/dx" "dx") := by
    decide +kernel
  obtain ⟨hinside, hagain⟩ := hstay.1 _ _ hdirectory
  have hbelow : Below (nasAddress "smb://b/x" "d/x") (nasAddress "smb://A/d" "d") := by
    unfold Below
    decide
  have hbeside : ¬Below (nasAddress "smb://a/dx" "dx") (nasAddress "smb://A/d" "d") := by
    unfold Below
    decide
  exact ⟨loaded_twoNasState, hinside, hagain, (hstay.2.1 _ _ _ _ hother hdirectory).1.mpr hbelow,
    (hstay.2.1 _ _ _ _ hsibling hdirectory).1.not.mpr hbeside⟩

/-- The addresses name one connection, and the components of the one begin with those of the
other. -/
def NamesBelow (s : Config.RuntimeState) (path root : Text) : Prop :=
  ∃ name inner name' inner', segments (path.drop 6) = name :: inner ∧
    segments (root.drop 6) = name' :: inner' ∧
    configSmbGet s name = configSmbGet s name' ∧ inner' <+: inner

theorem namesBelow_iff {name' : Text} {inner inner' : List Text}
    (hpath : segments (path.drop 6) = name :: inner)
    (hroot : segments (root.drop 6) = name' :: inner') :
    NamesBelow s path root ↔ configSmbGet s name = configSmbGet s name' ∧ inner' <+: inner := by
  constructor
  · rintro ⟨n, i, n', i', hn, hn', hsame, hbegins⟩
    obtain ⟨rfl, rfl⟩ := List.cons.inj (hpath.symm.trans hn)
    obtain ⟨rfl, rfl⟩ := List.cons.inj (hroot.symm.trans hn')
    exact ⟨hsame, hbegins⟩
  · rintro ⟨hsame, hbegins⟩
    exact ⟨name, inner, name', inner', hpath, hroot, hsame, hbegins⟩

/-- The address of one connection lies within the address of another one, and within one
connection two spellings of a directory lie within each other. -/
theorem pathWithin_across_connections :
    Loaded twoNasState ∧
      (parseAddress twoNasState "smb://b".toList = some (nasAddress "smb://b" "d") ∧
        parseAddress twoNasState "smb://a".toList = some (nasAddress "smb://a" "") ∧
        ¬ (pathWithin twoNasState "smb://b".toList "smb://a".toList = true ↔
          NamesBelow twoNasState "smb://b".toList "smb://a".toList)) ∧
      parseAddress twoNasState "smb://a/X".toList = some (nasAddress "smb://a/X" "X") ∧
      parseAddress twoNasState "smb://a/x".toList = some (nasAddress "smb://a/x" "x") ∧
      ¬ (pathWithin twoNasState "smb://a/X".toList "smb://a/x".toList = true ↔
        NamesBelow twoNasState "smb://a/X".toList "smb://a/x".toList) := by
  refine ⟨loaded_twoNasState, ⟨by decide +kernel, by decide +kernel, fun h => ?_⟩,
    by decide +kernel, by decide +kernel, fun h => ?_⟩
  · have hwithin : pathWithin twoNasState "smb://b".toList "smb://a".toList = true := by
      decide +kernel
    have hother : configSmbGet twoNasState "b".toList ≠ configSmbGet twoNasState "a".toList := by
      decide +kernel
    have hb : segments ("smb://b".toList.drop 6) = ["b".toList] := by decide
    have ha : segments ("smb://a".toList.drop 6) = ["a".toList] := by decide
    exact hother ((namesBelow_iff hb ha).mp (h.mp hwithin)).1
  · have hwithin : pathWithin twoNasState "smb://a/X".toList "smb://a/x".toList = true := by
      decide +kernel
    have hother : ¬ ["x".toList] <+: ["X".toList] := by decide
    have hX : segments ("smb://a/X".toList.drop 6) = ["a".toList, "X".toList] := by decide
    have hx : segments ("smb://a/x".toList.drop 6) = ["a".toList, "x".toList] := by decide
    exact hother ((namesBelow_iff hX hx).mp (h.mp hwithin)).2

end ShadowMount.Smb
