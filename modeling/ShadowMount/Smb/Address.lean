import ShadowMount.Foundation.Components
import ShadowMount.SmbConfig.Update

/-!
# SMB addresses

The paths {lit}`smb://name/…` of {lit}`sm_smb.c`.  An address names a connection of the
configuration and a path below the base directory of the connection;
{lit}`sm_smb_parse_address` resolves it, and {lit}`sm_smb_path_within` compares two of them.
-/

namespace ShadowMount.Smb

open Foundation SmbConfig

variable {path : Text} {c : Connection} {a : Address}

/-- `sm_smb_address_t` with the rebuilt path. -/
structure Resolved extends Address where
  path : Text
deriving DecidableEq

def scheme : Text := "smb://".toList

/-- `sm_smb_parse_address`; none for any of its errors. -/
def parseAddress (s : Config.RuntimeState) (path : Text) : Option Resolved :=
  if !(scheme.isPrefixOf path) || decide (maxPath ≤ path.length) then none
  else
    let (name, slash) := cut (· = '/') (path.drop 6)
    let rest := slash.drop 1
    if name = [] || decide (64 ≤ name.length) || !safeComponents rest then none
    else match configSmbGet s name with
      | none => none
      | some c =>
        if !c.active then none
        else match baseAddress c with
          | none => none
          | some a =>
            let relative :=
              a.relative ++ (if a.relative ≠ [] ∧ rest ≠ [] then ['/'] else []) ++ rest
            if maxPath ≤ relative.length then none
            else
              let rebuilt := scheme ++ name ++ (if rest ≠ [] then ['/'] else []) ++ rest
              if maxPath ≤ rebuilt.length then none
              else some { a with
                relative := dropTrailingSlash relative
                path := dropTrailingSlash rebuilt }

/-- `sm_smb_path_within`. -/
def pathWithin (s : Config.RuntimeState) (path root : Text) : Bool :=
  match parseAddress s path, parseAddress s root with
  | some a, some b =>
    sameNoCase a.server b.server && sameNoCase a.share b.share &&
      sameNoCase (a.relative.take b.relative.length) b.relative &&
      (b.relative = [] || a.relative.drop b.relative.length = [] ||
        (a.relative.drop b.relative.length).head? = some '/')
  | _, _ => false

/-- The components of a path whose last slash does not count. -/
def segments (path : Text) : List Text := components '/' (dropTrailingSlash path)

/-- The characters that `safe_components` lets through. -/
def isSafeChar (c : Char) : Bool := !isControl c && c ≠ '\\'

theorem dropTrailingSlash_nil : dropTrailingSlash [] = [] := rfl

@[simp]
theorem dropTrailingSlash_concat (path : Text) : dropTrailingSlash (path ++ ['/']) = path := by
  simp [dropTrailingSlash]

theorem dropTrailingSlash_eq_self (h : path.getLast? ≠ some '/') :
    dropTrailingSlash path = path := by
  unfold dropTrailingSlash
  rw [if_neg h]

theorem dropTrailingSlash_cases (path : Text) :
    (∃ body, path = body ++ ['/'] ∧ dropTrailingSlash path = body) ∨
      (path.getLast? ≠ some '/' ∧ dropTrailingSlash path = path) := by
  by_cases h : path.getLast? = some '/'
  · obtain ⟨body, rfl⟩ := List.getLast?_eq_some_iff.mp h
    exact Or.inl ⟨body, rfl, dropTrailingSlash_concat body⟩
  · exact Or.inr ⟨h, dropTrailingSlash_eq_self h⟩

theorem length_dropTrailingSlash_le (path : Text) :
    (dropTrailingSlash path).length ≤ path.length := by
  unfold dropTrailingSlash
  split
  · simp
  · exact Nat.le_refl _

theorem mem_of_mem_dropTrailingSlash {c : Char} (h : c ∈ dropTrailingSlash path) : c ∈ path := by
  unfold dropTrailingSlash at h
  split at h
  · exact List.mem_of_mem_dropLast h
  · exact h

theorem dropTrailingSlash_append {a b : Text} (hb : b ≠ []) :
    dropTrailingSlash (a ++ b) = a ++ dropTrailingSlash b := by
  unfold dropTrailingSlash
  rw [List.getLast?_append_of_ne_nil _ hb]
  split
  · exact List.dropLast_append_of_ne_nil hb
  · rfl

theorem splitOn_getLast_ne_nil (hne : path ≠ []) (hlast : path.getLast? ≠ some '/') :
    (path.splitOn '/').getLast? ≠ some [] := by
  intro h
  obtain ⟨front, hfront⟩ := List.getLast?_eq_some_iff.mp h
  have hpath : ['/'].intercalate (front ++ [[]]) = path := by
    rw [← hfront, List.intercalate_splitOn]
  by_cases hnil : front = []
  · rw [hnil] at hpath
    exact hne (by simpa using hpath.symm)
  · rw [intercalate_append hnil (by simp)] at hpath
    refine hlast ?_
    rw [← hpath]
    simp

/-- What `safe_components` accepts: every component is plain, apart from an empty one
behind the last slash. -/
theorem safeComponents_iff :
    safeComponents path = true ↔
      (∀ c ∈ path, isSafeChar c = true) ∧ path ≠ ['/'] ∧
        ∀ component ∈ segments path, isPlainComponent component = true := by
  unfold safeComponents segments
  rw [Bool.and_eq_true, Bool.and_eq_true, and_assoc, List.all_eq_true, List.all_eq_true]
  refine and_congr Iff.rfl ?_
  rcases dropTrailingSlash_cases path with ⟨body, rfl, hdrop⟩ | ⟨hlast, hdrop⟩
  · rw [hdrop, List.splitOn_append_cons_self]
    by_cases hbody : body = []
    · subst hbody
      simp [isPlainComponent]
    · rw [components_of_ne_nil hbody]
      simp [hbody]
  · rw [hdrop]
    by_cases hpath : path = []
    · subst hpath
      simp
    · have hslash : path ≠ ['/'] := by
        rintro rfl
        exact hlast rfl
      have hend := splitOn_getLast_ne_nil hpath hlast
      rw [components_of_ne_nil hpath]
      rcases List.eq_nil_or_concat (path.splitOn '/') with hnil | ⟨front, last, hsplit⟩
      · exact absurd hnil (List.splitOn_ne_nil _ _)
      · rw [hsplit] at hend ⊢
        simp only [List.concat_eq_append, List.getLast?_append, List.getLast?_singleton,
          Option.some_or, ne_eq, Option.some.injEq] at hend
        simp only [List.concat_eq_append, List.dropLast_concat, List.getLast?_append,
          List.getLast?_singleton, Option.some_or, hend, decide_false, Bool.false_or,
          List.mem_append, List.mem_singleton, or_imp, forall_and, forall_eq]
        simp [hslash]

theorem getLast_ne_slash
    (h : ∀ component ∈ components '/' path, isPlainComponent component = true) :
    path.getLast? ≠ some '/' := by
  intro hlast
  obtain ⟨body, rfl⟩ := List.getLast?_eq_some_iff.mp hlast
  have hempty : ([] : Text) ∈ components '/' (body ++ ['/']) := by
    rw [components_of_ne_nil (by simp), List.splitOn_append_cons_self]
    simp
  exact absurd (h [] hempty) (by decide)

theorem segments_of_getLast (h : path.getLast? ≠ some '/') :
    segments path = components '/' path := by
  unfold segments
  rw [dropTrailingSlash_eq_self h]

theorem safeComponents_dropTrailingSlash (h : safeComponents path = true) :
    safeComponents (dropTrailingSlash path) = true ∧
      (dropTrailingSlash path).getLast? ≠ some '/' := by
  obtain ⟨hchars, -, hplain⟩ := safeComponents_iff.mp h
  have hlast := getLast_ne_slash hplain
  refine ⟨safeComponents_iff.mpr ⟨fun c hc => hchars c (mem_of_mem_dropTrailingSlash hc), ?_, ?_⟩,
    hlast⟩
  · intro hslash
    rw [hslash] at hlast
    exact hlast rfl
  · rw [segments_of_getLast hlast]
    exact hplain

theorem dropTrailingSlash_join {a rest : Text} (ha : a.getLast? ≠ some '/')
    (hrest : rest ≠ ['/']) :
    dropTrailingSlash (join '/' a rest) = join '/' a (dropTrailingSlash rest) := by
  by_cases hnil : rest = []
  · subst hnil
    simp [join, dropTrailingSlash_eq_self ha, dropTrailingSlash_nil]
  · have hdrop : dropTrailingSlash rest ≠ [] := by
      rcases dropTrailingSlash_cases rest with ⟨body, rfl, hdrop⟩ | ⟨-, hdrop⟩
      · rw [hdrop]
        rintro rfl
        exact hrest rfl
      · rwa [hdrop]
    unfold join
    rw [dropTrailingSlash_append hnil]
    simp [hnil, hdrop]

/-- What `base_address` reads off the path of a connection. -/
theorem baseAddress_eq_some (h : baseAddress c = some a) :
    scheme <+: c.path ∧ safeComponents (c.path.drop 6) = true ∧
      ∃ server tail, c.path.drop 6 = server ++ '/' :: (a.share ++ tail) ∧ '/' ∉ server ∧
        '/' ∉ a.share ∧ server ≠ [] ∧ a.share ≠ [] ∧ (∀ ch ∈ tail.head?, ch = '/') ∧
        a.server = fold server ∧ a.relative = dropTrailingSlash (tail.drop 1) := by
  unfold baseAddress at h
  split at h
  · cases h
  · rename_i hpath
    simp only [Bool.or_eq_true, Bool.not_eq_true', not_or, Bool.not_eq_false] at hpath
    have hcut := cut_fst_append_snd (fun ch : Char => decide (ch = '/')) (c.path.drop 6)
    have hserver : '/' ∉ (cut (fun ch : Char => decide (ch = '/')) (c.path.drop 6)).1 :=
      fun hmem => by simpa using not_of_mem_cut_fst hmem
    have hhead := @cut_snd_head _ (fun ch : Char => decide (ch = '/')) (c.path.drop 6)
    revert hcut hserver hhead h
    generalize cut (fun ch : Char => decide (ch = '/')) (c.path.drop 6) = parts
    obtain ⟨server, share⟩ := parts
    intro h hcut hserver hhead
    dsimp only at h hcut hserver hhead
    cases share with
    | nil => cases h
    | cons slash share =>
      have hslash : slash = '/' := by simpa using hhead rfl
      subst hslash
      have hcut' := cut_fst_append_snd (fun ch : Char => decide (ch = '/')) share
      have hshare : '/' ∉ (cut (fun ch : Char => decide (ch = '/')) share).1 :=
        fun hmem => by simpa using not_of_mem_cut_fst hmem
      have hhead' := @cut_snd_head _ (fun ch : Char => decide (ch = '/')) share
      dsimp only at h
      revert hcut' hshare hhead' h
      generalize cut (fun ch : Char => decide (ch = '/')) share = parts
      obtain ⟨share', tail⟩ := parts
      intro h hcut' hshare hhead'
      dsimp only at h hcut' hshare hhead'
      have hresult : ∀ a : Address, a.server = fold server → a.share = share' →
          a.relative = dropTrailingSlash (tail.drop 1) → server ≠ [] → share' ≠ [] →
          scheme <+: c.path ∧ safeComponents (c.path.drop 6) = true ∧
            ∃ server tail, c.path.drop 6 = server ++ '/' :: (a.share ++ tail) ∧ '/' ∉ server ∧
              '/' ∉ a.share ∧ server ≠ [] ∧ a.share ≠ [] ∧ (∀ ch ∈ tail.head?, ch = '/') ∧
              a.server = fold server ∧ a.relative = dropTrailingSlash (tail.drop 1) := by
        intro a hserv hsh hrel hne hne'
        refine ⟨List.isPrefixOf_iff_prefix.mp hpath.1, hpath.2, server, tail, ?_, hserver, ?_,
          hne, ?_, ?_, hserv, hrel⟩
        · rw [hsh, hcut', hcut]
        · rwa [hsh]
        · rwa [hsh]
        · intro ch hch
          simpa using hhead' hch
      split at h
      · cases h
      · rename_i hne
        simp only [Bool.or_eq_true, decide_eq_true_eq, not_or] at hne
        split at h
        · cases h
        · split at h
          · cases h
          · split at h
            · cases h
            · rename_i hne'
              simp only [Bool.or_eq_true, decide_eq_true_eq, not_or] at hne'
              split at h
              · cases h
              · split at h
                · cases h
                  exact hresult _ rfl rfl rfl hne.1 hne'.1
                · split at h
                  · cases h
                  · cases h
                    exact hresult _ rfl rfl rfl hne.1 hne'.1

/-- The components of the base of a connection. -/
theorem segments_baseAddress (h : baseAddress c = some a) :
    ∃ server, a.server = fold server ∧
      segments (c.path.drop 6) = server :: a.share :: components '/' a.relative := by
  obtain ⟨-, hsafe, server, tail, hpath, hserver, hshare, hne, hne', hhead, hfold, hrelative⟩ :=
    baseAddress_eq_some h
  refine ⟨server, hfold, ?_⟩
  obtain ⟨-, -, hplain⟩ := safeComponents_iff.mp hsafe
  have hlast := getLast_ne_slash hplain
  have hshareLast : a.share.getLast? ≠ some '/' := by
    intro hend
    exact hshare (List.mem_of_getLast? hend)
  have hbelow : dropTrailingSlash (a.share ++ tail) = join '/' a.share a.relative := by
    rw [hrelative]
    cases tail with
    | nil => simp [join, dropTrailingSlash_eq_self hshareLast, dropTrailingSlash_nil]
    | cons slash rest =>
      have hslash : slash = '/' := hhead slash rfl
      subst hslash
      by_cases hnil : rest = []
      · subst hnil
        simp [join, dropTrailingSlash_nil]
      · have hrest : rest ≠ ['/'] := by
          rintro rfl
          refine hlast ?_
          have hsplit : server ++ '/' :: (a.share ++ ['/', '/']) =
              ((server ++ '/' :: a.share) ++ ['/']) ++ ['/'] := by simp
          rw [hpath, hsplit, dropTrailingSlash_concat, List.getLast?_concat]
        rw [List.drop_one, List.tail_cons, ← dropTrailingSlash_join hshareLast hrest]
        simp [join, hne', hnil]
  have hsplit : server ++ '/' :: (a.share ++ tail) = (server ++ ['/']) ++ (a.share ++ tail) := by
    simp
  have hjoin : join '/' a.share a.relative ≠ [] := by simp [join, hne']
  unfold segments
  rw [hpath, hsplit, dropTrailingSlash_append (by simp [hne']), hbelow, List.append_assoc,
    List.singleton_append, components_append_cons hne hjoin, components_single hne hserver,
    components_join, components_single hne' hshare]
  rfl

/-- The address `a` is the one of the path `rest` below the connection `c` of
the name `name`. -/
structure Resolves (s : Config.RuntimeState) (name rest : Text) (c : Connection)
    (a : Resolved) : Prop where
  connection : configSmbGet s name = some c
  active : c.active = true
  named : name ≠ [] ∧ '/' ∉ name ∧ name.length < 64
  safe : safeComponents rest = true
  bare : rest.getLast? ≠ some '/'
  base : ∃ base, baseAddress c = some base ∧
    a.toAddress = { base with relative := join '/' base.relative rest }
  path : a.path = scheme ++ join '/' name rest
  relativeShort : a.relative.length < maxPath
  pathShort : a.path.length < maxPath

theorem getLast_relative (h : baseAddress c = some a) : a.relative.getLast? ≠ some '/' := by
  obtain ⟨server, -, hsegments⟩ := segments_baseAddress h
  obtain ⟨-, hsafe, -⟩ := baseAddress_eq_some h
  obtain ⟨-, -, hplain⟩ := safeComponents_iff.mp hsafe
  refine getLast_ne_slash fun component hcomponent => hplain component ?_
  rw [hsegments]
  exact List.mem_cons_of_mem _ (List.mem_cons_of_mem _ hcomponent)

/-- An accepted address is resolved, and the rebuilt path is the address without its last slash. -/
theorem exists_resolves {s : Config.RuntimeState} {a : Resolved}
    (h : parseAddress s path = some a) :
    ∃ name rest c, Resolves s name rest c a ∧
      ∃ below, path = scheme ++ below ∧ dropTrailingSlash below = join '/' name rest := by
  unfold parseAddress at h
  split at h
  · cases h
  · rename_i haccepted
    simp only [Bool.or_eq_true, Bool.not_eq_true', not_or, Bool.not_eq_false] at haccepted
    obtain ⟨below, hbelow⟩ := List.isPrefixOf_iff_prefix.mp haccepted.1
    have hinput : path.drop 6 = below := by
      rw [← hbelow]
      exact List.drop_left' rfl
    have hwhole := cut_fst_append_snd (fun ch : Char => decide (ch = '/')) (path.drop 6)
    have hhead := @cut_snd_head _ (fun ch : Char => decide (ch = '/')) (path.drop 6)
    have hname : '/' ∉ (cut (fun ch : Char => decide (ch = '/')) (path.drop 6)).1 :=
      fun hmem => by simpa using not_of_mem_cut_fst hmem
    revert hwhole hhead hname h
    generalize cut (fun ch : Char => decide (ch = '/')) (path.drop 6) = parts
    obtain ⟨name, slash⟩ := parts
    intro h hwhole hhead hname
    dsimp only at h hname hhead hwhole
    rw [hinput] at hwhole
    have hslash : ∀ rest, slash.drop 1 = rest → slash = [] ∧ rest = [] ∨ slash = '/' :: rest := by
      rintro rest rfl
      cases slash with
      | nil => exact Or.inl ⟨rfl, rfl⟩
      | cons ch rest => exact Or.inr (by simpa using hhead rfl)
    generalize slash.drop 1 = rest at h hslash
    split at h
    · cases h
    · rename_i hparts
      simp only [Bool.or_eq_true, decide_eq_true_eq, Bool.not_eq_true', not_or, not_le,
        Bool.not_eq_false] at hparts
      obtain ⟨⟨hne, hshort⟩, hsafe⟩ := hparts
      split at h
      · cases h
      · rename_i c hconnection
        split at h
        · cases h
        · rename_i hactive
          split at h
          · cases h
          · rename_i base hbase
            have hjoined : base.relative ++
                (if base.relative ≠ [] ∧ rest ≠ [] then ['/'] else []) ++ rest =
                join '/' base.relative rest := rfl
            have hrebuilt : scheme ++ name ++ (if rest ≠ [] then ['/'] else []) ++ rest =
                scheme ++ join '/' name rest := by
              simp [join, hne]
            rw [hjoined, hrebuilt] at h
            split at h
            · cases h
            · rename_i hrelative
              split at h
              · cases h
              · rename_i hpath
                cases h
                have hrest : rest ≠ ['/'] := (safeComponents_iff.mp hsafe).2.1
                obtain ⟨hsafe', hbare⟩ := safeComponents_dropTrailingSlash hsafe
                have hnameLast : name.getLast? ≠ some '/' :=
                  fun hend => hname (List.mem_of_getLast? hend)
                have hjoin : join '/' name rest ≠ [] := by simp [join, hne]
                refine ⟨name, dropTrailingSlash rest, c, ⟨hconnection, by simpa using hactive,
                  ⟨hne, hname, hshort⟩, hsafe', hbare, ⟨base, hbase, ?_⟩, ?_, ?_, ?_⟩,
                  below, hbelow.symm, ?_⟩
                · show ({ base with relative := _ } : Address) = _
                  rw [dropTrailingSlash_join (getLast_relative hbase) hrest]
                · show dropTrailingSlash _ = _
                  rw [dropTrailingSlash_append hjoin,
                    dropTrailingSlash_join hnameLast hrest]
                · exact Nat.lt_of_le_of_lt (length_dropTrailingSlash_le _)
                    (Nat.lt_of_not_le hrelative)
                · exact Nat.lt_of_le_of_lt (length_dropTrailingSlash_le _)
                    (Nat.lt_of_not_le hpath)
                · rw [← hwhole]
                  rcases hslash rest rfl with ⟨rfl, rfl⟩ | rfl
                  · simp [join, dropTrailingSlash_eq_self hnameLast, dropTrailingSlash_nil]
                  · by_cases hnil : rest = []
                    · simp [hnil, join, dropTrailingSlash_nil]
                    · rw [← dropTrailingSlash_join hnameLast hrest]
                      simp [join, hne, hnil]

/-- The path of an address is parsed as that address. -/
theorem parseAddress_path {s : Config.RuntimeState} {name rest : Text} {a : Resolved}
    (h : Resolves s name rest c a) : parseAddress s a.path = some a := by
  obtain ⟨hconnection, hactive, ⟨hne, hname, hshort⟩, hsafe, hbare, ⟨base, hbase, ha⟩, hpath,
    hrelativeShort, hpathShort⟩ := h
  have hscheme : scheme.isPrefixOf a.path = true := by
    rw [List.isPrefixOf_iff_prefix, hpath]
    exact List.prefix_append _ _
  have hdrop : a.path.drop 6 = join '/' name rest := by
    rw [hpath]
    rfl
  have hcut : cut (fun ch : Char => decide (ch = '/')) (join '/' name rest) =
      (name, (if rest ≠ [] then ['/'] else []) ++ rest) := by
    have hjoin : join '/' name rest = name ++ ((if rest ≠ [] then ['/'] else []) ++ rest) := by
      simp [join, hne]
    rw [hjoin]
    refine cut_append (fun ch hch => ?_) (fun ch hch => ?_)
    · rw [decide_eq_false_iff_not]
      rintro rfl
      exact hname hch
    · by_cases hnil : rest = []
      · simp [hnil] at hch
      · simp only [ne_eq, hnil, not_false_eq_true, if_true, List.singleton_append,
          List.head?_cons, Option.mem_def, Option.some.injEq] at hch
        simp [← hch]
  have hslash : ((if rest ≠ [] then ['/'] else []) ++ rest).drop 1 = rest := by
    by_cases hnil : rest = []
    · simp [hnil]
    · simp [hnil]
  have hrest : rest ≠ ['/'] := (safeComponents_iff.mp hsafe).2.1
  have hrelative : base.relative ++ (if base.relative ≠ [] ∧ rest ≠ [] then ['/'] else []) ++ rest =
      a.relative := by
    rw [ha]
    rfl
  have hrebuilt : scheme ++ name ++ (if rest ≠ [] then ['/'] else []) ++ rest = a.path := by
    rw [hpath]
    simp [join, hne]
  have hrelativeDrop : dropTrailingSlash a.relative = a.relative := by
    rw [ha]
    show dropTrailingSlash (join '/' base.relative rest) = join '/' base.relative rest
    rw [dropTrailingSlash_join (getLast_relative hbase) hrest, dropTrailingSlash_eq_self hbare]
  have hpathDrop : dropTrailingSlash a.path = a.path := by
    have hnameLast : name.getLast? ≠ some '/' := fun hend => hname (List.mem_of_getLast? hend)
    have hjoin : join '/' name rest ≠ [] := by simp [join, hne]
    rw [hpath, dropTrailingSlash_append hjoin, dropTrailingSlash_join hnameLast hrest,
      dropTrailingSlash_eq_self hbare]
  unfold parseAddress
  rw [hscheme, decide_eq_false (Nat.not_le_of_lt hpathShort), hdrop, hcut]
  dsimp only
  rw [hslash, hconnection, hsafe, decide_eq_false (Nat.not_le_of_lt hshort)]
  simp only [hne, hactive, hbase, hrelative, hrebuilt, decide_false, Bool.not_true, Bool.or_false,
    Bool.false_eq_true, if_false, Nat.not_le_of_lt hrelativeShort, Nat.not_le_of_lt hpathShort,
    hrelativeDrop, hpathDrop]
  obtain ⟨address, path⟩ := a
  cases ha
  rfl

end ShadowMount.Smb
