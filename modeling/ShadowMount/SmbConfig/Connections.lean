import ShadowMount.Config.Flatten
import ShadowMount.Ini.Edits
import ShadowMount.Ini.RoundTrip
import ShadowMount.SmbConfig.Model

/-!
# Which connections a document holds

A connection is read from the first header of its section and from the settings of the
section.  This file reads the connections off a document by their names, and follows the
editing calls: each of them leaves the connections of other names alone.
-/

namespace ShadowMount.SmbConfig

open Foundation Ini Config

variable {d d' : Document} {l : Line} {name : Text}
variable {sect : Text}

/-- Is it the section of the connection? -/
def isSectionOf (name sect : Text) : Bool :=
  hasTag "smb:" sect && sameNoCase (sect.drop 4) name

/-- The connection of a name, as its first header and its settings tell. -/
def connectionNamed (d : Document) (name : Text) : Option Smb.Connection :=
  ((headers d).find? (isSectionOf name)).bind (readSmbConnection d)

theorem fold_smbSection (name : Text) : fold (smbSection name) = "smb:".toList ++ fold name := by
  unfold smbSection
  rw [fold_append]
  rfl

theorem fold_smbSection_inj {a b : Text} :
    fold (smbSection a) = fold (smbSection b) ↔ fold a = fold b := by
  rw [fold_smbSection, fold_smbSection]
  exact List.append_right_inj _

theorem fold_eq_smbSection_iff :
    fold sect = fold (smbSection name) ↔
      hasTag "smb:" sect = true ∧ fold (sect.drop 4) = fold name := by
  have hsplit : fold sect = fold (sect.take 4) ++ fold (sect.drop 4) := by
    rw [← fold_append, List.take_append_drop]
  have htag : hasTag "smb:" sect = true ↔ fold (sect.take 4) = "smb:".toList := by
    unfold hasTag
    rw [sameNoCase_iff]
    exact Iff.rfl
  rw [htag, fold_smbSection, hsplit]
  constructor
  · intro heq
    refine List.append_inj heq ?_
    have hlength := congrArg List.length heq
    simp only [List.length_append, length_fold, List.length_take] at hlength ⊢
    have : "smb:".toList.length = 4 := rfl
    by_cases hshort : sect.length ≤ 4
    · simp only [this] at hlength ⊢
      have hdrop : (sect.drop 4).length = 0 := by simp; omega
      omega
    · omega
  · rintro ⟨htake, hdrop⟩
    rw [htake, hdrop]

theorem isSectionOf_iff : isSectionOf name sect = true ↔ fold sect = fold (smbSection name) := by
  unfold isSectionOf
  rw [fold_eq_smbSection_iff]
  simp only [Bool.and_eq_true, sameNoCase_iff]

theorem readSmbConnection_name {c : Smb.Connection} (h : readSmbConnection d sect = some c) :
    c.name = sect.drop 4 := by
  unfold readSmbConnection at h
  split at h
  · cases h
  · dsimp only at h
    split at h
    · split at h
      · cases h
        rfl
      · cases h
    · cases h

/-- What the loop over the headers has found: at most sixteen connections with different
names, among them the first of every name. -/
structure Found (d rest : Document) (items result : List Smb.Connection) : Prop where
  count : result.length ≤ smbConnectionsMax
  distinct : result.Pairwise fun a b => fold a.name ≠ fold b.name
  named : ∀ name, (result.find? fun c => sameNoCase name c.name) =
    (items.find? fun c => sameNoCase name c.name).or
      (((headers rest).find? (isSectionOf name)).bind (readSmbConnection d))
  readable : ∀ name sect, (items.find? fun c => sameNoCase name c.name) = none →
    (headers rest).find? (isSectionOf name) = some sect →
    (readSmbConnection d sect).isSome = true

theorem Found.pass {d rest : Document} {l : Line} {items result : List Smb.Connection}
    (h : Found d rest items result)
    (hl : l.content = .header → ∀ name, isSectionOf name l.sect = true →
      (items.find? fun c => sameNoCase name c.name).isSome = true) :
    Found d (l :: rest) items result := by
  obtain ⟨hcount, hdistinct, hnamed, hreadable⟩ := h
  have hfind : ∀ name, (items.find? fun c => sameNoCase name c.name) = none →
      (headers (l :: rest)).find? (isSectionOf name) =
        (headers rest).find? (isSectionOf name) := by
    intro name hnone
    rw [headers_cons]
    split
    · rename_i hheader
      refine List.find?_cons_of_neg fun hown => ?_
      have hsome := hl hheader name hown
      rw [hnone] at hsome
      cases hsome
    · rfl
  refine ⟨hcount, hdistinct, fun name => ?_, fun name sect hnone h => ?_⟩
  · rw [hnamed]
    cases hitem : items.find? fun c => sameNoCase name c.name with
    | none => rw [hfind name hitem]
    | some c => rfl
  · rw [hfind name hnone] at h
    exact hreadable name sect hnone h

/-- A header met first is its connection's. -/
theorem Found.first {d rest : Document} {l : Line} {items result : List Smb.Connection}
    {c : Smb.Connection} (h : Found d rest (items ++ [c]) result) (hheader : l.content = .header)
    (htag : hasTag "smb:" l.sect = true) (hread : readSmbConnection d l.sect = some c) :
    Found d (l :: rest) items result := by
  obtain ⟨hcount, hdistinct, hnamed, hreadable⟩ := h
  have howner : ∀ name, isSectionOf name l.sect = sameNoCase name c.name := by
    intro name
    rw [Bool.eq_iff_iff, readSmbConnection_name hread, sameNoCase_iff]
    simp only [isSectionOf, htag, Bool.true_and, sameNoCase_iff]
    exact eq_comm
  have hsingle : ∀ name, ([c].find? fun a => sameNoCase name a.name) =
      if isSectionOf name l.sect = true then some c else none := by
    intro name
    rw [howner]
    by_cases hsame : sameNoCase name c.name = true
    · simp [hsame]
    · simp [hsame]
  refine ⟨hcount, hdistinct, fun name => ?_, fun name sect hnone hfind => ?_⟩
  · rw [hnamed, List.find?_append, hsingle, headers_cons, if_pos hheader, List.find?_cons,
      Option.or_assoc]
    by_cases hown : isSectionOf name l.sect = true
    · simp [hown, hread]
    · simp [hown]
  · rw [headers_cons, if_pos hheader, List.find?_cons] at hfind
    by_cases hown : isSectionOf name l.sect = true
    · rw [hown] at hfind
      cases hfind
      rw [hread]
      rfl
    · simp only [hown] at hfind
      refine hreadable name sect ?_ hfind
      rw [List.find?_append, hnone, hsingle, if_neg hown]
      rfl

/-- The connections that are read are those of the headers. -/
theorem found_readSmbLines (rest : Document) :
    ∀ items result : List Smb.Connection, readSmbLines d rest items = some result →
      items.length ≤ smbConnectionsMax →
      (items.Pairwise fun a b => fold a.name ≠ fold b.name) → Found d rest items result := by
  induction rest with
  | nil =>
    intro items result h hcount hdistinct
    cases h
    exact ⟨hcount, hdistinct, fun name => by simp, nofun⟩
  | cons l rest ih =>
    intro items result h hcount hdistinct
    unfold readSmbLines at h
    split at h
    · -- Not a header of a connection.
      rename_i hskip
      refine (ih items result h hcount hdistinct).pass fun hheader name hown => ?_
      simp only [isSectionOf, Bool.and_eq_true] at hown
      simp [hheader, hown.1] at hskip
    · rename_i hheader
      simp only [Bool.or_eq_true, decide_eq_true_eq, Bool.not_eq_true', not_or, not_not,
        Bool.not_eq_false] at hheader
      split at h
      · -- A later header of a connection that was found already.
        rename_i hseen
        obtain ⟨seen, hmem, hsame⟩ := List.any_eq_true.mp hseen
        refine (ih items result h hcount hdistinct).pass fun _ name hown => ?_
        simp only [isSectionOf, Bool.and_eq_true, sameNoCase_iff] at hown
        rw [List.find?_isSome]
        refine ⟨seen, hmem, ?_⟩
        rw [sameNoCase_iff] at hsame ⊢
        rw [← hown.2, hsame]
      · rename_i hnew
        split at h
        · cases h
        · rename_i hroom
          split at h
          · cases h
          · rename_i c hread
            have hfresh : ∀ a ∈ items, fold a.name ≠ fold c.name := by
              intro a ha hsame
              refine hnew (List.any_eq_true.mpr ⟨a, ha, ?_⟩)
              rw [sameNoCase_iff, ← readSmbConnection_name hread]
              exact hsame
            have hdistinct₁ : (items ++ [c]).Pairwise fun a b => fold a.name ≠ fold b.name := by
              rw [List.pairwise_append]
              refine ⟨hdistinct, List.pairwise_singleton _ _, fun a ha b hb => ?_⟩
              rw [List.mem_singleton.mp hb]
              exact hfresh a ha
            exact (ih (items ++ [c]) result h (by simp; omega) hdistinct₁).first hheader.1
              hheader.2 hread

/-- The connections of an accepted document: at most sixteen, with different names, and each
the one its first header tells. -/
structure Reads (d : Document) (smb : List Smb.Connection) : Prop where
  count : smb.length ≤ smbConnectionsMax
  distinct : smb.Pairwise fun a b => fold a.name ≠ fold b.name
  named : ∀ name, (smb.find? fun c => sameNoCase name c.name) = connectionNamed d name
  readable : ∀ name sect, (headers d).find? (isSectionOf name) = some sect →
    (readSmbConnection d sect).isSome = true

/-- The connections of an accepted document. -/
theorem reads_of_readSmbConnections {smb : List Smb.Connection}
    (h : readSmbConnections d = some smb) : Reads d smb := by
  obtain ⟨hcount, hdistinct, hnamed, hreadable⟩ :=
    found_readSmbLines d [] smb h (Nat.zero_le _) List.Pairwise.nil
  exact ⟨hcount, hdistinct, fun name => hnamed name, fun name sect => hreadable name sect rfl⟩

theorem get_congr {a b : Text} (h : fold a = fold b) (key : Text) : get d a key = get d b key := by
  rw [get_eq_entries, get_eq_entries, h]

/-- The connection of a name is kept: its first header and its settings. -/
structure SameConnection (name : Text) (d d' : Document) : Prop where
  header : (headers d').find? (isSectionOf name) = (headers d).find? (isSectionOf name)
  settings : ∀ key, get d' (smbSection name) key = get d (smbSection name) key

theorem readSmbConnection_congr (h : ∀ key, get d' sect key = get d sect key) :
    readSmbConnection d' sect = readSmbConnection d sect := by
  unfold readSmbConnection
  simp only [h]

/-- The loop over the headers looks at nothing else of the lines. -/
theorem readSmbLines_congr (hget : ∀ sect key, get d' sect key = get d sect key) :
    ∀ (rest rest' : Document) (items : List Smb.Connection), headers rest' = headers rest →
      readSmbLines d' rest' items = readSmbLines d rest items := by
  have hread : readSmbConnection d' = readSmbConnection d :=
    funext fun sect => readSmbConnection_congr (hget sect)
  -- Both loops are the one over the headers.
  have hheaders : ∀ (e rest : Document) (items : List Smb.Connection),
      readSmbLines e rest items =
        readSmbLines e ((headers rest).map fun sect => ⟨none, sect, .header, none⟩) items := by
    intro e rest
    induction rest with
    | nil => exact fun items => rfl
    | cons l rest ih =>
      intro items
      rw [headers_cons]
      by_cases hheader : l.content = .header
      · rw [if_pos hheader, List.map_cons]
        unfold readSmbLines
        simp only [hheader, ih]
      · rw [if_neg hheader, ← ih, readSmbLines]
        simp [hheader]
  intro rest rest' items heq
  rw [hheaders d' rest', hheaders d rest, heq]
  generalize (headers rest).map (fun sect => (⟨none, sect, .header, none⟩ : Line)) = lines
  induction lines generalizing items with
  | nil => rfl
  | cons l lines ih =>
    unfold readSmbLines
    simp only [hread, ih]

theorem SameConnection.connectionNamed (h : SameConnection name d d') :
    connectionNamed d' name = connectionNamed d name := by
  unfold SmbConfig.connectionNamed
  rw [h.header]
  cases hfind : (headers d).find? (isSectionOf name) with
  | none => rfl
  | some sect =>
    have hsect : fold sect = fold (smbSection name) := isSectionOf_iff.mp (List.find?_some hfind)
    refine readSmbConnection_congr fun key => ?_
    rw [get_congr hsect, get_congr hsect]
    exact h.settings key

theorem SameConnection.refl (name : Text) (d : Document) : SameConnection name d d :=
  ⟨rfl, fun _ => rfl⟩

theorem SameConnection.trans {d₁ d₂ d₃ : Document} (h₁ : SameConnection name d₁ d₂)
    (h₂ : SameConnection name d₂ d₃) : SameConnection name d₁ d₃ :=
  ⟨h₂.header.trans h₁.header, fun key => (h₂.settings key).trans (h₁.settings key)⟩

theorem headers_setLines (sect key : Text) (value : Option Text) (stored : Bool) (d : Document) :
    headers (setLines sect key value stored d).1 = headers d := by
  induction d generalizing stored with
  | nil => rfl
  | cons l d ih =>
    obtain ⟨hsect, hheader⟩ := setLine_shape sect key value stored l
    simp only [setLines]
    rw [headers_cons, headers_cons, ih, hsect]
    simp only [hheader]

theorem headers_set {key : Text} {value : Option Text} (h : set d sect key value = (d', true)) :
    headers d' = headers d ∨ headers d' = headers d ++ [sect] := by
  rcases set_cases h with ⟨rfl, -⟩ | ⟨v, -, -, happend⟩
  · exact Or.inl (headers_setLines _ _ _ _ _)
  · rw [← headers_setLines sect key value false d]
    obtain ⟨front, added, back, hbefore, rfl, hadded⟩ := append_cases happend
    rw [hbefore, headers_append, headers_append, headers_append]
    rcases hadded with rfl | ⟨rfl, rfl⟩
    · rw [headers_cons, headers_nil, if_neg (by simp), List.append_nil]
      exact Or.inl rfl
    · rw [headers_cons, headers_cons, headers_nil, if_pos rfl, if_neg (by simp), List.append_nil,
        List.append_nil]
      exact Or.inr rfl

theorem SameConnection.set {key : Text} {value : Option Text}
    (h : Ini.set d sect key value = (d', true)) (hother : fold sect ≠ fold (smbSection name)) :
    SameConnection name d d' := by
  refine ⟨?_, fun k => get_set_other h fun hpair => hother hpair.1.symm⟩
  rcases headers_set h with heq | heq
  · rw [heq]
  · have hsect : ¬ isSectionOf name sect = true := fun hown => hother (isSectionOf_iff.mp hown)
    rw [heq, List.find?_append, List.find?_cons_of_neg hsect]
    exact Option.or_none

theorem headers_rename (old new : Text) (d : Document) :
    headers (d.map (renameLine old new)) =
      (headers d).map fun sect => if sameNoCase sect old then new else sect := by
  induction d with
  | nil => rfl
  | cons l d ih =>
    obtain ⟨hsect, hcontent⟩ := renameLine_shape old new l
    rw [List.map_cons, headers_cons, headers_cons, ih, hsect, hcontent]
    split
    · rfl
    · rfl

theorem get_rename_other {old new : Text} (hold : fold sect ≠ fold old)
    (hnew : fold sect ≠ fold new) (key : Text) :
    get (d.map (renameLine old new)) sect key = get d sect key := by
  induction d with
  | nil => rfl
  | cons l d ih =>
    obtain ⟨hsect, hcontent⟩ := renameLine_shape old new l
    rw [List.map_cons, get_cons, get_cons, ih]
    congr 1
    unfold Line.valueFor
    rw [hcontent, hsect]
    cases l.content with
    | header => rfl
    | other => rfl
    | entry k v =>
      dsimp only
      by_cases hrenamed : sameNoCase l.sect old = true
      · have hl := sameNoCase_iff.mp hrenamed
        rw [if_pos hrenamed]
        simp only [sameNoCase, decide_eq_false hnew, hl, decide_eq_false hold]
      · rw [if_neg hrenamed]

/-- Renaming a section leaves other connections alone. -/
theorem SameConnection.rename {old new : Text} (hold : fold (smbSection name) ≠ fold old)
    (hnew : fold (smbSection name) ≠ fold new) :
    SameConnection name d (d.map (renameLine old new)) := by
  refine ⟨?_, get_rename_other hold hnew⟩
  rw [headers_rename, List.find?_map]
  have hsame : ∀ sect, isSectionOf name (if sameNoCase sect old then new else sect) =
      isSectionOf name sect := by
    intro sect
    split
    · rename_i hrenamed
      have hno : isSectionOf name new = false :=
        Bool.eq_false_iff.mpr fun h => hnew (isSectionOf_iff.mp h).symm
      have hno' : isSectionOf name sect = false := by
        refine Bool.eq_false_iff.mpr fun h => hold ?_
        rw [← isSectionOf_iff.mp h, sameNoCase_iff.mp hrenamed]
      rw [hno, hno']
    · rfl
  have hfun : (isSectionOf name ∘ fun sect => if sameNoCase sect old then new else sect) =
      isSectionOf name := funext hsame
  rw [hfun]
  cases hfind : (headers d).find? (isSectionOf name) with
  | none => rfl
  | some sect =>
    have hown := isSectionOf_iff.mp (List.find?_some hfind)
    have hkept : ¬ sameNoCase sect old = true := fun h =>
      hold (hown.symm.trans (sameNoCase_iff.mp h))
    rw [Option.map_some, if_neg hkept]

theorem headers_remove (sect : Text) (d : Document) :
    headers (removeSection d sect) = (headers d).filter fun s => !sameNoCase sect s := by
  unfold removeSection
  induction d with
  | nil => rfl
  | cons l d ih =>
    have hkept : ∀ d : Document, headers (if (!sameNoCase sect l.sect) = true then l :: d else d) =
        if l.content = .header ∧ sameNoCase sect l.sect = false then l.sect :: headers d
        else headers d := by
      intro d
      by_cases hremoved : sameNoCase sect l.sect = true
      · simp [hremoved]
      · simp [hremoved, headers_cons]
    rw [List.filter_cons, hkept, ih, headers_cons]
    by_cases hheader : l.content = .header
    · by_cases hremoved : sameNoCase sect l.sect = true
      · simp [hheader, hremoved]
      · simp [hheader, hremoved]
    · simp [hheader]

theorem get_remove_other {other : Text} (hother : fold other ≠ fold sect) (key : Text) :
    get (removeSection d sect) other key = get d other key := by
  unfold removeSection
  induction d with
  | nil => rfl
  | cons l d ih =>
    rw [List.filter_cons]
    split
    · rw [get_cons, get_cons, ih]
    · rename_i hremoved
      rw [get_cons, ih]
      have hl : fold sect = fold l.sect := by simpa [sameNoCase] using hremoved
      have hnone : l.valueFor other key = none := by
        refine Option.eq_none_iff_forall_ne_some.mpr fun v hv => ?_
        obtain ⟨k, -, hsect, -⟩ := valueFor_eq_some_iff.mp hv
        exact hother (hsect.trans hl.symm)
      rw [hnone, Option.or_none]

theorem SameConnection.remove (hother : fold (smbSection name) ≠ fold sect) :
    SameConnection name d (removeSection d sect) := by
  refine ⟨?_, get_remove_other hother⟩
  rw [headers_remove, List.find?_filter]
  congr 1
  funext s
  rw [Bool.eq_iff_iff]
  simp only [Bool.not_eq_true', decide_eq_true_eq]
  refine ⟨fun h => h.2, fun h => ⟨?_, h⟩⟩
  refine Bool.eq_false_iff.mpr fun hsame => hother ?_
  rw [← isSectionOf_iff.mp h, sameNoCase_iff.mp hsame]

end ShadowMount.SmbConfig
