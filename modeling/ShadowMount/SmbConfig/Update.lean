import ShadowMount.SmbConfig.Connections

/-!
# An update of the connections is a transaction

An update either fails and leaves the file and the connections in memory as they were, or it
stores the given connection, moves it from its previous name, leaves every other connection
alone, and the file that it leaves is read as the connections in memory.  Four slips break this.

- When the directory of the new file cannot be synchronised, the update reports a failure, but
  the new file is in place; the connections in memory are the old ones.
- A connection is renamed when the request gives two different names, whatever the name that is
  stored.  A stored header that differs from the given name in case only keeps its spelling.
- The header of a name that holds a bracket with a comment character behind it closes there when
  the file is read, so the connection is lost, and another one may get its settings.
- The limits of the reader are not those of the writer, so that the new file may be refused.

Main results:

- Theorem {lit}`configSmbUpdate_transactional`: an update is a transaction exactly when no
  slip occurs.
-/

namespace ShadowMount.SmbConfig

open Foundation Ini Config

variable {d d' main profiles : Document} {previous : Option Text} {c : Smb.Connection}
variable {connection : Option Smb.Connection} {f : Faults} {s s' : Store}
variable {name key v sect : Text}

theorem exists_header {current : Text} {l : Line} (hd : Consistent current d) (hl : l ∈ d) :
    fold l.sect = fold current ∨ ∃ sect ∈ headers d, fold sect = fold l.sect := by
  induction d generalizing current with
  | nil => cases hl
  | cons l' d ih =>
    rw [headers_cons]
    by_cases hheader : l'.content = .header
    · rw [if_pos hheader]
      rcases List.mem_cons.mp hl with rfl | hl
      · exact .inr ⟨l.sect, List.mem_cons_self, rfl⟩
      · rcases ih ((consistent_cons_header hheader).mp hd) hl with hsame | ⟨sect, hsect, hsame⟩
        · exact .inr ⟨l'.sect, List.mem_cons_self, hsame.symm⟩
        · exact .inr ⟨sect, List.mem_cons_of_mem _ hsect, hsame⟩
    · rw [if_neg hheader]
      obtain ⟨hcurrent, hrest⟩ := (consistent_cons_other hheader).mp hd
      rcases List.mem_cons.mp hl with rfl | hl
      · exact .inl hcurrent
      · exact ih hrest hl

theorem find_header_of_get (hd : Consistent [] d) (hget : get d (smbSection name) key = some v) :
    ((headers d).find? (isSectionOf name)).isSome = true := by
  obtain ⟨l, hl, hvalue⟩ := List.exists_of_findSome?_eq_some hget
  obtain ⟨k, -, hsect, -⟩ := valueFor_eq_some_iff.mp hvalue
  rw [List.find?_isSome]
  rcases exists_header hd (List.mem_reverse.mp hl) with hnone | ⟨sect, hmem, hsame⟩
  · have hlength := congrArg List.length (hsect.trans hnone)
    simp [smbSection, length_fold] at hlength
  · exact ⟨sect, hmem, isSectionOf_iff.mpr (hsame.trans hsect.symm)⟩

theorem find_header_set (hd : Consistent [] d)
    (h : set d (smbSection name) key (some v) = (d', true)) :
    (headers d').find? (isSectionOf name) =
      some (((headers d).find? (isSectionOf name)).getD (smbSection name)) := by
  have hd' : Consistent [] d' := by
    have hset : Consistent [] (set d (smbSection name) key (some v)).1 := consistent_set hd
    rw [h] at hset
    exact hset
  have hsome := find_header_of_get hd' (get_set_self h)
  rcases headers_set h with heq | heq
  · rw [heq] at hsome ⊢
    obtain ⟨sect, hsect⟩ := Option.isSome_iff_exists.mp hsome
    rw [hsect]
    rfl
  · have hown : isSectionOf name (smbSection name) = true := isSectionOf_iff.mpr rfl
    rw [heq, List.find?_append, List.find?_cons_of_pos hown]
    cases (headers d).find? (isSectionOf name) with
    | none => rfl
    | some sect => rfl

theorem setFields_cons {rest : List (Text × Text)}
    (h : setFields sect ((key, v) :: rest) d = some d') :
    ∃ d₁, set d sect key (some v) = (d₁, true) ∧ setFields sect rest d₁ = some d' := by
  unfold setFields at h
  split at h
  · rename_i d₁ hset
    exact ⟨d₁, hset, h⟩
  · cases h

theorem SameConnection.setFields (hother : fold sect ≠ fold (smbSection name)) :
    ∀ (fields : List (Text × Text)) {d : Document}, SmbConfig.setFields sect fields d = some d' →
      SameConnection name d d'
  | [], d, h => by
    cases h
    exact SameConnection.refl name d'
  | (key, v) :: rest, d, h => by
    obtain ⟨d₁, hset, hrest⟩ := setFields_cons h
    exact (SameConnection.set hset hother).trans (SameConnection.setFields hother rest hrest)

/-- A later setting of another key does not change an earlier one. -/
theorem get_setFields_other :
    ∀ (fields : List (Text × Text)) {d : Document}, setFields sect fields d = some d' →
      (∀ field ∈ fields, fold key ≠ fold field.1) → get d' sect key = get d sect key
  | [], d, h, _ => by
    cases h
    rfl
  | (k, v) :: rest, d, h, hother => by
    obtain ⟨d₁, hset, hrest⟩ := setFields_cons h
    rw [get_setFields_other rest hrest fun field hfield =>
      hother field (List.mem_cons_of_mem _ hfield)]
    exact get_set_other hset fun hpair => hother (k, v) List.mem_cons_self hpair.2

/-- Every setting has its value in the end. -/
theorem get_setFields :
    ∀ (fields : List (Text × Text)) {d : Document}, setFields sect fields d = some d' →
      (fields.Pairwise fun a b => fold a.1 ≠ fold b.1) →
      ∀ field ∈ fields, get d' sect field.1 = some field.2
  | [], d, _, _ => nofun
  | (k, v) :: rest, d, h, hdistinct => by
    obtain ⟨d₁, hset, hrest⟩ := setFields_cons h
    obtain ⟨hfirst, hlater⟩ := List.pairwise_cons.mp hdistinct
    intro field hfield
    rcases List.mem_cons.mp hfield with rfl | hfield
    · rw [get_setFields_other rest hrest hfirst]
      exact get_set_self hset
    · exact get_setFields rest hrest hlater field hfield

theorem find_header_setFields :
    ∀ (fields : List (Text × Text)) {d : Document},
      setFields (smbSection name) fields d = some d' → fields ≠ [] → Consistent [] d →
      (headers d').find? (isSectionOf name) =
        some (((headers d).find? (isSectionOf name)).getD (smbSection name))
  | [], _, _, hfields, _ => absurd rfl hfields
  | [(k, v)], d, h, _, hd => by
    obtain ⟨d₁, hset, hrest⟩ := setFields_cons h
    cases hrest
    exact find_header_set hd hset
  | (k, v) :: field :: rest, d, h, _, hd => by
    obtain ⟨d₁, hset, hrest⟩ := setFields_cons h
    have hd₁ : Consistent [] (set d (smbSection name) k (some v)).1 := consistent_set hd
    rw [hset] at hd₁
    rw [find_header_setFields (field :: rest) hrest (by simp) hd₁, find_header_set hd hset]
    rfl

theorem connectionFields_distinct (c : Smb.Connection) :
    (connectionFields c).Pairwise fun a b => fold a.1 ≠ fold b.1 := by
  unfold connectionFields
  simp only [List.pairwise_cons, List.forall_mem_cons, List.not_mem_nil, false_implies,
    implies_true, List.Pairwise.nil, and_true]
  decide +kernel

theorem parseBoolIni_flagText (flag : Bool) : parseBoolIni (flagText flag) = some flag := by
  cases flag <;> decide +kernel

theorem readSmbConnection_setFields {c' : Smb.Connection}
    (hget : ∀ field ∈ connectionFields c, get d sect field.1 = some field.2)
    (hread : readSmbConnection d sect = some c') : c' = { c with name := sect.drop 4 } := by
  simp only [connectionFields, List.forall_mem_cons, List.not_mem_nil, false_implies,
    implies_true, and_true] at hget
  obtain ⟨hpath, husername, hpassword, hactive, hreadOnly⟩ := hget
  unfold readSmbConnection at hread
  simp only [hpath, husername, hpassword, hactive, hreadOnly, parseBoolIni_flagText,
    Option.getD_some] at hread
  split at hread
  · cases hread
    rfl
  · cases hread

/-- The name is neither that of the request nor the previous one. -/
def OtherName (previous : Option Text) (connection : Option Smb.Connection) (name : Text) : Prop :=
  (hasPrevious previous = true → fold name ≠ fold (previous.getD [])) ∧
    ∀ c ∈ connection, fold name ≠ fold c.name

/-- What becomes of the previous name when another one takes its place. -/
def Replaced (previous : Option Text) (connection : Option Smb.Connection) : Prop :=
  hasPrevious previous = true ∧ ∀ c ∈ connection, fold (previous.getD []) ≠ fold c.name

/-- The first header that will be the connection's, under its own or its previous name, is
either renamed or already spelled as the request spells the name. -/
def SpelledAsGiven (previous : Option Text) (c : Smb.Connection) (main : Document) : Prop :=
  ∀ sect ∈ (headers main).find? fun sect =>
      isSectionOf c.name sect || renames previous c && isSectionOf (previous.getD []) sect,
    renames previous c = true ∧ isSectionOf (previous.getD []) sect = true ∨ sect.drop 4 = c.name

/-- What the first step of an update can do. -/
theorem moveConnection_cases (h : moveConnection previous connection main = some d) :
    (hasPrevious previous = false ∧ d = main) ∨
      (hasPrevious previous = true ∧ connection = none ∧
        d = removeSection main (smbSection (previous.getD []))) ∨
      (∃ c, connection = some c ∧ renames previous c = true ∧
        d = main.map (renameLine (smbSection (previous.getD [])) (smbSection c.name))) ∨
      ∃ c, connection = some c ∧ previous = some c.name ∧ d = main := by
  unfold moveConnection at h
  split at h
  · rename_i hno
    cases h
    exact .inl ⟨by simpa using hno, rfl⟩
  · rename_i hprevious
    rw [Bool.not_eq_true', Bool.not_eq_false] at hprevious
    cases connection with
    | none =>
      cases h
      exact .inr (.inl ⟨hprevious, rfl, rfl⟩)
    | some c =>
      dsimp only at h
      split at h
      · rename_i hrenames
        unfold renameSection at h
        split at h
        · rename_i d₁ hrenamed
          cases h
          split at hrenamed
          · cases hrenamed
          · cases hrenamed
            exact .inr (.inr (.inl ⟨c, rfl, hrenames, rfl⟩))
        · cases h
      · rename_i hkept
        cases h
        have hsame : previous = some c.name := by
          simpa [renames, hprevious] using hkept
        exact .inr (.inr (.inr ⟨c, rfl, hsame, rfl⟩))

theorem hasPrevious_of_renames (h : renames previous c = true) : hasPrevious previous = true := by
  unfold renames at h
  exact (Bool.and_eq_true _ _ ▸ h).1

theorem fold_smbSection_ne_nil (name : Text) : fold (smbSection name) ≠ fold [] := by
  intro h
  have hlength := congrArg List.length h
  simp [smbSection, length_fold] at hlength

theorem consistent_moveConnection (h : moveConnection previous connection main = some d)
    (hmain : Consistent [] main) : Consistent [] d := by
  rcases moveConnection_cases h with
    ⟨-, rfl⟩ | ⟨-, -, rfl⟩ | ⟨c, -, -, rfl⟩ | ⟨c, -, -, rfl⟩
  · exact hmain
  · exact consistent_remove hmain fun _ => rfl
  · refine consistent_rename hmain ?_
    have hno : ¬ sameNoCase [] (smbSection (previous.getD [])) = true := fun h =>
      fold_smbSection_ne_nil _ (sameNoCase_iff.mp h).symm
    rw [if_neg hno]
  · exact hmain

theorem SameConnection.moveConnection
    (h : SmbConfig.moveConnection previous connection main = some d)
    (hname : OtherName previous connection name) : SameConnection name main d := by
  obtain ⟨hprevious, hgiven⟩ := hname
  rcases moveConnection_cases h with
    ⟨-, rfl⟩ | ⟨hhas, -, rfl⟩ | ⟨c, rfl, hrenames, rfl⟩ | ⟨c, -, -, rfl⟩
  · exact SameConnection.refl name d
  · exact SameConnection.remove fun h => hprevious hhas (fold_smbSection_inj.mp h)
  · have hhas := hasPrevious_of_renames hrenames
    exact SameConnection.rename (fun h => hprevious hhas (fold_smbSection_inj.mp h))
      fun h => hgiven c rfl (fold_smbSection_inj.mp h)
  · exact SameConnection.refl name d

theorem no_header_moveConnection (h : moveConnection previous connection main = some d)
    (hreplaced : Replaced previous connection) :
    (headers d).find? (isSectionOf (previous.getD [])) = none := by
  obtain ⟨hhas, hgiven⟩ := hreplaced
  rw [List.find?_eq_none]
  rcases moveConnection_cases h with
    ⟨hno, -⟩ | ⟨-, -, rfl⟩ | ⟨c, rfl, -, rfl⟩ | ⟨c, rfl, rfl, -⟩
  · rw [hhas] at hno
    cases hno
  · intro sect hsect hown
    rw [headers_remove, List.mem_filter] at hsect
    have hsame := isSectionOf_iff.mp hown
    simp [sameNoCase, hsame] at hsect
  · intro sect hsect hown
    rw [headers_rename, List.mem_map] at hsect
    obtain ⟨before, -, rfl⟩ := hsect
    have hsame := isSectionOf_iff.mp hown
    split at hsame
    · exact hgiven c rfl (fold_smbSection_inj.mp hsame).symm
    · rename_i hkept
      exact hkept (sameNoCase_iff.mpr hsame)
  · exact absurd rfl (hgiven c rfl)

/-- The first header of the connection after the move is spelled as given exactly when
nothing keeps an old spelling. -/
theorem spelled_moveConnection (h : moveConnection previous (some c) main = some d) :
    (((headers d).find? (isSectionOf c.name)).getD (smbSection c.name)).drop 4 = c.name ↔
      SpelledAsGiven previous c main := by
  have hfresh : (smbSection c.name).drop 4 = c.name := rfl
  by_cases hrenames : renames previous c = true
  · have hmoved :
        d = main.map (renameLine (smbSection (previous.getD [])) (smbSection c.name)) := by
      rcases moveConnection_cases h with ⟨hno, -⟩ | ⟨-, hc, -⟩ | ⟨c', hc, -, hd⟩ | ⟨c', hc, heq, -⟩
      · rw [hasPrevious_of_renames hrenames] at hno
        cases hno
      · cases hc
      · cases hc
        exact hd
      · cases hc
        simp [renames, heq] at hrenames
    have hmatch : (isSectionOf c.name ∘ fun sect =>
        if sameNoCase sect (smbSection (previous.getD [])) then smbSection c.name else sect) =
        fun sect => isSectionOf c.name sect || isSectionOf (previous.getD []) sect := by
      funext sect
      rw [Function.comp_apply, Bool.eq_iff_iff, Bool.or_eq_true]
      split
      · rename_i hold
        exact ⟨fun _ => .inr (isSectionOf_iff.mpr (sameNoCase_iff.mp hold)),
          fun _ => isSectionOf_iff.mpr rfl⟩
      · rename_i hkept
        refine ⟨.inl, ?_⟩
        rintro (hown | hold)
        · exact hown
        · exact absurd (sameNoCase_iff.mpr (isSectionOf_iff.mp hold)) hkept
    unfold SpelledAsGiven
    rw [hmoved, headers_rename, List.find?_map, hmatch]
    simp only [hrenames, Bool.true_and, true_and]
    cases (headers main).find? fun sect =>
        isSectionOf c.name sect || isSectionOf (previous.getD []) sect with
    | none => simp [hfresh]
    | some sect =>
      simp only [Option.map_some, Option.getD_some, Option.mem_def, Option.some.injEq,
        forall_eq']
      have hsame : sameNoCase sect (smbSection (previous.getD [])) =
          isSectionOf (previous.getD []) sect := by
        rw [Bool.eq_iff_iff, sameNoCase_iff, isSectionOf_iff]
      rw [hsame]
      split
      · rename_i hold
        simp [hold, hfresh]
      · rename_i hkept
        simp [hkept]
  · have hkept : d = main := by
      rcases moveConnection_cases h with ⟨-, hd⟩ | ⟨-, hc, -⟩ | ⟨c', hc, hyes, -⟩ | ⟨c', -, -, hd⟩
      · exact hd
      · cases hc
      · cases hc
        exact absurd hyes hrenames
      · exact hd
    unfold SpelledAsGiven
    rw [hkept]
    simp only [hrenames, Bool.false_and, Bool.or_false]
    cases (headers main).find? fun sect => isSectionOf c.name sect with
    | none => simp [hfresh]
    | some sect => simp

/-- The document of an update, before its connections are validated. -/
structure Edited (previous : Option Text) (connection : Option Smb.Connection)
    (main d : Document) : Prop where
  others : ∀ name, OtherName previous connection name → SameConnection name main d
  gone : Replaced previous connection →
    (headers d).find? (isSectionOf (previous.getD [])) = none
  stored : ∀ c, connection = some c → ∃ sect,
    (headers d).find? (isSectionOf c.name) = some sect ∧
      (∀ field ∈ connectionFields c, get d (smbSection c.name) field.1 = some field.2) ∧
      (sect.drop 4 = c.name ↔ SpelledAsGiven previous c main)

/-- What a successful edit has made of the document. -/
theorem edited_of_editConnection (h : editConnection previous connection main = .ok d)
    (hmain : Consistent [] main) : Edited previous connection main d := by
  unfold editConnection at h
  dsimp only at h
  split at h
  · cases h
  · split at h
    · cases h
    · split at h
      · cases h
      · rename_i moved hmove
        have hmoved := consistent_moveConnection hmove hmain
        cases connection with
        | none =>
          cases h
          exact ⟨fun name hname => SameConnection.moveConnection hmove hname,
            no_header_moveConnection hmove, nofun⟩
        | some c =>
          dsimp only at h
          split at h
          · cases h
          · rename_i stored hfields
            cases h
            have hother : ∀ name, fold name ≠ fold c.name → SameConnection name moved d :=
              fun name hname => SameConnection.setFields
                (fun h => hname (fold_smbSection_inj.mp h).symm) _ hfields
            refine ⟨fun name hname => ?_, fun hreplaced => ?_, fun c' hc => ?_⟩
            · exact (SameConnection.moveConnection hmove hname).trans
                (hother name (hname.2 c rfl))
            · rw [(hother _ (hreplaced.2 c rfl)).header]
              exact no_header_moveConnection hmove hreplaced
            · cases hc
              exact ⟨_, find_header_setFields _ hfields (by simp [connectionFields]) hmoved,
                get_setFields _ hfields (connectionFields_distinct c), spelled_moveConnection hmove⟩

theorem Edited.version (h : Edited previous connection main d)
    (hset : set d "config".toList "version".toList (some "2".toList) = (d', true)) :
    Edited previous connection main d' := by
  have hsame : ∀ name, SameConnection name d d' := by
    intro name
    refine SameConnection.set hset fun heq => ?_
    have htag := (fold_eq_smbSection_iff.mp heq).1
    have hno : hasTag "smb:" "config".toList = false := by decide +kernel
    rw [hno] at htag
    cases htag
  obtain ⟨hothers, hgone, hstored⟩ := h
  refine ⟨fun name hname => (hothers name hname).trans (hsame name), fun hreplaced => ?_,
    fun c hc => ?_⟩
  · rw [(hsame _).header]
    exact hgone hreplaced
  · obtain ⟨sect, hfind, hfields, hspelled⟩ := hstored c hc
    refine ⟨sect, ?_, fun field hfield => ?_, hspelled⟩
    · rw [(hsame _).header]
      exact hfind
    · rw [(hsame _).settings]
      exact hfields field hfield

theorem smb_applySetting (ld : Loading) (key value : Text) :
    (applySetting ld key value).state.smb = ld.state.smb := by
  have hstore : ∀ {α : Type} (result : Option α) (put : RuntimeState → α → RuntimeState),
      (∀ s v, (put s v).smb = s.smb) → (ld.store result put).state.smb = ld.state.smb := by
    intro α result put hput
    cases result with
    | none => rfl
    | some v => exact hput _ _
  unfold applySetting
  split
  case h_8 =>
    dsimp only
    split
    · rfl
    · rfl
  case h_1 => rfl
  all_goals exact hstore _ _ fun _ _ => rfl

theorem smb_applySettings (settings : List (Text × Text)) (ld : Loading) :
    (applySettings ld settings).state.smb = ld.state.smb := by
  induction settings generalizing ld with
  | nil => rfl
  | cons setting settings ih =>
    have hrest := ih (applySetting ld setting.1 setting.2)
    rw [smb_applySetting] at hrest
    exact hrest

theorem smb_parseRuntimeConfigState {parsed : RuntimeState}
    (h : parseRuntimeConfigState main profiles = some parsed) :
    readSmbConnections main = some parsed.smb := by
  obtain ⟨smb, hsmb, rfl, -⟩ := parseRuntimeConfigState_eq_some h
  rw [hsmb]
  unfold finishScanPaths
  split
  · rw [smb_applySettings]
    rfl
  · rw [smb_applySettings]
    rfl

/-- Every line of the document can be written and read back, except that the header of the
connection may close early. -/
structure Clean (connection : Option Smb.Connection) (d : Document) : Prop where
  caller : CallerDocument d
  early : ∀ l ∈ d, closesEarly l.sect = true → ∃ c ∈ connection, l.sect = smbSection c.name

theorem map_sect_setLines (sect key : Text) (value : Option Text) (stored : Bool) (d : Document) :
    (setLines sect key value stored d).1.map (·.sect) = d.map (·.sect) := by
  induction d generalizing stored with
  | nil => rfl
  | cons l d ih =>
    rw [setLines, List.map_cons, List.map_cons, (setLine_shape sect key value stored l).1, ih]

/-- A key set keeps the document clean. -/
theorem Clean.set {value : Option Text} (h : Clean connection d)
    (hset : Ini.set d sect key value = (d', true)) (hsect : CallerSection sect)
    (hkey : key ∈ callerKeys)
    (hearly : closesEarly sect = true → ∃ c ∈ connection, sect = smbSection c.name) :
    Clean connection d' where
  caller := by
    have hedit := @callerDocument_edit d (.set sect key value) h.caller ⟨hsect, hkey⟩
    rwa [edit, hset] at hedit
  early := by
    -- The lines that were there keep their sections, and a new one is in the given section.
    have hlines : ∀ l ∈ (setLines sect key value false d).1,
        closesEarly l.sect = true → ∃ c ∈ connection, l.sect = smbSection c.name := by
      intro l hl
      have hmem : l.sect ∈ d.map (·.sect) :=
        map_sect_setLines sect key value false d ▸ List.mem_map_of_mem hl
      obtain ⟨before, hbefore, hsame⟩ := List.mem_map.mp hmem
      rw [← hsame]
      exact h.early before hbefore
    rcases set_cases hset with ⟨rfl, -⟩ | ⟨v, -, -, happend⟩
    · exact hlines
    · obtain ⟨front, added, back, hsplit, rfl, hadded⟩ := append_cases happend
      rw [hsplit] at hlines
      intro l hl
      rcases List.mem_append.mp hl with hfirst | hback
      · rcases List.mem_append.mp hfirst with hfront | hnew
        · exact hlines l (List.mem_append_left _ hfront)
        · have hown : l.sect = sect := by
            rcases hadded with rfl | ⟨rfl, -⟩
            · rw [List.mem_singleton.mp hnew]
            · rcases List.mem_cons.mp hnew with rfl | hnew
              · rfl
              · rw [List.mem_singleton.mp hnew]
          rw [hown]
          exact hearly
      · exact hlines l (List.mem_append_right _ hback)

theorem Clean.setFields (hc : Smb.validate c = true) :
    ∀ (fields : List (Text × Text)) {d : Document}, Clean (some c) d →
      (∀ field ∈ fields, field.1 ∈ callerKeys) →
      SmbConfig.setFields (smbSection c.name) fields d = some d' → Clean (some c) d'
  | [], _, h, _, hfields => by
    cases hfields
    exact h
  | (key, v) :: rest, d, h, hkeys, hfields => by
    obtain ⟨d₁, hset, hrest⟩ := setFields_cons hfields
    exact Clean.setFields hc rest
      (h.set hset (.smb hc) (hkeys _ List.mem_cons_self) fun _ => ⟨c, rfl, rfl⟩)
      (fun field hfield => hkeys field (List.mem_cons_of_mem _ hfield)) hrest

/-- A connection moved keeps the document clean. -/
theorem Clean.moveConnection (h : Clean connection main)
    (hvalid : ∀ c ∈ connection, Smb.validate c = true)
    (hmove : SmbConfig.moveConnection previous connection main = some d) :
    Clean connection d := by
  unfold SmbConfig.moveConnection at hmove
  split at hmove
  · cases hmove
    exact h
  · cases connection with
    | none =>
      cases hmove
      exact ⟨@callerDocument_edit main (.remove _) h.caller trivial,
        fun l hl => h.early l (List.mem_of_mem_filter hl)⟩
    | some c =>
      dsimp only at hmove
      split at hmove
      · split at hmove
        · rename_i d₁ hrenamed
          cases hmove
          have hnew : smbSection (previous.getD []) ≠ [] := by simp [smbSection]
          have hedit := @callerDocument_edit main
            (.rename (smbSection (previous.getD [])) (smbSection c.name)) h.caller
            ⟨hnew, .smb (hvalid c rfl)⟩
          rw [edit, hrenamed] at hedit
          refine ⟨hedit, fun l hl hearly => ?_⟩
          unfold renameSection at hrenamed
          split at hrenamed
          · cases hrenamed
          · cases hrenamed
            obtain ⟨before, hbefore, rfl⟩ := List.mem_map.mp hl
            rw [(renameLine_shape _ _ before).1] at hearly ⊢
            split at hearly
            · rename_i hsame
              rw [if_pos hsame]
              exact ⟨c, rfl, rfl⟩
            · rename_i hkept
              rw [if_neg hkept]
              exact h.early before hbefore hearly
        · cases hmove
      · cases hmove
        exact h

theorem clean_readDocuments (h : readDocuments f s = some (main, profiles)) :
    Clean connection main := by
  unfold readDocuments at h
  split at h
  · cases h
  · rename_i read hread
    have hmain : read = main := by
      split at h
      · cases h
      · split at h
        · cases h
        · split at h
          · cases h
            rfl
          · cases h
    subst hmain
    unfold readFile at hread
    split at hread
    · cases hread
    · split at hread
      · cases hread
        exact ⟨⟨fun l hl => (by cases hl), trivial⟩, nofun⟩
      · refine ⟨⟨lineOk_of_read hread, consistent_of_read hread⟩, fun l hl hearly => ?_⟩
        rw [closesEarly_of_readLines rfl (readLines_of_read hread) l hl] at hearly
        cases hearly

/-- What an update that succeeded leaves of the connections. -/
structure Kept (previous : Option Text) (connection : Option Smb.Connection)
    (main : Document) (s' : Store) : Prop where
  /-- The file is read again, as the connections in memory. -/
  inStep : ∃ d, s'.config.bind (read false) = some d ∧
    readSmbConnections d = some s'.runtime.smb
  others : ∀ name, OtherName previous connection name →
    configSmbGet s'.runtime name = connectionNamed main name
  gone : Replaced previous connection → configSmbGet s'.runtime (previous.getD []) = none
  count : s'.runtime.smb.length ≤ smbConnectionsMax
  distinct : s'.runtime.smb.Pairwise fun a b => fold a.name ≠ fold b.name

/-- An update that succeeded, or failed and changed nothing. -/
def Transactional (f : Faults) (previous : Option Text) (connection : Option Smb.Connection)
    (s : Store) : Prop :=
  ∀ s' error, configSmbUpdate f previous connection s = (s', error) →
    match error with
    | some _ => s' = s
    | none => ∃ main profiles, readDocuments f s = some (main, profiles) ∧
        Kept previous connection main s' ∧
        ∀ c, connection = some c → configSmbGet s'.runtime c.name = some c

/-- The store after the file was written, and after the connections were published. -/
def Store.written (s : Store) (bytes : Text) : Store := { s with config := some bytes }

def Store.published (s : Store) (bytes : Text) (smb : List Smb.Connection) : Store :=
  { s with config := some bytes, runtime := { s.runtime with smb := smb } }

/-- The request is valid, the files can be read, and what the request asks for gives a document
that is accepted as a configuration and has the bytes as its text: there is a file to write. -/
structure Saves (f : Faults) (previous : Option Text) (connection : Option Smb.Connection)
    (s : Store) (main d : Document) (bytes : Text) : Prop where
  valid : validRequest previous connection = true
  edit : ∃ profiles edited parsed, readDocuments f s = some (main, profiles) ∧
    editConnection previous connection main = .ok edited ∧
    set edited "config".toList "version".toList (some "2".toList) = (d, true) ∧
    parseRuntimeConfigState d profiles = some parsed
  write : write d = some bytes

/-- The document, as it is written, is within the limits of the reader. -/
def FitsReader (d : Document) : Prop :=
  (d.map physicalCount).sum ≤ maxLines ∧ ∀ l ∈ d, physicalLength l < lineMax

variable {bytes : Text} {smb : List Smb.Connection}

/-- Every way an update with a file to write can end: by the fate of the write. -/
theorem Saves.run (h : Saves f previous connection s main d bytes) :
    ∃ smb, readSmbConnections d = some smb ∧
      configSmbUpdate f previous connection s = match f.write with
        | none => (s.published bytes smb, none)
        | some .early => (s, some .failed)
        | some .sync => (s.written bytes, some .failed) := by
  obtain ⟨hvalid, ⟨profiles, edited, parsed, hread, hedit, hset, hparse⟩, hwrite⟩ := h
  refine ⟨parsed.smb, smb_parseRuntimeConfigState hparse, ?_⟩
  unfold configSmbUpdate saveDocument iniWrite
  simp only [hvalid, hread, hedit, hset, hparse, hwrite, Bool.not_true, Bool.false_eq_true,
    if_false]
  cases f.write with
  | none => rfl
  | some fault => cases fault <;> rfl

/-- An update without a file to write fails and changes nothing. -/
theorem configSmbUpdate_fails
    (h : ∀ main d bytes, ¬ Saves f previous connection s main d bytes) :
    ∃ e, configSmbUpdate f previous connection s = (s, some e) := by
  unfold configSmbUpdate
  split
  · exact ⟨_, rfl⟩
  · rename_i hvalid
    cases hdocuments : readDocuments f s with
    | none => exact ⟨_, rfl⟩
    | some documents =>
      obtain ⟨main, profiles⟩ := documents
      dsimp only
      cases hedit : editConnection previous connection main with
      | error e => exact ⟨_, rfl⟩
      | ok edited =>
        dsimp only
        unfold saveDocument
        simp only [Bool.false_eq_true, if_false]
        cases hset : set edited "config".toList "version".toList (some "2".toList) with
        | mk d ok =>
          cases ok with
          | false => exact ⟨_, rfl⟩
          | true =>
            simp only [Bool.not_true, Bool.false_eq_true, if_false]
            cases hparse : parseRuntimeConfigState d profiles with
            | none => exact ⟨_, rfl⟩
            | some parsed =>
              unfold iniWrite
              cases hwrite : write d with
              | none => exact ⟨_, rfl⟩
              | some bytes =>
                exact absurd ⟨by simpa using hvalid,
                  ⟨profiles, edited, parsed, hdocuments, hedit, hset, hparse⟩, hwrite⟩
                  (h main d bytes)

theorem Saves.read (h : Saves f previous connection s main d bytes) :
    ∃ profiles, readDocuments f s = some (main, profiles) := by
  obtain ⟨profiles, -, -, hread, -⟩ := h.edit
  exact ⟨profiles, hread⟩

theorem Saves.edited (h : Saves f previous connection s main d bytes) :
    Edited previous connection main d := by
  obtain ⟨profiles, edited, -, hread, hedit, hset, -⟩ := h.edit
  have hmain : Clean connection main := clean_readDocuments hread
  exact (edited_of_editConnection hedit hmain.caller.consistent).version hset

theorem Saves.clean (h : Saves f previous connection s main d bytes) : Clean connection d := by
  obtain ⟨profiles, edited, -, hread, hedit, hset, -⟩ := h.edit
  have hvalid : ∀ c ∈ connection, Smb.validate c = true := by
    intro c hc
    have hrequest := h.valid
    unfold validRequest at hrequest
    rw [Option.mem_def.mp hc, Bool.and_eq_true] at hrequest
    exact hrequest.1
  have hversion : Clean connection edited → Clean connection d := by
    refine fun hedited => hedited.set hset .version (by decide +kernel) fun hearly => ?_
    have hno : closesEarly "config".toList = false := by decide
    rw [hno] at hearly
    cases hearly
  refine hversion ?_
  unfold editConnection at hedit
  dsimp only at hedit
  split at hedit
  · cases hedit
  · split at hedit
    · cases hedit
    · split at hedit
      · cases hedit
      · rename_i moved hmove
        have hmoved := (clean_readDocuments hread).moveConnection hvalid hmove
        cases connection with
        | none =>
          cases hedit
          exact hmoved
        | some c =>
          dsimp only at hedit
          split at hedit
          · cases hedit
          · rename_i stored hfields
            cases hedit
            exact hmoved.setFields (hvalid c rfl) _ (by
              unfold connectionFields
              simp only [List.forall_mem_cons, List.not_mem_nil, false_implies, implies_true,
                and_true]
              decide +kernel) hfields

theorem Saves.stored (h : Saves f previous (some c) s main d bytes)
    (hsmb : readSmbConnections d = some smb) :
    (smb.find? fun a => sameNoCase c.name a.name).isSome = true ∧
      ((smb.find? fun a => sameNoCase c.name a.name) = some c ↔
        SpelledAsGiven previous c main) := by
  obtain ⟨-, -, hnamed, hreadable⟩ := reads_of_readSmbConnections hsmb
  obtain ⟨sect, hfind, hfields, hspelled⟩ := h.edited.stored c rfl
  obtain ⟨c', hread⟩ := Option.isSome_iff_exists.mp (hreadable c.name sect hfind)
  have hsect : fold sect = fold (smbSection c.name) := isSectionOf_iff.mp (List.find?_some hfind)
  have hc' : c' = { c with name := sect.drop 4 } := by
    refine readSmbConnection_setFields (fun field hfield => ?_) hread
    rw [get_congr hsect]
    exact hfields field hfield
  have hget : (smb.find? fun a => sameNoCase c.name a.name) =
      some { c with name := sect.drop 4 } := by
    refine (hnamed c.name).trans ?_
    unfold connectionNamed
    rw [hfind, Option.bind_some, hread, hc']
  rw [hget, ← hspelled, Option.some.injEq]
  refine ⟨rfl, fun heq => congrArg Smb.Connection.name heq, fun heq => ?_⟩
  rw [heq]

/-- The file that an update leaves is read as the connections in memory exactly when it is within
the limits of the reader and the header of the connection does not close early. -/
theorem Saves.reads_back_iff (h : Saves f previous connection s main d bytes)
    (hsmb : readSmbConnections d = some smb) :
    (∃ d', Ini.read false bytes = some d' ∧ readSmbConnections d' = some smb) ↔
      FitsReader d ∧ ∀ c, connection = some c → closesEarly (smbSection c.name) = false := by
  obtain ⟨hcaller, hearly⟩ := h.clean
  constructor
  · rintro ⟨d', hread, hsmb'⟩
    have haccepted := (accepted_iff_of_lineOk hcaller.lines h.write).mp ⟨d', hread⟩
    refine ⟨⟨haccepted.1, fun l hl => (haccepted.2 l hl).1⟩, ?_⟩
    rintro c rfl
    -- No section that the reader finds closes early, but the connection is found.
    rw [← Bool.not_eq_true]
    intro hcut
    have hfound := (h.stored hsmb).1
    rw [(reads_of_readSmbConnections hsmb').named, connectionNamed] at hfound
    cases hfind : (headers d').find? (isSectionOf c.name) with
    | none =>
      rw [hfind] at hfound
      cases hfound
    | some sect =>
      obtain ⟨l, hl, hsect⟩ := List.mem_filterMap.mp (List.mem_of_find?_eq_some hfind)
      have hopen := closesEarly_of_readLines rfl (readLines_of_read hread) l hl
      split at hsect
      · cases hsect
        have hsame := isSectionOf_iff.mp (List.find?_some hfind)
        rw [closesEarly_of_sameNoCase hsame, hcut] at hopen
        cases hopen
      · cases hsect
  · rintro ⟨⟨hcount, hshort⟩, hopen⟩
    have hclean : ∀ l ∈ d, closesEarly l.sect = false := by
      intro l hl
      rw [← Bool.not_eq_true]
      intro hcut
      obtain ⟨c, hc, hsect⟩ := hearly l hl hcut
      rw [hsect, hopen c hc] at hcut
      cases hcut
    obtain ⟨d', hread, hget⟩ := (roundTrips_iff_of_callerDocument hcaller h.write).mpr
      ⟨hcount, hshort, fun l hl _ _ _ => hclean l hl⟩
    have hlines := readLines_of_read hread
    rw [(splitTerminated_write hcaller.lines h.write).1] at hlines
    have hheaders := headers_readBack
      (fun name hname htext => hname.clean (fun c hc => by
        simpa using List.all_eq_true.mp htext c hc))
      (fun _ => cleanKey_of_isCallerKey) hcaller.lines hclean hlines
    exact ⟨d', hread, (readSmbLines_congr hget d d' [] hheaders).trans hsmb⟩

/-- The part of the property that no slip touches. -/
theorem Saves.kept (h : Saves f previous connection s main d bytes)
    (hsmb : readSmbConnections d = some smb)
    (hback : ∃ d', Ini.read false bytes = some d' ∧ readSmbConnections d' = some smb) :
    Kept previous connection main (s.published bytes smb) := by
  obtain ⟨hcount, hdistinct, hnamed, -⟩ := reads_of_readSmbConnections hsmb
  refine ⟨hback, fun name hname => ?_, fun hreplaced => ?_, hcount, hdistinct⟩
  · exact (hnamed name).trans (h.edited.others name hname).connectionNamed
  · refine (hnamed _).trans ?_
    unfold connectionNamed
    rw [h.edited.gone hreplaced]
    rfl

/-- An update is a transaction exactly when no slip occurs.  If there is a file to write, then a
failing synchronisation of the directory must not hide that the file changed; and if nothing
fails, the document must be within the limits of the reader, the header of the given name must
not close early, and the header that the connection ends up below must be spelled as the request
spells the name. -/
theorem configSmbUpdate_transactional (f : Faults) (previous : Option Text)
    (connection : Option Smb.Connection) (s : Store) :
    Transactional f previous connection s ↔
      ∀ main d bytes, Saves f previous connection s main d bytes →
        match f.write with
        | some .early => True
        | some .sync => s.config = some bytes
        | none => FitsReader d ∧ ∀ c, connection = some c →
            closesEarly (smbSection c.name) = false ∧ SpelledAsGiven previous c main := by
  constructor
  · intro htransactional main d bytes hsaves
    obtain ⟨smb, hsmb, hrun⟩ := hsaves.run
    cases hfault : f.write with
    | none =>
      rw [hfault] at hrun
      obtain ⟨main', profiles', hread', hkept, hstored⟩ := htransactional _ _ hrun
      obtain ⟨hfits, hopen⟩ := (hsaves.reads_back_iff hsmb).mp hkept.inStep
      refine ⟨hfits, fun c hc => ⟨hopen c hc, ?_⟩⟩
      subst hc
      exact (hsaves.stored hsmb).2.mp (hstored c rfl)
    | some fault =>
      rw [hfault] at hrun
      cases fault with
      | early => trivial
      | sync =>
        have hsame : s.written bytes = s := htransactional _ _ hrun
        exact (congrArg Store.config hsame).symm
  · intro hcondition s' error h
    by_cases hsave : ∃ main d bytes, Saves f previous connection s main d bytes
    · obtain ⟨main, d, bytes, hsaves⟩ := hsave
      obtain ⟨smb, hsmb, hrun⟩ := hsaves.run
      have hcondition := hcondition main d bytes hsaves
      rw [h] at hrun
      cases hfault : f.write with
      | none =>
        rw [hfault] at hrun hcondition
        cases hrun
        obtain ⟨hfits, hgiven⟩ := hcondition
        obtain ⟨profiles, hread⟩ := hsaves.read
        refine ⟨main, profiles, hread, hsaves.kept hsmb ?_, fun c hc => ?_⟩
        · exact (hsaves.reads_back_iff hsmb).mpr ⟨hfits, fun c hc => (hgiven c hc).1⟩
        · have hspelled := (hgiven c hc).2
          subst hc
          exact (hsaves.stored hsmb).2.mpr hspelled
      | some fault =>
        rw [hfault] at hrun hcondition
        cases fault with
        | early =>
          cases hrun
          rfl
        | sync =>
          cases hrun
          show s.written bytes = s
          unfold Store.written
          rw [← show s.config = some bytes from hcondition]
    · -- Without a file to write, the update fails before it touches anything.
      simp only [not_exists] at hsave
      obtain ⟨e, he⟩ := configSmbUpdate_fails hsave
      rw [h] at he
      cases he
      rfl

/-- A file with one connection. -/
def nasFile (name : String) : Text :=
  ("[config]\nversion = 2\n[smb:" ++ name ++ "]\npath = smb://h/s\n").toList

/-- The program has loaded the defaults; the file was written by hand. -/
def nasStore (name : String) : Store := ⟨some (nasFile name), none, initRuntimeConfigDefaults⟩

def nasConnection : Smb.Connection :=
  ⟨"nas".toList, "smb://h/s".toList, [], [], true, false⟩

/-- A connection whose header closes at its bracket. -/
def bracketConnection : Smb.Connection := { nasConnection with name := "x];y".toList }

/-- The connection is deleted from the file by an update that reports a failure; an update of a
connection that is stored in capitals is not read back as it was given; and a new connection
whose header closes early is not in the file that is read again. -/
theorem update_not_transactional :
    ¬ Transactional ⟨false, false, some .sync⟩ (some "nas".toList) none (nasStore "nas") ∧
      ¬ Transactional ⟨false, false, none⟩ (some "nas".toList) (some nasConnection)
        (nasStore "NAS") ∧
      ¬ Transactional ⟨false, false, none⟩ none (some bracketConnection) (nasStore "x") := by
  refine ⟨fun h => ?_, fun h => ?_, fun h => ?_⟩
  · have hrun : (configSmbUpdate ⟨false, false, some .sync⟩ (some "nas".toList) none
          (nasStore "nas")).2 = some .failed ∧
        (configSmbUpdate ⟨false, false, some .sync⟩ (some "nas".toList) none
          (nasStore "nas")).1.config ≠ (nasStore "nas").config := by
      decide +kernel
    have hsame := h _ _ (Prod.ext rfl hrun.1)
    exact hrun.2 (congrArg Store.config hsame)
  · have hrun : (configSmbUpdate ⟨false, false, none⟩ (some "nas".toList) (some nasConnection)
          (nasStore "NAS")).2 = none ∧
        configSmbGet (configSmbUpdate ⟨false, false, none⟩ (some "nas".toList)
          (some nasConnection) (nasStore "NAS")).1.runtime "nas".toList ≠ some nasConnection := by
      decide +kernel
    obtain ⟨-, -, -, -, hstored⟩ := h _ _ (Prod.ext rfl hrun.1)
    exact hrun.2 (hstored nasConnection rfl)
  · have hrun : (configSmbUpdate ⟨false, false, none⟩ none (some bracketConnection)
          (nasStore "x")).2 = none ∧
        ((configSmbUpdate ⟨false, false, none⟩ none (some bracketConnection)
            (nasStore "x")).1.config.bind (read false)).bind readSmbConnections ≠
          some (configSmbUpdate ⟨false, false, none⟩ none (some bracketConnection)
            (nasStore "x")).1.runtime.smb := by
      decide +kernel
    generalize hresult : configSmbUpdate ⟨false, false, none⟩ none (some bracketConnection)
      (nasStore "x") = result at hrun
    obtain ⟨s', error⟩ := result
    obtain ⟨rfl, hlost⟩ := hrun
    obtain ⟨_, _, -, hkept, -⟩ := h s' none hresult
    obtain ⟨d, hread, hsmb⟩ := hkept.inStep
    refine hlost ?_
    dsimp only
    rw [hread]
    exact hsmb

end ShadowMount.SmbConfig
