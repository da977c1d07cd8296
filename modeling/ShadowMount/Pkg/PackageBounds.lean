import ShadowMount.Pkg.Package
import ShadowMount.Pkg.SfoAgreement

/-!
# Packages are read inside of the file

Every read of the package parser lies in the file and fits its destination, and no sum of
offsets wraps, whatever the file holds; and what is accepted has a title id, a kind that can be
installed, and an icon inside of the file.

Main results:

- Theorem {lit}`readPkgSfo_safe`: the table of entries, with the record it leaves.
- Theorem {lit}`parsePackage_in_bounds`: the parser.
-/

namespace ShadowMount.Pkg

open Foundation

variable {env : Environment} {fileSize base : Nat}
variable {offset length magic : Nat} {info : Info}

theorem readAt_safe {size room : Nat} (h : offset + size ≤ fileSize) (hroom : size ≤ room) :
    Safe (readAt env fileSize offset size room) fun r =>
      ∀ bytes, r = some bytes → bytes.length = size := by
  unfold readAt
  rw [if_neg (Nat.not_lt_of_le h), if_neg (Nat.not_lt_of_le hroom)]
  refine ⟨_, rfl, fun bytes hbytes => ?_⟩
  obtain ⟨answer, -, rfl⟩ := Option.map_eq_some_iff.mp hbytes
  exact answer.property

theorem readBe32_safe {data : Bytes} {start : Nat} (h : start + 4 ≤ data.length) :
    Safe (readBe32 data start) (· < 2 ^ 32) := by
  refine .bind (.readRange h) fun bytes hbytes => ?_
  subst hbytes
  refine .pure ?_
  have hlt := ofLittleEndian_lt (slice data start 4).reverse
  rw [List.length_reverse, length_slice h] at hlt
  exact hlt

theorem readU64_safe {data : Bytes} {start : Nat} (h : start + 8 ≤ data.length) :
    Safe (readU64 data start) fun _ => True :=
  .bind (.readRange h) fun _ _ => .pure trivial

/-- The texts fit, and the icon lies in the file. -/
structure Sound (fileSize : Nat) (info : Info) : Prop where
  fits : info.Fits
  icon : info.iconOffset + info.iconSize ≤ fileSize

theorem Sound.of_sameIcon {info' : Info} (h : Sound fileSize info) (hfits : info'.Fits)
    (hicon : info.SameIcon info') : Sound fileSize info' :=
  ⟨hfits, by rw [hicon.1, hicon.2]; exact h.icon⟩

theorem isCString_copyString {size : Nat} (hsize : 0 < size) (value : Text) :
    IsCString size (copyString size value) := by
  unfold copyString strlcpy
  refine ⟨?_, fun hmem => ?_⟩
  · rw [List.length_take]
    omega
  · have hzero := not_of_mem_cut_fst (List.mem_of_mem_take hmem)
    simp at hzero

theorem Field.size_pos (field : Field) : 0 < field.size := by
  cases field <;> decide

theorem Sound.putText (h : Sound fileSize info) (field : Field) (value : Option Text) :
    Sound fileSize (putText info field value) := by
  unfold Pkg.putText
  cases value with
  | none => exact h
  | some text =>
    exact h.of_sameIcon (h.fits.setText (isCString_copyString field.size_pos text))
      (Info.SameIcon.setText info _ field)

theorem Sound.applyContentId (h : Sound fileSize info) (root : Json) :
    Sound fileSize (applyContentId root info).1 := by
  unfold Pkg.applyContentId
  split
  · split
    · exact h
    · exact h.putText .contentId (some _)
  · exact h

theorem Sound.applyVersion (h : Sound fileSize info) (root : Json) :
    Sound fileSize (applyVersion root info) := by
  have hversion := (h.putText .titleId (root.getString "titleId")).putText .appVer
    (root.getString "contentVersion")
  unfold Pkg.applyVersion
  dsimp only
  split
  · exact hversion.putText _ _
  · exact hversion

/-- The fields taken from the parameter file keep the information sound. -/
theorem Sound.applyJson (h : Sound fileSize info) (root : Json) :
    Sound fileSize (applyJson root info).1 := by
  have hsdk : Sound fileSize (applySdk root info) := by
    unfold applySdk
    split
    · exact ⟨h.fits, h.icon⟩
    · exact h
  exact ((hsdk.applyContentId root).applyVersion root).putText _ _

theorem Sound.parseParamJson (h : Sound fileSize info) (data : Bytes) :
    Sound fileSize (parseParamJson env data info).1 := by
  unfold Pkg.parseParamJson
  dsimp only
  split
  · exact h
  · split
    · exact h.applyJson _
    · exact h

/-- An accepted range of an entry lies in the file. -/
theorem entryRange_safe (hbase : base ≤ fileSize) (hsize : fileSize < 2 ^ 64) :
    Safe (entryRange fileSize base offset length) fun r =>
      ∀ start, r = some start → start + length ≤ fileSize := by
  unfold entryRange
  refine .bind (.sub hbase) fun room hroom => ?_
  split
  · exact .pure nofun
  · refine .bind (.sub (by omega)) fun rest hrest => ?_
    split
    · exact .pure nofun
    · refine .bind (.add (by omega)) fun start hstart => ?_
      refine .pure fun start' hstart' => ?_
      cases hstart'
      omega

theorem readIconEntry_safe (hbase : base ≤ fileSize) (hsize : fileSize < 2 ^ 64)
    (hinfo : Sound fileSize info) :
    Safe (readIconEntry fileSize base offset length info) (Sound fileSize) := by
  unfold readIconEntry
  split
  · exact .pure hinfo
  · refine .bind (entryRange_safe hbase hsize) fun range hrange => ?_
    cases range with
    | none => exact .pure hinfo
    | some start => exact .pure ⟨hinfo.fits, hrange start rfl⟩

theorem readParamEntry_safe {id : Nat} (hbase : base ≤ fileSize) (hsize : fileSize < 2 ^ 64)
    (hinfo : Sound fileSize info) :
    Safe (readParamEntry env fileSize base id offset length info) fun r => Sound fileSize r.1 := by
  unfold readParamEntry
  split
  · exact .pure hinfo
  · refine .bind (entryRange_safe hbase hsize) fun range hrange => ?_
    cases range with
    | none => exact .pure hinfo
    | some start =>
      dsimp only
      split
      · exact .pure hinfo
      · refine .bind (readAt_safe (hrange start rfl) (Nat.le_refl _)) fun data _ => ?_
        cases data with
        | none => exact .pure hinfo
        | some data =>
          dsimp only
          split
          · refine (parseSfo_safe data hinfo.fits).mono fun r hr => ?_
            exact hinfo.of_sameIcon hr.1 hr.2.1
          · exact .pure (hinfo.parseParamJson data)

theorem readPkgEntry_safe {entries : Bytes} {slot : Nat} (hbase : base ≤ fileSize)
    (hsize : fileSize < 2 ^ 64) (hslot : slot < 32)
    (hentries : (slot + 1) * entrySize ≤ entries.length) (hinfo : Sound fileSize info) :
    Safe (readPkgEntry env fileSize base entries slot info) fun r => Sound fileSize r.1 := by
  have hentry : entrySize = 32 := rfl
  rw [hentry] at hentries
  unfold readPkgEntry
  rw [hentry]
  refine .bind (.mul (by omega)) fun entry hat => ?_
  subst hat
  refine .bind (readBe32_safe (by omega)) fun id _ => ?_
  refine .bind (readBe32_safe (by omega)) fun offset _ => ?_
  refine .bind (readBe32_safe (by omega)) fun length _ => ?_
  split
  · exact .bind (readIconEntry_safe hbase hsize hinfo) fun info hinfo => .pure hinfo
  · split
    · exact .pure hinfo
    · exact readParamEntry_safe hbase hsize hinfo

/-- The table lies in the file. -/
structure TableInside (fileSize base table count : Nat) : Prop where
  behind : base ≤ fileSize
  entries : base + table + count * entrySize ≤ fileSize
  size : fileSize < 2 ^ 64

/-- At turn `i` the buffer holds the entry of the turn and those behind it in its batch. -/
theorem readBatch_safe {table count i : Nat} {entries : Bytes}
    (htable : TableInside fileSize base table count) (hi : i < count)
    (hentries : i % 32 ≠ 0 → (min (count - i + i % 32) 32) * entrySize ≤ entries.length) :
    Safe (readBatch env fileSize base table count i entries) fun r =>
      ∀ bytes, r = some bytes → (min (count - i + i % 32) 32) * entrySize ≤ bytes.length := by
  obtain ⟨hbase, hinside, hsize⟩ := htable
  have hentry : entrySize = 32 := rfl
  unfold readBatch
  rw [hentry] at hinside hentries ⊢
  split
  · rename_i hfirst
    refine .bind (.sub (by omega)) fun left hleft => ?_
    refine .bind (.mul (by omega)) fun size hbytes => ?_
    refine .bind (.add (by omega)) fun directory hdirectory => ?_
    refine .bind (.mul (by omega)) fun skipped hskipped => ?_
    refine .bind (.add (by omega)) fun offset hoffset => ?_
    refine .bind (readAt_safe (by omega) (by omega)) fun batch hbatch => ?_
    refine .pure fun bytes heq => ?_
    obtain ⟨read, hread, rfl⟩ := Option.map_eq_some_iff.mp heq
    have hlength := hbatch read hread
    rw [List.length_append]
    omega
  · rename_i hlater
    refine .pure fun bytes heq => ?_
    cases heq
    exact hentries hlater

/-- The table of entries is read in bounds. -/
theorem readPkgEntries_safe {table count : Nat} (htable : TableInside fileSize base table count) :
    ∀ (n i : Nat) (entries : Bytes) (info : Info), i + n = count →
      (i % 32 ≠ 0 → (min (count - i + i % 32) 32) * entrySize ≤ entries.length) →
      Sound fileSize info →
      Safe (readPkgEntries env fileSize base table count (List.range' i n) entries info) fun r =>
        Sound fileSize r.1 := by
  intro n
  induction n with
  | zero => exact fun i entries info _ _ hinfo => .pure hinfo
  | succ n ih =>
    intro i entries info hcount hentries hinfo
    rw [List.range'_succ]
    refine .bind (readBatch_safe htable (by omega) hentries) fun batch hbatch => ?_
    cases batch with
    | none => exact .pure hinfo
    | some batch =>
      have hheld := hbatch batch rfl
      have hslot : (i % 32 + 1) * entrySize ≤ batch.length := by
        refine Nat.le_trans (Nat.mul_le_mul_right _ ?_) hheld
        omega
      refine .bind (readPkgEntry_safe htable.behind htable.size (Nat.mod_lt _ (by decide))
        hslot hinfo) fun r hr => ?_
      split
      · refine ih (i + 1) batch r.1 (by omega) (fun hnext => ?_) hr
        refine Nat.le_trans (Nat.mul_le_mul_right _ ?_) hheld
        omega
      · exact .pure hr

/-- The parameter entry is read in bounds. -/
theorem readPkgSfo_safe {header : Bytes} (hbase : base ≤ fileSize) (hsize : fileSize < 2 ^ 64)
    (hheader : header.length = headerSize) (hinfo : Sound fileSize info) :
    Safe (readPkgSfo env fileSize base header info) fun r => Sound fileSize r.1 := by
  have hlength : header.length = 160 := hheader
  have hentry : entrySize = 32 := rfl
  unfold readPkgSfo
  refine .bind (readBe32_safe (by omega)) fun count _ => ?_
  refine .bind (readBe32_safe (by omega)) fun table _ => ?_
  refine .bind (.sub hbase) fun room hroom => ?_
  split
  · exact .pure hinfo
  · refine .bind (.sub (by omega)) fun rest hrest => ?_
    split
    · exact .pure hinfo
    · rename_i hcount
      rw [hentry] at hcount
      have htable : TableInside fileSize base table count := ⟨hbase, by rw [hentry]; omega, hsize⟩
      rw [List.range_eq_range']
      exact readPkgEntries_safe htable count 0 _ info (Nat.zero_add _) (fun h => absurd rfl h) hinfo

/-- The header is read inside of the file. -/
theorem readContainer_safe {header : Bytes} (hheader : header.length = headerSize) :
    Safe (readContainer env fileSize magic header) fun r =>
      ∀ base inner, r = some (base, inner) → base ≤ fileSize ∧ inner.length = headerSize := by
  have hlength : header.length = 160 := hheader
  have hrefused : Safe (Pure.pure none) fun r : Option (Nat × Bytes) =>
      ∀ base inner, r = some (base, inner) → base ≤ fileSize ∧ inner.length = headerSize :=
    .pure nofun
  have hplace : basePlace magic ≤ 88 := by
    unfold basePlace
    split <;> decide
  unfold readContainer
  split
  · refine .bind (.readU16 (by omega)) fun version _ => ?_
    refine .bind (readU64_safe (by omega)) fun base _ => ?_
    split
    · exact hrefused
    · rename_i hbase
      refine .bind (.sub (by omega)) fun room hroom => ?_
      split
      · exact hrefused
      · refine .bind (readAt_safe (by omega) (Nat.le_refl _)) fun inner hinner => ?_
        cases inner with
        | none => exact hrefused
        | some inner =>
          have hread := hinner inner rfl
          have hread' : inner.length = 160 := hread
          refine .bind (readBe32_safe (by omega)) fun innerMagic _ => ?_
          refine .pure fun base' inner' heq => ?_
          split at heq
          · cases heq
            exact ⟨by omega, hread⟩
          · cases heq
  · refine .pure fun base inner heq => ?_
    split at heq
    · cases heq
      exact ⟨Nat.zero_le _, hheader⟩
    · cases heq

theorem classify_frame (magic containerType contentType contentFlags : Nat) (info : Info) :
    (classify magic containerType contentType contentFlags info).titleId = info.titleId ∧
      info.SameIcon (classify magic containerType contentType contentFlags info) := by
  have hdefault : ∀ (name : String) (info : Info),
      (defaultCategory name info).titleId = info.titleId ∧
        info.SameIcon (defaultCategory name info) := by
    intro name info
    unfold defaultCategory
    split
    · exact ⟨rfl, rfl, rfl⟩
    · exact ⟨rfl, rfl, rfl⟩
  unfold classify
  dsimp only
  generalize hkind : (if contentType ∈ [0x1B, 0x1C, 0x21] then _ else _ : Info) = kinded
  have hframe : kinded.titleId = info.titleId ∧ info.SameIcon kinded := by
    rw [← hkind]
    split
    · exact hdefault _ _
    · split
      · exact hdefault _ _
      · exact hdefault _ _
  split
  · exact hframe
  · exact hframe

/-- What holds of the information of an accepted package. -/
theorem finishPackage_accepts {path : Text} {containerType contentType contentFlags : Nat}
    (h : (finishPackage path magic containerType contentType contentFlags info).2 = true) :
    let accepted := (finishPackage path magic containerType contentType contentFlags info).1
    isSupportedGameTitleId accepted.titleId = true ∧
      kindIsInstallable accepted.pkgKind = true ∧ info.SameIcon accepted := by
  unfold finishPackage at h ⊢
  dsimp only at h ⊢
  split at h
  · cases h
  · rename_i hcontent
    rw [if_neg hcontent]
    have htitled : info.SameIcon (if info.titleId = [] then
        { info with titleId := (contentTitleId info.contentId).getD [] } else info) := by
      split
      · exact ⟨rfl, rfl⟩
      · exact ⟨rfl, rfl⟩
    revert h htitled
    generalize (if info.titleId = [] then
        { info with titleId := (contentTitleId info.contentId).getD [] } else info) = titled
    intro h htitled
    split at h
    · cases h
    · rename_i htitle
      rw [if_neg htitle]
      obtain ⟨hsame, hicon⟩ := classify_frame magic containerType contentType contentFlags titled
      revert h
      rw [← hsame] at htitle
      generalize classify magic containerType contentType contentFlags titled = classified at *
      intro h
      split at h
      · cases h
      · rename_i hkind
        rw [if_neg hkind]
        simp only [Bool.or_eq_true, decide_eq_true_eq, Bool.not_eq_true', not_or,
          Bool.not_eq_false] at htitle hkind
        have hicon' := And.intro (hicon.1.trans htitled.1) (hicon.2.trans htitled.2)
        split
        · exact ⟨htitle.2, hkind.1, hicon'⟩
        · exact ⟨htitle.2, hkind.1, hicon'⟩

/-- An accepted package. -/
structure WellFormed (fileSize : Nat) (info : Info) : Prop where
  title : isSupportedGameTitleId info.titleId = true
  kind : kindIsInstallable info.pkgKind = true
  icon : info.iconOffset + info.iconSize ≤ fileSize

/-- The container is parsed inside of the file. -/
theorem parseContainer_safe {path : Text} {header : Bytes} (hbase : base ≤ fileSize)
    (hsize : fileSize < 2 ^ 64) (hheader : header.length = headerSize)
    (hinfo : Sound fileSize info) :
    Safe (parseContainer env path fileSize magic base header info) fun r =>
      r.2 = true → WellFormed fileSize r.1 := by
  have hlength : header.length = 160 := hheader
  have hrefused : ∀ info : Info, Safe (Pure.pure (info, false)) fun r : Info × Bool =>
      r.2 = true → WellFormed fileSize r.1 :=
    fun info => .pure nofun
  unfold parseContainer
  refine .bind (.readRange (by omega)) fun field hfield => ?_
  dsimp only
  split
  · exact hrefused info
  · rename_i hcontent
    have hfits : (untilZero field).length < Field.contentId.size := by omega
    refine .bind (.copyOut hfits) fun copied hcopied => ?_
    subst hcopied
    have hnamed : Sound fileSize (info.setText (toText (untilZero field)) .contentId) :=
      hinfo.of_sameIcon (hinfo.fits.setText (isCString_toText hfits (zero_notMem_untilZero _)))
        (Info.SameIcon.setText info _ _)
    split
    · exact hrefused _
    · refine .bind (readPkgSfo_safe hbase hsize hheader hnamed) fun r hr => ?_
      split
      · rename_i hfailed
        refine .pure fun htrue => ?_
        rw [htrue] at hfailed
        cases hfailed
      · refine .bind (readBe32_safe (by omega)) fun contentType _ => ?_
        refine .bind (readBe32_safe (by omega)) fun contentFlags _ => ?_
        refine .bind (readBe32_safe (by omega)) fun containerType _ => ?_
        refine .pure fun htrue => ?_
        obtain ⟨htitle, hkind, hicon⟩ := finishPackage_accepts htrue
        refine ⟨htitle, hkind, ?_⟩
        rw [hicon.1, hicon.2]
        exact hr.icon

/-- Whatever the file holds and however its reads and the memory fail, the package parser reads
only inside of the file, no sum wraps, and what it accepts is well formed. -/
theorem parsePackage_in_bounds (env : Environment) (path : Text) (st : SourceStat) (info : Info) :
    ∃ r, parsePackage env path st info = .ok r ∧
      (r.2 = true → WellFormed st.size.toNat r.1) := by
  have hsize : st.size.toNat < 2 ^ 64 := st.size.toNat_lt
  have hrefused : Safe (Pure.pure (info, false)) fun r : Info × Bool =>
      r.2 = true → WellFormed st.size.toNat r.1 :=
    .pure nofun
  show Safe (parsePackage env path st info) _
  unfold parsePackage
  split
  · exact hrefused
  · rename_i hheaderSize
    refine .bind (readAt_safe (by omega) (Nat.le_refl _)) fun header hheader => ?_
    cases header with
    | none => exact hrefused
    | some header =>
      have hread := hheader header rfl
      have hlength : header.length = 160 := hread
      refine .bind (readBe32_safe (by omega)) fun magic _ => ?_
      refine .bind (readBe32_safe (by omega)) fun outerType _ => ?_
      refine .bind (readBe32_safe (by omega)) fun outerFlags _ => ?_
      refine .bind (readContainer_safe hread) fun container hcontainer => ?_
      cases container with
      | none => exact hrefused
      | some container =>
        obtain ⟨base, inner⟩ := container
        obtain ⟨hbase, hinner⟩ := hcontainer base inner rfl
        refine parseContainer_safe hbase hsize hinner ⟨fun field => ?_, Nat.zero_le _⟩
        cases field <;> exact ⟨Field.size_pos _, by simp [initialInfo, Info.text]⟩

end ShadowMount.Pkg
