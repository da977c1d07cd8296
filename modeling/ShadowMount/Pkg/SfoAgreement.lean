import ShadowMount.Pkg.SfoBounds

/-!
# The two readers compared

The scanner takes a key for the one of the title id only if it ends inside of the key area.  The
package parser looks for the end of a key in the whole rest of the bytes, so it also takes a key
that runs on into the value area, and a later entry of that kind replaces the title id.

Main results:

- Theorem {lit}`sfo_readers_agree`: both readers are safe on every byte string; what the scanner
  accepts the package parser accepts, and the title ids are equal exactly when the last title
  id of the table is also the last one whose key ends inside of the key area.
- Theorem {lit}`sfo_readers_disagree`: a table that both accept with different title ids.
-/

namespace ShadowMount.Pkg

open Foundation

/-- The title id that the last suitable entry of the table holds is the one that the last
suitable entry with its key inside of the key area holds. -/
def TitlesAgree (data : Bytes) : Prop :=
  lastSome (titleAt data (keysOf data) (valuesOf data)) (List.range (countOf data)) =
    lastSome (innerTitleAt data (keysOf data) (valuesOf data)) (List.range (countOf data))

/-- The destinations as the callers hand them over. -/
def emptyGameText : GameText := ⟨[], []⟩

theorem emptyGameText_fits : emptyGameText.Fits :=
  ⟨⟨by decide, by decide⟩, ⟨by decide, by decide⟩⟩

/-- A title of the inner reader is one of the other. -/
theorem exists_title_of_inner {data : Bytes} {entries : List Nat} {title : Text}
    (h : lastSome (innerTitleAt data (keysOf data) (valuesOf data)) entries = some title) :
    ∃ title', lastSome (titleAt data (keysOf data) (valuesOf data)) entries = some title' := by
  obtain ⟨i, hi, hinner⟩ := exists_of_lastSome h
  cases hlast : lastSome (titleAt data (keysOf data) (valuesOf data)) entries with
  | some title' => exact ⟨title', rfl⟩
  | none =>
    have hnone := lastSome_eq_none_iff.mp hlast i hi
    unfold innerTitleAt at hinner
    rw [hnone] at hinner
    split at hinner <;> cases hinner

/-- Neither reader leaves the bytes or overruns a destination.  The package parser accepts what
the scanner accepts, and gets the same title id exactly when no key that runs out of the key
area gives the last one. -/
theorem sfo_readers_agree (data : Bytes) :
    (∀ out : GameText, out.Fits → ∃ r, parseGameSfo data out = .ok r ∧ r.1.Fits) ∧
    (∀ info : Info, info.Fits → ∃ r, parseSfo data info = .ok r ∧ r.1.Fits) ∧
    ∀ (info : Info) (out : GameText), info.Fits →
      parseGameSfo data emptyGameText = .ok (out, true) →
      ∃ info', parseSfo data info = .ok (info', true) ∧
        (info'.titleId = out.id ↔ TitlesAgree data) := by
  refine ⟨fun out hout => ?_, fun info hinfo => ?_, fun info out hinfo haccepted => ?_⟩
  · obtain ⟨r, hr, hfits, -⟩ := parseGameSfo_safe data hout
    exact ⟨r, hr, hfits⟩
  · obtain ⟨r, hr, hfits, -⟩ := parseSfo_safe data hinfo
    exact ⟨r, hr, hfits⟩
  · obtain ⟨r, hr, -, hok⟩ := parseGameSfo_safe data emptyGameText_fits
    rw [haccepted] at hr
    cases hr
    obtain ⟨hdata, hsupported, hid⟩ := hok rfl
    obtain ⟨r, hr, -, -, hparsed⟩ := parseSfo_safe data hinfo
    obtain ⟨htrue, hid'⟩ := hparsed hdata
    obtain ⟨info', ok⟩ := r
    cases htrue
    refine ⟨info', hr, ?_⟩
    -- An accepted table has a title id inside of the key area.
    cases hinner : lastSome (innerTitleAt data (keysOf data) (valuesOf data))
        (List.range (countOf data)) with
    | none =>
      have hempty : out.id = [] := by
        rw [hinner] at hid
        exact hid
      rw [hempty] at hsupported
      cases hsupported
    | some title =>
      obtain ⟨title', htitle'⟩ := exists_title_of_inner hinner
      have hout : out.id = title := by
        rw [hinner] at hid
        exact hid
      have hinfo' : info'.titleId = title' := by
        rw [htitle'] at hid'
        exact hid'
      unfold TitlesAgree
      rw [hinner, htitle', hout, hinfo', Option.some.injEq]

theorem zeroInfo_fits : zeroInfo.Fits := by
  intro field
  cases field <;> exact ⟨by decide, by decide⟩

/-- A table with one entry, the title id `CUSA00001`. -/
def plainSfo : Bytes :=
  [0] ++ ascii "PSF" ++ [1, 1, 0, 0] ++ [36, 0, 0, 0] ++ [45, 0, 0, 0] ++ [1, 0, 0, 0] ++
    [0, 0, 4, 2] ++ [10, 0, 0, 0] ++ [10, 0, 0, 0] ++ [0, 0, 0, 0] ++
    keyBytes "TITLE_ID" ++ keyBytes "CUSA00001"

theorem sfo_readers_agree_plain :
    ∃ info', parseSfo plainSfo zeroInfo = .ok (info', true) ∧
      (info'.titleId = "CUSA00001".toList ↔ TitlesAgree plainSfo) :=
  (sfo_readers_agree plainSfo).2.2 zeroInfo ⟨"CUSA00001".toList, []⟩ zeroInfo_fits
    (by decide +kernel)

/-- Two entries: `TITLE_ID` in the key area with the text `CUSA00001`, and a key at
the end of the key area whose last byte is the first one of the value area, with the text
`CUSA00002`. -/
def straddlingSfo : Bytes :=
  [0] ++ ascii "PSF" ++ [1, 1, 0, 0] ++ [52, 0, 0, 0] ++ [69, 0, 0, 0] ++ [2, 0, 0, 0] ++
    [0, 0, 4, 2] ++ [10, 0, 0, 0] ++ [10, 0, 0, 0] ++ [1, 0, 0, 0] ++
    [9, 0, 4, 2] ++ [10, 0, 0, 0] ++ [10, 0, 0, 0] ++ [11, 0, 0, 0] ++
    keyBytes "TITLE_ID" ++ ascii "TITLE_ID" ++ [0] ++ keyBytes "CUSA00001" ++ keyBytes "CUSA00002"

/-- The scanner takes the first entry, the package parser ends with the second. -/
theorem sfo_readers_disagree :
    ¬ ∀ out, parseGameSfo straddlingSfo emptyGameText = .ok (out, true) →
      ∃ info', parseSfo straddlingSfo zeroInfo = .ok (info', true) ∧ info'.titleId = out.id := by
  intro h
  have hscanned : parseGameSfo straddlingSfo emptyGameText =
      .ok (⟨"CUSA00001".toList, []⟩, true) := by
    decide +kernel
  have hparsed : parseSfo straddlingSfo zeroInfo =
      .ok ({ zeroInfo with titleId := "CUSA00002".toList }, true) := by
    decide +kernel
  obtain ⟨info', hinfo', hid⟩ := h _ hscanned
  rw [hparsed] at hinfo'
  cases hinfo'
  exact absurd hid (by decide)

end ShadowMount.Pkg
