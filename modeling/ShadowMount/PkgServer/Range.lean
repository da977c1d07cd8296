import ShadowMount.CString

/-!
# Package server - Range headers

{lit}`parse_range` of {lit}`sm_pkg_server.c`, and what {lit}`serve_file` answers to a request with
or without a range, against the forms of a single range and what the HTTP standard
selects for each of them.

Main results:

- Theorem {lit}`rangeRequests_exact`: every request with a range is answered by the selected
  part, or refused.
-/

namespace ShadowMount.PkgServer

open Foundation

variable {total start last n : Nat} {a : Text}

/-- `strtoull` in base 10: the number, none when it is out of range, and what is left. -/
def strtoull (text : Text) : Option Nat × Text :=
  let body := text.dropWhile isSpace
  let negative := body.head? = some '-'
  let unsigned := if body.head? = some '-' ∨ body.head? = some '+' then body.drop 1 else body
  let (digits, rest) := cut (fun c => !c.isDigit) unsigned
  let value := Nat.ofDigitChars 10 digits 0
  if digits = [] then (some 0, text)
  else if 2 ^ 64 ≤ value then (none, rest)
  else (some (if negative then (2 ^ 64 - value) % 2 ^ 64 else value), rest)

/-- The text starts with a digit. -/
def startsWithDigit (text : Text) : Bool := text.head?.any Char.isDigit

/-- The part of `parse_range` behind the unit. -/
def parseRangeBody (body : Text) (total : Nat) : Option (Nat × Nat) :=
  match cut (· = '-') body with
  | (_, []) => none
  | (before, dash :: after) =>
    if after.contains ',' then none
    else if before = [] then
      if !startsWithDigit after then none
      else
        match strtoull after with
        | (some suffix, []) =>
          if suffix = 0 then none
          else some (total - (if total < suffix then total else suffix), total - 1)
        | _ => none
    else if !startsWithDigit body then none
    else
      match strtoull body with
      | (some first, rest) =>
        if rest ≠ dash :: after || total ≤ first then none
        else if after = [] then some (first, total - 1)
        else if !startsWithDigit after then none
        else
          match strtoull after with
          | (some last, []) =>
            if last < first then none
            else some (first, if total ≤ last then total - 1 else last)
          | _ => none
      | (none, _) => none

/-- `parse_range`: the first and the last byte. -/
def parseRange (value : Text) (total : Nat) : Option (Nat × Nat) :=
  if total = 0 || fold (value.take 6) ≠ "bytes=".toList then none
  else parseRangeBody (value.drop 6) total

/-- What is answered to a request for the file. -/
inductive Reply where
  /-- `206 Partial Content` with the first and the last byte. -/
  | partialContent (start last : Nat)
  /-- `200 OK`. -/
  | content
  /-- `416 Range Not Satisfiable`. -/
  | unsatisfiable
deriving DecidableEq

/-- The choice of the answer in `serve_file`. -/
def rangeReply (range : Option Text) (total : Nat) : Reply :=
  match range with
  | none => .content
  | some value =>
    match parseRange value total with
    | some (start, last) => .partialContent start last
    | none => .unsatisfiable

/-- The forms of a single range. -/
inductive RangeSpec where
  | span (first last : Nat)
  | onward (first : Nat)
  | suffix (count : Nat)
deriving DecidableEq

/-- The part of a file that a range selects; none when it is not satisfiable. -/
def RangeSpec.select (total : Nat) : RangeSpec → Option (Nat × Nat)
  | .span first last =>
    if first ≤ last ∧ first < total then some (first, min last (total - 1)) else none
  | .onward first => if first < total then some (first, total - 1) else none
  | .suffix count =>
      if 0 < count ∧ 0 < total then some (total - min count total, total - 1) else none

/-- Its numbers have 64 bits. -/
def RangeSpec.Fits : RangeSpec → Prop
  | .span first last => first < 2 ^ 64 ∧ last < 2 ^ 64
  | .onward first => first < 2 ^ 64
  | .suffix count => count < 2 ^ 64

/-- A text of one or more digits, and the number it stands for. -/
structure Numeral (text : Text) (n : Nat) : Prop where
  nonempty : text ≠ []
  digits : ∀ c ∈ text, c.isDigit = true
  value : Nat.ofDigitChars 10 text 0 = n

/-- The spellings of a range. -/
inductive Spells : RangeSpec → Text → Prop where
  | span {a b : Text} {first last : Nat} (ha : Numeral a first) (hb : Numeral b last) :
      Spells (.span first last) (a ++ '-' :: b)
  | onward {a : Text} {first : Nat} (ha : Numeral a first) : Spells (.onward first) (a ++ ['-'])
  | suffix {a : Text} {count : Nat} (ha : Numeral a count) : Spells (.suffix count) ('-' :: a)

/-- A header with one range of bytes; the unit is in any letter case. -/
def HeaderSpells (spec : RangeSpec) (value : Text) : Prop :=
  ∃ unit text, sameNoCase unit "bytes".toList = true ∧ value = unit ++ '=' :: text ∧
    Spells spec text

/-- What is selected is a part of the file. -/
theorem RangeSpec.select_bounds {spec : RangeSpec} (h : spec.select total = some (start, last)) :
    start ≤ last ∧ last < total := by
  cases spec with
  | span first stop =>
    simp only [select] at h
    split at h
    · cases h
      omega
    · cases h
  | onward first =>
    simp only [select] at h
    split at h
    · cases h
      omega
    · cases h
  | suffix count =>
    simp only [select] at h
    split at h
    · cases h
      omega
    · cases h

theorem not_isSpace_of_isDigit {c : Char} (h : c.isDigit = true) : isSpace c = false := by
  have hlow : 48 ≤ c.toNat := by
    simp only [Char.isDigit, Bool.and_eq_true, decide_eq_true_eq] at h
    exact UInt32.le_iff_toNat_le.mp h.1
  have hne : ∀ d : Char, d.toNat < 48 → c ≠ d := by
    rintro d hd rfl
    omega
  simp [isSpace, hne]

theorem Numeral.head {a : Text} {n : Nat} (h : Numeral a n) :
    ∃ c rest, a = c :: rest ∧ c.isDigit = true := by
  obtain ⟨c, rest, rfl⟩ := List.exists_cons_of_ne_nil h.nonempty
  exact ⟨c, rest, rfl, h.digits c (List.mem_cons_self ..)⟩

theorem Numeral.startsWithDigit (h : Numeral a n) (rest : Text) :
    startsWithDigit (a ++ rest) = true := by
  obtain ⟨c, tail, rfl, hc⟩ := h.head
  simp [PkgServer.startsWithDigit, hc]

theorem strtoull_numeral {rest : Text} (h : Numeral a n)
    (hrest : ∀ c ∈ rest.head?, c.isDigit = false) :
    strtoull (a ++ rest) = (if 2 ^ 64 ≤ n then none else some n, rest) := by
  obtain ⟨c, tail, rfl, hc⟩ := h.head
  have hspace := not_isSpace_of_isDigit hc
  have hminus : c ≠ '-' := by
    rintro rfl
    cases hc
  have hplus : c ≠ '+' := by
    rintro rfl
    cases hc
  have hbody : (c :: tail ++ rest).dropWhile isSpace = c :: tail ++ rest := by
    simp [hspace]
  have hcut : cut (fun c => !c.isDigit) (c :: tail ++ rest) = (c :: tail, rest) := by
    refine cut_append ?_ ?_
    · intro d hd
      rw [h.digits d hd]
      rfl
    · intro d hd
      rw [hrest d hd]
      rfl
  unfold strtoull
  rw [hbody]
  simp only [List.cons_append, List.head?_cons, Option.some.injEq, hminus, hplus, or_self, if_false]
  rw [← List.cons_append, hcut]
  simp only [reduceCtorEq, if_false, h.value]
  split <;> rfl

theorem exists_numeral {text : Text} (h : startsWithDigit text = true) :
    ∃ a n rest, text = a ++ rest ∧ Numeral a n ∧ ∀ c ∈ rest.head?, c.isDigit = false := by
  refine ⟨(cut (fun c => !c.isDigit) text).1, _, (cut (fun c => !c.isDigit) text).2,
    (cut_fst_append_snd _ _).symm, ⟨?_, ?_, rfl⟩, ?_⟩
  · cases text with
    | nil => cases h
    | cons c rest =>
      have hc : c.isDigit = true := h
      simp [cut, hc]
  · intro c hc
    simpa using not_of_mem_cut_fst hc
  · intro c hc
    simpa using cut_snd_head hc

theorem Numeral.not_mem (h : Numeral a n) {c : Char} (hc : c.isDigit = false) : c ∉ a := by
  intro hmem
  rw [h.digits c hmem] at hc
  cases hc

theorem strtoull_whole {text : Text} (hdigit : startsWithDigit text = true)
    (h : strtoull text = (some n, [])) : Numeral text n ∧ n < 2 ^ 64 := by
  obtain ⟨a, m, rest, rfl, ha, hrest⟩ := exists_numeral hdigit
  rw [strtoull_numeral ha hrest, Prod.mk.injEq] at h
  obtain ⟨hvalue, rfl⟩ := h
  split at hvalue
  · cases hvalue
  · rename_i hfits
    cases hvalue
    rw [List.append_nil]
    exact ⟨ha, by omega⟩

theorem strtoull_of_numeral (h : Numeral a n) (hfits : n < 2 ^ 64) : strtoull a = (some n, []) := by
  have hend : ∀ c ∈ ([] : Text).head?, c.isDigit = false := by
    intro c hc
    cases hc
  have hread := strtoull_numeral h hend
  rwa [List.append_nil, if_neg (by omega)] at hread

/-- What is accepted is a range that fits. -/
theorem parseRangeBody_sound {body : Text} (htotal : total ≠ 0)
    (h : parseRangeBody body total = some (start, last)) :
    ∃ spec, Spells spec body ∧ spec.Fits ∧ spec.select total = some (start, last) := by
  have hparts := cut_fst_append_snd (· = '-') body
  have hhead := fun c => @cut_snd_head _ (· = '-') body c
  unfold parseRangeBody at h
  rcases hcut : cut (· = '-') body with ⟨before, _ | ⟨dash, after⟩⟩
  · rw [hcut] at h
    cases h
  rw [hcut] at h hparts hhead
  have hdash : dash = '-' := of_decide_eq_true (hhead dash rfl)
  subst hdash
  dsimp only at h hparts
  split at h
  · cases h
  split at h
  · -- a suffix
    rename_i hbefore
    subst hbefore
    rw [List.nil_append] at hparts
    split at h
    · cases h
    rename_i hdigit
    rw [Bool.not_eq_true, Bool.not_eq_false'] at hdigit
    split at h
    · rename_i suffix hread
      obtain ⟨hnumeral, hfits⟩ := strtoull_whole hdigit hread
      split at h
      · cases h
      rename_i hne
      refine ⟨.suffix suffix, hparts ▸ Spells.suffix hnumeral, hfits, ?_⟩
      rw [RangeSpec.select, if_pos (by omega), ← h]
      congr 3
      split <;> omega
    · cases h
  · -- the first byte is given
    rename_i hbefore
    split at h
    · cases h
    rename_i hdigit
    rw [Bool.not_eq_true, Bool.not_eq_false'] at hdigit
    obtain ⟨a, first, rest, hbody, ha, hrest⟩ := exists_numeral hdigit
    rw [hbody, strtoull_numeral ha hrest] at h
    split at h
    · rename_i value rest' hread
      rw [Prod.mk.injEq] at hread
      obtain ⟨hvalue, rfl⟩ := hread
      split at hvalue
      · cases hvalue
      rename_i hfits
      cases hvalue
      split at h
      · cases h
      rename_i hstop
      simp only [ne_eq, decide_not, Bool.or_eq_true, Bool.not_eq_true', decide_eq_false_iff_not,
        not_not, decide_eq_true_eq, not_or, Nat.not_le] at hstop
      obtain ⟨rfl, hfirst⟩ := hstop
      split at h
      · rename_i hafter
        subst hafter
        refine ⟨.onward first, hbody ▸ Spells.onward ha, Nat.lt_of_not_le hfits, ?_⟩
        rw [RangeSpec.select, if_pos hfirst, ← h]
      · split at h
        · cases h
        rename_i hdigit'
        rw [Bool.not_eq_true, Bool.not_eq_false'] at hdigit'
        split at h
        · rename_i stop hread
          obtain ⟨hb, hfits'⟩ := strtoull_whole hdigit' hread
          split at h
          · cases h
          rename_i hle
          refine ⟨.span first stop, hbody ▸ Spells.span ha hb, ⟨Nat.lt_of_not_le hfits, hfits'⟩, ?_⟩
          rw [RangeSpec.select, if_pos (by omega), ← h]
          congr 2
          split <;> omega
        · cases h
    · cases h

/-- A range that fits is accepted with its bytes. -/
theorem parseRangeBody_complete {body : Text} {spec : RangeSpec} (hspells : Spells spec body)
    (hfits : spec.Fits) (hselect : spec.select total = some (start, last)) :
    parseRangeBody body total = some (start, last) := by
  have hminus : ('-' : Char).isDigit = false := rfl
  have hcomma : (',' : Char).isDigit = false := rfl
  have hcut : ∀ {a : Text} {n : Nat}, Numeral a n → ∀ rest : Text,
      cut (· = '-') (a ++ '-' :: rest) = (a, '-' :: rest) := by
    intro a n ha rest
    refine cut_append ?_ ?_
    · intro c hc
      refine decide_eq_false ?_
      rintro rfl
      exact ha.not_mem hminus hc
    · intro c hc
      cases hc
      rfl
  have hrest : ∀ rest : Text, ∀ c ∈ ('-' :: rest).head?, c.isDigit = false := by
    intro rest c hc
    cases hc
    rfl
  cases hspells with
  | @suffix a count ha =>
    simp only [RangeSpec.select] at hselect
    split at hselect
    · rename_i hpos
      have hdash : cut (· = '-') ('-' :: a) = ([], '-' :: a) := rfl
      have hstart := ha.startsWithDigit []
      rw [List.append_nil] at hstart
      unfold parseRangeBody
      rw [hdash]
      simp only [List.contains_eq_mem, decide_eq_true_eq, ha.not_mem hcomma, if_false, if_true,
        hstart, Bool.not_true, Bool.false_eq_true, strtoull_of_numeral ha hfits]
      rw [if_neg (by omega), ← hselect]
      congr 3
      split <;> omega
    · cases hselect
  | @onward a first ha =>
    simp only [RangeSpec.select] at hselect
    split at hselect
    · rename_i hfirst
      unfold parseRangeBody
      rw [hcut ha []]
      have hread := strtoull_numeral ha (hrest [])
      have hvalue : ¬ 2 ^ 64 ≤ first := Nat.not_le.mpr hfits
      rw [if_neg hvalue] at hread
      simp only [List.contains_nil, Bool.false_eq_true, if_false, ha.nonempty,
        ha.startsWithDigit, Bool.not_true, hread]
      rw [← hselect]
      simp [hfirst]
    · cases hselect
  | @span a b first stop ha hb =>
    simp only [RangeSpec.select] at hselect
    split at hselect
    · rename_i hle
      have hread := strtoull_numeral ha (hrest b)
      have hvalue : ¬ 2 ^ 64 ≤ first := Nat.not_le.mpr hfits.1
      rw [if_neg hvalue] at hread
      have hstart := hb.startsWithDigit []
      rw [List.append_nil] at hstart
      unfold parseRangeBody
      rw [hcut ha b]
      simp only [List.contains_eq_mem, decide_eq_true_eq, hb.not_mem hcomma, if_false,
        ha.nonempty, ha.startsWithDigit, Bool.not_true, Bool.false_eq_true, hread, hb.nonempty,
        hstart, strtoull_of_numeral hb hfits.2]
      rw [← hselect, if_neg (by simp; omega), if_neg (by omega)]
      congr 2
      split <;> omega
    · cases hselect

theorem unit_iff (value : Text) : fold (value.take 6) = "bytes=".toList ↔
    ∃ unit, sameNoCase unit "bytes".toList = true ∧ value = unit ++ '=' :: value.drop 6 := by
  constructor
  · intro h
    have hlength : (value.take 6).length = 6 := by
      have hfold := congrArg List.length h
      rwa [length_fold] at hfold
    obtain ⟨unit, mark, hunit⟩ : ∃ unit mark, value.take 6 = unit ++ [mark] :=
      ⟨_, _, (List.dropLast_append_getLast
        (by intro hnil; rw [hnil] at hlength; cases hlength)).symm⟩
    rw [hunit, fold_append] at h
    have hsplit := List.append_inj' (h.trans (rfl : _ = "bytes".toList ++ ['='])) rfl
    have hmark : mark = '=' := by
      have heq : mark.toLower = '=' := by simpa [fold] using hsplit.2
      exact (toLower_eq_iff rfl).mp heq
    refine ⟨unit, ?_, ?_⟩
    · rw [sameNoCase_iff, hsplit.1]
      rfl
    · subst hmark
      calc value = value.take 6 ++ value.drop 6 := (List.take_append_drop 6 value).symm
        _ = unit ++ '=' :: value.drop 6 := by rw [hunit, List.append_assoc, List.singleton_append]
  · rintro ⟨unit, hunit, hvalue⟩
    rw [sameNoCase_iff] at hunit
    have hlength : unit.length = 5 := by
      have hfold := congrArg List.length hunit
      rwa [length_fold, length_fold] at hfold
    have htake : value.take 6 = unit ++ ['='] := by
      rw [hvalue, List.take_append, List.take_of_length_le (by omega), hlength]
      rfl
    rw [htake, fold_append, hunit]
    rfl

/-- A header is accepted exactly when it spells a range that fits 64 bits and selects a byte
of the file; the result is what it selects. -/
theorem parseRange_iff (value : Text) (total start last : Nat) :
    parseRange value total = some (start, last) ↔
      ∃ spec, HeaderSpells spec value ∧ spec.Fits ∧ spec.select total = some (start, last) := by
  constructor
  · intro h
    unfold parseRange at h
    split at h
    · cases h
    rename_i hguard
    simp only [ne_eq, decide_not, Bool.or_eq_true, decide_eq_true_eq, Bool.not_eq_true',
      decide_eq_false_iff_not, not_or, not_not] at hguard
    obtain ⟨unit, hunit, hvalue⟩ := (unit_iff value).mp hguard.2
    obtain ⟨spec, hspells, hfits, hselect⟩ := parseRangeBody_sound hguard.1 h
    exact ⟨spec, ⟨unit, _, hunit, hvalue, hspells⟩, hfits, hselect⟩
  · rintro ⟨spec, ⟨unit, text, hunit, hvalue, hspells⟩, hfits, hselect⟩
    have hlength : unit.length = 5 := by
      have hfold := congrArg List.length (sameNoCase_iff.mp hunit)
      rwa [length_fold, length_fold] at hfold
    have hdrop : value.drop 6 = text := by
      rw [hvalue, List.drop_append, List.drop_eq_nil_of_le (by omega), hlength]
      rfl
    have htotal : total ≠ 0 := by
      have hbounds := RangeSpec.select_bounds hselect
      omega
    have hfold := (unit_iff value).mpr ⟨unit, hunit, hdrop.symm ▸ hvalue⟩
    unfold parseRange
    rw [if_neg (by simp [htotal, hfold]), hdrop]
    exact parseRangeBody_complete hspells hfits hselect

/-- Range requests: a header is accepted exactly when it spells a single range that selects a
byte; the result is what the standard prescribes and lies in the file; it is served, and
every other header is answered by a refusal. -/
theorem rangeRequests_exact (value : Text) (total : Nat) :
    (∀ start last, parseRange value total = some (start, last) ↔
      ∃ spec, HeaderSpells spec value ∧ spec.Fits ∧ spec.select total = some (start, last)) ∧
    (∀ start last, rangeReply (some value) total = .partialContent start last ↔
      parseRange value total = some (start, last)) ∧
    (∀ start last, parseRange value total = some (start, last) → start ≤ last ∧ last < total) ∧
    ((∀ spec, HeaderSpells spec value → spec.Fits → spec.select total = none) →
      rangeReply (some value) total = .unsatisfiable) := by
  refine ⟨parseRange_iff value total, ?_, ?_, ?_⟩
  · intro start last
    cases hparse : parseRange value total with
    | none => simp [rangeReply, hparse]
    | some range =>
      obtain ⟨start', last'⟩ := range
      simp [rangeReply, hparse]
  · intro start last h
    obtain ⟨spec, -, -, hselect⟩ := (parseRange_iff value total start last).mp h
    exact RangeSpec.select_bounds hselect
  · intro hnone
    cases hparse : parseRange value total with
    | none => simp [rangeReply, hparse]
    | some range =>
      obtain ⟨start, last⟩ := range
      obtain ⟨spec, hspells, hfits, hselect⟩ := (parseRange_iff value total start last).mp hparse
      rw [hnone spec hspells hfits] at hselect
      cases hselect

example : parseRange "Bytes=5-99".toList 10 = some (5, 9) := by decide +kernel

end ShadowMount.PkgServer
