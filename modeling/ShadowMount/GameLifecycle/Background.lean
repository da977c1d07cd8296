import ShadowMount.Foundation.Positional
import ShadowMount.GameLifecycle.Model

/-!
# The background word

One atomic word tells other threads whether background work may go on and which title is live.
{lit}`sm_game_lifecycle_background_title` reads the title back out of the number that
{lit}`publish_background_game_state` has made of it.

Main results:

- Theorem {lit}`backgroundTitle_backgroundWord`: the title and the flag come back.
- Theorem {lit}`published_word_codec`: for two published words, that they decode, differ where
  the titles do, and are none of the reserved words.
-/

namespace ShadowMount.GameLifecycle

open Foundation

variable {title : Text} {pid : Int}

/-- The letters that the loop of `sm_game_lifecycle_background_title` fills in, from the
last one to the first. -/
def prefixLetters : Nat → Nat → Text
  | 0, _ => []
  | count + 1, letters =>
    prefixLetters count (letters / 26) ++ [Char.ofNat ('A'.toNat + letters % 26)]

/-- `snprintf` with `%05u`. -/
def fiveDigits (number : Nat) : Text := (Nat.toDigits 10 number).leftpad 5 '0'

/-- The title in the word, computed with numbers of 64 bits. -/
def wordTitle (state : Nat) : Text :=
  let identity := (state % 2 ^ 63 + (2 ^ 64 - backgroundTitleBase)) % 2 ^ 64
  prefixLetters 4 (identity / backgroundTitleRange) ++ fiveDigits (identity % backgroundTitleRange)

/-- `sm_game_lifecycle_background_title`: whether background work is allowed, and the text
left in the buffer. -/
def backgroundTitle (state : Nat) : Bool × Text :=
  (!wordBlocked state,
    if state = backgroundBlocked ∨ state = backgroundIdle then [] else wordTitle state)

/-- Places of characters in their alphabet. -/
def places (first : Char) (t : Text) : List Nat := t.map fun c => c.toNat - first.toNat

theorem places_lt {first last : Char} {t : Text}
    (h : t.all (fun c => first ≤ c && c ≤ last) = true) :
    ∀ d ∈ places first t, d < last.toNat - first.toNat + 1 := by
  intro d hd
  obtain ⟨c, hc, rfl⟩ := List.mem_map.mp hd
  have hrange := List.all_eq_true.mp h c hc
  simp only [Bool.and_eq_true, decide_eq_true_eq] at hrange
  have hlow : first.toNat ≤ c.toNat := UInt32.le_iff_toNat_le.mp hrange.1
  have hhigh : c.toNat ≤ last.toNat := UInt32.le_iff_toNat_le.mp hrange.2
  omega

theorem foldl_places (base : Nat) (first : Char) (t : Text) :
    t.foldl (fun n c => n * base + (c.toNat - first.toNat)) 0 = ofDigits base (places first t) := by
  rw [ofDigits, places, List.foldl_map]

theorem prefixLetters_eq (count letters : Nat) :
    prefixLetters count letters =
      (digitsOf 26 count letters).map fun d => Char.ofNat ('A'.toNat + d) := by
  induction count generalizing letters with
  | zero => rfl
  | succ count ih => rw [prefixLetters, digitsOf, List.map_append, ih, List.map_singleton]

theorem map_places {first last : Char} {write : Nat → Char} {t : Text}
    (hwrite : ∀ c : Char, first ≤ c → c ≤ last → write (c.toNat - first.toNat) = c)
    (h : t.all (fun c => first ≤ c && c ≤ last) = true) : (places first t).map write = t := by
  rw [places, List.map_map]
  refine (List.map_congr_left fun c hc => ?_).trans (List.map_id t)
  have hrange := List.all_eq_true.mp h c hc
  simp only [Bool.and_eq_true, decide_eq_true_eq] at hrange
  exact hwrite c hrange.1 hrange.2

theorem letter_of_place (c : Char) (hlow : 'A' ≤ c) (_ : c ≤ 'Z') :
    Char.ofNat ('A'.toNat + (c.toNat - 'A'.toNat)) = c := by
  have hle : 'A'.toNat ≤ c.toNat := UInt32.le_iff_toNat_le.mp hlow
  rw [Nat.add_sub_cancel' hle, Char.ofNat_toNat]

theorem digit_of_place (c : Char) (hlow : '0' ≤ c) (hhigh : c ≤ '9') :
    Nat.digitChar (c.toNat - '0'.toNat) = c := by
  have hlow' : '0'.toNat ≤ c.toNat := UInt32.le_iff_toNat_le.mp hlow
  have hhigh' : c.toNat ≤ '9'.toNat := UInt32.le_iff_toNat_le.mp hhigh
  have hzero : '0'.toNat = 48 := rfl
  have hnine : '9'.toNat = 57 := rfl
  apply Char.toNat_inj.mp
  rw [Nat.toNat_digitChar_of_lt_ten (by omega)]
  omega

/-- The two numbers in the word of a title. -/
structure Coded (title : Text) (letters number : Nat) : Prop where
  letters_lt : letters < 26 ^ 4
  number_lt : number < backgroundTitleRange
  word : titleWord title = backgroundTitleBase + letters * backgroundTitleRange + number
  title : prefixLetters 4 letters ++ fiveDigits number = title

/-- A supported title has letters and a number. -/
theorem coded_of_supported (h : isSupportedGameTitleId title = true) :
    ∃ letters number, Coded title letters number := by
  simp only [isSupportedGameTitleId, Bool.and_eq_true, decide_eq_true_eq] at h
  obtain ⟨⟨⟨hlength, hletters⟩, hdigits⟩, -⟩ := h
  have hfive : (title.drop 4).take 5 = title.drop 4 :=
    List.take_of_length_le (by rw [List.length_drop]; omega)
  have hfour : (places 'A' (title.take 4)).length = 4 := by simp [places, hlength]
  have hrest : (places '0' (title.drop 4)).length = 5 := by simp [places, hlength]
  have hbelow : ∀ d ∈ places 'A' (title.take 4), d < 26 := places_lt hletters
  have hbelow' : ∀ d ∈ places '0' (title.drop 4), d < 10 := places_lt hdigits
  have hlt := ofDigits_lt hbelow
  have hlt' := ofDigits_lt hbelow'
  rw [hfour] at hlt
  rw [hrest] at hlt'
  refine ⟨ofDigits 26 (places 'A' (title.take 4)), ofDigits 10 (places '0' (title.drop 4)),
    hlt, hlt', ?_, ?_⟩
  · unfold titleWord
    dsimp only
    rw [hfive, foldl_places, foldl_places]
  · have hback := digitsOf_ofDigits hbelow
    have hback' := digitsOf_ofDigits hbelow'
    rw [hfour] at hback
    rw [hrest] at hback'
    rw [prefixLetters_eq, hback, map_places letter_of_place hletters, fiveDigits,
      leftpad_toDigits (by decide) (by decide) hlt', hback', map_places digit_of_place hdigits,
      List.take_append_drop]

theorem Coded.word_bounds {letters number : Nat} (h : Coded title letters number) :
    backgroundTitleBase ≤ titleWord title ∧ titleWord title < 2 ^ 63 := by
  have hletters : letters * backgroundTitleRange ≤ 26 ^ 4 * backgroundTitleRange :=
    Nat.mul_le_mul_right _ (Nat.le_of_lt h.letters_lt)
  have hnumber := h.number_lt
  rw [h.word]
  simp only [backgroundTitleRange, backgroundTitleBase] at hletters hnumber ⊢
  omega

theorem lor_flag {word : Nat} (h : word < 2 ^ 63) : word ||| 2 ^ 63 = 2 ^ 63 + word := by
  rw [Nat.or_comm, ← Nat.one_shiftLeft, Nat.shiftLeft_add_eq_or_of_lt h 1]

theorem wordTitle_of_mod {state : Nat} (h : isSupportedGameTitleId title = true)
    (hstate : state % 2 ^ 63 = titleWord title) : wordTitle state = title := by
  obtain ⟨letters, number, hcoded⟩ := coded_of_supported h
  obtain ⟨hlow, hhigh⟩ := hcoded.word_bounds
  have hnumber := hcoded.number_lt
  have hidentity : (state % 2 ^ 63 + (2 ^ 64 - backgroundTitleBase)) % 2 ^ 64 =
      backgroundTitleRange * letters + number := by
    have hword := hcoded.word
    rw [Nat.mul_comm] at hword
    rw [hstate]
    simp only [backgroundTitleBase] at hword hlow ⊢
    omega
  have hrange : 0 < backgroundTitleRange := by decide
  unfold wordTitle
  dsimp only
  rw [hidentity, Nat.mul_add_div hrange, Nat.div_eq_of_lt hnumber, Nat.add_zero, Nat.mul_add_mod,
    Nat.mod_eq_of_lt hnumber]
  exact hcoded.title

theorem backgroundWord_of_supported (hpid : 0 < pid) (h : isSupportedGameTitleId title = true)
    (pending : Bool) :
    backgroundWord pid pending title = (if pending then 2 ^ 63 else 0) + titleWord title := by
  obtain ⟨letters, number, hcoded⟩ := coded_of_supported h
  unfold backgroundWord
  rw [if_pos ⟨hpid, h⟩]
  cases pending with
  | true => exact lor_flag hcoded.word_bounds.2
  | false => exact (Nat.zero_add _).symm

theorem backgroundWord_bounds (hpid : 0 < pid) (h : isSupportedGameTitleId title = true)
    (pending : Bool) :
    backgroundTitleBase ≤ backgroundWord pid pending title ∧
      backgroundWord pid pending title < 2 ^ 64 := by
  obtain ⟨letters, number, hcoded⟩ := coded_of_supported h
  obtain ⟨hlow, hhigh⟩ := hcoded.word_bounds
  rw [backgroundWord_of_supported hpid h]
  split <;> omega

theorem testBit_flag {word : Nat} (h : word < 2 ^ 63) (pending : Bool) :
    ((if pending then 2 ^ 63 else 0) + word).testBit 63 = pending := by
  cases pending with
  | true =>
    rw [if_pos rfl, Nat.testBit_two_pow_add_eq, Nat.testBit_lt_two_pow h]
    rfl
  | false =>
    rw [if_neg Bool.false_ne_true, Nat.zero_add, Nat.testBit_lt_two_pow h]

/-- The word is decoded to what was encoded. -/
theorem backgroundTitle_backgroundWord {pending : Bool} (hpid : 0 < pid)
    (h : isSupportedGameTitleId title = true) :
    backgroundTitle (backgroundWord pid pending title) = (!pending, title) := by
  obtain ⟨letters, number, hcoded⟩ := coded_of_supported h
  have hhigh := hcoded.word_bounds.2
  have hword := backgroundWord_of_supported hpid h pending
  have hfree : ¬backgroundWord pid pending title = backgroundBlocked ∧
      ¬backgroundWord pid pending title = backgroundIdle := by
    have hbase := (backgroundWord_bounds hpid h pending).1
    simp only [backgroundTitleBase, backgroundBlocked, backgroundIdle] at hbase ⊢
    omega
  have hmod : backgroundWord pid pending title % 2 ^ 63 = titleWord title := by
    rw [hword]
    split
    · rw [Nat.add_mod_left, Nat.mod_eq_of_lt hhigh]
    · rw [Nat.zero_add, Nat.mod_eq_of_lt hhigh]
  unfold backgroundTitle wordBlocked
  rw [if_neg (not_or.mpr hfree), wordTitle_of_mod h hmod, hword, testBit_flag hhigh, ← hword,
    decide_eq_false hfree.1, Bool.false_or]

/-- Whatever titles are live when two words are published, each word fits and tells its title and
its flag, two titles have two words, and none is a reserved word. -/
theorem published_word_codec (s t : Lifecycle) (wasActive wasActive' : Bool)
    (hpid : 0 < s.activePid) (htitle : isSupportedGameTitleId s.activeTitleId = true)
    (hpid' : 0 < t.activePid) (htitle' : isSupportedGameTitleId t.activeTitleId = true) :
    let word := (s.publishBackgroundGameState wasActive).backgroundState
    let word' := (t.publishBackgroundGameState wasActive').backgroundState
    word < 2 ^ 64 ∧ backgroundTitle word = (!s.handoffPending, s.activeTitleId) ∧
      (s.activeTitleId ≠ t.activeTitleId → word ≠ word') ∧
      word ≠ backgroundIdle ∧ word ≠ backgroundBlocked := by
  intro word word'
  obtain ⟨hbase, hfits⟩ := backgroundWord_bounds hpid htitle s.handoffPending
  have hdecode : backgroundTitle word = (!s.handoffPending, s.activeTitleId) :=
    backgroundTitle_backgroundWord hpid htitle
  have hdecode' : backgroundTitle word' = (!t.handoffPending, t.activeTitleId) :=
    backgroundTitle_backgroundWord hpid' htitle'
  refine ⟨hfits, hdecode, fun hne heq => hne ?_, Nat.ne_of_gt ?_, Nat.ne_of_gt ?_⟩
  · rw [heq, hdecode'] at hdecode
    exact (Prod.mk.inj hdecode).2.symm
  · exact Nat.lt_of_lt_of_le (by decide) hbase
  · exact Nat.lt_of_lt_of_le (by decide) hbase

/-- A game that is running and the same game in a pending exit of another. -/
theorem published_word_codec_two :
    let s := { Lifecycle.initial with
      activePid := 7, activeTitleId := "PPSA12345".toList, handoffPending := true }
    let t := { Lifecycle.initial with activePid := 8, activeTitleId := "CUSA00001".toList }
    let word := (s.publishBackgroundGameState false).backgroundState
    let word' := (t.publishBackgroundGameState true).backgroundState
    word < 2 ^ 64 ∧ backgroundTitle word = (false, "PPSA12345".toList) ∧
      ("PPSA12345".toList ≠ "CUSA00001".toList → word ≠ word') ∧
      word ≠ backgroundIdle ∧ word ≠ backgroundBlocked :=
  published_word_codec
    { Lifecycle.initial with
      activePid := 7, activeTitleId := "PPSA12345".toList, handoffPending := true }
    { Lifecycle.initial with activePid := 8, activeTitleId := "CUSA00001".toList } false true
    (by decide) (by decide) (by decide) (by decide)

end ShadowMount.GameLifecycle
