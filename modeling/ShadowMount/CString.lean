import ShadowMount.Foundation.Scan
import ShadowMount.Types

/-!
# C strings

The character classes and comparisons of the C library that the configuration
code relies on, in the C locale.  A text has one character per byte and no zero
byte.
-/

namespace ShadowMount

open Foundation

/-- `isspace`. -/
def isSpace (c : Char) : Bool :=
  c = ' ' || c = '\t' || c = '\n' || c = '\x0b' || c = '\x0c' || c = '\r'

/-- A control character, as `valid_text` and `sm_smb_validate` test it. -/
def isControl (c : Char) : Bool :=
  c.toNat < 32 || c.toNat = 127

/-- The text with its letters in lower case. -/
def fold (s : Text) : Text := s.map Char.toLower

/-- `strcasecmp` finds no difference. -/
def sameNoCase (a b : Text) : Bool := fold a = fold b

theorem sameNoCase_iff {a b : Text} : sameNoCase a b = true ↔ fold a = fold b := by
  simp [sameNoCase]

@[simp]
theorem fold_nil : fold [] = [] := rfl

theorem fold_append (a b : Text) : fold (a ++ b) = fold a ++ fold b :=
  List.map_append

@[simp]
theorem length_fold (s : Text) : (fold s).length = s.length :=
  List.length_map _

/-- The start of a comment. -/
def isCommentStart (c : Char) : Bool := c = '#' || c = ';'

theorem isUpper_eq (c : Char) :
    c.isUpper = decide ('A'.val ≤ c.val ∧ c.val ≤ 'Z'.val) := rfl

theorem isLower_eq (c : Char) :
    c.isLower = (decide ('a'.val ≤ c.val) && decide (c.val ≤ 'z'.val)) := rfl

theorem isAlpha_eq (c : Char) : c.isAlpha = (c.isUpper || c.isLower) := rfl

theorem toLower_of_not_isUpper {c : Char} (h : c.isUpper = false) : c.toLower = c := by
  unfold Char.toLower
  rw [dif_neg]
  simpa [isUpper_eq] using h

/-- An upper case letter has a lower case one. -/
theorem isLower_toLower {c : Char} (h : c.isUpper = true) : c.toLower.isLower = true := by
  have hupper : 'A'.val ≤ c.val ∧ c.val ≤ 'Z'.val := by simpa [isUpper_eq] using h
  have hlow : 65 ≤ c.val.toNat := UInt32.le_iff_toNat_le.mp hupper.1
  have hhigh : c.val.toNat ≤ 90 := UInt32.le_iff_toNat_le.mp hupper.2
  have hshift : ('a'.val - 'A'.val).toNat = 32 := by decide
  have hval : (c.val + ('a'.val - 'A'.val)).toNat = c.val.toNat + 32 := by
    rw [UInt32.toNat_add, hshift]
    omega
  unfold Char.toLower
  rw [dif_pos hupper]
  have hlow' : 'a'.val ≤ c.val + ('a'.val - 'A'.val) := by
    rw [UInt32.le_iff_toNat_le, hval]
    exact Nat.add_le_add_right hlow 32
  have hhigh' : c.val + ('a'.val - 'A'.val) ≤ 'z'.val := by
    rw [UInt32.le_iff_toNat_le, hval]
    exact Nat.add_le_add_right hhigh 32
  simpa [isLower_eq] using And.intro hlow' hhigh'

/-- A character that is no letter is the fold of itself only. -/
theorem toLower_eq_iff {c d : Char} (hd : d.isAlpha = false) : c.toLower = d ↔ c = d := by
  have hd' : d.isUpper = false ∧ d.isLower = false := by simpa [isAlpha_eq] using hd
  constructor
  · rintro rfl
    cases hc : c.isUpper with
    | true =>
      rw [isLower_toLower hc] at hd'
      cases hd'.2
    | false => exact (toLower_of_not_isUpper hc).symm
  · rintro rfl
    exact toLower_of_not_isUpper hd'.1

@[simp]
theorem isSpace_toLower (c : Char) : isSpace c.toLower = isSpace c := by
  simp [isSpace, toLower_eq_iff (d := ' ') rfl, toLower_eq_iff (d := '\t') rfl,
    toLower_eq_iff (d := '\n') rfl, toLower_eq_iff (d := '\x0b') rfl,
    toLower_eq_iff (d := '\x0c') rfl, toLower_eq_iff (d := '\r') rfl]

@[simp]
theorem isCommentStart_toLower (c : Char) : isCommentStart c.toLower = isCommentStart c := by
  simp [isCommentStart, toLower_eq_iff (d := '#') rfl, toLower_eq_iff (d := ';') rfl]

@[simp]
theorem isControl_toLower (c : Char) : isControl c.toLower = isControl c := by
  cases hupper : c.isUpper with
  | false => rw [toLower_of_not_isUpper hupper]
  | true =>
    have hlower := isLower_toLower hupper
    simp only [isUpper_eq, isLower_eq, Bool.and_eq_true, decide_eq_true_eq,
      UInt32.le_iff_toNat_le] at hupper hlower
    have hbefore : 65 ≤ c.toNat ∧ c.toNat ≤ 90 := hupper
    have hafter : 97 ≤ c.toLower.toNat ∧ c.toLower.toNat ≤ 122 := hlower
    simp only [isControl]
    rw [decide_eq_false (by omega), decide_eq_false (by omega), decide_eq_false (by omega),
      decide_eq_false (by omega)]

theorem dropWhile_isSpace_fold (s : Text) :
    (fold s).dropWhile isSpace = fold (s.dropWhile isSpace) := by
  induction s with
  | nil => rfl
  | cons c s ih =>
    simp only [fold, List.map_cons, List.dropWhile_cons, isSpace_toLower] at ih ⊢
    split
    · exact ih
    · rfl

theorem mem_of_fold_eq {a b : Text} (h : fold a = fold b) {d : Char} (hd : d.isAlpha = false)
    (hmem : d ∈ a) : d ∈ b := by
  have hfold : d ∈ fold a := by
    rw [fold, List.mem_map]
    exact ⟨d, hmem, (toLower_eq_iff hd).mpr rfl⟩
  rw [h, fold, List.mem_map] at hfold
  obtain ⟨c, hc, heq⟩ := hfold
  rw [← (toLower_eq_iff hd).mp heq]
  exact hc

end ShadowMount
