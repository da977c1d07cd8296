import ShadowMount.PkgServer.Request

/-!
# {lit}`sscanf`

The directives of a format string and what {lit}`sscanf` takes from a text for them.  A number is
kept as it is written; what an object of a C type gets of it is up to the caller.
-/

namespace ShadowMount

open PkgServer

/-- One directive of a format. -/
inductive Directive where
  /-- White space. -/
  | blank
  | literal (c : Char)
  /-- `%s` with its width. -/
  | field (width : Nat)
  /-- `%u`. -/
  | number
  /-- `%c`. -/
  | char
deriving DecidableEq

/-- What one conversion gives. -/
inductive Scanned where
  | field (text : Text)
  | number (n : Int)
  | char (c : Char)
deriving DecidableEq

/-- The digits that a text starts with, as a number, and what is left. -/
def scanDigits (text : Text) : Option (Nat × Text) :=
  let digits := text.takeWhile Char.isDigit
  if digits = [] then none else some (Nat.ofDigitChars 10 digits 0, text.drop digits.length)

/-- `%u`: an optional sign and decimal digits, as `strtoul` expects them. -/
def scanNumber (text : Text) : Option (Int × Text) :=
  match text.dropWhile isSpace with
  | '-' :: rest => (scanDigits rest).map fun (n, rest) => (-(n : Int), rest)
  | '+' :: rest => (scanDigits rest).map fun (n, rest) => ((n : Int), rest)
  | rest => (scanDigits rest).map fun (n, rest) => ((n : Int), rest)

/-- `sscanf`: what the conversions give until one of the directives fails.  The length of the
list is the result of the call. -/
def sscanf : List Directive → Text → List Scanned
  | [], _ => []
  | .blank :: format, text => sscanf format (text.dropWhile isSpace)
  | .literal c :: format, text =>
    match text with
    | [] => []
    | d :: rest => if d = c then sscanf format rest else []
  | .field width :: format, text =>
    match scanField width text with
    | none => []
    | some (field, rest) => .field field :: sscanf format rest
  | .number :: format, text =>
    match scanNumber text with
    | none => []
    | some (n, rest) => .number n :: sscanf format rest
  | .char :: format, text =>
    match text with
    | [] => []
    | c :: rest => .char c :: sscanf format rest

theorem scanNumber_dropWhile (text : Text) :
    scanNumber (text.dropWhile isSpace) = scanNumber text := by
  unfold scanNumber
  rw [List.dropWhile_idempotent]

theorem scanField_dropWhile (width : Nat) (text : Text) :
    scanField width (text.dropWhile isSpace) = scanField width text := by
  unfold scanField
  rw [List.dropWhile_idempotent]

/-- A number printed with zeros before it, `%0<width>u`. -/
def padded (width n : Nat) : Text := (Nat.toDigits 10 n).leftpad width '0'

theorem padded_eq (width n : Nat) : ∃ zeros, padded width n =
    List.replicate zeros '0' ++ Nat.toDigits 10 n :=
  ⟨_, rfl⟩

theorem isDigit_of_mem_padded {width n : Nat} {c : Char} (h : c ∈ padded width n) :
    c.isDigit = true := by
  obtain ⟨zeros, heq⟩ := padded_eq width n
  rw [heq, List.mem_append] at h
  rcases h with h | h
  · rw [List.eq_of_mem_replicate h]
    rfl
  · exact Nat.isDigit_of_mem_toDigits (by decide) (by decide) h

theorem ofDigitChars_padded (width n : Nat) : Nat.ofDigitChars 10 (padded width n) 0 = n := by
  obtain ⟨zeros, heq⟩ := padded_eq width n
  rw [heq, Nat.ofDigitChars_append, Nat.ofDigitChars_replicate_zero, Nat.mul_zero,
    Nat.ofDigitChars_ten_toDigits]

theorem padded_ne_nil (width n : Nat) : padded width n ≠ [] := by
  obtain ⟨zeros, heq⟩ := padded_eq width n
  rw [heq]
  simp [Nat.toDigits_ne_nil]

/-- The head of a text is no digit, or there is none. -/
def Stops (text : Text) : Prop := ∀ c ∈ text.head?, c.isDigit = false

/-- Padded digits are scanned as their number. -/
theorem scanDigits_padded {rest : Text} (h : Stops rest) (width n : Nat) :
    scanDigits (padded width n ++ rest) = some (n, rest) := by
  have htake : (padded width n ++ rest).takeWhile Char.isDigit = padded width n := by
    rw [List.takeWhile_append_of_pos fun c hc => isDigit_of_mem_padded hc]
    cases rest with
    | nil => simp
    | cons c rest => simp [h c rfl]
  unfold scanDigits
  simp only [htake, if_neg (padded_ne_nil width n), ofDigitChars_padded, List.drop_left]

/-- A number that was printed with zeros before it is read back. -/
theorem scanNumber_padded {front rest : Text} (hfront : ∀ c ∈ front, isSpace c = true)
    (h : Stops rest) (width n : Nat) :
    scanNumber (front ++ padded width n ++ rest) = some ((n : Int), rest) := by
  have hscan := scanDigits_padded h width n
  cases hdigits : padded width n with
  | nil => exact absurd hdigits (padded_ne_nil width n)
  | cons c digits =>
    have hdigit : c.isDigit = true := isDigit_of_mem_padded (hdigits ▸ List.mem_cons_self ..)
    have hspace : isSpace c = false := by
      cases hc : isSpace c with
      | false => rfl
      | true =>
        simp only [isSpace, Bool.or_eq_true, decide_eq_true_eq] at hc
        rcases hc with ((((rfl | rfl) | rfl) | rfl) | rfl) | rfl
        all_goals cases hdigit
    have hstrip : (front ++ c :: digits ++ rest).dropWhile isSpace = c :: (digits ++ rest) := by
      rw [List.append_assoc, List.dropWhile_append_of_pos hfront, List.cons_append,
        List.dropWhile_cons_of_neg (by simp [hspace])]
    have hminus : c ≠ '-' := by
      rintro rfl
      cases hdigit
    have hplus : c ≠ '+' := by
      rintro rfl
      cases hdigit
    rw [hdigits, List.cons_append] at hscan
    unfold scanNumber
    rw [hstrip]
    split
    next heq => exact absurd (List.cons.inj heq).1 hminus
    next heq => exact absurd (List.cons.inj heq).1 hplus
    next => rw [hscan, Option.map_some]

end ShadowMount
