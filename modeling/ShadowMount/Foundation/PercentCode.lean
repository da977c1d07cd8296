import Mathlib.Data.List.Basic
import Mathlib.Data.List.Infix

/-!
# Foundation - Percent codes

Texts in which a character stands for itself or is written as a percent sign and two digits of base
sixteen, up to a question mark that ends them.  One text has many codes: every character may be
escaped, some must be.  The lengths of its codes are those between the shortest and three times its
own length, in steps of two.
-/

namespace ShadowMount.Foundation
namespace PercentCode

variable {c : Char} {t d text : List Char}

/-- The value of a digit of base sixteen. -/
def hexDigit (c : Char) : Option Nat :=
  if '0' ≤ c ∧ c ≤ '9' then some (c.toNat - '0'.toNat)
  else if 'a' ≤ c ∧ c ≤ 'f' then some (c.toNat - 'a'.toNat + 10)
  else if 'A' ≤ c ∧ c ≤ 'F' then some (c.toNat - 'A'.toNat + 10)
  else none

/-- The digits of base sixteen in upper case. -/
def hexChar (n : Nat) : Char := ("0123456789ABCDEF".toList)[n]?.getD '0'

def escape (c : Char) : List Char := ['%', hexChar (c.toNat / 16), hexChar (c.toNat % 16)]

/-- The code that leaves the plain characters as they are. -/
def encode (plain : Char → Bool) (text : List Char) : List Char :=
  text.flatMap fun c => if plain c then [c] else escape c

/-- One character in front of what is read behind it; a zero is refused. -/
def push (c : Char) (rest : Option (List Char)) : Option (List Char) :=
  if c = '\x00' then none else rest.map (c :: ·)

/-- Reading a code up to a question mark. -/
def decode : List Char → Option (List Char)
  | [] => some []
  | c :: rest =>
    if c = '?' then some []
    else if c = '%' then
      match rest with
      | high :: low :: rest =>
        match hexDigit high, hexDigit low with
        | some h, some l => push (Char.ofNat (16 * h + l)) (decode rest)
        | _, _ => none
      | _ => none
    else push c (decode rest)

theorem hexDigit_hexChar {n : Nat} (h : n < 16) : hexDigit (hexChar n) = some n := by
  have hall : ∀ n : Fin 16, hexDigit (hexChar n.val) = some n.val := by decide
  exact hall ⟨n, h⟩

theorem decode_query (rest : List Char) : decode ('?' :: rest) = some [] := by
  match rest with
  | [] => simp [decode]
  | [_] => simp [decode]
  | _ :: _ :: _ => rw [decode, if_pos rfl]

theorem decode_plain (hquery : c ≠ '?') (hpercent : c ≠ '%') (rest : List Char) :
    decode (c :: rest) = push c (decode rest) := by
  match rest with
  | [] => simp [decode, hquery, hpercent]
  | [_] => simp [decode, hquery, hpercent]
  | _ :: _ :: _ => rw [decode, if_neg hquery, if_neg hpercent]

theorem decode_escaped {high low : Char} {h l : Nat} (hhigh : hexDigit high = some h)
    (hlow : hexDigit low = some l) (rest : List Char) :
    decode ('%' :: high :: low :: rest) = push (Char.ofNat (16 * h + l)) (decode rest) := by
  rw [decode, if_neg (by decide), if_pos rfl]
  simp only [hhigh, hlow]

theorem push_of_ne (h : c ≠ '\x00') (rest : Option (List Char)) : push c rest = rest.map (c :: ·) :=
  if_neg h

theorem decode_escape (hbyte : c.toNat < 256) (hzero : c ≠ '\x00') (rest : List Char) :
    decode (escape c ++ rest) = (decode rest).map (c :: ·) := by
  have hvalue : 16 * (c.toNat / 16) + c.toNat % 16 = c.toNat := Nat.div_add_mod _ _
  show decode ('%' :: _ :: _ :: rest) = _
  rw [decode_escaped (hexDigit_hexChar (by omega)) (hexDigit_hexChar (Nat.mod_lt _ (by omega))),
    hvalue, Char.ofNat_toNat, push_of_ne hzero]

/-- The cases of a code that is read: it is empty or stopped, or it starts with a character that is
read on its own. -/
theorem decode_cases (h : decode t = some d) :
    (t = [] ∧ d = []) ∨ (∃ rest, t = '?' :: rest ∧ d = []) ∨
    (∃ c rest d', t = c :: rest ∧ d = c :: d' ∧ c ≠ '?' ∧ c ≠ '%' ∧ c ≠ '\x00' ∧
      decode rest = some d') ∨
    ∃ high low rest c d', t = '%' :: high :: low :: rest ∧ d = c :: d' ∧ high ≠ '?' ∧ low ≠ '?' ∧
      (∀ u, decode ('%' :: high :: low :: u) = (decode u).map (c :: ·)) ∧
      decode rest = some d' := by
  have hpush : ∀ c rest, push c (decode rest) = some d →
      c ≠ '\x00' ∧ ∃ d', d = c :: d' ∧ decode rest = some d' := by
    intro c rest hd
    unfold push at hd
    split at hd
    next => cases hd
    next hzero =>
      cases hrest : decode rest with
      | none =>
        rw [hrest] at hd
        cases hd
      | some d' =>
        rw [hrest] at hd
        cases hd
        exact ⟨hzero, d', rfl, rfl⟩
  have hhex : hexDigit '?' = none := by decide
  cases t with
  | nil =>
    cases h
    exact .inl ⟨rfl, rfl⟩
  | cons c rest =>
    by_cases hquery : c = '?'
    · subst hquery
      rw [decode_query] at h
      cases h
      exact .inr (.inl ⟨rest, rfl, rfl⟩)
    by_cases hpercent : c = '%'
    · subst hpercent
      match rest, h with
      | [], h => simp [decode] at h
      | [_], h => simp [decode] at h
      | high :: low :: rest, h =>
        cases hhigh : hexDigit high with
        | none => simp [decode, hhigh] at h
        | some v =>
          cases hlow : hexDigit low with
          | none => simp [decode, hhigh, hlow] at h
          | some w =>
            rw [decode_escaped hhigh hlow] at h
            obtain ⟨hzero, d', hd, hrest⟩ := hpush _ _ h
            refine .inr (.inr (.inr ⟨high, low, rest, _, d', rfl, hd, ?_, ?_, ?_, hrest⟩))
            · rintro rfl
              rw [hhex] at hhigh
              cases hhigh
            · rintro rfl
              rw [hhex] at hlow
              cases hlow
            · intro u
              rw [decode_escaped hhigh hlow, push_of_ne hzero]
    · rw [decode_plain hquery hpercent] at h
      obtain ⟨hzero, d', hd, hrest⟩ := hpush _ _ h
      exact .inr (.inr (.inl ⟨c, rest, d', rfl, hd, hquery, hpercent, hzero, hrest⟩))

/-- What stands before is read on its own. -/
theorem decode_append (h : decode t = some d) (hquery : '?' ∉ t) (u : List Char) :
    decode (t ++ u) = (decode u).map (d ++ ·) := by
  induction hn : t.length using Nat.strong_induction_on generalizing t d with
  | _ n ih =>
  rcases decode_cases h with ⟨rfl, rfl⟩ | ⟨rest, rfl, _⟩ |
    ⟨c, rest, d', rfl, rfl, hq, hp, hzero, hrest⟩ |
    ⟨high, low, rest, c, d', rfl, rfl, _, _, hread, hrest⟩
  · cases hu : decode u <;> simp [hu]
  · exact absurd (List.mem_cons_self ..) hquery
  · have hlater := ih rest.length (by simp [← hn]) hrest
      (fun hmem => hquery (List.mem_cons_of_mem _ hmem)) rfl
    rw [List.cons_append, decode_plain hq hp, hlater, push_of_ne hzero]
    simp [Option.map_map, Function.comp_def]
  · have hlater := ih rest.length (by simp [← hn]; omega) hrest
      (fun hmem => hquery (by simp [hmem])) rfl
    show decode ('%' :: high :: low :: (rest ++ u)) = _
    rw [hread, hlater]
    simp [Option.map_map, Function.comp_def]

/-- A code without a question mark has at least the length of its text and at most three times that
length, and differs from it by an even number. -/
theorem length_of_decode (h : decode t = some d) (hquery : '?' ∉ t) :
    d.length ≤ t.length ∧ t.length ≤ 3 * d.length ∧ t.length % 2 = d.length % 2 := by
  induction hn : t.length using Nat.strong_induction_on generalizing t d with
  | _ n ih =>
  rcases decode_cases h with ⟨rfl, rfl⟩ | ⟨rest, rfl, _⟩ |
    ⟨c, rest, d', rfl, rfl, _, _, _, hrest⟩ | ⟨high, low, rest, c, d', rfl, rfl, _, _, _, hrest⟩
  · simp only [List.length_nil] at hn ⊢
    omega
  · exact absurd (List.mem_cons_self ..) hquery
  · have hlater := ih rest.length (by simp [← hn]) hrest
      (fun hmem => hquery (List.mem_cons_of_mem _ hmem)) rfl
    simp only [List.length_cons] at hn ⊢
    omega
  · have hlater := ih rest.length (by simp [← hn]; omega) hrest
      (fun hmem => hquery (by simp [hmem])) rfl
    simp only [List.length_cons] at hn ⊢
    omega

/-- Only what stands before a question mark is read. -/
theorem decode_split (h : decode t = some d) :
    ∃ front, '?' ∉ front ∧ decode front = some d ∧
      (front = t ∨ (front ++ ['?']) <+: t) := by
  induction hn : t.length using Nat.strong_induction_on generalizing t d with
  | _ n ih =>
  rcases decode_cases h with ⟨rfl, rfl⟩ | ⟨rest, rfl, rfl⟩ |
    ⟨c, rest, d', rfl, rfl, hq, hp, hzero, hrest⟩ |
    ⟨high, low, rest, c, d', rfl, rfl, hhigh, hlow, hread, hrest⟩
  · exact ⟨[], by simp, rfl, .inl rfl⟩
  · exact ⟨[], by simp, rfl, .inr ⟨rest, rfl⟩⟩
  · obtain ⟨front, hfront, hd, hbegins⟩ := ih rest.length (by simp [← hn]) hrest rfl
    refine ⟨c :: front, by simp [hfront, Ne.symm hq], ?_, ?_⟩
    · rw [decode_plain hq hp, hd, push_of_ne hzero]
      rfl
    · rcases hbegins with rfl | hbegins
      · exact .inl rfl
      · exact .inr (by simpa using hbegins)
  · obtain ⟨front, hfront, hd, hbegins⟩ := ih rest.length (by simp [← hn]; omega) hrest rfl
    refine ⟨'%' :: high :: low :: front, by simp [hfront, Ne.symm hhigh, Ne.symm hlow], ?_, ?_⟩
    · rw [hread, hd]
      rfl
    · rcases hbegins with rfl | hbegins
      · exact .inl rfl
      · exact .inr (by simpa using hbegins)

/-- A question mark ends what is read. -/
theorem decode_of_prefix {front : List Char} (h : decode front = some d) (hquery : '?' ∉ front)
    (hbegins : (front ++ ['?']) <+: t) : decode t = some d := by
  obtain ⟨rest, rfl⟩ := hbegins
  have hstop : decode (['?'] ++ rest) = some [] := decode_query rest
  rw [List.append_assoc, decode_append h hquery, hstop, Option.map_some, List.append_nil]

section Codes

variable {plain : Char → Bool}

/-- The plain characters stand for themselves. -/
def Unescaped (plain : Char → Bool) : Prop :=
  ∀ c, plain c = true → c ≠ '?' ∧ c ≠ '%' ∧ c ≠ '\x00'

/-- The characters of a text that has codes. -/
def Codable (text : List Char) : Prop := ∀ c ∈ text, c.toNat < 256 ∧ c ≠ '\x00'

instance (text : List Char) : Decidable (Codable text) :=
  List.decidableBAll (fun c : Char => c.toNat < 256 ∧ c ≠ '\x00') text

theorem encode_cons (c : Char) (text : List Char) :
    encode plain (c :: text) = (if plain c then [c] else escape c) ++ encode plain text :=
  List.flatMap_cons

theorem encode_append (a b : List Char) :
    encode plain (a ++ b) = encode plain a ++ encode plain b :=
  List.flatMap_append

/-- The characters that codes are made of. -/
def IsCode (plain : Char → Bool) (t : List Char) : Prop :=
  ∀ c ∈ t, plain c = true ∨ c = '%' ∨ (hexDigit c).isSome

theorem IsCode.escape_append (hbyte : c.toNat < 256) (h : IsCode plain t) :
    IsCode plain (escape c ++ t) := by
  intro x hx
  rw [escape, List.cons_append, List.cons_append, List.cons_append, List.nil_append,
    List.mem_cons, List.mem_cons, List.mem_cons] at hx
  rcases hx with rfl | rfl | rfl | hx
  · exact .inr (.inl rfl)
  · exact .inr (.inr (by rw [hexDigit_hexChar (by omega)]; rfl))
  · exact .inr (.inr (by rw [hexDigit_hexChar (Nat.mod_lt _ (by omega))]; rfl))
  · exact h x hx

theorem IsCode.not_query (hplain : Unescaped plain) (h : IsCode plain t) : '?' ∉ t := by
  intro hmem
  rcases h _ hmem with hc | hc | hc
  · exact (hplain _ hc).1 rfl
  · cases hc
  · exact absurd hc (by decide)

/-- Every length between that of the shortest code and three times that of the text is the length of
a code, when the difference is even. -/
theorem exists_code_of_length (hplain : Unescaped plain) (h : Codable text) {n : Nat}
    (hmin : (encode plain text).length ≤ n) (hmax : n ≤ 3 * text.length)
    (heven : n % 2 = text.length % 2) :
    ∃ t, decode t = some text ∧ IsCode plain t ∧ t.length = n := by
  have hlong : ∀ text : List Char, (encode plain text).length ≤ 3 * text.length := by
    intro text
    induction text with
    | nil => simp [encode]
    | cons c text ih =>
      rw [encode_cons, List.length_append]
      split
      · simp only [List.length_cons, List.length_nil]
        omega
      · simp only [escape, List.length_cons, List.length_nil]
        omega
  induction text generalizing n with
  | nil =>
    simp at hmax
    subst hmax
    exact ⟨[], rfl, by simp [IsCode], rfl⟩
  | cons c text ih =>
    have hc := h c (List.mem_cons_self ..)
    have hrest : Codable text := fun x hx => h x (List.mem_cons_of_mem _ hx)
    have hbound := hlong text
    rw [encode_cons, List.length_append] at hmin
    simp only [List.length_cons] at hmax heven
    by_cases hescaped : plain c = true ∧ n ≤ 3 * text.length + 1
    · have hlength : (if plain c then [c] else escape c).length = 1 := by
        rw [if_pos hescaped.1]; rfl
      obtain ⟨t, hd, hcode, hn⟩ := ih hrest (n := n - 1) (by omega) (by omega) (by omega)
      have hself := hplain c hescaped.1
      refine ⟨c :: t, ?_, ?_, by simp; omega⟩
      · rw [decode_plain hself.1 hself.2.1, hd, push_of_ne hself.2.2]
        rfl
      · intro x hx
        rcases List.mem_cons.mp hx with rfl | hx
        · exact .inl hescaped.1
        · exact hcode x hx
    · have hlength : (encode plain text).length + 3 ≤ n := by
        split at hmin
        next hp =>
          have hn : ¬ n ≤ 3 * text.length + 1 := fun hle => hescaped ⟨hp, hle⟩
          omega
        next =>
          simp only [escape, List.length_cons, List.length_nil] at hmin
          omega
      obtain ⟨t, hd, hcode, hn⟩ := ih hrest (n := n - 3) (by omega) (by omega) (by omega)
      refine ⟨escape c ++ t, ?_, hcode.escape_append hc.1, by simp [escape]; omega⟩
      rw [decode_escape hc.1 hc.2, hd]
      rfl

/-- Reading an encoded text gives it back. -/
theorem decode_encode (hplain : Unescaped plain) (h : Codable text) :
    decode (encode plain text) = some text := by
  induction text with
  | nil => rfl
  | cons c text ih =>
    have hc := h c (List.mem_cons_self ..)
    have hrest := ih fun x hx => h x (List.mem_cons_of_mem _ hx)
    rw [encode_cons]
    split
    next hp =>
      have hself := hplain c hp
      rw [List.singleton_append, decode_plain hself.1 hself.2.1, hrest, push_of_ne hself.2.2]
      rfl
    next =>
      rw [decode_escape hc.1 hc.2, hrest]
      rfl

/-- What is encoded is a code. -/
theorem isCode_encode (h : Codable text) : IsCode plain (encode plain text) := by
  induction text with
  | nil => simp [IsCode, encode]
  | cons c text ih =>
    have hc := h c (List.mem_cons_self ..)
    have hrest := ih fun x hx => h x (List.mem_cons_of_mem _ hx)
    rw [encode_cons]
    split
    next hp =>
      intro x hx
      rcases List.mem_cons.mp hx with rfl | hx
      · exact .inl hp
      · exact hrest x hx
    next => exact hrest.escape_append hc.1

theorem length_le_encode (text : List Char) : text.length ≤ (encode plain text).length := by
  induction text with
  | nil => simp
  | cons c text ih =>
    rw [encode_cons, List.length_append, List.length_cons]
    split
    · simp only [List.length_cons, List.length_nil]
      omega
    · simp only [escape, List.length_cons, List.length_nil]
      omega

end Codes

end PercentCode
end ShadowMount.Foundation
