import ShadowMount.Foundation.LastWrite
import ShadowMount.Pkg.Sfo

/-!
# The readers stay inside the buffer

What one entry of a system file object can do to each of the two readers, for every byte
string.  Neither reads outside the bytes or writes past the end of a destination; and with the
entry in bounds, both get the title id from the same bytes.
-/

namespace ShadowMount.Pkg

open Foundation

variable {bytes key data : Bytes} {size position keys values i : Nat} {info : Info} {field : Field}
  {out : GameText}

/-- A terminated text in a destination of a size. -/
def IsCString (size : Nat) (text : Text) : Prop := text.length < size ∧ '\x00' ∉ text

def Info.Fits (info : Info) : Prop := ∀ field : Field, IsCString field.size (info.text field)

def GameText.Fits (out : GameText) : Prop :=
  IsCString Field.titleId.size out.id ∧ IsCString Field.titleName.size out.name

theorem zero_notMem_toText (h : 0 ∉ bytes) : '\x00' ∉ toText bytes := by
  intro hmem
  obtain ⟨b, hb, hchar⟩ := List.mem_map.mp hmem
  have hvalid : b.toNat.isValidChar := .inl (Nat.lt_trans b.toNat_lt (by decide))
  have hnat : (Char.ofNat b.toNat).toNat = b.toNat := by
    unfold Char.ofNat
    rw [dif_pos hvalid]
    rfl
  have hzero : b.toNat = 0 := by
    rw [← hnat, hchar]
    rfl
  have hb0 : b = 0 := UInt8.toNat_inj.mp hzero
  exact h (hb0 ▸ hb)

theorem zero_notMem_untilZero (bytes : Bytes) : 0 ∉ untilZero bytes := by
  intro hmem
  have hne := not_of_mem_cut_fst hmem
  simp at hne

theorem isCString_toText (hsize : bytes.length < size) (hzero : 0 ∉ bytes) :
    IsCString size (toText bytes) :=
  ⟨by unfold toText; rwa [List.length_map], zero_notMem_toText hzero⟩

theorem Info.Fits.setText {text : Text} (h : info.Fits) (htext : IsCString field.size text) :
    (info.setText text field).Fits := by
  intro other
  by_cases hother : other = field
  · subst hother
    cases other <;> exact htext
  · cases field <;> cases other <;> first | exact absurd rfl hother | exact h _

theorem untilZero_append {front rest : Bytes} (h : 0 ∉ front) :
    untilZero (front ++ 0 :: rest) = front := by
  unfold untilZero
  rw [cut_append]
  · intro b hb
    rw [decide_eq_false_iff_not]
    rintro rfl
    exact h hb
  · intro b hb
    simpa [eq_comm] using hb

theorem exists_untilZero (h : 0 ∈ bytes) : ∃ rest, bytes = untilZero bytes ++ 0 :: rest := by
  have hsplit := cut_fst_append_snd (fun b : UInt8 => decide (b = 0)) bytes
  have hhead := @cut_snd_head _ (fun b : UInt8 => decide (b = 0)) bytes
  cases hrest : (cut (fun b : UInt8 => decide (b = 0)) bytes).2 with
  | nil =>
    rw [hrest, List.append_nil] at hsplit
    rw [← hsplit] at h
    exact absurd h (zero_notMem_untilZero bytes)
  | cons b rest =>
    rw [hrest] at hsplit hhead
    have hb : b = 0 := by simpa using hhead rfl
    rw [hb] at hsplit
    exact ⟨rest, hsplit.symm⟩

theorem untilZero_of_notMem (h : 0 ∉ bytes) : untilZero bytes = bytes := by
  have hsplit := @cut_append _ (fun b : UInt8 => decide (b = 0)) bytes []
    (fun b hb => by
      rw [decide_eq_false_iff_not]
      rintro rfl
      exact h hb)
    nofun
  rw [List.append_nil] at hsplit
  unfold untilZero
  rw [hsplit]

theorem untilZero_prefix (bytes : Bytes) :
    bytes.take (untilZero bytes).length = untilZero bytes := by
  have hsplit := cut_fst_append_snd (fun b : UInt8 => decide (b = 0)) bytes
  exact List.prefix_iff_eq_take.mp ⟨_, hsplit⟩ |>.symm

theorem length_untilZero_le (bytes : Bytes) : (untilZero bytes).length ≤ bytes.length := by
  rw [← untilZero_prefix, List.length_take]
  exact Nat.min_le_right _ _

theorem untilZero_take {k : Nat} (h : 0 ∈ bytes.take k) :
    untilZero (bytes.take k) = untilZero bytes := by
  obtain ⟨rest, hrest⟩ := exists_untilZero h
  have hsplit : bytes = untilZero (bytes.take k) ++ 0 :: (rest ++ bytes.drop k) := by
    have hall := List.take_append_drop k bytes
    rw [hrest] at hall
    simpa using hall.symm
  conv_rhs => rw [hsplit]
  rw [untilZero_append (zero_notMem_untilZero _)]

theorem untilZero_eq_iff (hzero : 0 ∈ bytes) (hkey : 0 ∉ key) :
    untilZero bytes = key ↔ bytes.take (key.length + 1) = key ++ [0] := by
  constructor
  · intro h
    obtain ⟨rest, hrest⟩ := exists_untilZero hzero
    rw [hrest, h, List.take_append, List.take_of_length_le (Nat.le_succ _)]
    simp
  · intro h
    have hsplit := List.take_append_drop (key.length + 1) bytes
    rw [h, List.append_assoc, List.singleton_append] at hsplit
    rw [← hsplit, untilZero_append hkey]

theorem slice_toEnd (data : Bytes) (start : Nat) :
    slice data start (data.length - start) = data.drop start := by
  unfold slice
  rw [← List.length_drop, List.take_length]

theorem slice_two_eq_iff {start n : Nat} (h : start + 2 ≤ data.length) (hn : n < 65536) :
    slice data start 2 = littleEndian 2 n ↔ numberAt data start 2 = n := by
  unfold numberAt
  constructor
  · intro heq
    rw [heq, ofLittleEndian_littleEndian hn]
  · intro heq
    rw [← heq]
    have hlength := littleEndian_ofLittleEndian (slice data start 2)
    rw [length_slice h] at hlength
    exact hlength.symm

/-- The place of an entry. -/
def entryAt (i : Nat) : Nat := 20 + i * 16

/-- The numbers of an entry. -/
def keyOf (data : Bytes) (i : Nat) : Nat := numberAt data (entryAt i) 2
def formatOf (data : Bytes) (i : Nat) : Nat := numberAt data (entryAt i + 2) 2
def lengthOf (data : Bytes) (i : Nat) : Nat := numberAt data (entryAt i + 4) 4
def valueOf (data : Bytes) (i : Nat) : Nat := numberAt data (entryAt i + 12) 4

/-- The entry holds a text. -/
def IsText (data : Bytes) (i : Nat) : Prop :=
  formatOf data i = 0x0004 ∨ formatOf data i = 0x0204

/-- The key of the entry. -/
def HasKey (data : Bytes) (keys i : Nat) (key : String) : Prop :=
  slice data (keys + keyOf data i) (keyBytes key).length = keyBytes key

/-- The text of the entry. -/
def textOf (data : Bytes) (values i : Nat) : Bytes :=
  untilZero (slice data (values + valueOf data i) (lengthOf data i))

/-- Key and value of the entry lie inside of the two areas. -/
structure InAreas (data : Bytes) (keys values i : Nat) : Prop where
  key : keys + keyOf data i < values
  value : values + valueOf data i + lengthOf data i ≤ data.length

theorem matchesKey_safe {room : Nat} (h : position + room ≤ data.length) :
    Safe (matchesKey data position room key)
      (· = decide (key.length ≤ room ∧ slice data position key.length = key)) := by
  unfold matchesKey
  split
  · rename_i hroom
    refine .pure ?_
    rw [eq_comm, decide_eq_false_iff_not]
    exact fun hkey => absurd hkey.1 (Nat.not_le_of_lt hroom)
  · rename_i hroom
    refine .bind (.readRange (by omega)) fun bytes hbytes => ?_
    subst hbytes
    refine .pure ?_
    rw [decide_eq_decide]
    exact ⟨fun heq => ⟨Nat.le_of_not_lt hroom, heq⟩, fun heq => heq.2⟩

/-- The title id is recognised by its key inside of the room; otherwise the entry goes to the
name or nowhere. -/
theorem gameField_safe {room : Nat} (h : position + room ≤ data.length) :
    Safe (gameField data position room) fun field =>
      (field = some .titleId ↔
        (keyBytes "TITLE_ID").length ≤ room ∧
          slice data position (keyBytes "TITLE_ID").length = keyBytes "TITLE_ID") ∧
      (field = none ∨ field = some .titleId ∨ field = some .titleName) := by
  unfold gameField
  refine .bind (matchesKey_safe h) fun isId hid => ?_
  subst hid
  split
  · rename_i hid
    exact .pure ⟨by simpa using hid, .inr (.inl rfl)⟩
  · rename_i hid
    refine .bind (matchesKey_safe h) fun isName _ => ?_
    have hid' : ¬ ((keyBytes "TITLE_ID").length ≤ room ∧
        slice data position (keyBytes "TITLE_ID").length = keyBytes "TITLE_ID") := by
      simpa using hid
    cases isName with
    | true => exact .pure ⟨by simpa using hid', .inr (.inr rfl)⟩
    | false => exact .pure ⟨by simpa using hid', .inl rfl⟩

theorem storeGameField_safe {flags length : Nat} (h : position + length ≤ data.length)
    (hout : out.Fits) (hfield : field = .titleId ∨ field = .titleName) :
    Safe (storeGameField data field flags position length out) fun r =>
      r.1.Fits ∧ (field = .titleName → r.2 = true ∧ r.1.id = out.id) ∧
        (field = .titleId → r.2 = true →
          (untilZero (slice data position length)).length < maxTitleId ∧
            r.1.id = toText (untilZero (slice data position length))) := by
  unfold storeGameField
  refine .bind (.readRange (by omega)) fun text htext => ?_
  split
  · refine .pure ⟨hout, fun hname => ?_, fun hid hok => ?_⟩
    · subst hname
      exact ⟨rfl, rfl⟩
    · subst hid
      cases hok
  · rename_i hkept
    -- What is copied is the text of the whole value.
    have hcopied : (if 0 ∈ text then (untilZero text).length else length) =
          (untilZero (slice data position length)).length ∧
        (untilZero (slice data position length)).length < field.size := by
      have htake : text = (slice data position length).take (min length field.size) := by
        rw [htext, take_slice data position (Nat.min_le_left _ _)]
      by_cases hzero : 0 ∈ text
      · have hwhole : untilZero text = untilZero (slice data position length) := by
          rw [htake] at hzero ⊢
          exact untilZero_take hzero
        rw [if_pos hzero, hwhole]
        refine ⟨rfl, ?_⟩
        obtain ⟨rest, hrest⟩ := exists_untilZero hzero
        have hlength : text.length ≤ min length field.size := by
          rw [htake, List.length_take]
          exact Nat.min_le_left _ _
        have hshort := congrArg List.length hrest
        rw [hwhole, List.length_append, List.length_cons] at hshort
        omega
      · have hlength : length < field.size := by
          by_contra hlong
          exact hkept (.inl ⟨hzero, .inr (Nat.le_of_not_lt hlong)⟩)
        rw [Nat.min_eq_left (Nat.le_of_lt hlength), List.take_of_length_le
          (length_slice_le data position length)] at htake
        rw [if_neg hzero, ← htake, untilZero_of_notMem hzero, htake, length_slice h]
        exact ⟨rfl, hlength⟩
    rw [hcopied.1]
    have hfront : (untilZero (slice data position length)).length ≤ length :=
      Nat.le_trans (length_untilZero_le _) (length_slice_le _ _ _)
    refine .bind (.readRange (by omega)) fun bytes hbytes => ?_
    have hbytes' : bytes = untilZero (slice data position length) := by
      rw [hbytes, ← take_slice data position hfront, untilZero_prefix]
    subst hbytes'
    refine .bind (.copyOut hcopied.2) fun copied hcopy => ?_
    subst hcopy
    have hfits := isCString_toText hcopied.2 (zero_notMem_untilZero _)
    refine .pure ?_
    rcases hfield with rfl | rfl
    · exact ⟨⟨hfits, hout.2⟩, nofun, fun _ _ => ⟨hcopied.2, rfl⟩⟩
    · exact ⟨⟨hout.1, hfits⟩, fun _ => ⟨rfl, rfl⟩, nofun⟩

/-- One entry of the scanner: an acceptable one lies in the areas, and changes the title id only
if its key is the one of the title id and ends inside of the key area. -/
theorem parseGameSfoEntry_safe (hi : entryAt i + 16 ≤ data.length) (hcount : i < 2 ^ 32)
    (hkeys : keys < values) (hvalues : values < data.length) (hsize : values < 2 ^ 32)
    (hout : out.Fits) :
    Safe (parseGameSfoEntry data keys values i out) fun r =>
      r.1.Fits ∧ (r.2 = true → InAreas data keys values i ∧
        ((IsText data i ∧ HasKey data keys i "TITLE_ID" ∧ keys + keyOf data i + 9 ≤ values) →
          (textOf data values i).length < maxTitleId ∧
            r.1.id = toText (textOf data values i)) ∧
        (¬ (IsText data i ∧ HasKey data keys i "TITLE_ID" ∧ keys + keyOf data i + 9 ≤ values) →
          r.1.id = out.id)) := by
  have hkeyLt : keyOf data i < 65536 := numberAt_two_lt data (entryAt i)
  have hlengthLt : lengthOf data i < 4294967296 := numberAt_four_lt data (entryAt i + 4)
  have hvalueLt : valueOf data i < 4294967296 := numberAt_four_lt data (entryAt i + 12)
  unfold parseGameSfoEntry
  unfold entryAt at hi
  refine .bind (.mul (by omega)) fun offset hoffset => ?_
  subst hoffset
  refine .bind (.add (by omega)) fun entry hentry => ?_
  subst hentry
  refine .bind (.readU16 (by omega)) fun key hkey => ?_
  refine .bind (.readRange (by omega)) fun kind hkind => ?_
  refine .bind (.readU32 (by omega)) fun length hlength => ?_
  refine .bind (.readU32 (by omega)) fun capacity _ => ?_
  refine .bind (.readU32 (by omega)) fun value hvalue => ?_
  refine .bind (.sub (Nat.le_of_lt hkeys)) fun keyRoom hkeyRoom => ?_
  refine .bind (.sub (Nat.le_of_lt hvalues)) fun valueRoom hvalueRoom => ?_
  have hkey' : key = keyOf data i := hkey
  have hlength' : length = lengthOf data i := hlength
  have hvalue' : value = valueOf data i := hvalue
  split
  · exact .pure ⟨hout, nofun⟩
  · rename_i hareas
    refine .bind (.sub (by omega)) fun rest hrest => ?_
    split
    · exact .pure ⟨hout, nofun⟩
    · rename_i hcapacity
      have hin : InAreas data keys values i := ⟨by omega, by omega⟩
      have hfour : kind = [4, 0] ↔ formatOf data i = 0x0004 := by
        rw [hkind]
        exact slice_two_eq_iff (n := 0x0004) (by omega) (by decide)
      have htwo : kind = [4, 2] ↔ formatOf data i = 0x0204 := by
        rw [hkind]
        exact slice_two_eq_iff (n := 0x0204) (by omega) (by decide)
      split
      · rename_i hother
        have htext : ¬ IsText data i := by
          unfold IsText
          rw [← hfour, ← htwo]
          tauto
        exact .pure ⟨hout, fun _ => ⟨hin, fun htitle => absurd htitle.1 htext, fun _ => rfl⟩⟩
      · rename_i hformat
        have htext : IsText data i := by
          unfold IsText
          rw [← hfour, ← htwo]
          tauto
        refine .bind (.add (by omega)) fun position hposition => ?_
        refine .bind (.sub (by omega)) fun room hroom => ?_
        refine .bind (gameField_safe (by omega)) fun field hfield => ?_
        obtain ⟨hisId, hcases⟩ := hfield
        have htitle : field = some .titleId ↔
            IsText data i ∧ HasKey data keys i "TITLE_ID" ∧ keys + keyOf data i + 9 ≤ values := by
          have hlen : (keyBytes "TITLE_ID").length = 9 := by decide
          rw [hisId, hlen, hposition, hkey']
          unfold HasKey
          rw [hlen]
          constructor
          · rintro ⟨hnine, hslice⟩
            exact ⟨htext, hslice, by omega⟩
          · rintro ⟨-, hslice, hnine⟩
            exact ⟨by omega, hslice⟩
        cases field with
        | none =>
          refine .pure ⟨hout, fun _ => ⟨hin, fun h => ?_, fun _ => rfl⟩⟩
          cases htitle.mpr h
        | some field =>
          have hfield : field = .titleId ∨ field = .titleName := by simpa using hcases
          refine .bind (.add (by omega)) fun position' hposition' => ?_
          refine (storeGameField_safe (by omega) hout hfield).mono fun r hr => ?_
          obtain ⟨hfits, hname, hid⟩ := hr
          refine ⟨hfits, fun hok => ⟨hin, fun h => ?_, fun h => ?_⟩⟩
          · have hkept := hid (Option.some.inj (htitle.mpr h)) hok
            rw [hposition', hvalue', hlength'] at hkept
            exact hkept
          · have hne : field ≠ .titleId := fun heq => h (htitle.mp (congrArg some heq))
            exact (hname (hfield.resolve_left hne)).2

instance (data : Bytes) (i : Nat) : Decidable (IsText data i) :=
  inferInstanceAs (Decidable (_ ∨ _))

instance (data : Bytes) (keys i : Nat) (key : String) : Decidable (HasKey data keys i key) :=
  inferInstanceAs (Decidable (_ = _))

/-- The title id of an entry, if it has one that fits. -/
def titleAt (data : Bytes) (keys values i : Nat) : Option Text :=
  if IsText data i ∧ HasKey data keys i "TITLE_ID" ∧
      (textOf data values i).length < maxTitleId then
    some (toText (textOf data values i))
  else none

/-- The title id of an entry whose key ends inside of the key area. -/
def innerTitleAt (data : Bytes) (keys values i : Nat) : Option Text :=
  if keys + keyOf data i + 9 ≤ values then titleAt data keys values i else none

/-- The numbers of the header. -/
def keysOf (data : Bytes) : Nat := numberAt data 8 4
def valuesOf (data : Bytes) : Nat := numberAt data 12 4
def countOf (data : Bytes) : Nat := numberAt data 16 4

theorem parseGameSfoEntries_safe (hkeys : keys < values) (hvalues : values < data.length)
    (hsize : values < 2 ^ 32) :
    ∀ (entries : List Nat) (out : GameText),
      (∀ i ∈ entries, entryAt i + 16 ≤ data.length ∧ i < 2 ^ 32) → out.Fits →
      Safe (parseGameSfoEntries data keys values entries out) fun r =>
        r.1.Fits ∧ (r.2 = true → (∀ i ∈ entries, InAreas data keys values i) ∧
          r.1.id = (lastSome (innerTitleAt data keys values) entries).getD out.id) := by
  intro entries
  induction entries with
  | nil =>
    intro out _ hout
    exact .pure ⟨hout, fun _ => ⟨by simp, rfl⟩⟩
  | cons i rest ih =>
    intro out hentries hout
    obtain ⟨hi, hcount⟩ := hentries i List.mem_cons_self
    refine .bind (parseGameSfoEntry_safe hi hcount hkeys hvalues hsize hout) fun r hr => ?_
    obtain ⟨hfits, hok⟩ := hr
    split
    · rename_i htrue
      obtain ⟨hin, htitle, hother⟩ := hok htrue
      refine (ih r.1 (fun j hj => hentries j (List.mem_cons_of_mem _ hj)) hfits).mono
        fun r' hr' => ?_
      refine ⟨hr'.1, fun htrue' => ?_⟩
      obtain ⟨hrest, hid⟩ := hr'.2 htrue'
      refine ⟨?_, ?_⟩
      · intro j hj
        rcases List.mem_cons.mp hj with rfl | hj
        · exact hin
        · exact hrest j hj
      · have hstep : r.1.id = (innerTitleAt data keys values i).getD out.id := by
          unfold innerTitleAt titleAt
          by_cases hinner : IsText data i ∧ HasKey data keys i "TITLE_ID" ∧
              keys + keyOf data i + 9 ≤ values
          · obtain ⟨hshort, hkept⟩ := htitle hinner
            rw [if_pos hinner.2.2, if_pos ⟨hinner.1, hinner.2.1, hshort⟩]
            exact hkept
          · rw [hother hinner]
            split
            · rename_i hend
              rw [if_neg fun h => hinner ⟨h.1, h.2.1, hend⟩]
              rfl
            · rfl
        rw [hid, lastSome_cons, hstep]
        cases lastSome (innerTitleAt data keys values) rest <;> rfl
    · rename_i hfalse
      exact .pure ⟨hfits, fun htrue => absurd htrue hfalse⟩

/-- What the scanner has checked of a table that it accepts. -/
structure Accepted (data : Bytes) : Prop where
  header : 20 ≤ data.length
  magic : slice data 0 4 = 0 :: ascii "PSF"
  table : countOf data ≤ (data.length - 20) / 16
  keys : keysOf data < valuesOf data
  values : valuesOf data < data.length
  areas : ∀ i < countOf data, InAreas data (keysOf data) (valuesOf data) i

/-- The reader for games stays inside of the table. -/
theorem parseGameSfo_safe (data : Bytes) (hout : out.Fits) :
    Safe (parseGameSfo data out) fun r =>
      r.1.Fits ∧ (r.2 = true → Accepted data ∧ isSupportedGameTitleId r.1.id = true ∧
        r.1.id = (lastSome (innerTitleAt data (keysOf data) (valuesOf data))
          (List.range (countOf data))).getD out.id) := by
  have hkeysLt : keysOf data < 4294967296 := numberAt_four_lt data 8
  have hvaluesLt : valuesOf data < 4294967296 := numberAt_four_lt data 12
  have hcountLt : countOf data < 4294967296 := numberAt_four_lt data 16
  have hrefused : Safe (Pure.pure (out, false)) fun r : GameText × Bool =>
      r.1.Fits ∧ (r.2 = true → Accepted data ∧ isSupportedGameTitleId r.1.id = true ∧
        r.1.id = (lastSome (innerTitleAt data (keysOf data) (valuesOf data))
          (List.range (countOf data))).getD out.id) :=
    .pure ⟨hout, nofun⟩
  unfold parseGameSfo
  split
  · exact hrefused
  · rename_i hheader
    refine .bind (.readRange (by omega)) fun magic hmagic => ?_
    split
    · exact hrefused
    · rename_i hpsf
      refine .bind (.readU32 (by omega)) fun keys hkeys => ?_
      refine .bind (.readU32 (by omega)) fun values hvalues => ?_
      refine .bind (.readU32 (by omega)) fun count hcount => ?_
      refine .bind (.sub (by omega)) fun room hroom => ?_
      have hkeys' : keys = keysOf data := hkeys
      have hvalues' : values = valuesOf data := hvalues
      have hcount' : count = countOf data := hcount
      clear hkeys hvalues hcount
      subst hkeys' hvalues' hcount' hroom
      split
      · exact hrefused
      · rename_i htable
        refine .bind (.mul (by omega)) fun offset hoffset => ?_
        subst hoffset
        refine .bind (.add (by omega)) fun table htable' => ?_
        subst htable'
        split
        · exact hrefused
        · rename_i hareas
          have hplaces : ∀ i ∈ List.range (countOf data),
              entryAt i + 16 ≤ data.length ∧ i < 2 ^ 32 := by
            intro i hi
            have hlt := List.mem_range.mp hi
            unfold entryAt
            omega
          refine .bind (parseGameSfoEntries_safe (by omega) (by omega) (by omega) _ _ hplaces
            hout) fun r hr => ?_
          refine .pure ⟨hr.1, fun hok => ?_⟩
          obtain ⟨htrue, hsupported⟩ := (Bool.and_eq_true _ _).mp hok
          obtain ⟨hin, hid⟩ := hr.2 htrue
          refine ⟨⟨by omega, ?_, by omega, by omega, by omega, ?_⟩, hsupported, hid⟩
          · rw [← hmagic]
            exact not_not.mp hpsf
          · exact fun i hi => hin i (List.mem_range.mpr hi)

theorem readByteIf_safe {wanted : Bool} {start : Nat}
    (h : wanted = true → start + 1 ≤ data.length) :
    Safe (readByteIf wanted data start) fun _ => True := by
  unfold readByteIf
  split
  · rename_i hwanted
    exact (Safe.readRange (h hwanted)).mono fun _ _ => trivial
  · exact .pure trivial

theorem readPubtoolSdkAt_safe {text : Nat} (h : text + size ≤ data.length) (hi : i + 16 ≤ size) :
    Safe (readPubtoolSdkAt data text size i) fun _ => True := by
  unfold readPubtoolSdkAt
  refine .bind (readByteIf_safe fun hwanted => ?_) fun before _ => ?_
  · have hne : i ≠ 0 := by simpa using hwanted
    omega
  split
  · exact .pure trivial
  · refine .bind (.readRange (by omega)) fun tag _ => ?_
    split
    · exact .pure trivial
    · refine .bind (.readRange (by omega)) fun digits _ => ?_
      split
      · exact .pure trivial
      · refine .bind (readByteIf_safe fun hwanted => ?_) fun after _ => .pure trivial
        have hlt : i + 16 < size := by simpa using hwanted
        omega

theorem readPubtoolSdk_safe {text : Nat} (h : text + size ≤ data.length) :
    Safe (readPubtoolSdk data text size) fun _ => True := by
  have hloop : ∀ places : List Nat, (∀ i ∈ places, i + 16 ≤ size) →
      Safe (readPubtoolSdkFrom data text size places) fun _ => True := by
    intro places
    induction places with
    | nil => exact fun _ => .pure trivial
    | cons i rest ih =>
      intro hplaces
      refine .bind (readPubtoolSdkAt_safe h (hplaces i List.mem_cons_self)) fun found _ => ?_
      cases found with
      | some value => exact .pure trivial
      | none => exact ih fun j hj => hplaces j (List.mem_cons_of_mem _ hj)
  refine hloop _ fun i hi => ?_
  have hlt := List.mem_range.mp hi
  omega

theorem sfoField_eq_titleId_iff : sfoField key = some .titleId ↔ key = ascii "TITLE_ID" := by
  unfold sfoField
  constructor
  · intro h
    split at h
    · cases h
    · split at h
      · assumption
      · split at h
        · cases h
        · split at h
          · cases h
          · split at h <;> cases h
  · rintro rfl
    decide

/-- The reader leaves the place of the icon alone. -/
def Info.SameIcon (info info' : Info) : Prop :=
  info'.iconOffset = info.iconOffset ∧ info'.iconSize = info.iconSize

theorem Info.SameIcon.setText (info : Info) (text : Text) (field : Field) :
    info.SameIcon (info.setText text field) := by
  cases field <;> exact ⟨rfl, rfl⟩

theorem Info.titleId_setText {text : Text} (h : field ≠ .titleId) :
    (info.setText text field).titleId = info.titleId := by
  cases field <;> first | exact absurd rfl h | rfl

/-- A field is stored inside of its buffer. -/
theorem storeSfoField_safe {format length : Nat} (h : position + length ≤ data.length)
    (hinfo : info.Fits) :
    Safe (storeSfoField data key format position length info) fun info' =>
      info'.Fits ∧ info.SameIcon info' ∧
        info'.titleId =
          if (format = 0x0004 ∨ format = 0x0204) ∧ key = ascii "TITLE_ID" ∧
              (untilZero (slice data position length)).length < maxTitleId then
            toText (untilZero (slice data position length))
          else info.titleId := by
  unfold storeSfoField
  split
  · rename_i hformat
    refine .pure ⟨hinfo, ⟨rfl, rfl⟩, ?_⟩
    rw [if_neg]
    tauto
  · rename_i hformat
    split
    · rename_i hsdk
      refine .bind (readPubtoolSdk_safe h) fun sdk _ => ?_
      refine .pure ⟨hinfo, ⟨rfl, rfl⟩, ?_⟩
      rw [if_neg]
      rintro ⟨-, hid, -⟩
      rw [hsdk] at hid
      exact absurd hid (by decide)
    · cases hfield : sfoField key with
      | none =>
        refine .pure ⟨hinfo, ⟨rfl, rfl⟩, ?_⟩
        rw [if_neg]
        rintro ⟨-, hid, -⟩
        rw [sfoField_eq_titleId_iff.mpr hid] at hfield
        cases hfield
      | some field =>
        dsimp only
        refine .bind (.readRange h) fun bytes hbytes => ?_
        subst hbytes
        have hkey : key = ascii "TITLE_ID" ↔ field = .titleId := by
          rw [← sfoField_eq_titleId_iff, hfield, Option.some.injEq]
        split
        · rename_i hlong
          refine .pure ⟨hinfo, ⟨rfl, rfl⟩, ?_⟩
          rw [if_neg]
          rintro ⟨-, hid, hshort⟩
          rw [hkey.mp hid] at hlong
          exact absurd hshort (Nat.not_lt_of_le hlong)
        · rename_i hshort
          have hlt := Nat.lt_of_not_le hshort
          refine .bind (.copyOut hlt) fun copied hcopied => ?_
          subst hcopied
          refine .pure ⟨hinfo.setText (isCString_toText hlt (zero_notMem_untilZero _)),
            Info.SameIcon.setText info _ field, ?_⟩
          by_cases hid : field = .titleId
          · subst hid
            rw [if_pos ⟨by tauto, hkey.mpr rfl, hlt⟩]
            rfl
          · rw [if_neg fun hall => hid (hkey.mp hall.2.1)]
            exact Info.titleId_setText hid

/-- One entry of the package parser: in the areas, the title id is the text of the entry if its
key is the one of the title id, wherever the key ends. -/
theorem parseSfoEntry_safe (hi : entryAt i + 16 ≤ data.length) (hcount : i < 2 ^ 32)
    (hkeys : keys < 2 ^ 32) (hvalues : values < 2 ^ 32) (hinfo : info.Fits) :
    Safe (parseSfoEntry data keys values i info) fun info' =>
      info'.Fits ∧ info.SameIcon info' ∧ (InAreas data keys values i → values < data.length →
        info'.titleId = (titleAt data keys values i).getD info.titleId) := by
  have hkeyLt : keyOf data i < 65536 := numberAt_two_lt data (entryAt i)
  have hlengthLt : lengthOf data i < 4294967296 := numberAt_four_lt data (entryAt i + 4)
  have hvalueLt : valueOf data i < 4294967296 := numberAt_four_lt data (entryAt i + 12)
  unfold parseSfoEntry
  unfold entryAt at hi
  refine .bind (.mul (by omega)) fun offset hoffset => ?_
  subst hoffset
  refine .bind (.add (by omega)) fun entry hentry => ?_
  subst hentry
  refine .bind (.readU16 (by omega)) fun key hkey => ?_
  refine .bind (.readU16 (by omega)) fun format hformat => ?_
  refine .bind (.readU32 (by omega)) fun length hlength => ?_
  refine .bind (.readU32 (by omega)) fun value hvalue => ?_
  have hkey' : key = keyOf data i := hkey
  have hformat' : format = formatOf data i := hformat
  have hlength' : length = lengthOf data i := hlength
  have hvalue' : value = valueOf data i := hvalue
  clear hkey hformat hlength hvalue
  subst hkey' hformat' hlength' hvalue'
  refine .bind (.add (by omega)) fun keyPos hkeyPos => ?_
  refine .bind (.add (by omega)) fun valuePos hvaluePos => ?_
  split
  · rename_i hout
    exact .pure ⟨hinfo, ⟨rfl, rfl⟩, fun hin _ => absurd hin.key (by have := hin.value; omega)⟩
  · rename_i hpositions
    refine .bind (.sub (by omega)) fun room hroom => ?_
    split
    · exact .pure ⟨hinfo, ⟨rfl, rfl⟩, fun hin _ => absurd hin.value (by omega)⟩
    · rename_i hlength
      refine .bind (.sub (by omega)) fun keyRoom hkeyRoom => ?_
      refine .bind (.readRange (by omega)) fun area harea => ?_
      have hnine : HasKey data keys i "TITLE_ID" ↔
          area.take ((ascii "TITLE_ID").length + 1) = ascii "TITLE_ID" ++ [0] := by
        rw [harea, hkeyRoom, slice_toEnd, hkeyPos]
        exact .rfl
      split
      · rename_i hzero
        refine .pure ⟨hinfo, ⟨rfl, rfl⟩, fun _ _ => ?_⟩
        have hno : ¬ HasKey data keys i "TITLE_ID" := by
          rw [hnine]
          intro htake
          refine hzero (List.mem_of_mem_take (?_ : 0 ∈ area.take ((ascii "TITLE_ID").length + 1)))
          rw [htake]
          simp
        unfold titleAt
        rw [if_neg fun hall => hno hall.2.1]
        rfl
      · rename_i hzero
        refine (storeSfoField_safe (by omega) hinfo).mono fun info' hstored => ?_
        obtain ⟨hfits, hicon, hid⟩ := hstored
        refine ⟨hfits, hicon, fun _ _ => ?_⟩
        have hkeyIff : untilZero area = ascii "TITLE_ID" ↔ HasKey data keys i "TITLE_ID" :=
          (untilZero_eq_iff (not_not.mp hzero) (by decide)).trans hnine.symm
        rw [hid, hvaluePos]
        unfold titleAt IsText textOf
        simp only [hkeyIff]
        split
        · rfl
        · rfl

theorem parseSfoEntries_safe (hkeys : keys < 2 ^ 32) (hvalues : values < 2 ^ 32) :
    ∀ (entries : List Nat) (info : Info),
      (∀ i ∈ entries, entryAt i + 16 ≤ data.length ∧ i < 2 ^ 32) → info.Fits →
      Safe (parseSfoEntries data keys values entries info) fun info' =>
        info'.Fits ∧ info.SameIcon info' ∧
          ((∀ i ∈ entries, InAreas data keys values i) → values < data.length →
            info'.titleId = (lastSome (titleAt data keys values) entries).getD info.titleId) := by
  intro entries
  induction entries with
  | nil =>
    intro info _ hinfo
    exact .pure ⟨hinfo, ⟨rfl, rfl⟩, fun _ _ => rfl⟩
  | cons i rest ih =>
    intro info hentries hinfo
    obtain ⟨hi, hcount⟩ := hentries i List.mem_cons_self
    refine .bind (parseSfoEntry_safe hi hcount hkeys hvalues hinfo) fun info₁ h₁ => ?_
    obtain ⟨hfits₁, hicon₁, hid₁⟩ := h₁
    refine (ih info₁ (fun j hj => hentries j (List.mem_cons_of_mem _ hj)) hfits₁).mono
      fun info₂ h₂ => ?_
    obtain ⟨hfits₂, hicon₂, hid₂⟩ := h₂
    refine ⟨hfits₂, ⟨hicon₂.1.trans hicon₁.1, hicon₂.2.trans hicon₁.2⟩, fun hin hlt => ?_⟩
    rw [hid₂ (fun j hj => hin j (List.mem_cons_of_mem _ hj)) hlt,
      hid₁ (hin i List.mem_cons_self) hlt, lastSome_cons]
    cases lastSome (titleAt data keys values) rest <;> rfl

/-- The reader for packages stays inside of the table. -/
theorem parseSfo_safe (data : Bytes) (hinfo : info.Fits) :
    Safe (parseSfo data info) fun r =>
      r.1.Fits ∧ info.SameIcon r.1 ∧ (Accepted data → r.2 = true ∧
        r.1.titleId = (lastSome (titleAt data (keysOf data) (valuesOf data))
          (List.range (countOf data))).getD info.titleId) := by
  have hkeysLt : keysOf data < 4294967296 := numberAt_four_lt data 8
  have hvaluesLt : valuesOf data < 4294967296 := numberAt_four_lt data 12
  have hcountLt : countOf data < 4294967296 := numberAt_four_lt data 16
  unfold parseSfo
  split
  · exact .pure ⟨hinfo, ⟨rfl, rfl⟩, fun h => absurd h.header (by omega)⟩
  · rename_i hheader
    refine .bind (.readRange (by omega)) fun magic hmagic => ?_
    split
    · rename_i hpsf
      exact .pure ⟨hinfo, ⟨rfl, rfl⟩, fun h => absurd (hmagic.trans h.magic) hpsf⟩
    · refine .bind (.readU32 (by omega)) fun keys hkeys => ?_
      refine .bind (.readU32 (by omega)) fun values hvalues => ?_
      refine .bind (.readU32 (by omega)) fun count hcount => ?_
      refine .bind (.sub (by omega)) fun room hroom => ?_
      have hkeys' : keys = keysOf data := hkeys
      have hvalues' : values = valuesOf data := hvalues
      have hcount' : count = countOf data := hcount
      clear hkeys hvalues hcount
      subst hkeys' hvalues' hcount' hroom
      split
      · rename_i hrefused
        refine .pure ⟨hinfo, ⟨rfl, rfl⟩, fun h => ?_⟩
        obtain ⟨-, -, htable, hbelow, hvalues, -⟩ := h
        omega
      · rename_i htable
        have hplaces : ∀ i ∈ List.range (countOf data),
            entryAt i + 16 ≤ data.length ∧ i < 2 ^ 32 := by
          intro i hi
          have hlt := List.mem_range.mp hi
          unfold entryAt
          omega
        refine .bind (parseSfoEntries_safe (by omega) (by omega) _ _ hplaces hinfo)
          fun info' h' => ?_
        obtain ⟨hfits, hicon, hid⟩ := h'
        refine .pure ⟨hfits, hicon, fun h => ⟨rfl, ?_⟩⟩
        exact hid (fun i hi => h.areas i (List.mem_range.mp hi)) h.values

end ShadowMount.Pkg
