import ShadowMount.Executable.Model
import ShadowMount.Pkg.PackageBounds

/-!
# Executables are read inside of the file

Every read of the two readers lies in the file and fits its destination, every header field they
look at lies in the bytes that were read, and every file offset they compute is the one of plain
numbers, whatever the file holds.  One sum in each of the expressions for an offset may wrap on
the way; the difference behind it undoes that.

Main results:

- Theorem {lit}`executables_read_in_bounds`: both, for every size.
- Theorem {lit}`offset_sum_wraps`: a file for which the sum wraps.
-/

namespace ShadowMount.Executable

open Foundation
open Pkg (Environment readAt readU64 readAt_safe)

variable {offset start room : Nat} {tags : Tags}

/-- The range check does not overflow. -/
theorem executableRange_iff {size limit : Nat} :
    executableRange offset size limit = true ↔ offset + size ≤ limit := by
  simp only [executableRange, Bool.and_eq_true, decide_eq_true_eq]
  omega

theorem readU64_safe {data : Bytes} (h : start + 8 ≤ data.length) :
    Safe (readU64 data start) (· < 2 ^ 64) := by
  apply Safe.bind (Safe.readRange h)
  rintro bytes rfl
  apply Safe.pure
  exact numberAt_lt data start 8

/-- The tables lie in the bytes that were read. -/
structure Laid (header : Bytes) (elf phoff count segments : Nat) : Prop where
  table : elf + phoff + count * 56 ≤ header.length
  segments : 32 + segments * 32 ≤ header.length
  length : header.length ≤ headerRoom

variable {header : Bytes} {elf phoff count segments : Nat}

theorem Laid.executablePhdr (h : Laid header elf phoff count segments) {i : Nat} (hi : i < count) :
    Safe (executablePhdr (elf + phoff) i) fun ph => ph + 56 ≤ header.length := by
  obtain ⟨htable, -, hlength⟩ := h
  unfold headerRoom at hlength
  apply Safe.bind (Safe.mul (by omega))
  rintro skipped rfl
  apply (Safe.add (by omega)).mono
  rintro ph rfl
  omega

theorem Laid.readSegment (h : Laid header elf phoff count segments) {j : Nat} (hj : j < segments) :
    Safe (readSegment header j) fun _ => True := by
  obtain ⟨-, hsegments, hlength⟩ := h
  unfold headerRoom at hlength
  have hplace : Safe (segmentPlace j) fun place => place + 32 ≤ header.length := by
    apply Safe.bind (Safe.mul (by omega))
    rintro skipped rfl
    apply (Safe.add (by omega)).mono
    rintro place rfl
    omega
  apply Safe.bind hplace
  intro place hplace
  refine Safe.bind (readU64_safe (by omega)) fun flags _ => ?_
  refine Safe.bind (readU64_safe (by omega)) fun physical _ => ?_
  refine Safe.bind (readU64_safe (by omega)) fun stored _ => ?_
  refine Safe.bind (readU64_safe (by omega)) fun unpacked _ => ?_
  exact Safe.pure trivial

theorem Laid.tableEnd (h : Laid header elf phoff count segments) :
    Safe (tableEnd elf phoff count) fun _ => True := by
  obtain ⟨htable, -, hlength⟩ := h
  unfold headerRoom at hlength
  apply Safe.bind (Safe.add (by omega))
  rintro start rfl
  apply Safe.bind (Safe.mul (by omega))
  rintro size rfl
  exact (Safe.add (by omega)).mono fun _ _ => trivial

theorem Laid.tableStart (h : Laid header elf phoff count segments) :
    Safe (add 64 elf phoff) (· = elf + phoff) := by
  obtain ⟨htable, -, hlength⟩ := h
  unfold headerRoom at hlength
  exact Safe.add (by omega)

theorem elfPlace_safe {segments : Nat} (h : segments < 65536) :
    Safe (elfPlace segments) (· = 32 + segments * 32) := by
  apply Safe.bind (Safe.mul (by omega))
  rintro table rfl
  exact Safe.add (by omega)

theorem readStored_safe {env : Environment} {fileSize limit : Nat} {segment : Segment}
    {size want : Nat} {β : Type} {post : β → Prop} {next : Option Bytes → Checked β}
    (hlimit : limit ≤ fileSize) (hfile : fileSize < 2 ^ 64) (hstart : start ≤ offset)
    (hstored : executableRange segment.physical segment.stored limit = true)
    (hinside : executableRange (offset - start) size segment.stored = true) (hwant : want ≤ size)
    (hroom : want ≤ room) (hnext : ∀ bytes : Option Bytes, (∀ b, bytes = some b → b.length = want) →
      Safe (next bytes) post) :
    Safe (do
      let place ← Arithmetic.machine.addSub 64 segment.physical offset start
      let bytes ← readAt env fileSize place want room
      next bytes) post := by
  rw [executableRange_iff] at hstored hinside
  apply Safe.bind (Safe.addSub (by omega) (by omega))
  rintro place rfl
  exact Safe.bind (readAt_safe (by omega) hroom) hnext

/-- The search for the parameter segment stays in the headers. -/
theorem Laid.findParam (h : Laid header elf phoff count segments) (list : List Nat)
    (hlist : ∀ i ∈ list, i < count) (param : Option Nat)
    (hparam : ∀ p, param = some p → p + 56 ≤ header.length) :
    Safe (findParam header (elf + phoff) list param) fun r =>
      ∀ p, r = some p → p + 56 ≤ header.length := by
  induction list generalizing param with
  | nil => exact Safe.pure hparam
  | cons i list ih =>
    have hrest : ∀ i ∈ list, i < count := fun i hi => hlist i (by simp [hi])
    unfold Executable.findParam
    refine Safe.bind (h.executablePhdr (hlist i (by simp))) fun entry hentry => ?_
    refine Safe.bind (Safe.readU32 (by omega)) fun kind _ => ?_
    split
    · exact ih hrest param hparam
    · split
      · exact Safe.pure (by simp)
      · apply ih hrest
        rintro p hp
        cases hp
        exact hentry

section Mapping

variable {env : Environment} {size : Nat} {c : Container} {wanted : Wanted}

/-- What the mapping loops keep: a parameter that was read is whole. -/
def WholeParam (mapped : Option Bytes) : Prop := ∀ proc, mapped = some proc → proc.length = 24

/-- The search for a segment stays in the file. -/
theorem Laid.mapSegments (h : Laid header c.elf phoff count c.segments) (hlimit : c.limit ≤ size)
    (hsize : size < 2 ^ 64) {index : Nat} (hstart : start ≤ wanted.offset)
    (hwanted : 24 ≤ wanted.size) (list : List Nat) (hlist : ∀ j ∈ list, j < c.segments)
    (mapped : Option Bytes) (hmapped : WholeParam mapped) :
    Safe (mapSegments .machine env size header c phoff count index start wanted list mapped)
      fun r => ∀ mapped', r = some mapped' → WholeParam mapped' := by
  induction list generalizing mapped with
  | nil =>
    apply Safe.pure
    rintro mapped' hmapped'
    cases hmapped'
    exact hmapped
  | cons j list ih =>
    have hrest : ∀ j ∈ list, j < c.segments := fun j hj => hlist j (by simp [hj])
    unfold Executable.mapSegments
    refine Safe.bind (h.readSegment (hlist j (by simp))) fun segment _ => ?_
    split
    · exact ih hrest mapped hmapped
    · refine Safe.bind h.tableEnd fun last _ => ?_
      apply Safe.bind (Safe.sub hstart)
      rintro inside rfl
      split
      · exact Safe.pure (by simp)
      · rename_i htaken
        simp only [not_or, Bool.not_eq_true', Bool.not_eq_false] at htaken
        obtain ⟨-, -, -, -, hstored, hinside⟩ := htaken
        apply readStored_safe hlimit hsize hstart hstored hinside hwanted (Nat.le_refl _)
        intro proc hproc
        cases proc with
        | none => exact Safe.pure (by simp)
        | some proc => exact ih hrest (some proc) hproc

/-- The headers that are mapped lie inside of the container. -/
theorem Laid.mapHeaders (h : Laid header c.elf phoff count c.segments) (hlimit : c.limit ≤ size)
    (hsize : size < 2 ^ 64) (hwanted : 24 ≤ wanted.size) (list : List Nat)
    (hlist : ∀ i ∈ list, i < count) (mapped : Option Bytes) (hmapped : WholeParam mapped) :
    Safe (mapHeaders .machine env size header c phoff count (c.elf + phoff) wanted list mapped)
      fun r => ∀ mapped', r = some mapped' → WholeParam mapped' := by
  induction list generalizing mapped with
  | nil =>
    apply Safe.pure
    rintro mapped' hmapped'
    cases hmapped'
    exact hmapped
  | cons i list ih =>
    have hrest : ∀ i ∈ list, i < count := fun i hi => hlist i (by simp [hi])
    unfold Executable.mapHeaders
    refine Safe.bind (h.executablePhdr (hlist i (by simp))) fun load hload => ?_
    refine Safe.bind (Safe.readU32 (by omega)) fun kind _ => ?_
    refine Safe.bind (readU64_safe (by omega)) fun start _ => ?_
    refine Safe.bind (readU64_safe (by omega)) fun bytes _ => ?_
    split
    · exact ih hrest mapped hmapped
    · rename_i hbehind
      have hstart : start ≤ wanted.offset := by omega
      refine Safe.bind (Safe.sub hstart) fun inside _ => ?_
      split
      · exact ih hrest mapped hmapped
      · apply Safe.bind (h.mapSegments hlimit hsize hstart hwanted _ (by simp) mapped hmapped)
        intro next hnext
        cases next with
        | none => exact Safe.pure (by simp)
        | some mapped' => exact ih hrest mapped' (hnext mapped' rfl)

end Mapping

theorem paramSdk_safe {proc : Bytes} {paramSize : Nat} (h : proc.length = 24) :
    Safe (paramSdk proc paramSize) fun _ => True := by
  unfold paramSdk
  refine Safe.bind (Safe.readU32 (by omega)) fun magic _ => ?_
  refine Safe.bind (readU64_safe (by omega)) fun own _ => ?_
  split
  · exact Safe.pure trivial
  · refine Safe.bind (Safe.readU32 (by omega)) fun version _ => ?_
    split
    · exact Safe.pure trivial
    · refine Safe.bind (Safe.readU32 ?_) fun sdk _ => Safe.pure trivial
      split <;> omega

/-- The SDK version is read inside of the file. -/
theorem Laid.readParamSdk {env : Environment} {size : Nat} {c : Container} {self : Bool}
    (h : Laid header c.elf phoff count c.segments) (hlimit : c.limit ≤ size)
    (hsize : size < 2 ^ 64) :
    Safe (readParamSdk .machine env size header self c phoff count) fun _ => True := by
  unfold Executable.readParamSdk
  apply Safe.bind h.tableStart
  rintro table rfl
  apply Safe.bind (h.findParam _ (by simp) none (by simp))
  intro param hparam
  cases param with
  | none => exact Safe.pure trivial
  | some param =>
    have hinside := hparam param rfl
    refine Safe.bind (readU64_safe (by omega)) fun offset _ => ?_
    refine Safe.bind (readU64_safe (by omega)) fun paramSize _ => ?_
    split
    · exact Safe.pure trivial
    · rename_i hwhole
      split
      · apply Safe.bind (h.mapHeaders hlimit hsize (by simpa using hwhole) _ (by simp) none
          (by simp [WholeParam]))
        intro mapped hmapped
        match mapped with
        | none => exact Safe.pure trivial
        | some none => exact Safe.pure trivial
        | some (some proc) => exact paramSdk_safe (hmapped _ rfl proc rfl)
      · split
        · exact Safe.pure trivial
        · rename_i hrange
          simp only [Bool.not_eq_true', Bool.not_eq_false, executableRange_iff] at hrange
          apply Safe.bind (readAt_safe (by omega) (Nat.le_refl _))
          intro proc hproc
          cases proc with
          | none => exact Safe.pure trivial
          | some proc => exact paramSdk_safe (hproc proc rfl)

/-- The ELF header of a container lies in the bytes that were read, behind its segments. -/
structure Housed (header : Bytes) (size : Nat) (c : Container) : Prop where
  read : c.elf + 64 ≤ header.length
  inside : c.elf + 64 ≤ c.limit
  limit : c.limit ≤ size
  segments : c.segments = 0 ∨ c.elf = 32 + c.segments * 32
  length : header.length ≤ headerRoom

variable {env : Environment} {size : Nat} {c : Container}

theorem Housed.laid (h : Housed header size c)
    (htable : executableRange phoff (count * 56) (header.length - c.elf) = true) :
    Laid header c.elf phoff count c.segments := by
  obtain ⟨hheader, -, -, hsegments, hlength⟩ := h
  rw [executableRange_iff] at htable
  refine ⟨by omega, ?_, hlength⟩
  rcases hsegments with hsegments | hsegments
  · rw [hsegments]
    omega
  · omega

/-- The version is read in bounds. -/
theorem Housed.readElfSdk {self : Bool} (h : Housed header size c) (hsize : size < 2 ^ 64) :
    Safe (readElfSdk .machine env size header self c) fun _ => True := by
  have hheader := h.read
  have hinside := h.inside
  unfold Executable.readElfSdk
  refine Safe.bind (Safe.readRange (by omega)) fun ident _ => ?_
  refine Safe.bind (Safe.readU16 (by omega)) fun machine _ => ?_
  split
  · exact Safe.pure trivial
  · refine Safe.bind (readU64_safe (by omega)) fun phoff _ => ?_
    apply Safe.bind (Safe.readU16 (by omega))
    rintro count rfl
    have hcount := numberAt_two_lt header (c.elf + 56)
    refine Safe.bind (Safe.readU16 (by omega)) fun entry _ => ?_
    apply Safe.bind (Safe.mul (by omega))
    rintro tableSize rfl
    apply Safe.bind (Safe.sub (by omega))
    rintro room rfl
    refine Safe.bind (Safe.sub (by omega)) fun space _ => ?_
    split
    · exact Safe.pure trivial
    · rename_i haccepted
      simp only [not_or, Bool.not_eq_true', Bool.not_eq_false, Nat.not_lt] at haccepted
      obtain ⟨-, -, -, -, htable, -⟩ := haccepted
      exact (h.laid htable).readParamSdk h.limit hsize

/-- The reader of the SDK version stays inside of the file. -/
theorem readExecutableSdk_safe (env : Environment) {size : Nat} (hsize : size < 2 ^ 64) :
    Safe (readExecutableSdk .machine env size) fun _ => True := by
  unfold readExecutableSdk
  dsimp only
  split
  · exact Safe.pure trivial
  · rename_i hlength
    apply Safe.bind (readAt_safe (by omega) (Nat.min_le_right _ _))
    intro header hheader
    cases header with
    | none => exact Safe.pure trivial
    | some header =>
      have hread := hheader header rfl
      refine Safe.bind (Safe.readU32 (by omega)) fun magic _ => ?_
      have hcontainer : Safe (sdkContainer header size (decide (magic = 0xEEF51454))) fun c =>
          (decide (magic = 0xEEF51454) = false → c.limit = size) ∧
            (c.segments = 0 ∨ c.elf = 32 + c.segments * 32) := by
        unfold sdkContainer
        split
        · rename_i hself
          apply Safe.bind (Safe.readU16 (by omega))
          rintro segments rfl
          apply Safe.bind (elfPlace_safe (numberAt_two_lt header 24))
          rintro elf rfl
          refine Safe.bind (readU64_safe (by omega)) fun limit _ => ?_
          exact Safe.pure ⟨fun h => by simp [hself] at h, .inr rfl⟩
        · exact Safe.pure ⟨fun _ => rfl, .inl rfl⟩
      apply Safe.bind hcontainer
      rintro c ⟨hplain, hsegments⟩
      split
      · exact Safe.pure trivial
      · rename_i haccepted
        simp only [not_or, not_and, Bool.not_eq_true', Bool.not_eq_false, executableRange_iff,
          Nat.not_lt] at haccepted
        obtain ⟨hself, hinside, hlimit⟩ := haccepted
        refine Housed.readElfSdk ⟨by omega, hlimit, ?_, hsegments, ?_⟩ hsize
        · cases hcase : decide (magic = 0xEEF51454) with
          | true => exact (hself hcase).2.2
          | false => exact Nat.le_of_eq (hplain hcase)
        · rw [hread]
          exact Nat.min_le_right _ _

/-- What `read_executable_filename` has established when it reads on. -/
structure Opened (fileSize : Nat) (r : Reader) : Prop where
  laid : Laid r.header r.elf r.phoff r.phnum r.segments
  size : r.size ≤ fileSize
  file : fileSize < 2 ^ 64

namespace Opened

variable {fileSize : Nat} {r : Reader}

theorem readInSegments (h : Opened fileSize r) {index size : Nat} (hstart : start ≤ offset)
    (hroom : size ≤ room) (list : List Nat) (hlist : ∀ j ∈ list, j < r.segments) :
    Safe (readInSegments .machine env fileSize r index start offset size room list) fun found =>
      ∀ bytes, found = some (some bytes) → bytes.length = size := by
  induction list with
  | nil => exact Safe.pure (by simp)
  | cons j list ih =>
    unfold Executable.readInSegments
    refine Safe.bind (h.laid.readSegment (hlist j (by simp))) fun segment _ => ?_
    refine Safe.bind h.laid.tableEnd fun last _ => ?_
    apply Safe.bind (Safe.sub hstart)
    rintro inside rfl
    split
    · exact ih fun j hj => hlist j (by simp [hj])
    · rename_i htaken
      simp only [not_or, Bool.not_eq_true', Bool.not_eq_false] at htaken
      obtain ⟨-, -, -, -, -, hstored, hinside⟩ := htaken
      apply readStored_safe h.size h.file hstart hstored hinside (Nat.le_refl _) hroom
      intro bytes hbytes
      apply Safe.pure
      rintro b hb
      cases hb
      exact hbytes b rfl

theorem readInHeaders (h : Opened fileSize r) {size : Nat} (hroom : size ≤ room) (list : List Nat)
    (hlist : ∀ i ∈ list, i < r.phnum) :
    Safe (readInHeaders .machine env fileSize r (r.elf + r.phoff) offset size room list)
      fun found => ∀ bytes, found = some bytes → bytes.length = size := by
  induction list with
  | nil => exact Safe.pure (by simp)
  | cons i list ih =>
    have hrest := ih fun i hi => hlist i (by simp [hi])
    unfold Executable.readInHeaders
    refine Safe.bind (h.laid.executablePhdr (hlist i (by simp))) fun ph hph => ?_
    refine Safe.bind (readU64_safe (by omega)) fun start _ => ?_
    refine Safe.bind (readU64_safe (by omega)) fun bytes _ => ?_
    split
    · exact hrest
    · rename_i hbehind
      have hstart : start ≤ offset := by omega
      refine Safe.bind (Safe.sub hstart) fun inside _ => ?_
      split
      · exact hrest
      · apply Safe.bind (h.readInSegments hstart hroom _ (by simp))
        intro found hfound
        cases found with
        | none => exact hrest
        | some result =>
          apply Safe.pure
          rintro b rfl
          exact hfound b rfl

/-- Bytes of the executable are read in bounds. -/
theorem readExecutableBytes (h : Opened fileSize r) {size : Nat} (hroom : size ≤ room) :
    Safe (readExecutableBytes .machine env fileSize r offset size room) fun found =>
      ∀ bytes, found = some bytes → bytes.length = size := by
  have hsize := h.size
  unfold Executable.readExecutableBytes
  split
  · split
    · rename_i hrange
      rw [executableRange_iff] at hrange
      exact readAt_safe (by omega) hroom
    · exact Safe.pure (by simp)
  · apply Safe.bind h.laid.tableStart
    rintro table rfl
    exact h.readInHeaders hroom _ (by simp)

end Opened

theorem readTags_safe {entries : Bytes} (list : List Nat)
    (hlist : ∀ i ∈ list, i * 16 + 16 ≤ entries.length) (tags : Tags) :
    Safe (readTags entries list tags) fun _ => True := by
  induction list generalizing tags with
  | nil => exact Safe.pure trivial
  | cons i list ih =>
    have hinside := hlist i (by simp)
    unfold readTags
    refine Safe.bind (readU64_safe (by omega)) fun tag _ => ?_
    refine Safe.bind (readU64_safe (by omega)) fun value _ => ?_
    split
    · exact Safe.pure trivial
    · exact ih (fun i hi => hlist i (by simp [hi])) _

namespace Opened

variable {fileSize : Nat} {r : Reader}

/-- The dynamic section is read in bounds. -/
theorem readDynamic (h : Opened fileSize r) {dynOffset dynSize : Nat} (hmax : dynSize ≤ 65536)
    (hentries : dynSize % 16 = 0) (hoffset : dynOffset + dynSize < 2 ^ 64) (list : List Nat)
    (hlist : ∀ turn ∈ list, turn * 512 < dynSize) (tags : Tags) :
    Safe (readDynamic .machine env fileSize r dynOffset dynSize list tags) fun _ => True := by
  induction list generalizing tags with
  | nil => exact Safe.pure trivial
  | cons turn list ih =>
    have hturn := hlist turn (by simp)
    unfold Executable.readDynamic
    apply Safe.bind (Safe.mul (by omega))
    rintro offset rfl
    apply Safe.bind (Safe.sub (by omega))
    rintro left rfl
    refine Safe.bind (Safe.add (by omega)) fun place _ => ?_
    apply Safe.bind (h.readExecutableBytes (Nat.min_le_right _ _))
    intro chunk hchunk
    cases chunk with
    | none => exact Safe.pure trivial
    | some chunk =>
      have hlength := hchunk chunk rfl
      have hinside : ∀ i ∈ List.range ((min (dynSize - turn * 512) 512 + 15) / 16),
          i * 16 + 16 ≤ chunk.length := by
        intro i hi
        rw [List.mem_range] at hi
        omega
      refine Safe.bind (readTags_safe _ hinside tags) fun result _ => ?_
      split
      · exact Safe.pure trivial
      · exact ih (fun turn hmem => hlist turn (by simp [hmem])) result.1

end Opened

/-- The search for the dynamic section stays in the headers. -/
theorem Laid.findDynamic (h : Laid header elf phoff count segments) (list : List Nat)
    (hlist : ∀ i ∈ list, i < count) (found : Option Nat × Option Nat)
    (hfirst : ∀ p, found.1 = some p → p + 56 ≤ header.length)
    (hsecond : ∀ p, found.2 = some p → p + 56 ≤ header.length) :
    Safe (findDynamic header (elf + phoff) list found) fun r =>
      (∀ p, r.1 = some p → p + 56 ≤ header.length) ∧
        ∀ p, r.2 = some p → p + 56 ≤ header.length := by
  induction list generalizing found with
  | nil => exact Safe.pure ⟨hfirst, hsecond⟩
  | cons i list ih =>
    unfold Executable.findDynamic
    refine Safe.bind (h.executablePhdr (hlist i (by simp))) fun ph hph => ?_
    refine Safe.bind (Safe.readU32 (by omega)) fun kind _ => ?_
    have hpick : ∀ (b : Prop) [Decidable b] (old : Option Nat),
        (∀ p, old = some p → p + 56 ≤ header.length) →
        ∀ p, (if b then some ph else old) = some p → p + 56 ≤ header.length := by
      intro b _ old hold p hp
      split at hp
      · cases hp
        exact hph
      · exact hold p hp
    exact ih (fun i hi => hlist i (by simp [hi])) _ (hpick _ _ hfirst) (hpick _ _ hsecond)

/-- A string of the loaded segments is inside of its table. -/
theorem Laid.loadedString (h : Laid header elf phoff count segments)
    (hname : tags.name < tags.strsz) (list : List Nat) (hlist : ∀ i ∈ list, i < count) :
    Safe (loadedString .machine header (elf + phoff) tags list) fun _ => True := by
  induction list with
  | nil => exact Safe.pure trivial
  | cons i list ih =>
    have hrest := ih fun i hi => hlist i (by simp [hi])
    unfold Executable.loadedString
    refine Safe.bind (h.executablePhdr (hlist i (by simp))) fun ph hph => ?_
    refine Safe.bind (readU64_safe (by omega)) fun base hbase => ?_
    refine Safe.bind (readU64_safe (by omega)) fun size hsize => ?_
    refine Safe.bind (readU64_safe (by omega)) fun fileOffset hfileOffset => ?_
    refine Safe.bind (Safe.readU32 (by omega)) fun kind _ => ?_
    split
    · exact hrest
    · rename_i hbehind
      have hstart : base ≤ tags.strtab := by omega
      apply Safe.bind (Safe.sub hstart)
      rintro inside rfl
      split
      · exact hrest
      · rename_i hrange
        simp only [Bool.not_eq_true', Bool.not_eq_false, executableRange_iff] at hrange
        have habsent : absent = 2 ^ 64 - 1 := rfl
        apply Safe.bind (Safe.sub (by omega))
        rintro room rfl
        apply Safe.bind (Safe.sub (by omega))
        rintro room rfl
        split
        · exact hrest
        · rename_i hroom
          apply Safe.bind (Safe.addSub (by omega) (by omega))
          rintro strings rfl
          exact Safe.bind (Safe.add (by omega)) fun _ _ => Safe.pure trivial

theorem libraryString_safe {dynlib : Nat} (hdynlib : dynlib + 56 ≤ header.length)
    (hname : tags.name < tags.sceStrsz) :
    Safe (libraryString header dynlib tags) fun _ => True := by
  have habsent : absent = 2 ^ 64 - 1 := rfl
  unfold libraryString
  refine Safe.bind (readU64_safe (by omega)) fun base hbase => ?_
  refine Safe.bind (readU64_safe (by omega)) fun size hsize => ?_
  split
  · exact Safe.pure trivial
  · rename_i hrange
    simp only [Bool.not_eq_true', Bool.not_eq_false, executableRange_iff] at hrange
    apply Safe.bind (Safe.sub (by omega))
    rintro room rfl
    apply Safe.bind (Safe.sub (by omega))
    rintro room rfl
    split
    · exact Safe.pure trivial
    · rename_i hroom
      apply Safe.bind (Safe.add (by omega))
      rintro strings rfl
      exact Safe.bind (Safe.add (by omega)) fun _ _ => Safe.pure trivial

namespace Opened

variable {fileSize : Nat} {r : Reader}

theorem findString (h : Opened fileSize r) {dynlib : Option Nat}
    (hdynlib : ∀ p, dynlib = some p → p + 56 ≤ r.header.length) :
    Safe (findString .machine r (r.elf + r.phoff) dynlib tags) fun result =>
      ∀ place strsz, result = some (place, strsz) → tags.name < strsz := by
  unfold Executable.findString
  split
  · rename_i hloaded
    refine Safe.bind (h.laid.loadedString hloaded.2.2 _ (by simp)) fun place _ => ?_
    apply Safe.pure
    intro place' strsz hresult
    obtain ⟨found, -, hfound⟩ := Option.map_eq_some_iff.mp hresult
    cases hfound
    exact hloaded.2.2
  · cases dynlib with
    | none => exact Safe.pure (by simp)
    | some dynlib =>
      dsimp only
      split
      · rename_i hlibrary
        refine Safe.bind (libraryString_safe (hdynlib dynlib rfl) hlibrary.2) fun place _ => ?_
        apply Safe.pure
        intro place' strsz hresult
        obtain ⟨found, -, hfound⟩ := Option.map_eq_some_iff.mp hresult
        cases hfound
        exact hlibrary.2
      · exact Safe.pure (by simp)

theorem readName (h : Opened fileSize r) {place strsz name : Nat} (hname : name < strsz) :
    Safe (readName .machine env fileSize r place strsz name) fun _ => True := by
  have hpath : maxPath = 1024 := rfl
  unfold Executable.readName
  apply Safe.bind (Safe.sub (by omega))
  rintro left rfl
  apply Safe.bind (h.readExecutableBytes (Nat.min_le_right _ _))
  intro content hcontent
  cases content with
  | none => exact Safe.pure trivial
  | some content =>
    have hlength := hcontent content rfl
    refine Safe.bind (Safe.readRange (by omega)) fun first _ => ?_
    exact Safe.pure trivial

/-- The name in the dynamic section is read in bounds. -/
theorem readDynamicName (h : Opened fileSize r) {dynamic : Nat} {dynlib : Option Nat}
    (hdynamic : dynamic + 56 ≤ r.header.length)
    (hdynlib : ∀ p, dynlib = some p → p + 56 ≤ r.header.length) :
    Safe (readDynamicName .machine env fileSize r (r.elf + r.phoff) dynamic dynlib)
      fun _ => True := by
  have habsent : absent = 2 ^ 64 - 1 := rfl
  unfold Executable.readDynamicName
  refine Safe.bind (readU64_safe (by omega)) fun dynSize _ => ?_
  refine Safe.bind (readU64_safe (by omega)) fun dynOffset _ => ?_
  split
  · exact Safe.pure trivial
  · rename_i haccepted
    simp only [not_or, Nat.not_lt, not_not] at haccepted
    have hturns : ∀ turn ∈ List.range ((dynSize + 511) / 512), turn * 512 < dynSize := by
      intro turn hturn
      rw [List.mem_range] at hturn
      omega
    refine Safe.bind (h.readDynamic haccepted.1 haccepted.2.1 (by omega) _ hturns _)
      fun result _ => ?_
    match result with
    | none => exact Safe.pure trivial
    | some (tags, terminated) =>
      dsimp only
      split
      · exact Safe.pure trivial
      · apply Safe.bind (h.findString hdynlib)
        intro place hplace
        match place with
        | none => exact Safe.pure trivial
        | some (place, strsz) => exact h.readName (hplace place strsz rfl)

end Opened

/-- The file name is read inside of the file. -/
theorem Housed.readElfFilename (h : Housed header size c) (hsize : size < 2 ^ 64) :
    Safe (readElfFilename .machine env size header c) fun _ => True := by
  have hheader := h.read
  have hinside := h.inside
  unfold Executable.readElfFilename
  refine Safe.bind (Safe.readRange (by omega)) fun ident _ => ?_
  refine Safe.bind (Safe.readU16 (by omega)) fun kind _ => ?_
  refine Safe.bind (Safe.readU16 (by omega)) fun machine _ => ?_
  refine Safe.bind (Safe.readU16 (by omega)) fun entry _ => ?_
  split
  · exact Safe.pure trivial
  · refine Safe.bind (readU64_safe (by omega)) fun phoff _ => ?_
    apply Safe.bind (Safe.readU16 (by omega))
    rintro phnum rfl
    have hcount := numberAt_two_lt header (c.elf + 56)
    apply Safe.bind (Safe.mul (by omega))
    rintro tableSize rfl
    apply Safe.bind (Safe.sub (by omega))
    rintro room rfl
    refine Safe.bind (Safe.sub (by omega)) fun space _ => ?_
    split
    · exact Safe.pure trivial
    · rename_i haccepted
      simp only [not_or, Bool.not_eq_true', Bool.not_eq_false, Nat.not_lt] at haccepted
      obtain ⟨-, -, -, htable, -⟩ := haccepted
      have hlaid := h.laid htable
      apply Safe.bind hlaid.tableStart
      rintro table rfl
      apply Safe.bind (hlaid.findDynamic _ (by simp) (none, none) (by simp) (by simp))
      rintro ⟨dynamic, dynlib⟩ ⟨hdynamic, hdynlib⟩
      cases dynamic with
      | none => exact Safe.pure trivial
      | some dynamic =>
        exact Opened.readDynamicName (r := ⟨header, c.limit, c.elf, phoff, c.segments, _⟩)
          ⟨hlaid, h.limit, hsize⟩ (hdynamic dynamic rfl) hdynlib

/-- The reader of the original name stays inside of the file. -/
theorem readExecutableFilename_safe (env : Environment) {size : Nat} (hsize : size < 2 ^ 64) :
    Safe (readExecutableFilename .machine env size) fun _ => True := by
  unfold readExecutableFilename
  dsimp only
  split
  · exact Safe.pure trivial
  · rename_i hlength
    apply Safe.bind (readAt_safe (by omega) (Nat.min_le_right _ _))
    intro header hheader
    cases header with
    | none => exact Safe.pure trivial
    | some header =>
      have hread := hheader header rfl
      have hcontainer : Safe (filenameContainer header size) fun result =>
          ∀ c, result = some c →
            c.limit ≤ size ∧ (c.segments = 0 ∨ c.elf = 32 + c.segments * 32) := by
        unfold filenameContainer
        refine Safe.bind (Safe.readU32 (by omega)) fun magic _ => ?_
        split
        · apply Safe.bind (Safe.readU16 (by omega))
          rintro segments rfl
          apply Safe.bind (elfPlace_safe (numberAt_two_lt header 24))
          rintro elf rfl
          refine Safe.bind (readU64_safe (by omega)) fun limit _ => ?_
          split
          · exact Safe.pure (by simp)
          · apply Safe.pure
            rintro c hc
            cases hc
            exact ⟨Nat.min_le_right _ _, .inr rfl⟩
        · apply Safe.pure
          rintro c hc
          cases hc
          exact ⟨Nat.le_refl _, .inl rfl⟩
      apply Safe.bind hcontainer
      intro container hfound
      cases container with
      | none => exact Safe.pure trivial
      | some c =>
        obtain ⟨hlimit, hsegments⟩ := hfound c rfl
        dsimp only
        split
        · exact Safe.pure trivial
        · rename_i haccepted
          simp only [not_or, Bool.not_eq_true', Bool.not_eq_false, executableRange_iff]
            at haccepted
          refine Housed.readElfFilename ⟨by omega, haccepted.2, hlimit, hsegments, ?_⟩ hsize
          rw [hread]
          exact Nat.min_le_right _ _

/-- Whatever the file holds and however its reads fail, the readers end without a read outside of
the file or of their buffers, without a look at a header field that was not read, and with every
file offset as plain numbers give it. -/
theorem executables_read_in_bounds (env : Environment) (size : UInt64) :
    (∃ sdk, readExecutableSdk .machine env size.toNat = .ok sdk) ∧
      ∃ name, readExecutableFilename .machine env size.toNat = .ok name := by
  obtain ⟨sdk, hsdk, -⟩ := readExecutableSdk_safe env size.toNat_lt
  obtain ⟨name, hname, -⟩ := readExecutableFilename_safe env size.toNat_lt
  exact ⟨⟨sdk, hsdk⟩, ⟨name, hname⟩⟩

/-- A container whose process parameter has an offset close to the end of the address space. -/
def highParam : Bytes :=
  let zeros := List.replicate
  littleEndian 4 0xEEF51454 ++ zeros 12 0 ++ littleEndian 8 264 ++ littleEndian 2 1 ++ zeros 6 0 ++
    (littleEndian 8 0x100800 ++ littleEndian 8 240 ++ littleEndian 8 24 ++ littleEndian 8 24) ++
    (elfIdent ++ zeros 11 0 ++ littleEndian 2 62 ++ zeros 12 0 ++ littleEndian 8 64 ++ zeros 14 0 ++
      littleEndian 2 56 ++ littleEndian 2 2 ++ zeros 6 0) ++
    (littleEndian 4 0x61000001 ++ zeros 4 0 ++ littleEndian 8 (2 ^ 64 - 32) ++ zeros 16 0 ++
      littleEndian 8 24 ++ zeros 16 0) ++
    (littleEndian 4 1 ++ zeros 4 0 ++ littleEndian 8 (2 ^ 64 - 32) ++ zeros 16 0 ++
      littleEndian 8 24 ++ zeros 16 0) ++
    (littleEndian 8 24 ++ littleEndian 4 0x4942524F ++ littleEndian 4 1 ++
      littleEndian 4 0x03000000 ++ littleEndian 4 0)

/-- A file that can be read. -/
def ofFile (file : Bytes) : Environment where
  read offset size :=
    if h : (slice file offset size).length = size then some ⟨slice file offset size, h⟩ else none
  alloc _ := true
  json _ := none

/-- For this file the sum of the two offsets wraps before the difference brings it back; the
parameter is read all the same. -/
theorem offset_sum_wraps :
    readExecutableSdk .strict (ofFile highParam) 264 = .error .wrap ∧
      readExecutableSdk .machine (ofFile highParam) 264 = .ok 0x03000000 := by
  decide +kernel

end ShadowMount.Executable
