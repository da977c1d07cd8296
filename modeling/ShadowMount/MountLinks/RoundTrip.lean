import ShadowMount.MountLinks.Model

/-!
# Mount links - reading back what was written

The reader takes a line into a buffer of fixed size.  A line that fills the buffer leaves its line
feed in the stream, and a look-ahead takes it; a shorter line brings its line feed along.  Either
way the stream then stands at the next line.

Main results:

- Theorem {lit}`satisfies_writeLinkLinesAtomic`: the file is as before until the write succeeds,
  and then holds the joined lines.
- Theorem {lit}`image_chain_round_trip`: what a write leaves, and what the two readers make of it.
-/

namespace ShadowMount.MountLinks

open Foundation

variable {p tail path content : Text} {size : Nat} {m m' : Machine Files Call Fault}

/-- A path that fits a line of a link file. -/
structure ImagePath (p : Text) : Prop where
  nonempty : p ≠ []
  short : p.length < maxPath
  plain : ∀ c ∈ p, c ≠ '\r' ∧ c ≠ '\n' ∧ c ≠ '\x00'

theorem ImagePath.noLineFeed (h : ImagePath p) : '\n' ∉ p :=
  fun hmem => (h.plain '\n' hmem).2.1 rfl

/-- What can follow a line. -/
def LineBreak (tail : Text) : Prop := tail = [] ∨ ∃ rest, tail = '\n' :: rest

theorem ImagePath.lineEnd_eq (h : ImagePath p) (htail : LineBreak tail) :
    lineEnd (p ++ tail) = p.length := by
  have hplain : ∀ c ∈ p, decide (c ≠ '\r' ∧ c ≠ '\n' ∧ c ≠ '\x00') = true := by
    intro c hc
    exact decide_eq_true (h.plain c hc)
  unfold lineEnd
  rw [List.takeWhile_append_of_pos hplain]
  rcases htail with rfl | ⟨rest, rfl⟩
  · simp
  · simp

theorem take_length_append (p tail : Text) : (p ++ tail).take p.length = p := by
  simp

/-- The line that `fgets` takes, with the stream behind it. -/
structure Taken (size : Nat) (p tail : Text) (line : Text) (s : Stream) : Prop where
  end_eq : lineEnd line = p.length
  body : line.take p.length = p
  sound : s.broken = false ∧ s.failed = false
  /-- The line feed is taken with the line, or the line fills the buffer. -/
  rest : (fillsBuffer size line = false ∧ s.rest = tail.drop 1) ∨
    (fillsBuffer size line = true ∧ s.rest = tail)

/-- One line is taken from the file. -/
theorem fgets_line (hp : ImagePath p) (htail : LineBreak tail) (hsize : p.length < size) :
    ∃ line s, fgets size ⟨p ++ tail, false, false⟩ = (some line, s) ∧ Taken size p tail line s := by
  have hpos : size ≠ 0 := by omega
  by_cases hfull : p.length + 1 = size
  · -- The line fills the buffer, and what follows stays in the stream.
    have hchunk : chunk '\n' (size - 1) (p ++ tail) = (p, tail) := by
      have hlimit : size - 1 = p.length := by omega
      rw [hlimit]
      exact chunk_full hp.noLineFeed tail
    have hfills : fullLine size p = true := by
      have hlength : p.length = size - 1 := by omega
      simp [fullLine, hlength]
    have hend : lineEnd p = p.length := by
      have happ := hp.lineEnd_eq (.inl rfl)
      rwa [List.append_nil] at happ
    refine ⟨p, ⟨tail, false, false⟩, ?_, hend, List.take_length, ⟨rfl, rfl⟩, .inr ⟨?_, rfl⟩⟩
    · simp only [fgets, if_neg hpos, hchunk, hfills, if_true]
    · simp [fillsBuffer, hend, hfull]
  · rcases htail with rfl | ⟨rest, rfl⟩
    · have hchunk : chunk '\n' (size - 1) p = (p, []) := by
        rw [chunk_of_length_le (by omega)]
        have hall := @chunk_full _ _ '\n' p hp.noLineFeed []
        rwa [List.append_nil] at hall
      have hnotFull : fullLine size p = false := by
        have hlength : p.length ≠ size - 1 := by omega
        have hlast : p.getLast? ≠ some '\n' := fun hmem =>
          hp.noLineFeed (List.mem_of_getLast? hmem)
        simp [fullLine, hlength, hlast]
      have hend : lineEnd p = p.length := by
        have happ := hp.lineEnd_eq (.inl rfl)
        rwa [List.append_nil] at happ
      refine ⟨p, ⟨[], false, false⟩, ?_, hend, List.take_length, ⟨rfl, rfl⟩, .inl ⟨?_, rfl⟩⟩
      · simp [fgets, hpos, hchunk, hnotFull, hp.nonempty, Stream.exhaust]
      · have hroom : ¬ size ≤ p.length + 1 := by omega
        simp [fillsBuffer, hend, hroom]
    · have hchunk : chunk '\n' (size - 1) (p ++ '\n' :: rest) = (p ++ ['\n'], rest) :=
        chunk_stop hp.noLineFeed (by omega) rest
      have hfills : fullLine size (p ++ ['\n']) = true := by
        simp [fullLine]
      have hend : lineEnd (p ++ ['\n']) = p.length := hp.lineEnd_eq (.inr ⟨[], rfl⟩)
      refine ⟨p ++ ['\n'], ⟨rest, false, false⟩, ?_, hend, take_length_append p _, ⟨rfl, rfl⟩,
        .inl ⟨?_, rfl⟩⟩
      · simp only [fgets, if_neg hpos, hchunk, hfills, if_true]
      · simp [fillsBuffer, hend]

theorem fgetc_lineBreak (htail : LineBreak tail) {s : Stream} (hrest : s.rest = tail)
    (hsound : s.broken = false ∧ s.failed = false) :
    ∃ next, fgetc s = (next, ⟨tail.drop 1, false, false⟩) ∧ continues next = false := by
  obtain ⟨rest, broken, failed⟩ := s
  obtain ⟨rfl, rfl⟩ := hsound
  rw [show rest = tail from hrest]
  rcases htail with rfl | ⟨rest, rfl⟩
  · exact ⟨none, rfl, rfl⟩
  · exact ⟨some '\n', rfl, rfl⟩

/-- The cast to `int` keeps the size of a buffer. -/
theorem castSize_eq (hint : size < 2 ^ 31) : castSize size = size := by
  unfold castSize
  have hlow : size % 2 ^ 32 = size := Nat.mod_eq_of_lt (by omega)
  simp only [hlow, hint, if_true]

/-- The first line of a file is read whole. -/
theorem firstLine_line (hp : ImagePath p) (htail : LineBreak tail) (hsize : p.length < size)
    (hint : size < 2 ^ 31) : firstLine size ⟨p ++ tail, false, false⟩ = some p := by
  obtain ⟨line, s, hfgets, htaken⟩ := fgets_line hp htail hsize
  have hgoes : (fillsBuffer size line && continues (fgetc s).1) = false := by
    rcases htaken.rest with ⟨hfills, -⟩ | ⟨-, hrest⟩
    · simp [hfills]
    · obtain ⟨next, hnext, hstop⟩ := fgetc_lineBreak htail hrest htaken.sound
      simp [hnext, hstop]
  unfold firstLine
  rw [castSize_eq hint, hfgets]
  simp only [hgoes, htaken.end_eq, htaken.body, hp.nonempty, if_false, Bool.false_eq_true]

/-- One turn of the reader takes one line. -/
theorem readLines_line (hp : ImagePath p) (htail : LineBreak tail) (slots : Nat) :
    readLines (slots + 1) ⟨p ++ tail, false, false⟩ =
      (p :: (readLines slots ⟨tail.drop 1, false, false⟩).1,
        (readLines slots ⟨tail.drop 1, false, false⟩).2) := by
  obtain ⟨line, s, hfgets, htaken⟩ := fgets_line hp htail hp.short
  have hnonempty : p.length ≠ 0 := fun h => hp.nonempty (List.length_eq_zero_iff.mp h)
  have hahead : ∃ next, (if fillsBuffer maxPath line then fgetc s else (none, s)) =
      (next, ⟨tail.drop 1, false, false⟩) ∧ continues next = false := by
    rcases htaken.rest with ⟨hfills, hrest⟩ | ⟨hfills, hrest⟩
    · refine ⟨none, ?_, rfl⟩
      obtain ⟨rest, broken, failed⟩ := s
      obtain ⟨rfl, rfl⟩ := htaken.sound
      simp only [hfills, Bool.false_eq_true, if_false]
      rw [← hrest]
    · rw [if_pos hfills]
      exact fgetc_lineBreak htail hrest htaken.sound
  obtain ⟨next, hnext, hstop⟩ := hahead
  simp only [readLines, hfgets, hnext, hstop, htaken.end_eq, htaken.body, hnonempty, if_false,
    Bool.false_eq_true]

/-- The lines of a file, joined by line feeds. -/
def joined : List Text → Text
  | [] => []
  | line :: lines => line ++ (if lines = [] then [] else ['\n']) ++ joined lines

theorem joined_cons (line : Text) (lines : List Text) :
    ∃ tail, joined (line :: lines) = line ++ tail ∧ LineBreak tail ∧
      tail.drop 1 = joined lines := by
  cases lines with
  | nil => exact ⟨[], by simp [joined], .inl rfl, rfl⟩
  | cons next lines =>
    exact ⟨'\n' :: joined (next :: lines), by simp [joined], .inr ⟨_, rfl⟩, rfl⟩

/-- The loop reads the lines that were joined, when there are slots for them. -/
theorem readLines_joined {chain : List Text} (hchain : ∀ p ∈ chain, ImagePath p) {slots : Nat}
    (hslots : chain.length ≤ slots) :
    readLines slots ⟨joined chain, false, false⟩ = (chain, true, ⟨[], false, false⟩) := by
  induction chain generalizing slots with
  | nil =>
    cases slots with
    | zero => rfl
    | succ slots => rfl
  | cons p chain ih =>
    cases slots with
    | zero => exact absurd hslots (Nat.not_succ_le_zero _)
    | succ slots =>
      obtain ⟨tail, hjoined, htail, hrest⟩ := joined_cons p chain
      have hlater := ih (fun q hq => hchain q (List.mem_cons_of_mem p hq))
        (Nat.le_of_succ_le_succ hslots)
      rw [hjoined, readLines_line (hchain p List.mem_cons_self) htail, hrest, hlater]

/-- A written chain is read back. -/
theorem readImageChainFile_joined {chain : List Text} (hchain : ∀ p ∈ chain, ImagePath p)
    (hnonempty : chain ≠ []) (hdepth : chain.length ≤ maxImageChainDepth) :
    readImageChainFile .none (some (joined chain)) = some chain := by
  unfold readImageChainFile
  simp only [openStream, ReadFaults.none, readLines_joined hchain hdepth]
  by_cases hfull : chain.length = maxImageChainDepth
  · simp [hfull, fgetc, Stream.exhaust, hnonempty]
  · simp [hfull, hnonempty]

/-- The first line of a chain is the link. -/
theorem readMountLinkFile_joined {p : Text} {chain : List Text} (hp : ImagePath p) {size : Nat}
    (hsize : p.length < size) (hint : size < 2 ^ 31) :
    readMountLinkFile .none size (some (joined (p :: chain))) = some p := by
  obtain ⟨tail, hjoined, htail, -⟩ := joined_cons p chain
  unfold readMountLinkFile
  rw [if_neg (by omega)]
  simp only [openStream, ReadFaults.none, hjoined]
  exact firstLine_line hp htail hsize hint

@[simp]
theorem put_self (files : Files) (path : Text) (content : Option Text) :
    put files path content path = content := by
  simp [put]

theorem put_of_ne (files : Files) {other : Text} (content : Option Text) (h : other ≠ path) :
    put files path content other = files other := by
  simp [put, h]

theorem tempPath_ne (path : Text) : path ≠ path ++ ".tmp".toList := by
  intro h
  have hlength := congrArg List.length h
  simp at hlength

/-- Only one file changes. -/
def Beside (path : Text) (files files' : Files) : Prop :=
  ∀ other, other ≠ path → files' other = files other

theorem beside_put (files : Files) (path : Text) (content : Option Text) :
    Beside path files (put files path content) :=
  fun _ hother => put_of_ne files content hother

theorem Beside.trans {a b c : Files} (h : Beside path a b) (h' : Beside path b c) :
    Beside path a c :=
  fun other hother => (h' other hother).trans (h other hother)

/-- What a part of the writer has done to its file: no other file has changed at any moment, and
when it reports success the file holds the text. -/
def Writes (path : Text) (content : Text) (m : Machine Files Call Fault) (ok : Bool)
    (m' : Machine Files Call Fault) : Prop :=
  Evolves (Beside path) m m' ∧ (ok = true → m'.world path = some content)

theorem satisfies_output {c : Call} {lose : Fault → Files → Files} {act : Files → Option Files}
    (hlose : ∀ fault, Beside path m.world (lose fault m.world))
    (hact : ∀ files, act m.world = some files →
      Beside path m.world files ∧ files path = some content) :
    Satisfies (lossyCall c lose act) m fun ok m' => Writes path content m ok m' := by
  apply satisfies_lossyCall
  · intro fault _
    exact ⟨.record (hlose fault), nofun⟩
  · intro _
    exact ⟨.record fun _ _ => rfl, nofun⟩
  · intro files hfiles
    exact ⟨.record (hact files hfiles).1, fun _ => (hact files hfiles).2⟩

theorem satisfies_complete (c : Call) (hm : m.world path = some content) :
    Satisfies (complete c path) m fun ok m' => Writes path content m ok m' := by
  apply satisfies_output
  · intro fault
    exact beside_put m.world path _
  · intro files hfiles
    cases hfiles
    exact ⟨fun _ _ => rfl, hm⟩

theorem Writes.after {content' : Text} {ok : Bool} {m'' : Machine Files Call Fault}
    (h : Evolves (Beside path) m m') (h' : Writes path content' m' ok m'')
    (hcontent : ok = true → content' = content) : Writes path content m ok m'' := by
  constructor
  · exact h.trans h'.1 (fun _ hb => hb) fun d hd => h.world.trans hd
  · intro hok
    rw [← hcontent hok]
    exact h'.2 hok

theorem Writes.failed (h : Evolves (Beside path) m m') : Writes path content m false m' :=
  ⟨h, nofun⟩

/-- The lines are printed, or a fault left a part of them. -/
theorem satisfies_printLines {before : Text} (lines : List Text) (hm : m.world path = some before) :
    Satisfies (printLines path lines) m fun ok m' =>
      Writes path (before ++ joined lines) m ok m' := by
  induction lines generalizing before m with
  | nil =>
    apply Satisfies.pure
    refine ⟨Evolves.refl fun _ _ => rfl, fun _ => ?_⟩
    rw [hm, joined, List.append_nil]
  | cons line lines ih =>
    unfold printLines
    by_cases hempty : line = []
    · rw [if_pos hempty]
      exact .pure (Writes.failed (.refl fun _ _ => rfl))
    rw [if_neg hempty]
    refine .andThen (Writes path (before ++ (line ++ if lines = [] then [] else ['\n'])) m)
      ?_ ?_
    · apply satisfies_output
      · intro fault
        exact beside_put m.world path _
      · intro files hfiles
        cases hfiles
        refine ⟨beside_put m.world path _, ?_⟩
        simp [hm]
    · intro ok m' hprinted
      cases ok with
      | false => exact .pure (Writes.failed hprinted.1)
      | true =>
        refine (ih (hprinted.2 rfl)).mono fun ok m'' hrest => ?_
        exact hrest.after hprinted.1 fun _ => by simp [joined]

theorem satisfies_provided_complete (c : Call) {ok : Bool} {m₀ : Machine Files Call Fault}
    (h : Writes path content m₀ ok m) :
    Satisfies (provided ok (complete c path)) m fun ok m' => Writes path content m₀ ok m' := by
  cases ok with
  | false => exact .pure h
  | true => exact (satisfies_complete c (h.2 rfl)).mono fun _ _ hc => hc.after h.1 fun _ => rfl

/-- The temporary file holds the lines if nothing failed. -/
theorem satisfies_writeTemp (lines : List Text) (hm : m.world path = some []) :
    Satisfies (writeTemp path lines) m fun ok m' => Writes path (joined lines) m ok m' := by
  unfold writeTemp
  refine .andThen _ (satisfies_printLines lines hm) fun ok m₁ h₁ => ?_
  rw [List.nil_append] at h₁
  refine .andThen _ (satisfies_provided_complete (.flush path) h₁) fun ok m₂ h₂ => ?_
  refine .andThen _ (satisfies_provided_complete (.sync path) h₂) fun ok m₃ h₃ => ?_
  cases ok with
  | true =>
    refine .andThen _ (satisfies_complete (.close path) (h₃.2 rfl)) fun closed m₄ h₄ => ?_
    exact .pure (h₄.after h₃.1 fun _ => rfl)
  | false =>
    refine .bind (satisfies_lossyCall ?_ ?_ ?_)
    · intro fault _
      refine .pure (Writes.failed (h₃.1.trans (.record ?_)
        (fun _ hb => hb) fun d hd => h₃.1.world.trans hd))
      exact beside_put m₃.world path _
    · intro hrefused
      cases hrefused
    · intro files hfiles
      cases hfiles
      refine .pure (Writes.failed (h₃.1.trans (.record ?_)
        (fun _ hb => hb) fun d hd => h₃.1.world.trans hd))
      exact fun _ _ => rfl

/-- The link holds what it held, or the text. -/
def Replaced (path content : Text) (files files' : Files) : Prop :=
  files' path = files path ∨ files' path = some content

/-- What a writer does to a link: at every moment it holds what it held before or the text,
afterwards the text after a success and what it held before after a failure. -/
structure Published (path content : Text) (m : Machine Files Call Fault) (ok : Bool)
    (m' : Machine Files Call Fault) : Prop where
  evolves : Evolves (Replaced path content) m m'
  success : ok = true → m'.world path = some content
  failure : ok = false → m'.world path = m.world path

theorem satisfies_unlink : Satisfies (unlink path) m fun _ m' => Evolves (Beside path) m m' := by
  apply satisfies_lossyCall
  · intro fault _
    exact .record fun _ _ => rfl
  · intro _
    exact .record fun _ _ => rfl
  · intro files hfiles
    split at hfiles
    next => cases hfiles
    next =>
      cases hfiles
      exact .record (beside_put m.world path none)

theorem Evolves.link (h : Evolves (Beside (path ++ ".tmp".toList)) m m') :
    Evolves (Replaced path content) m m' :=
  h.mono fun _ hb => .inl (hb path (tempPath_ne path))

/-- The links are published, or the old ones stay. -/
theorem satisfies_writeLinkLinesAtomic (path : Text) (lines : List Text)
    (m : Machine Files Call Fault) :
    Satisfies (writeLinkLinesAtomic path lines) m fun ok m' =>
      Published path (joined lines) m ok m' := by
  have hfailed : ∀ {m' : Machine Files Call Fault},
      Evolves (Beside (path ++ ".tmp".toList)) m m' → Published path (joined lines) m false m' :=
    fun h => ⟨Evolves.link h, nofun, fun _ => h.world path (tempPath_ne path)⟩
  unfold writeLinkLinesAtomic
  dsimp only
  by_cases hlong : maxPath ≤ (path ++ ".tmp".toList).length
  · rw [if_pos hlong]
    exact Satisfies.pure (hfailed (Evolves.refl fun _ _ => rfl))
  rw [if_neg hlong]
  refine Satisfies.andThen (Writes (path ++ ".tmp".toList) [] m) ?_ fun created m₁ h₁ => ?_
  · apply satisfies_output
    · intro fault _ _
      rfl
    · intro files hfiles
      cases hfiles
      exact ⟨beside_put m.world _ _, put_self _ _ _⟩
  cases created with
  | false => exact Satisfies.pure (hfailed h₁.1)
  | true =>
    refine Satisfies.andThen _ (satisfies_writeTemp lines (h₁.2 rfl)) fun ok m₂ hwritten => ?_
    have h₂ := hwritten.after h₁.1 fun _ => rfl
    have hgiveUp : ∀ {m₃ : Machine Files Call Fault},
        Evolves (Beside (path ++ ".tmp".toList)) m m₃ →
        Satisfies (do
            let _ ← unlink (path ++ ".tmp".toList)
            return false) m₃ fun ok m' => Published path (joined lines) m ok m' := by
      intro m₃ h₃
      refine Satisfies.andThen _ satisfies_unlink fun _ m₄ h₄ => Satisfies.pure (hfailed ?_)
      exact h₃.trans h₄ (fun _ hb => hb) fun d hd => h₃.world.trans hd
    cases ok with
    | false => exact hgiveUp h₂.1
    | true =>
      rw [provided, if_pos rfl]
      refine Satisfies.bind (satisfies_lossyCall ?_ ?_ ?_)
      · intro fault _
        exact hgiveUp (h₂.1.trans (Evolves.record fun _ _ => rfl) (fun _ hb => hb)
          fun d hd => h₂.1.world.trans hd)
      · intro _
        exact hgiveUp (h₂.1.trans (Evolves.record fun _ _ => rfl) (fun _ hb => hb)
          fun d hd => h₂.1.world.trans hd)
      · intro files hfiles
        rw [h₂.2 rfl] at hfiles
        cases hfiles
        apply Satisfies.pure
        constructor
        · refine (Evolves.link h₂.1).trans (Evolves.record (R := Replaced path (joined lines)) ?_)
            (fun _ hb => hb) fun d hd => ?_
          · exact .inr (put_self _ _ _)
          · rcases hd with hsame | hnew
            · rcases (Evolves.link h₂.1).world with hold | hnew
              · exact .inl (hsame.trans hold)
              · exact .inr (hsame.trans hnew)
            · exact .inr hnew
        · intro _
          exact put_self _ _ _
        · intro hfalse
          cases hfalse

/-- A chain is published whole or not at all. -/
theorem satisfies_writeMountImageChain (titleId : Text) (chain : List Text)
    (m : Machine Files Call Fault) :
    Satisfies (writeMountImageChain (some titleId) chain) m fun ok m' =>
      Published (buildTitleLinkPaths titleId).mountImageLink (joined chain) m ok m' ∧
        ((chain ≠ [] ∧ chain.length ≤ maxImageChainDepth) ∨ (ok = false ∧ m' = m)) := by
  unfold writeMountImageChain
  dsimp only
  split
  next =>
    apply Satisfies.pure
    exact ⟨⟨Evolves.refl (.inl rfl), nofun, fun _ => rfl⟩, .inr ⟨rfl, rfl⟩⟩
  next hargs =>
    simp only [Bool.or_eq_true, decide_eq_true_eq, not_or, Nat.not_lt] at hargs
    refine (satisfies_writeLinkLinesAtomic _ chain m).mono fun ok m' h => ⟨h, .inl ?_⟩
    exact ⟨hargs.1.2, hargs.2⟩

/-- Writing a chain, whatever goes wrong.  After a success, which needs one to
`MAX_IMAGE_CHAIN_DEPTH` paths, a read without errors brings back the chain, and a read of the
link its first path in every buffer that holds it.  After a failure every read gives what it gave
before, and at every moment on the way the file is as before or holds the chain. -/
theorem image_chain_round_trip (titleId : Text) (chain : List Text)
    (m : Machine Files Call Fault) :
    Satisfies (writeMountImageChain (some titleId) chain) m fun ok m' =>
      (ok = true → (∀ p ∈ chain, ImagePath p) →
        (1 ≤ chain.length ∧ chain.length ≤ maxImageChainDepth) ∧
        readMountImageChain .none m'.world (some titleId) = some chain ∧
        ∀ first, chain.head? = some first → ∀ size, first.length < size → size < 2 ^ 31 →
          readMountImageLink .none m'.world (some titleId) size = some first) ∧
      (ok = false → ∀ f,
        readMountImageChain f m'.world (some titleId) =
          readMountImageChain f m.world (some titleId) ∧
        ∀ size, readMountImageLink f m'.world (some titleId) size =
          readMountImageLink f m.world (some titleId) size) ∧
      ∀ e ∈ m'.log, e ∈ m.log ∨
        (∀ f, readMountImageChain f e.world (some titleId) =
          readMountImageChain f m.world (some titleId)) ∨
        ((∀ p ∈ chain, ImagePath p) →
          readMountImageChain .none e.world (some titleId) = some chain) := by
  refine (satisfies_writeMountImageChain titleId chain m).mono ?_
  rintro ok m' ⟨hpublished, hcount⟩
  refine ⟨fun hok hchain => ?_, fun hfailed f => ?_, fun e he => ?_⟩
  · rcases hcount with ⟨hnonempty, hdepth⟩ | ⟨hfailed, -⟩
    · have hfile := hpublished.success hok
      refine ⟨⟨List.length_pos_iff.mpr hnonempty, hdepth⟩, ?_, ?_⟩
      · simp only [readMountImageChain, hfile]
        exact readImageChainFile_joined hchain hnonempty hdepth
      · intro first hfirst size hsize hint
        cases chain with
        | nil => cases hfirst
        | cons p chain =>
          cases hfirst
          simp only [readMountImageLink, hfile]
          exact readMountLinkFile_joined (hchain first List.mem_cons_self) hsize hint
    · rw [hok] at hfailed
      cases hfailed
  · have hfile := hpublished.failure hfailed
    simp only [readMountImageChain, readMountImageLink, hfile, implies_true, and_self]
  · rcases hcount with ⟨hnonempty, hdepth⟩ | ⟨-, rfl⟩
    · rcases hpublished.evolves.log e he with hearlier | hold | hnew
      · exact .inl hearlier
      · refine .inr (.inl fun f => ?_)
        simp only [readMountImageChain, hold]
      · refine .inr (.inr fun hchain => ?_)
        simp only [readMountImageChain, hnew]
        exact readImageChainFile_joined hchain hnonempty hdepth
    · exact .inl he

/-- A machine on which no call fails, without files. -/
def idleMachine : Machine Files Call Fault := ⟨fun _ => ⟨none, 0⟩, 0, fun _ => none, []⟩

/-- An image inside of another one, with a blank at
the end of its name. -/
theorem image_chain_round_trip_nested :
    let chain := ["/data/inner.exfat ".toList, "/data/outer.ffpkg".toList]
    let result := writeMountImageChain (some "CUSA00001".toList) chain idleMachine
    result.1 = true ∧
      readMountImageChain .none result.2.world (some "CUSA00001".toList) = some chain := by
  intro chain result
  have hok : result.1 = true := by
    decide +kernel
  have hchain : ∀ p ∈ chain, ImagePath p := by
    intro p hp
    have hplain : ∀ p ∈ chain, p ≠ [] ∧ p.length < maxPath ∧
        p.all fun c => c ≠ '\r' ∧ c ≠ '\n' ∧ c ≠ '\x00' := by
      decide
    obtain ⟨hnonempty, hshort, hall⟩ := hplain p hp
    exact ⟨hnonempty, hshort, by simpa using hall⟩
  exact ⟨hok, ((image_chain_round_trip _ chain idleMachine).1 hok hchain).2.1⟩

end ShadowMount.MountLinks
