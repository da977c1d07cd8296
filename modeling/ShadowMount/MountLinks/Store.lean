import ShadowMount.MountLinks.RoundTrip

/-!
# Mount links - the links of all titles

The two link files of a title are replaced through temporary files beside them.  The names of
different titles and of the two links do not meet, so the files of {lit}`/user/app` are a store:
each link reads as it was written last, whatever was written to the others and whatever failed.

Main results:

- Theorem {lit}`links_read_last_write`: what the readers make of it.
-/

namespace ShadowMount.MountLinks

open Foundation

/-- The links of a title. -/
inductive Link where
  | mount
  | image
deriving DecidableEq

def Link.filename : Link → Text
  | .mount => "mount.lnk".toList
  | .image => "mount_img.lnk".toList

/-- The file of a link. -/
def Link.file (k : Link) (titleId : Text) : Text := buildTitleLinkPath titleId k.filename

/-- A title id that is the name of a directory and fits its buffer. -/
def LinkTitle (titleId : Text) : Prop := '/' ∉ titleId ∧ titleId.length < maxTitleId

theorem file_eq (k : Link) {titleId : Text} (h : LinkTitle titleId) :
    k.file titleId = appBase ++ '/' :: (titleId ++ '/' :: k.filename) := by
  have hbase : appBase.length = 9 := by decide
  have hname : k.filename.length ≤ 13 := by cases k <;> decide
  have htitle : titleId.length < 32 := h.2
  unfold Link.file buildTitleLinkPath
  rw [strlcpy_of_lt]
  · simp
  · simp only [List.length_append, List.length_cons, hbase]
    unfold maxPath
    omega

/-- Files of different titles or links are different files. -/
theorem file_inj {k k' : Link} {t t' : Text} (h : LinkTitle t) (h' : LinkTitle t') :
    (k.file t = k'.file t' ↔ k = k' ∧ t = t') ∧ k.file t ≠ k'.file t' ++ ".tmp".toList := by
  have hslash : '/' ∉ k.filename := by cases k <;> decide
  have hnames : (k.filename = k'.filename ↔ k = k') ∧
      k.filename ≠ k'.filename ++ ".tmp".toList := by
    cases k <;> cases k' <;> decide
  have hinj : ∀ name : Text, appBase ++ '/' :: (t ++ '/' :: k.filename) =
      appBase ++ '/' :: (t' ++ '/' :: name) ↔ t = t' ∧ k.filename = name := by
    intro name
    rw [List.append_right_inj, List.cons_inj_right, List.append_cons_inj_of_notMem h.1 hslash]
    exact and_congr_right fun _ => and_iff_right rfl
  constructor
  · rw [file_eq k h, file_eq k' h', hinj, hnames.1, and_comm]
  · intro heq
    have hlong : k'.file t' ++ ".tmp".toList =
        appBase ++ '/' :: (t' ++ '/' :: (k'.filename ++ ".tmp".toList)) := by
      rw [file_eq k' h', List.append_assoc, List.cons_append, List.append_assoc, List.cons_append]
    rw [file_eq k h, hlong, hinj] at heq
    exact hnames.2 heq.2

/-- A call of a writer. -/
inductive LinkWrite where
  | mountLink (titleId sourcePath : Text)
  | imageLink (titleId imagePath : Text)
  | imageChain (titleId : Text) (paths : List Text)
deriving DecidableEq

namespace LinkWrite

def run : LinkWrite → FileExec Bool
  | .mountLink titleId sourcePath => writeMountLink (some titleId) (some sourcePath)
  | .imageLink titleId imagePath => writeMountImageLink (some titleId) (some imagePath)
  | .imageChain titleId paths => writeMountImageChain (some titleId) paths

def titleId : LinkWrite → Text
  | .mountLink titleId _ => titleId
  | .imageLink titleId _ => titleId
  | .imageChain titleId _ => titleId

def link : LinkWrite → Link
  | .mountLink _ _ => .mount
  | .imageLink _ _ => .image
  | .imageChain _ _ => .image

/-- The lines it writes. -/
def lines : LinkWrite → List Text
  | .mountLink _ sourcePath => [sourcePath]
  | .imageLink _ imagePath => [strlcpy maxPath imagePath]
  | .imageChain _ paths => paths

end LinkWrite

/-- The writers are called one after another, whatever they return. -/
def runWrites : List LinkWrite → FileExec (List Bool)
  | [] => pure []
  | w :: writes => do
    let ok ← w.run
    let oks ← runWrites writes
    return ok :: oks

/-- The lines of the last write of a link that succeeded. -/
def lastLines (k : Link) (titleId : Text) : List (LinkWrite × Bool) → Option (List Text)
  | [] => none
  | (w, ok) :: rest =>
    (lastLines k titleId rest).or
      (if ok ∧ w.link = k ∧ w.titleId = titleId then some w.lines else none)

variable {I : Files → Prop} {path : Text}

/-- A statement that does not depend on one file. -/
def Ignores (I : Files → Prop) (path : Text) : Prop :=
  ∀ files content, I files → I (put files path content)

theorem keeps_lossyCall {c : Call} {lose : Fault → Files → Files} {act : Files → Option Files}
    (hlose : ∀ fault files, I files → I (lose fault files))
    (hact : ∀ files files', act files = some files' → I files → I files') :
    Keeps (fun _ => True) I (lossyCall c lose act) := by
  intro m _ hI
  apply satisfies_lossyCall
  · exact fun fault _ => .record (hlose fault _ hI)
  · exact fun _ => .record hI
  · exact fun files hfiles => .record (hact _ files hfiles hI)

theorem keeps_complete (h : Ignores I path) (c : Call) :
    Keeps (fun _ => True) I (complete c path) :=
  keeps_lossyCall (fun _ files => h files _) fun _ _ hsome hI => Option.some.inj hsome ▸ hI

theorem keeps_provided {step : FileExec Bool} (h : Keeps (fun _ => True) I step) (ok : Bool) :
    Keeps (fun _ => True) I (provided ok step) :=
  .ite (fun _ => h) fun _ => .pure false

theorem keeps_printLines (h : Ignores I path) (lines : List Text) :
    Keeps (fun _ => True) I (printLines path lines) := by
  induction lines with
  | nil => exact .pure true
  | cons line lines ih =>
    unfold printLines
    refine .ite (fun _ => .pure false) fun _ => .bind ?_ fun printed => ?_
    · refine keeps_lossyCall (fun _ files => h files _) fun files files' hsome hI => ?_
      cases hsome
      exact h files _ hI
    · exact .ite (fun _ => .pure false) fun _ => ih

theorem keeps_writeLinkLinesAtomic (h : Ignores I path)
    (htemp : Ignores I (path ++ ".tmp".toList)) (lines : List Text) :
    Keeps (fun _ => True) I (writeLinkLinesAtomic path lines) := by
  have hcreate : Keeps (fun _ => True) I (create (path ++ ".tmp".toList)) := by
    refine keeps_lossyCall (fun _ _ hI => hI) fun files files' hsome hI => ?_
    cases hsome
    exact htemp files _ hI
  have hrename : Keeps (fun _ => True) I (rename (path ++ ".tmp".toList) path) := by
    refine keeps_lossyCall (fun _ _ hI => hI) fun files files' hsome hI => ?_
    split at hsome
    next => cases hsome
    next content _ =>
      cases hsome
      exact h _ _ (htemp files _ hI)
  have hunlink : Keeps (fun _ => True) I (unlink (path ++ ".tmp".toList)) := by
    refine keeps_lossyCall (fun _ _ hI => hI) fun files files' hsome hI => ?_
    split at hsome
    next => cases hsome
    next =>
      cases hsome
      exact htemp files _ hI
  have hwrite : Keeps (fun _ => True) I (writeTemp (path ++ ".tmp".toList) lines) := by
    refine .bind (keeps_printLines htemp lines) fun printed => ?_
    refine .bind (keeps_provided (keeps_complete htemp _) printed) fun flushed => ?_
    refine .bind (keeps_provided (keeps_complete htemp _) flushed) fun synced => ?_
    exact .bind (keeps_complete htemp _) fun closed => .pure _
  unfold writeLinkLinesAtomic
  refine .ite (fun _ => .pure false) fun _ => .bind hcreate fun created => ?_
  refine .ite (fun _ => .pure false) fun _ => .bind hwrite fun ok => ?_
  refine .bind (keeps_provided hrename ok) fun renamed => ?_
  exact .ite (fun _ => .pure true) fun _ => .bind hunlink fun _ => .pure false

theorem keeps_run {w : LinkWrite} (h : Ignores I (w.link.file w.titleId))
    (htemp : Ignores I (w.link.file w.titleId ++ ".tmp".toList)) :
    Keeps (fun _ => True) I w.run := by
  have hchain : ∀ titleId paths, w.link = .image → w.titleId = titleId →
      Keeps (fun _ => True) I (writeMountImageChain (some titleId) paths) := by
    rintro titleId paths hlink rfl
    rw [hlink] at h htemp
    exact .ite (fun _ => .pure false) fun _ => keeps_writeLinkLinesAtomic h htemp paths
  cases w with
  | mountLink titleId sourcePath =>
    exact .ite (fun _ => .pure false) fun _ => keeps_writeLinkLinesAtomic h htemp _
  | imageLink titleId imagePath =>
    exact .ite (fun _ => .pure false) fun _ => hchain titleId _ rfl rfl
  | imageChain titleId paths => exact hchain titleId paths rfl rfl

/-- A writer replaces its link or leaves it as it was, and it writes no more lines than the readers
take. -/
theorem satisfies_run (w : LinkWrite) (m : Machine Files Call Fault) :
    Satisfies w.run m fun ok m' =>
      Published (w.link.file w.titleId) (joined w.lines) m ok m' ∧
        (ok = true → w.lines ≠ [] ∧ w.lines.length ≤ maxImageChainDepth) := by
  have hrefused : Satisfies (pure false) m fun ok m' =>
      Published (w.link.file w.titleId) (joined w.lines) m ok m' ∧
        (ok = true → w.lines ≠ [] ∧ w.lines.length ≤ maxImageChainDepth) :=
    ⟨⟨.refl (.inl rfl), nofun, fun _ => rfl⟩, nofun⟩
  have hchain : ∀ titleId paths, Satisfies (writeMountImageChain (some titleId) paths) m
      fun ok m' => Published (Link.image.file titleId) (joined paths) m ok m' ∧
        (ok = true → paths ≠ [] ∧ paths.length ≤ maxImageChainDepth) := by
    intro titleId paths
    refine (satisfies_writeMountImageChain titleId paths m).mono ?_
    rintro ok m' ⟨hpublished, hbounds | ⟨hfailed, -⟩⟩
    · exact ⟨hpublished, fun _ => hbounds⟩
    · exact ⟨hpublished, fun hok => absurd (hfailed.symm.trans hok) (by decide)⟩
  cases w with
  | mountLink titleId sourcePath =>
    simp only [LinkWrite.run, writeMountLink]
    split
    · exact hrefused
    · refine (satisfies_writeLinkLinesAtomic _ [sourcePath] m).mono fun ok m' h => ⟨h, fun _ => ?_⟩
      exact ⟨List.cons_ne_nil _ _, by simp [LinkWrite.lines, maxImageChainDepth]⟩
  | imageLink titleId imagePath =>
    simp only [LinkWrite.run, writeMountImageLink]
    split
    · exact hrefused
    · exact hchain titleId _
  | imageChain titleId paths => exact hchain titleId paths

/-- After a run each link holds the lines that were written to it last, or what it held before. -/
theorem satisfies_runWrites (k : Link) {titleId : Text} (htitle : LinkTitle titleId)
    (writes : List LinkWrite) (htitles : ∀ w ∈ writes, LinkTitle w.titleId)
    (m : Machine Files Call Fault) :
    Satisfies (runWrites writes) m fun oks m' =>
      m'.world (k.file titleId) = ((lastLines k titleId (writes.zip oks)).map joined).or
        (m.world (k.file titleId)) ∧
      ∀ lines, lastLines k titleId (writes.zip oks) = some lines →
        lines ≠ [] ∧ lines.length ≤ maxImageChainDepth := by
  induction writes generalizing m with
  | nil => exact .pure ⟨rfl, nofun⟩
  | cons w writes ih =>
    obtain ⟨hw, hrest⟩ := List.forall_mem_cons.1 htitles
    have hstep : Satisfies w.run m fun ok m₁ =>
        let now := if ok ∧ w.link = k ∧ w.titleId = titleId then some w.lines else none
        m₁.world (k.file titleId) = (now.map joined).or (m.world (k.file titleId)) ∧
          ∀ lines, now = some lines → lines ≠ [] ∧ lines.length ≤ maxImageChainDepth := by
      by_cases hsame : w.link = k ∧ w.titleId = titleId
      · obtain ⟨rfl, rfl⟩ := hsame
        refine (satisfies_run w m).mono fun ok m₁ ⟨hpublished, hbounds⟩ => ?_
        cases ok with
        | false => simp [hpublished.failure rfl]
        | true => simpa [hpublished.success rfl] using hbounds rfl
      · have hother : k.file titleId ≠ w.link.file w.titleId := fun heq =>
          hsame ((file_inj htitle hw).1.1 heq |>.imp Eq.symm Eq.symm)
        have hkept : Keeps (fun _ => True)
            (fun files => files (k.file titleId) = m.world (k.file titleId)) w.run := by
          refine keeps_run (fun files content h => ?_) fun files content h => ?_
          · exact (put_of_ne files content hother).trans h
          · exact (put_of_ne files content (file_inj htitle hw).2).trans h
        refine (hkept m trivial rfl).mono fun ok m₁ hevolves => ?_
        simpa [hsame] using hevolves.world
    refine .andThen _ hstep fun ok m₁ hnow => ?_
    refine .andThen _ (ih hrest m₁) fun oks m₂ hlast => .pure ?_
    rw [List.zip_cons_cons, lastLines]
    cases hl : lastLines k titleId (writes.zip oks) with
    | none => simpa [hl, hlast.1] using hnow
    | some lines => simpa [hl, hlast.1] using hlast.2 lines hl

/-- Over every run of writers, with any faults, each link of each title reads as it was written
last, and one that no writer has replaced as before. -/
theorem links_read_last_write {titleId : Text} (htitle : LinkTitle titleId)
    (writes : List LinkWrite) (htitles : ∀ w ∈ writes, LinkTitle w.titleId)
    (m : Machine Files Call Fault) :
    Satisfies (runWrites writes) m fun oks m' =>
      (∀ source, ImagePath source → lastLines .mount titleId (writes.zip oks) = some [source] →
        ∀ size, source.length < size → size < 2 ^ 31 →
          readMountLink .none m'.world titleId size = some source) ∧
      (∀ chain, (∀ p ∈ chain, ImagePath p) →
        lastLines .image titleId (writes.zip oks) = some chain →
          readMountImageChain .none m'.world (some titleId) = some chain) ∧
      (lastLines .mount titleId (writes.zip oks) = none → ∀ f size,
        readMountLink f m'.world titleId size = readMountLink f m.world titleId size) ∧
      (lastLines .image titleId (writes.zip oks) = none → ∀ f,
        readMountImageChain f m'.world (some titleId) =
          readMountImageChain f m.world (some titleId)) := by
  have hfile : ∀ k, _ := fun k => satisfies_runWrites k htitle writes htitles m
  refine ((hfile .mount).and (hfile .image)).mono ?_
  rintro oks m' ⟨⟨hmount, -⟩, ⟨himage, hbounds⟩⟩
  refine ⟨fun source hsource hlast size hsize hint => ?_, fun chain hchain hlast => ?_,
    fun hlast f size => ?_, fun hlast f => ?_⟩
  · rw [hlast] at hmount
    exact (congrArg (readMountLinkFile .none size) hmount).trans
      (@readMountLinkFile_joined source [] hsource size hsize hint)
  · obtain ⟨hne, hdepth⟩ := hbounds chain hlast
    rw [hlast] at himage
    exact (congrArg (readImageChainFile .none) himage).trans
      (readImageChainFile_joined hchain hne hdepth)
  · rw [hlast] at hmount
    exact congrArg (readMountLinkFile f size) hmount
  · rw [hlast] at himage
    exact congrArg (readImageChainFile f) himage

/-- Two titles, of which one is written twice. -/
theorem links_read_last_write_two_titles :
    let writes : List LinkWrite := [.mountLink "CUSA00001".toList "/data/a".toList,
      .imageLink "CUSA00002".toList "/data/b.exfat".toList,
      .mountLink "CUSA00001".toList "/data/c".toList]
    readMountLink .none (runWrites writes idleMachine).2.world "CUSA00001".toList maxPath =
      some "/data/c".toList := by
  intro writes
  have htitles : ∀ w ∈ writes, LinkTitle w.titleId := by
    unfold LinkTitle
    decide +kernel
  have hsource : ImagePath "/data/c".toList := by
    have hall : "/data/c".toList.all fun c => c ≠ '\r' ∧ c ≠ '\n' ∧ c ≠ '\x00' := by decide
    exact ⟨by decide, by decide, by simpa only [List.all_eq_true, decide_eq_true_eq] using hall⟩
  have hlast : lastLines .mount "CUSA00001".toList
      (writes.zip (runWrites writes idleMachine).1) = some ["/data/c".toList] := by
    decide +kernel
  exact (links_read_last_write (htitles _ List.mem_cons_self) writes htitles idleMachine).1 _
    hsource hlast maxPath (by decide) (by decide)

end ShadowMount.MountLinks
