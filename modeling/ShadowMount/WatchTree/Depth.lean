import ShadowMount.PathContainment
import ShadowMount.WatchTree.Model

/-!
# Depth below a scan root

A walk appends one name to a path for each level it goes down, so the depth of a path is the number
of components it has more than the root.
-/

namespace ShadowMount.WatchTree

open Foundation

variable {dirPath name a b : Text}

/-- One name appended to a path. -/
def child (dirPath name : Text) : Text := dirPath ++ '/' :: name

/-- A name as a directory entry has it. -/
def PlainName (name : Text) : Prop := name ≠ [] ∧ '/' ∉ name

/-- The path is the given number of levels below the root. -/
def Descends (root path : Text) (depth : Nat) : Prop :=
  ∃ names : List Text, names.length = depth ∧ (∀ name ∈ names, PlainName name) ∧
    path = names.foldl child root

theorem DirEntry.plain (e : DirEntry) : PlainName e.name := ⟨e.name_ne, e.name_plain⟩

@[simp]
theorem child_ne_nil (dirPath name : Text) : child dirPath name ≠ [] := by
  simp [child]

@[simp]
theorem length_child (dirPath name : Text) :
    (child dirPath name).length = dirPath.length + name.length + 1 := by
  simp only [child, List.length_append, List.length_cons]
  omega

theorem components_child (hdir : dirPath ≠ []) (hname : PlainName name) :
    components '/' (child dirPath name) = components '/' dirPath ++ [name] := by
  unfold child
  rw [components_append_cons hdir hname.1, components_single hname.1 hname.2]

/-- The components of a path made of names. -/
theorem components_foldl_child (names : List Text) :
    ∀ {root : Text}, root ≠ [] → (∀ name ∈ names, PlainName name) →
      components '/' (names.foldl child root) = components '/' root ++ names := by
  induction names with
  | nil => simp
  | cons name names ih =>
    intro root hroot hnames
    have hname := hnames name List.mem_cons_self
    rw [List.foldl_cons, ih (child_ne_nil _ _) fun n hn => hnames n (List.mem_cons_of_mem _ hn),
      components_child hroot hname]
    simp

/-- The components of a directory begin the components of a path. -/
def Under (dirPath path : Text) : Prop := components '/' dirPath <+: components '/' path

theorem Under.refl (path : Text) : Under path path := List.prefix_rfl

theorem Under.trans {c : Text} (h : Under a b) (h' : Under b c) : Under a c :=
  List.IsPrefix.trans h h'

theorem Under.liesIn {path : Text} (h : Under dirPath path) (hdir : dirPath ≠ []) :
    LiesIn path dirPath := ⟨hdir, .inr h⟩

/-- Two components: only the root directory contains more than its components say. -/
theorem liesIn_iff_under {path : Text} (hdir : dirPath ≠ []) (hslash : dirPath ≠ ['/']) :
    LiesIn path dirPath ↔ Under dirPath path := by
  simp [LiesIn, Under, hdir, hslash]

theorem under_child (hdir : dirPath ≠ []) (hname : PlainName name) :
    Under dirPath (child dirPath name) := by
  unfold Under
  rw [components_child hdir hname]
  exact List.prefix_append _ _

theorem child_ne_slash (hdir : dirPath ≠ []) : child dirPath name ≠ ['/'] := by
  intro h
  have hlen := congrArg List.length h
  have hpos := List.length_pos_iff.mpr hdir
  simp only [length_child, List.length_cons, List.length_nil] at hlen
  omega

/-- Two directories of one directory have no path in common. -/
theorem apart_of_siblings {path : Text} (hdir : dirPath ≠ []) (ha : PlainName a) (hb : PlainName b)
    (hne : child dirPath a ≠ child dirPath b) (hpath : Under (child dirPath a) path) :
    ¬ LiesIn path (child dirPath b) := by
  rw [liesIn_iff_under (child_ne_nil _ _) (child_ne_slash hdir)]
  intro h
  unfold Under at h hpath
  rw [components_child hdir ha] at hpath
  rw [components_child hdir hb] at h
  have heq := List.prefix_of_prefix_length_le hpath h (by simp)
  have hab : a = b := by simpa using heq
  exact hne (by rw [hab])

variable {root path : Text} {depth : Nat}

theorem Descends.refl (root : Text) : Descends root root 0 := ⟨[], rfl, by simp, rfl⟩

/-- One step down. -/
theorem Descends.child (h : Descends root path depth) (hname : PlainName name) :
    Descends root (child path name) (depth + 1) := by
  obtain ⟨names, hlen, hnames, rfl⟩ := h
  refine ⟨names ++ [name], by simp [hlen], ?_, by simp⟩
  intro n hn
  rcases List.mem_append.mp hn with hn | hn
  · exact hnames n hn
  · rw [List.mem_singleton.mp hn]
    exact hname

theorem Descends.ne_nil (h : Descends root path depth) (hroot : root ≠ []) : path ≠ [] := by
  obtain ⟨names, -, hnames, rfl⟩ := h
  intro hnil
  have hcomponents := congrArg (components '/') hnil
  rw [components_foldl_child names hroot hnames] at hcomponents
  simp [hroot] at hcomponents

theorem Descends.length_components (h : Descends root path depth) (hroot : root ≠ []) :
    (components '/' path).length = (components '/' root).length + depth := by
  obtain ⟨names, rfl, hnames, rfl⟩ := h
  rw [components_foldl_child names hroot hnames, List.length_append]

/-- A path has one depth. -/
theorem Descends.depth_unique {depth' : Nat} (h : Descends root path depth)
    (h' : Descends root path depth') (hroot : root ≠ []) : depth = depth' := by
  have hlen := h.length_components hroot
  have hlen' := h'.length_components hroot
  omega

theorem Descends.under (h : Descends root path depth) (hroot : root ≠ []) : Under root path := by
  obtain ⟨names, -, hnames, rfl⟩ := h
  unfold Under
  rw [components_foldl_child names hroot hnames]
  exact List.prefix_append _ _

/-- What descends from a directory lies in it. -/
theorem Descends.liesIn (h : Descends root path depth) (hroot : root ≠ []) : LiesIn path root :=
  (h.under hroot).liesIn hroot

theorem Descends.length_le (h : Descends root path depth) : root.length ≤ path.length := by
  obtain ⟨names, -, -, rfl⟩ := h
  clear * -
  induction names generalizing root with
  | nil => exact le_rfl
  | cons name names ih =>
    have hlen := @ih (WatchTree.child root name)
    rw [length_child] at hlen
    rw [List.foldl_cons]
    omega

theorem isPrefix_of_liesIn (h : LiesIn path dirPath) : dirPath <+: path := by
  have hmatch := (pathMatchesRootOrChild_iff _ _).mpr h
  unfold pathMatchesRootOrChild at hmatch
  split at hmatch
  next => cases hmatch
  next =>
    split at hmatch
    next => cases hmatch
    next hbegins => simpa [List.isPrefixOf_iff_prefix] using hbegins

theorem length_le_of_liesIn (h : LiesIn path dirPath) : dirPath.length ≤ path.length :=
  (isPrefix_of_liesIn h).length_le

theorem liesIn_trans {c : Text} (h : LiesIn a b) (h' : LiesIn b c) : LiesIn a c := by
  refine ⟨h'.1, ?_⟩
  obtain ⟨ra, rfl⟩ := isPrefix_of_liesIn h
  obtain ⟨rb, rfl⟩ := isPrefix_of_liesIn h'
  rcases h'.2 with ⟨rfl, -⟩ | hbc
  · exact .inl ⟨rfl, rfl⟩
  · rcases h.2 with ⟨hslash, -⟩ | hab
    · -- only the root directory begins with a path that is not empty
      have hc : c = ['/'] := by
        cases c with
        | nil => exact absurd rfl h'.1
        | cons x rest =>
          rw [List.cons_append, List.cons.injEq, List.append_eq_nil_iff] at hslash
          rw [hslash.1, hslash.2.1]
      rw [hc]
      exact .inl ⟨rfl, rfl⟩
    · exact .inr (hbc.trans hab)

end ShadowMount.WatchTree
