import ShadowMount.Types

/-!
# Storage - trees of files

What a storage operation moves is a tree of directories, files and other nodes, and
what it does to a tree it does at one path.  This file fixes the trees and the
algebra of a change at a path.
-/

namespace ShadowMount.Storage

abbrev Bytes := List UInt8

mutual

/-- A file with its data, a directory, or a node that is neither. -/
inductive Tree where
  | file (bytes : Bytes)
  | dir (entries : Forest)
  | other

/-- The entries of a directory, in the order in which they are listed. -/
inductive Forest where
  | nil
  | cons (name : Text) (tree : Tree) (rest : Forest)

end

/-- A path below the root of a transfer, the outermost name first. -/
abbrev Path := List Text

/-- The entry with a name. -/
def Forest.find (name : Text) : Forest → Option Tree
  | .nil => none
  | .cons n tree rest => if n = name then some tree else rest.find name

/-- Change the entry with a name; a new entry is listed last. -/
def Forest.alter (name : Text) (f : Option Tree → Option Tree) : Forest → Forest
  | .nil =>
    match f none with
    | some tree => .cons name tree .nil
    | none => .nil
  | .cons n tree rest =>
    if n = name then
      match f (some tree) with
      | some tree => .cons n tree rest
      | none => rest
    else .cons n tree (rest.alter name f)

/-- The node at a path. -/
def lookup : Path → Option Tree → Option Tree
  | [], t => t
  | name :: path, some (.dir entries) => lookup path (entries.find name)
  | _ :: _, _ => none

/-- Change what is at a path; without the directories above it nothing happens. -/
def modifyAt : Path → (Option Tree → Option Tree) → Option Tree → Option Tree
  | [], f, t => f t
  | name :: path, f, some (.dir entries) => some (.dir (entries.alter name (modifyAt path f)))
  | _ :: _, _, t => t

/-- Put a node at a path, or nothing. -/
def setAt (path : Path) (node : Option Tree) (t : Option Tree) : Option Tree :=
  modifyAt path (fun _ => node) t

/-- Change the entries of a directory. -/
def onEntries (f : Forest → Forest) : Option Tree → Option Tree
  | some (.dir entries) => some (.dir (f entries))
  | t => t

/-- The entry of a directory. -/
def child (name : Text) : Option Tree → Option Tree
  | some (.dir entries) => entries.find name
  | _ => none

variable {f : Option Tree → Option Tree}

/-- Two changes of one name. -/
theorem Forest.alter_alter (name : Text) {g : Option Tree → Option Tree}
    (hg : ∀ tree, g (some tree) ≠ none) : ∀ entries : Forest,
    (entries.alter name g).alter name f = entries.alter name (fun t => f (g t))
  | .nil => by
    simp only [Forest.alter]
    cases hnew : g none with
    | none => simp [Forest.alter]
    | some tree => simp [Forest.alter]
  | .cons n tree rest => by
    simp only [Forest.alter]
    split
    · rename_i hn
      cases hnew : g (some tree) with
      | none => exact absurd hnew (hg tree)
      | some tree' => simp [Forest.alter, hn]
    · rename_i hn
      simp [Forest.alter, hn, Forest.alter_alter name hg rest]

theorem Forest.find_alter (name : Text) : ∀ {entries : Forest}
    {tree : Tree}, entries.find name = some tree → f (some tree) ≠ none →
    (entries.alter name f).find name = f (some tree)
  | .nil, _, h, _ => by cases h
  | .cons n first rest, tree, h, hf => by
    unfold Forest.find at h
    unfold Forest.alter
    split at h
    · rename_i hn
      cases h
      rw [if_pos hn]
      cases hnew : f (some first) with
      | none => exact absurd hnew hf
      | some tree' => simp [Forest.find, hn]
    · rename_i hn
      rw [if_neg hn, Forest.find, if_neg hn]
      exact Forest.find_alter name h hf

/-- Writing back what is there changes nothing. -/
theorem Forest.alter_find (name : Text) : ∀ {entries : Forest},
    f (entries.find name) = entries.find name → entries.alter name f = entries
  | .nil, h => by
    simp only [Forest.find] at h
    simp [Forest.alter, h]
  | .cons n tree rest, h => by
    unfold Forest.find at h
    unfold Forest.alter
    split at h
    · rename_i hn
      rw [if_pos hn, h]
    · rename_i hn
      rw [if_neg hn, Forest.alter_find name h]

/-- The first entry of a list is found and taken away first. -/
theorem Forest.alter_first (name : Text) (tree : Tree) (rest : Forest)
    (f : Option Tree → Option Tree) :
    (Forest.cons name tree rest).alter name f =
      match f (some tree) with
      | some tree => .cons name tree rest
      | none => rest := by
  rw [Forest.alter, if_pos rfl]

theorem modifyAt_ne_none (hf : ∀ tree, f (some tree) ≠ none) (path : Path) (tree : Tree) :
    modifyAt path f (some tree) ≠ none := by
  cases path with
  | nil => exact hf tree
  | cons name path =>
    cases tree with
    | file bytes => simp [modifyAt]
    | dir entries => simp [modifyAt]
    | other => simp [modifyAt]

/-- Two changes at one path are one, unless the first takes something away. -/
theorem modifyAt_modifyAt {g : Option Tree → Option Tree} (hg : ∀ tree, g (some tree) ≠ none)
    (path : Path) (t : Option Tree) :
    modifyAt path f (modifyAt path g t) = modifyAt path (fun x => f (g x)) t := by
  induction path generalizing t with
  | nil => rfl
  | cons name path ih =>
    rcases t with _ | tree
    · rfl
    · cases tree with
      | file bytes => rfl
      | other => rfl
      | dir entries =>
        simp only [modifyAt]
        rw [Forest.alter_alter name (fun tree => modifyAt_ne_none hg path tree)]
        simp only [ih]

/-- A change of an entry is a change of its directory. -/
theorem modifyAt_concat (path : Path) (name : Text) (f : Option Tree → Option Tree)
    (t : Option Tree) :
    modifyAt (path ++ [name]) f t = modifyAt path (onEntries (Forest.alter name f)) t := by
  induction path generalizing t with
  | nil =>
    rcases t with _ | tree
    · rfl
    · cases tree <;> rfl
  | cons first path ih =>
    rcases t with _ | tree
    · rfl
    · cases tree with
      | file bytes => rfl
      | other => rfl
      | dir entries =>
        simp only [List.cons_append, modifyAt]
        rw [funext ih]

theorem setAt_setAt (path : Path) (node : Option Tree) (tree : Tree) (t : Option Tree) :
    setAt path node (setAt path (some tree) t) = setAt path node t :=
  modifyAt_modifyAt (fun _ => by simp) path t

theorem setAt_concat (path : Path) (name : Text) (node : Option Tree) (entries : Forest)
    (t : Option Tree) :
    setAt (path ++ [name]) node (setAt path (some (.dir entries)) t) =
      setAt path (some (.dir (entries.alter name fun _ => node))) t := by
  unfold setAt
  rw [modifyAt_concat, modifyAt_modifyAt (fun _ => by simp)]
  rfl

theorem modifyAt_setAt (path : Path) (f : Option Tree → Option Tree) (tree : Tree)
    (t : Option Tree) :
    modifyAt path f (setAt path (some tree) t) = setAt path (f (some tree)) t :=
  modifyAt_modifyAt (fun _ => by simp) path t

theorem setAt_lookup (path : Path) (t : Option Tree) : setAt path (lookup path t) t = t := by
  unfold setAt
  induction path generalizing t with
  | nil => rfl
  | cons name path ih =>
    rcases t with _ | tree
    · rfl
    · cases tree with
      | file bytes => rfl
      | other => rfl
      | dir entries =>
        simp only [modifyAt, lookup]
        rw [Forest.alter_find name (ih _)]

theorem lookup_concat (path : Path) (name : Text) (t : Option Tree) :
    lookup (path ++ [name]) t = child name (lookup path t) := by
  induction path generalizing t with
  | nil =>
    rcases t with _ | tree
    · rfl
    · cases tree <;> rfl
  | cons first path ih =>
    rcases t with _ | tree
    · rfl
    · cases tree with
      | file bytes => rfl
      | other => rfl
      | dir entries => exact ih _

/-- What was set is looked up. -/
theorem lookup_setAt {path : Path} {t : Option Tree} {old : Tree} (h : lookup path t = some old)
    (tree : Tree) : lookup path (setAt path (some tree) t) = some tree := by
  unfold setAt
  induction path generalizing t with
  | nil => rfl
  | cons name path ih =>
    rcases t with _ | node
    · cases h
    · cases node with
      | file bytes => cases h
      | other => cases h
      | dir entries =>
        simp only [lookup, modifyAt] at h ⊢
        have hsome : ∃ found, entries.find name = some found := by
          cases hfind : entries.find name with
          | none =>
            rw [hfind] at h
            cases path <;> cases h
          | some found => exact ⟨found, rfl⟩
        rcases hsome with ⟨found, hfind⟩
        rw [Forest.find_alter name hfind
          (modifyAt_ne_none (fun _ => by simp) path found), ← hfind]
        exact ih h

end ShadowMount.Storage
