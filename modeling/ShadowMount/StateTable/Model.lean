import Mathlib.Data.Set.Card
import ShadowMount.Foundation.Probing
import ShadowMount.Types

/-!
# State tables

{lit}`sm_path_state.c` and {lit}`sm_title_state.c` keep the same kind of table: a
fixed array of entries, each with a string key, a record and a validity flag, and
beside it an index that is probed linearly from the FNV-1a hash of the key.  The
two sources differ in their sizes, their records and in which entry they give up
when the array is full; this file states the common functions once with these as
parameters.

The slots of the index are sixteen bits wide in the source and hold an entry
number plus one, which is at most 512 for both tables.
-/

namespace ShadowMount.StateTable

open Foundation

/-- `sm_fnv1a32`. -/
def fnv1a32 (s : Text) : UInt32 :=
  s.foldl (fun h c => (h ^^^ UInt32.ofNat (c.toNat % 256)) * 16777619) 2166136261

/-- The sizes of a table, and the record `memset` leaves in an entry.  There
are fewer entries than slots. -/
structure Layout (ρ : Type) where
  capacity : Nat
  slots : Nat
  buffer : Nat
  zero : ρ
  capacity_pos : 0 < capacity
  capacity_lt : capacity < slots

/-- One entry: its key buffer, the rest of its fields, and its flag. -/
structure Entry (ρ : Type) where
  key : Text
  record : ρ
  valid : Bool
deriving DecidableEq

/-- The entries and the index of a table. -/
structure Table (ρ : Type) where
  entries : Nat → Entry ρ
  index : Nat → Nat

variable {ρ : Type}

/-- Overwrite one entry. -/
def Table.setEntry (t : Table ρ) (k : Nat) (e : Entry ρ) : Table ρ :=
  { t with entries := Function.update t.entries k e }

@[simp]
theorem Table.setEntry_entries_self (t : Table ρ) (k : Nat) (e : Entry ρ) :
    (t.setEntry k e).entries k = e := by
  simp [setEntry]

theorem Table.setEntry_entries_of_ne (t : Table ρ) {j k : Nat} (hne : j ≠ k) (e : Entry ρ) :
    (t.setEntry k e).entries j = t.entries j := by
  simp [setEntry, Function.update_of_ne hne]

@[simp]
theorem Table.setEntry_index (t : Table ρ) (k : Nat) (e : Entry ρ) :
    (t.setEntry k e).index = t.index := rfl

/-- Change the record of one entry. -/
def Table.setRecord (t : Table ρ) (k : Nat) (f : ρ → ρ) : Table ρ :=
  t.setEntry k { t.entries k with record := f (t.entries k).record }

namespace Layout

variable (L : Layout ρ)

theorem slots_pos : 0 < L.slots :=
  Nat.zero_lt_of_lt L.capacity_lt

/-- The slot a probe starts at.  The source masks with the number of slots less
one, a power of two less one. -/
def home (key : Text) : Nat := (fnv1a32 key).toNat % L.slots

/-- An entry after `memset`. -/
def zeroEntry : Entry ρ where
  key := []
  record := L.zero
  valid := false

/-- The table at program start. -/
def empty : Table ρ where
  entries _ := L.zeroEntry
  index _ := 0

/-- Does the key fit its buffer, and is there one? -/
def Fits (key : Text) : Prop := key ≠ [] ∧ key.length < L.buffer

instance (key : Text) : Decidable (L.Fits key) :=
  inferInstanceAs (Decidable (_ ∧ _))

/-- `rebuild_path_state_hash` and `rebuild_title_state_hash`. -/
def rebuild (t : Table ρ) : Table ρ where
  entries := t.entries
  index := (List.range L.capacity).foldl (fun index k =>
    if !(t.entries k).valid || (t.entries k).key = [] then index
    else (insertFrom L.slots index (k + 1) L.slots (L.home (t.entries k).key)).getD index)
    (fun _ => 0)

/-- `find_path_state` and `find_title_state`. -/
def find (t : Table ρ) (key : Text) : Option Nat :=
  searchFrom L.slots t.index (fun k => (t.entries k).valid && (t.entries k).key = key)
    L.slots (L.home key)

/-- The lowest entry number that meets the test. -/
def firstEntry (t : Table ρ) (p : Entry ρ → Bool) : Option Nat :=
  (List.range L.capacity).find? fun k => p (t.entries k)

/-- The entry to give up when all are taken: the first one that meets the first
preference that any entry meets, else entry 0. -/
def victim (t : Table ρ) (prefs : List (Text → ρ → Bool)) : Nat :=
  (prefs.findSome? fun p => L.firstEntry t fun e => e.valid && p e.key e.record).getD 0

/-- What a new entry holds: the key copied into its buffer, and a zero record. -/
def newEntry (key : Text) : Entry ρ where
  key := strlcpy L.buffer key
  record := L.zero
  valid := true

/-- `create_path_state` and `create_title_state`: take the first free
entry, or give one up, and file the new one. -/
def create (t : Table ρ) (prefs : List (Text → ρ → Bool)) (key : Text) :
    Option Nat × Table ρ :=
  let (k, t) := match L.firstEntry t fun e => !e.valid with
    | some k => (k, t)
    | none =>
      let k := L.victim t prefs
      (k, L.rebuild (t.setEntry k L.zeroEntry))
  let t := t.setEntry k (L.newEntry key)
  match insertFrom L.slots t.index (k + 1) L.slots (L.home key) with
  | some index => (some k, { t with index })
  | none => (none, L.rebuild (t.setEntry k { L.newEntry key with key := [], valid := false }))

/-- `get_or_create_path_state` and `get_or_create_title_state`. -/
def getOrCreate (t : Table ρ) (prefs : List (Text → ρ → Bool)) (key : Text) :
    Option Nat × Table ρ :=
  match L.find t key with
  | some k => (some k, t)
  | none => L.create t prefs key

/-- The record a query reads: the one of the entry that `find` returns. -/
def lookup (t : Table ρ) (key : Text) : Option ρ :=
  (L.find t key).map fun k => (t.entries k).record

/-- Find an entry and change its record; nothing happens when there is none. -/
def modify (t : Table ρ) (key : Text) (f : ρ → ρ) : Table ρ :=
  match L.find t key with
  | some k => t.setRecord k f
  | none => t

/-- Get or create an entry and change its record, with a value computed from the
old record.  The result `none` stands for the null pointer, which some
callers test and the others would follow. -/
def upsert {α : Type} (t : Table ρ) (prefs : List (Text → ρ → Bool)) (key : Text)
    (f : ρ → α × ρ) : Option α × Table ρ :=
  match L.getOrCreate t prefs key with
  | (some k, t) => (some (f (t.entries k).record).1, t.setRecord k fun r => (f r).2)
  | (none, t) => (none, t)

/-- Clear the entries that meet the test, and rebuild the index if there were any. -/
def prune (t : Table ρ) (p : Text → ρ → Bool) : Table ρ :=
  let drop (e : Entry ρ) : Bool := e.valid && e.key ≠ [] && p e.key e.record
  if (L.firstEntry t drop).isSome then
    L.rebuild { t with
      entries := fun k => if k < L.capacity ∧ drop (t.entries k) then L.zeroEntry
        else t.entries k }
  else t

/-- Change the record of every valid entry. -/
def updateAll (t : Table ρ) (f : ρ → ρ) : Table ρ :=
  { t with
    entries := fun k =>
      if k < L.capacity ∧ (t.entries k).valid then
        { t.entries k with record := f (t.entries k).record }
      else t.entries k }

end Layout

/-- What a call does to a table.  The preferences of `upsert` and the test of
`prune` carry what the call learns from the file system. -/
inductive Op (ρ : Type) where
  | query (key : Text)
  | modify (key : Text) (f : ρ → ρ)
  | upsert (key : Text) (prefs : List (Text → ρ → Bool)) (f : ρ → ρ)
  | prune (p : Text → ρ → Bool)
  | updateAll (f : ρ → ρ)

/-- Is the key of the call non-empty, and does it fit? -/
def Op.Fits (L : Layout ρ) : Op ρ → Prop
  | .query key => L.Fits key
  | .modify key _ => L.Fits key
  | .upsert key _ _ => L.Fits key
  | .prune _ => True
  | .updateAll _ => True

instance Op.decidableFits (L : Layout ρ) : (op : Op ρ) → Decidable (op.Fits L)
  | .query key => inferInstanceAs (Decidable (L.Fits key))
  | .modify key _ => inferInstanceAs (Decidable (L.Fits key))
  | .upsert key _ _ => inferInstanceAs (Decidable (L.Fits key))
  | .prune _ => isTrue trivial
  | .updateAll _ => isTrue trivial

/-- The table after a call. -/
def Layout.apply (L : Layout ρ) (t : Table ρ) : Op ρ → Table ρ
  | .query _ => t
  | .modify key f => L.modify t key f
  | .upsert key prefs f => (L.upsert t prefs key fun r => ((), f r)).2
  | .prune p => L.prune t p
  | .updateAll f => L.updateAll t f

/-- A map from keys to records. -/
abbrev StateMap (ρ : Type) := Text → Option ρ

/-- The keys a map holds. -/
def StateMap.keys (m : StateMap ρ) : Set Text := {key | m key ≠ none}

/-- Getting or creating a record and changing it, on a map of bounded size.  Only a
full map gives up a key, and only one. -/
inductive StateMap.Upserted (capacity : Nat) (zero : ρ) (key : Text) (f : ρ → ρ)
    (m : StateMap ρ) : StateMap ρ → Prop where
  | held {r : ρ} : m key = some r →
      Upserted capacity zero key f m (Function.update m key (some (f r)))
  | added : m key = none → (StateMap.keys m).ncard < capacity →
      Upserted capacity zero key f m (Function.update m key (some (f zero)))
  | evicted (victim : Text) : m key = none → (StateMap.keys m).ncard = capacity → m victim ≠ none →
      Upserted capacity zero key f m
        (Function.update (Function.update m victim none) key (some (f zero)))

/-- What a call does to the map. -/
def StateMap.Step (capacity : Nat) (zero : ρ) (m : StateMap ρ) : Op ρ → StateMap ρ → Prop
  | .query _, m' => m' = m
  | .modify key f, m' => m' = Function.update m key ((m key).map f)
  | .upsert key _ f, m' => StateMap.Upserted capacity zero key f m m'
  | .prune p, m' => m' = fun key => (m key).filter fun r => !p key r
  | .updateAll f, m' => m' = fun key => (m key).map f

end ShadowMount.StateTable
