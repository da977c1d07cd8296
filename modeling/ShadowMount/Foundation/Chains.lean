import Mathlib.Data.List.Nodup
import Mathlib.Logic.Function.Basic

/-!
# Foundation - Doubly linked lists over an array

Several lists share one array of cells.  Each cell has an index before it and an
index after it, and each list has a head.  This file states what it means that the
heads and links hold given lists, and what linking a cell in front of a list,
unlinking a cell, and moving a cell to another index do to them.  What the indices
are, and what the lists are named by, is a parameter.
-/

namespace ShadowMount.Foundation

variable {ι ρ : Type*}

/-- The cells are linked in this order, between the given neighbours. -/
def Linked (prev next : ι → Option ι) : Option ι → List ι → Option ι → Prop
  | _, [], _ => True
  | before, i :: rest, after =>
    prev i = before ∧ next i = rest.head?.or after ∧ Linked prev next (some i) rest after

variable {prev next : ι → Option ι} {before after : Option ι} {l l₁ l₂ : List ι} {i : ι}

theorem Linked.congr {prev' next' : ι → Option ι} (h : Linked prev next before l after)
    (hprev : ∀ i ∈ l, prev' i = prev i) (hnext : ∀ i ∈ l, next' i = next i) :
    Linked prev' next' before l after := by
  induction l generalizing before with
  | nil => trivial
  | cons i rest ih =>
    rcases h with ⟨hp, hn, hrest⟩
    refine ⟨?_, ?_, ?_⟩
    · rw [hprev i List.mem_cons_self]
      exact hp
    · rw [hnext i List.mem_cons_self]
      exact hn
    · apply ih hrest
      · intro j hj
        exact hprev j (List.mem_cons_of_mem i hj)
      · intro j hj
        exact hnext j (List.mem_cons_of_mem i hj)

theorem linked_append :
    Linked prev next before (l₁ ++ l₂) after ↔
      Linked prev next before l₁ (l₂.head?.or after) ∧
        Linked prev next (l₁.getLast?.or before) l₂ after := by
  induction l₁ generalizing before with
  | nil => simp [Linked]
  | cons i rest ih =>
    have hhead : (rest ++ l₂).head?.or after = rest.head?.or (l₂.head?.or after) := by
      rw [List.head?_append, Option.or_assoc]
    have hlast : (i :: rest).getLast?.or before = rest.getLast?.or (some i) := by
      rw [List.getLast?_cons]
      cases rest.getLast? <;> rfl
    rw [List.cons_append, hlast, Linked, Linked, ih, hhead, and_assoc, and_assoc]

/-- Write one link, if there is a cell to write. -/
def relink [DecidableEq ι] (links : ι → Option ι) (cell : Option ι) (value : Option ι) :
    ι → Option ι :=
  fun i => if some i = cell then value else links i

section Relink

variable [DecidableEq ι]

@[simp]
theorem relink_none (links : ι → Option ι) (value : Option ι) :
    relink links none value = links := by
  funext i
  simp [relink]

@[simp]
theorem relink_self (links : ι → Option ι) (i : ι) (value : Option ι) :
    relink links (some i) value i = value := by
  simp [relink]

theorem relink_of_ne (links : ι → Option ι) {i : ι} {cell : Option ι} (hne : some i ≠ cell)
    (value : Option ι) : relink links cell value i = links i := by
  simp [relink, hne]

theorem Linked.relinkNext (h : Linked prev next before l after) (hnodup : l.Nodup)
    (after' : Option ι) : Linked prev (relink next l.getLast? after') before l after' := by
  induction l generalizing before with
  | nil => trivial
  | cons i rest ih =>
    rcases h with ⟨hp, hn, hrest⟩
    rw [List.nodup_cons] at hnodup
    cases rest with
    | nil => exact ⟨hp, by simp [relink], trivial⟩
    | cons j rest =>
      have hlast : (i :: j :: rest).getLast? = (j :: rest).getLast? := List.getLast?_cons_cons
      rw [hlast]
      refine ⟨hp, ?_, ih hrest hnodup.2⟩
      rw [relink_of_ne]
      · exact hn
      · intro heq
        exact hnodup.1 (List.mem_of_getLast? heq.symm)

theorem Linked.relinkPrev (h : Linked prev next before l after) (hnodup : l.Nodup)
    (before' : Option ι) : Linked (relink prev l.head? before') next before' l after := by
  cases l with
  | nil => trivial
  | cons i rest =>
    rcases h with ⟨_, hn, hrest⟩
    rw [List.nodup_cons] at hnodup
    refine ⟨by simp, hn, hrest.congr ?_ (fun _ _ => rfl)⟩
    intro j hj
    apply relink_of_ne
    intro heq
    have hij : j = i := by simpa using heq
    exact hnodup.1 (hij ▸ hj)

theorem Linked.relink_outside (h : Linked prev next before l after) {cell cell' : Option ι}
    (hcell : ∀ i ∈ l, some i ≠ cell) (hcell' : ∀ i ∈ l, some i ≠ cell') (v v' : Option ι) :
    Linked (relink prev cell v) (relink next cell' v') before l after :=
  h.congr (fun i hi => relink_of_ne prev (hcell i hi) v)
    (fun i hi => relink_of_ne next (hcell' i hi) v')

end Relink

/-- The links of all cells, and the heads of the lists. -/
@[ext]
structure Links (ι ρ : Type*) where
  prev : ι → Option ι
  next : ι → Option ι
  heads : ρ → Option ι

/-- The head and the links hold the list. -/
structure Links.Holds (L : Links ι ρ) (r : ρ) (l : List ι) : Prop where
  nodup : l.Nodup
  head : L.heads r = l.head?
  linked : Linked L.prev L.next none l none

/-- Every list holds exactly the cells that belong to it. -/
def Chained (L : Links ι ρ) (belongs : ι → Option ρ) : Prop :=
  ∀ r, ∃ l, L.Holds r l ∧ ∀ i, i ∈ l ↔ belongs i = some r

variable {L : Links ι ρ} {belongs : ι → Option ρ} {r : ρ} {j : ι}

theorem Chained.empty (h : ∀ r, L.heads r = none) : Chained L fun _ => none := by
  intro r
  exact ⟨[], ⟨List.nodup_nil, h r, trivial⟩, by simp⟩

theorem Chained.congr {L' : Links ι ρ} (h : Chained L belongs) (hheads : L'.heads = L.heads)
    (hprev : ∀ i, belongs i ≠ none → L'.prev i = L.prev i)
    (hnext : ∀ i, belongs i ≠ none → L'.next i = L.next i) : Chained L' belongs := by
  intro r
  rcases h r with ⟨l, hl, hmem⟩
  have hbelongs : ∀ i ∈ l, belongs i ≠ none := by
    intro i hi
    rw [(hmem i).mp hi]
    exact Option.some_ne_none r
  refine ⟨l, ⟨hl.nodup, ?_, ?_⟩, hmem⟩
  · rw [hheads]
    exact hl.head
  · exact hl.linked.congr (fun i hi => hprev i (hbelongs i hi))
      (fun i hi => hnext i (hbelongs i hi))

theorem Chained.heads_eq (h : Chained L belongs) (r : ρ) :
    (∃ i, L.heads r = some i ∧ belongs i = some r) ∨
      (L.heads r = none ∧ ∀ i, belongs i ≠ some r) := by
  rcases h r with ⟨l, hl, hmem⟩
  cases l with
  | nil => exact .inr ⟨hl.head, fun i hi => by simpa using (hmem i).mpr hi⟩
  | cons i rest => exact .inl ⟨i, hl.head, (hmem i).mp List.mem_cons_self⟩

/-- A list whose cells are none of the written ones is held as before. -/
theorem Links.Holds.other {L' : Links ι ρ} {r' : ρ} (h : L.Holds r' l)
    (hhead : L'.heads r' = L.heads r') (hprev : ∀ i ∈ l, L'.prev i = L.prev i)
    (hnext : ∀ i ∈ l, L'.next i = L.next i) : L'.Holds r' l where
  nodup := h.nodup
  head := hhead.trans h.head
  linked := h.linked.congr hprev hnext

/-- The neighbours of a cell of a list. -/
theorem Links.Holds.split (h : L.Holds r l) (hi : i ∈ l) :
    ∃ l₁ l₂, l = l₁ ++ i :: l₂ ∧ L.prev i = l₁.getLast? ∧ L.next i = l₂.head? ∧
      Linked L.prev L.next none l₁ (some i) ∧ Linked L.prev L.next (some i) l₂ none := by
  rcases List.append_of_mem hi with ⟨l₁, l₂, rfl⟩
  rcases linked_append.mp h.linked with ⟨h₁, hp, hn, h₂⟩
  refine ⟨l₁, l₂, rfl, ?_, ?_, ?_, h₂⟩
  · rw [hp, Option.or_none]
  · rw [hn, Option.or_none]
  · simpa using h₁

/-- A neighbour is in the same chain. -/
theorem Chained.neighbour (h : Chained L belongs) (hi : belongs i = some r) {k : ι}
    (hk : L.prev i = some k ∨ L.next i = some k) : belongs k = some r ∧ k ≠ i := by
  rcases h r with ⟨l, hl, hmem⟩
  rcases hl.split ((hmem i).mpr hi) with ⟨l₁, l₂, rfl, hp, hn, _, _⟩
  have hnodup := hl.nodup
  rw [List.nodup_append, List.nodup_cons] at hnodup
  rcases hnodup with ⟨_, ⟨hi₂, _⟩, hapart⟩
  rcases hk with hk | hk
  · have hin : k ∈ l₁ := List.mem_of_getLast? (hp.symm.trans hk)
    exact ⟨(hmem k).mp (List.mem_append_left _ hin), hapart k hin i List.mem_cons_self⟩
  · have hin : k ∈ l₂ := List.mem_of_head? (hn.symm.trans hk)
    refine ⟨(hmem k).mp (List.mem_append_right _ (List.mem_cons_of_mem i hin)), ?_⟩
    intro heq
    exact hi₂ (heq ▸ hin)

theorem Links.Holds.ne_neighbour {l' : List ι} {r' : ρ} (h : L.Holds r l)
    (hmem : ∀ k, k ∈ l ↔ belongs k = some r) (hmem' : ∀ k, k ∈ l' ↔ belongs k = some r')
    (hr : r' ≠ r) (hi : i ∈ l) :
    ∀ k ∈ l', some k ≠ some i ∧ some k ≠ L.prev i ∧ some k ≠ L.next i := by
  rcases h.split hi with ⟨l₁, l₂, rfl, hp, hn, _, _⟩
  have hapart : ∀ k ∈ l', k ∉ l₁ ++ i :: l₂ := by
    intro k hk hin
    have hkr := (hmem k).mp hin
    rw [(hmem' k).mp hk] at hkr
    exact hr (Option.some.inj hkr)
  intro k hk
  refine ⟨?_, ?_, ?_⟩
  · intro heq
    exact hapart k hk (Option.some.inj heq ▸ hi)
  · intro heq
    rw [hp] at heq
    exact hapart k hk (List.mem_append_left _ (List.mem_of_getLast? heq.symm))
  · intro heq
    rw [hn] at heq
    have hin := List.mem_of_head? heq.symm
    exact hapart k hk (List.mem_append_right _ (List.mem_cons_of_mem i hin))

variable [DecidableEq ι] [DecidableEq ρ]

/-- Link a cell in front of a list. -/
def Links.link (L : Links ι ρ) (r : ρ) (i : ι) : Links ι ρ where
  prev := relink (relink L.prev (some i) none) (L.heads r) (some i)
  next := relink L.next (some i) (L.heads r)
  heads := Function.update L.heads r (some i)

/-- Take a cell out of a list. -/
def Links.unlink (L : Links ι ρ) (r : ρ) (i : ι) : Links ι ρ where
  prev := relink (relink L.prev (L.next i) (L.prev i)) (some i) none
  next := relink (relink L.next (L.prev i) (L.next i)) (some i) none
  heads := if L.prev i = none then Function.update L.heads r (L.next i) else L.heads

/-- Give a cell of a list another index. -/
def Links.rebind (L : Links ι ρ) (r : ρ) (i j : ι) : Links ι ρ where
  prev := relink (relink L.prev (some j) (L.prev i)) (L.next i) (some j)
  next := relink (relink L.next (some j) (L.next i)) (L.prev i) (some j)
  heads := if L.heads r = some i then Function.update L.heads r (some j) else L.heads

/-- A cell linked at the front of a list. -/
theorem Chained.link (h : Chained L belongs) (hi : belongs i = none) (r : ρ) :
    Chained (L.link r i) (Function.update belongs i (some r)) := by
  rcases h r with ⟨l, hl, hmem⟩
  have hnot : ∀ {r' : ρ} {l' : List ι}, (∀ k, k ∈ l' ↔ belongs k = some r') → i ∉ l' := by
    intro r' l' hl' hin
    rw [(hl' i).mp hin] at hi
    cases hi
  intro r'
  by_cases hr : r' = r
  · subst hr
    refine ⟨i :: l, ⟨?_, ?_, ?_, ?_, ?_⟩, ?_⟩
    · exact List.nodup_cons.mpr ⟨hnot hmem, hl.nodup⟩
    · simp [Links.link]
    · show relink (relink L.prev (some i) none) (L.heads r') (some i) i = none
      rw [relink_of_ne]
      · exact relink_self _ _ _
      · intro heq
        rw [hl.head] at heq
        exact hnot hmem (List.mem_of_head? heq.symm)
    · show relink L.next (some i) (L.heads r') i = l.head?.or none
      rw [relink_self, hl.head, Option.or_none]
    · show Linked (relink (relink L.prev (some i) none) (L.heads r') (some i))
        (relink L.next (some i) (L.heads r')) (some i) l none
      have hcells : ∀ k ∈ l, some k ≠ some i := by
        intro k hk heq
        cases heq
        exact hnot hmem hk
      have hout := hl.linked.relink_outside hcells hcells none (L.heads r')
      rw [hl.head] at hout ⊢
      exact hout.relinkPrev hl.nodup (some i)
    · intro k
      rw [List.mem_cons]
      by_cases hk : k = i
      · simp [hk]
      · rw [Function.update_of_ne hk, ← hmem k]
        simp [hk]
  · rcases h r' with ⟨l', hl', hmem'⟩
    have hcells : ∀ k ∈ l', some k ≠ some i := by
      intro k hk heq
      cases heq
      exact hnot hmem' hk
    have hhead : ∀ k ∈ l', some k ≠ L.heads r := by
      intro k hk heq
      rw [hl.head] at heq
      have hkr := (hmem k).mp (List.mem_of_head? heq.symm)
      rw [(hmem' k).mp hk] at hkr
      exact hr (Option.some.inj hkr)
    refine ⟨l', hl'.other ?_ ?_ ?_, ?_⟩
    · exact Function.update_of_ne hr _ _
    · intro k hk
      show relink (relink L.prev (some i) none) (L.heads r) (some i) k = L.prev k
      rw [relink_of_ne _ (hhead k hk), relink_of_ne _ (hcells k hk)]
    · intro k hk
      exact relink_of_ne _ (hcells k hk) _
    · intro k
      by_cases hk : k = i
      · subst hk
        rw [Function.update_self]
        constructor
        · intro hin
          exact absurd hin (hnot hmem')
        · intro heq
          exact absurd (Option.some.inj heq).symm hr
      · rw [Function.update_of_ne hk]
        exact hmem' k

/-- A cell taken out of its list. -/
theorem Chained.unlink (h : Chained L belongs) (hi : belongs i = some r) :
    Chained (L.unlink r i) (Function.update belongs i none) := by
  rcases h r with ⟨l, hl, hmem⟩
  have hin : i ∈ l := (hmem i).mpr hi
  intro r'
  by_cases hr : r' = r
  · subst hr
    rcases hl.split hin with ⟨l₁, l₂, rfl, hp, hn, h₁, h₂⟩
    have hnodup := hl.nodup
    rw [List.nodup_append, List.nodup_cons] at hnodup
    rcases hnodup with ⟨hnodup₁, ⟨hi₂, hnodup₂⟩, hapart⟩
    have hi₁ : i ∉ l₁ := fun hin₁ => hapart i hin₁ i List.mem_cons_self rfl
    have hcross : ∀ k ∈ l₁, ∀ k' ∈ l₂, k ≠ k' := by
      intro k hk k' hk'
      exact hapart k hk k' (List.mem_cons_of_mem i hk')
    refine ⟨l₁ ++ l₂, ⟨?_, ?_, ?_⟩, ?_⟩
    · rw [List.nodup_append]
      exact ⟨hnodup₁, hnodup₂, hcross⟩
    · show (if L.prev i = none then Function.update L.heads r' (L.next i) else L.heads) r' = _
      rw [hp, hn, List.head?_append]
      cases l₁ with
      | nil => simp
      | cons k l₁ =>
        rw [if_neg (by simp), hl.head]
        simp
    · show Linked (relink (relink L.prev (L.next i) (L.prev i)) (some i) none)
        (relink (relink L.next (L.prev i) (L.next i)) (some i) none) none (l₁ ++ l₂) none
      have hne₁ : ∀ k ∈ l₁, some k ≠ some i := fun k hk heq => hi₁ (Option.some.inj heq ▸ hk)
      have hne₂ : ∀ k ∈ l₂, some k ≠ some i := fun k hk heq => hi₂ (Option.some.inj heq ▸ hk)
      rw [linked_append, hp, hn, Option.or_none, Option.or_none]
      constructor
      · -- the cell before now points to the cell after
        have hlast := h₁.relinkNext hnodup₁ l₂.head?
        refine hlast.congr ?_ ?_
        · intro k hk
          rw [relink_of_ne _ (hne₁ k hk), relink_of_ne]
          intro heq
          exact hcross k hk k (List.mem_of_head? heq.symm) rfl
        · intro k hk
          exact relink_of_ne _ (hne₁ k hk) _
      · -- and the cell after points back to the cell before
        have hfirst := h₂.relinkPrev hnodup₂ l₁.getLast?
        refine hfirst.congr ?_ ?_
        · intro k hk
          exact relink_of_ne _ (hne₂ k hk) _
        · intro k hk
          rw [relink_of_ne _ (hne₂ k hk), relink_of_ne]
          intro heq
          exact hcross k (List.mem_of_getLast? heq.symm) k hk rfl
    · intro k
      by_cases hk : k = i
      · subst hk
        rw [Function.update_self]
        simp [hi₁, hi₂]
      · rw [Function.update_of_ne hk, ← hmem k]
        simp [hk]
  · rcases h r' with ⟨l', hl', hmem'⟩
    have hne := hl.ne_neighbour hmem hmem' hr hin
    refine ⟨l', hl'.other ?_ ?_ ?_, ?_⟩
    · show (if L.prev i = none then Function.update L.heads r (L.next i) else L.heads) r' = _
      split
      · exact Function.update_of_ne hr _ _
      · rfl
    · intro k hk
      show relink (relink L.prev (L.next i) (L.prev i)) (some i) none k = L.prev k
      rw [relink_of_ne _ (hne k hk).1, relink_of_ne _ (hne k hk).2.2]
    · intro k hk
      show relink (relink L.next (L.prev i) (L.next i)) (some i) none k = L.next k
      rw [relink_of_ne _ (hne k hk).1, relink_of_ne _ (hne k hk).2.1]
    · intro k
      by_cases hk : k = i
      · subst hk
        rw [Function.update_self, hmem' k, hi]
        simp [Ne.symm hr]
      · rw [Function.update_of_ne hk]
        exact hmem' k

/-- A cell moved to an index of no list. -/
theorem Chained.rebind (h : Chained L belongs) (hi : belongs i = some r) (hj : belongs j = none) :
    Chained (L.rebind r i j) (Function.update (Function.update belongs i none) j (some r)) := by
  rcases h r with ⟨l, hl, hmem⟩
  have hin : i ∈ l := (hmem i).mpr hi
  have hnot : ∀ {r' : ρ} {l' : List ι}, (∀ k, k ∈ l' ↔ belongs k = some r') → j ∉ l' := by
    intro r' l' hl' hin'
    rw [(hl' j).mp hin'] at hj
    cases hj
  intro r'
  by_cases hr : r' = r
  · subst hr
    have hjl := hnot hmem
    rcases hl.split hin with ⟨l₁, l₂, rfl, hp, hn, h₁, h₂⟩
    have hnodup := hl.nodup
    rw [List.nodup_append, List.nodup_cons] at hnodup
    rcases hnodup with ⟨hnodup₁, ⟨hi₂, hnodup₂⟩, hapart⟩
    have hi₁ : i ∉ l₁ := fun hin₁ => hapart i hin₁ i List.mem_cons_self rfl
    have hj₁ : j ∉ l₁ := fun hin₁ => hjl (List.mem_append_left _ hin₁)
    have hj₂ : j ∉ l₂ := fun hin₂ => hjl (List.mem_append_right _ (List.mem_cons_of_mem i hin₂))
    have hcross : ∀ k ∈ l₁, ∀ k' ∈ l₂, k ≠ k' := by
      intro k hk k' hk'
      exact hapart k hk k' (List.mem_cons_of_mem i hk')
    refine ⟨l₁ ++ j :: l₂, ⟨?_, ?_, ?_⟩, ?_⟩
    · rw [List.nodup_append, List.nodup_cons]
      refine ⟨hnodup₁, ⟨hj₂, hnodup₂⟩, ?_⟩
      intro k hk k' hk'
      rcases List.mem_cons.mp hk' with rfl | hk'
      · exact fun heq => hj₁ (heq ▸ hk)
      · exact hcross k hk k' hk'
    · show (if L.heads r' = some i then Function.update L.heads r' (some j) else L.heads) r' = _
      rw [hl.head]
      cases l₁ with
      | nil => simp
      | cons k l₁ =>
        have hki : k ≠ i := fun heq => hi₁ (heq ▸ List.mem_cons_self)
        rw [if_neg (by simpa using hki), hl.head]
        simp
    · show Linked (relink (relink L.prev (some j) (L.prev i)) (L.next i) (some j))
        (relink (relink L.next (some j) (L.next i)) (L.prev i) (some j)) none (l₁ ++ j :: l₂) none
      have hne₁ : ∀ k ∈ l₁, some k ≠ some j := fun k hk heq => hj₁ (Option.some.inj heq ▸ hk)
      have hne₂ : ∀ k ∈ l₂, some k ≠ some j := fun k hk heq => hj₂ (Option.some.inj heq ▸ hk)
      rw [linked_append, hp, hn, Option.or_none, Option.or_none]
      refine ⟨?_, ?_, ?_, ?_⟩
      · -- the cell before now points to the new index
        refine (h₁.relinkNext hnodup₁ (some j)).congr ?_ ?_
        · intro k hk
          rw [relink_of_ne, relink_of_ne _ (hne₁ k hk)]
          intro heq
          exact hcross k hk k (List.mem_of_head? heq.symm) rfl
        · intro k hk
          unfold relink
          rw [if_neg (hne₁ k hk)]
      · rw [relink_of_ne, relink_self]
        intro heq
        exact hj₂ (List.mem_of_head? heq.symm)
      · rw [relink_of_ne, relink_self, Option.or_none]
        intro heq
        exact hj₁ (List.mem_of_getLast? heq.symm)
      · -- and so does the cell after
        refine (h₂.relinkPrev hnodup₂ (some j)).congr ?_ ?_
        · intro k hk
          unfold relink
          rw [if_neg (hne₂ k hk)]
        · intro k hk
          rw [relink_of_ne, relink_of_ne _ (hne₂ k hk)]
          intro heq
          exact hcross k (List.mem_of_getLast? heq.symm) k hk rfl
    · intro k
      by_cases hk : k = j
      · simp [hk]
      · rw [Function.update_of_ne hk]
        by_cases hki : k = i
        · subst hki
          rw [Function.update_self]
          simp [hk, hi₁, hi₂]
        · rw [Function.update_of_ne hki, ← hmem k]
          simp [hk, hki]
  · rcases h r' with ⟨l', hl', hmem'⟩
    have hne := hl.ne_neighbour hmem hmem' hr hin
    have hcells : ∀ k ∈ l', some k ≠ some j := by
      intro k hk heq
      cases heq
      exact hnot hmem' hk
    refine ⟨l', hl'.other ?_ ?_ ?_, ?_⟩
    · show (if L.heads r = some i then Function.update L.heads r (some j) else L.heads) r' = _
      split
      · exact Function.update_of_ne hr _ _
      · rfl
    · intro k hk
      show relink (relink L.prev (some j) (L.prev i)) (L.next i) (some j) k = L.prev k
      rw [relink_of_ne _ (hne k hk).2.2, relink_of_ne _ (hcells k hk)]
    · intro k hk
      show relink (relink L.next (some j) (L.next i)) (L.prev i) (some j) k = L.next k
      rw [relink_of_ne _ (hne k hk).2.1, relink_of_ne _ (hcells k hk)]
    · intro k
      by_cases hkj : k = j
      · subst hkj
        rw [Function.update_self]
        constructor
        · intro hin'
          exact absurd hin' (hnot hmem')
        · intro heq
          exact absurd (Option.some.inj heq).symm hr
      · rw [Function.update_of_ne hkj]
        by_cases hki : k = i
        · subst hki
          rw [Function.update_self, hmem' k, hi]
          simp [Ne.symm hr]
        · rw [Function.update_of_ne hki]
          exact hmem' k

end ShadowMount.Foundation
