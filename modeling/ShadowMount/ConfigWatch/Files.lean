import ShadowMount.ConfigWatch.Model

/-!
# A watched file through edits

The part of the configuration watch that is about one file: what a change does to the file
and to the events queued for it.  A registered descriptor of the present vnode sees every
change, so two properties are kept whatever happens to the file: the scanner is told when
its descriptor is of an old vnode, and a content that was not loaded is accounted for.
-/

namespace ShadowMount.ConfigWatch

open Foundation

namespace Change

/-- Does the change keep the vnode? -/
def inPlace : Change → Bool
  | .write _ => true
  | .replace _ => false
  | .remove => false

/-- What the file holds after the change. -/
def result : Change → Option Text → Option Text
  | .write text, held => held.map fun _ => text
  | .replace text, _ => some text
  | .remove, _ => none

/-- What the file holds after some changes. -/
def results (cs : List Change) (held : Option Text) : Option Text :=
  cs.foldl (fun held c => c.result held) held

end Change

/-- The changes of one file among some edits. -/
def changesOf (i : Fin 2) (es : List Edit) : List Change :=
  (es.filter (·.file = i)).map (·.change)

namespace File

variable (f : File)

/-- The file after some changes. -/
def changes (cs : List Change) : File := cs.foldl change f

@[simp]
theorem changes_nil : f.changes [] = f := rfl

@[simp]
theorem changes_cons (c : Change) (cs : List Change) :
    f.changes (c :: cs) = (f.change c).changes cs := rfl

theorem changes_append (cs ds : List Change) :
    f.changes (cs ++ ds) = (f.changes cs).changes ds :=
  List.foldl_append

/-- What every change keeps, all of them keep. -/
theorem changes_invariant {p : File → Prop} (hchange : ∀ f c, p f → p (change f c))
    {f : File} (hf : p f) (cs : List Change) : p (f.changes cs) := by
  induction cs generalizing f with
  | nil => exact hf
  | cons c cs ih => exact ih (hchange f c hf)

theorem notify_fd (gone : Bool) : (f.notify gone).fd = f.fd := by
  unfold notify
  split <;> rfl

theorem notify_registered (gone : Bool) : (f.notify gone).registered = f.registered := by
  unfold notify
  split <;> rfl

theorem notify_loaded (gone : Bool) : (f.notify gone).loaded = f.loaded := by
  unfold notify
  split <;> rfl

/-- What a change does to a file and its descriptor. -/
theorem change_cases (c : Change) :
    f.change c = f ∨
      (∃ held, f.change c = { f.notify false with present := held, generation := f.generation }) ∨
      ∃ held, f.change c =
        { f.notify true with present := held, generation := f.generation + 1 } := by
  have hgeneration : ∀ gone, (f.notify gone).generation = f.generation := by
    intro gone
    unfold notify
    split <;> rfl
  cases c with
  | write text =>
    by_cases hnone : f.present.isNone = true
    · exact .inl (if_pos hnone)
    · refine .inr (.inl ⟨some text, ?_⟩)
      rw [← hgeneration false]
      exact if_neg hnone
  | replace text => exact .inr (.inr ⟨some text, rfl⟩)
  | remove =>
    by_cases hnone : f.present.isNone = true
    · exact .inl (if_pos hnone)
    · exact .inr (.inr ⟨none, if_neg hnone⟩)

@[simp]
theorem change_fd (c : Change) : (f.change c).fd = f.fd := by
  rcases f.change_cases c with h | ⟨held, h⟩ | ⟨held, h⟩ <;> rw [h]
  · exact f.notify_fd false
  · exact f.notify_fd true

@[simp]
theorem change_registered (c : Change) : (f.change c).registered = f.registered := by
  rcases f.change_cases c with h | ⟨held, h⟩ | ⟨held, h⟩ <;> rw [h]
  · exact f.notify_registered false
  · exact f.notify_registered true

@[simp]
theorem change_loaded (c : Change) : (f.change c).loaded = f.loaded := by
  rcases f.change_cases c with h | ⟨held, h⟩ | ⟨held, h⟩ <;> rw [h]
  · exact f.notify_loaded false
  · exact f.notify_loaded true

theorem change_present (c : Change) : (f.change c).present = c.result f.present := by
  cases c with
  | write text => cases h : f.present <;> simp [change, Change.result, h]
  | replace text => rfl
  | remove => cases h : f.present <;> simp [change, Change.result, h]

/-- A change in place keeps the file. -/
theorem change_generation {c : Change} (hc : c.inPlace = true) :
    (f.change c).generation = f.generation := by
  cases c with
  | write text =>
    unfold change notify
    dsimp only
    split
    · rfl
    · split <;> rfl
  | replace text => cases hc
  | remove => cases hc

@[simp]
theorem changes_fd (cs : List Change) : (f.changes cs).fd = f.fd :=
  changes_invariant (p := fun f' => f'.fd = f.fd)
    (fun f' c h => (f'.change_fd c).trans h) rfl cs

@[simp]
theorem changes_loaded (cs : List Change) : (f.changes cs).loaded = f.loaded :=
  changes_invariant (p := fun f' => f'.loaded = f.loaded)
    (fun f' c h => (f'.change_loaded c).trans h) rfl cs

theorem changes_present (cs : List Change) :
    (f.changes cs).present = Change.results cs f.present := by
  induction cs generalizing f with
  | nil => rfl
  | cons c cs ih =>
    rw [changes_cons, ih, f.change_present]
    rfl

theorem changes_generation {cs : List Change} (hcs : ∀ c ∈ cs, c.inPlace = true) :
    (f.changes cs).generation = f.generation := by
  induction cs generalizing f with
  | nil => rfl
  | cons c cs ih =>
    rw [changes_cons, ih _ fun d hd => hcs d (List.mem_cons_of_mem c hd)]
    exact f.change_generation (hcs c List.mem_cons_self)

end File

namespace File

variable {f : File} {stale pending : Prop}

/-- No event can be queued for a descriptor that is not registered. -/
def Idle (f : File) : Prop := f.registered = false ∧ f.queued = none

/-- A descriptor is registered, and belongs to the present vnode unless the scanner is
going to be told, or has been told, that the vnode is gone. -/
def Watched (f : File) (stale : Prop) : Prop :=
  ∀ v, f.fd = some v →
    f.registered = true ∧ (v = f.generation ∨ f.queued = some true ∨ stale)

/-- A content that was not loaded is pending, has an event queued, or its watch is lost. -/
def Accounted (f : File) (pending : Prop) : Prop :=
  f.present ≠ f.loaded → pending ∨ f.queued ≠ none ∨ f.fd = none

/-- Nothing is asked of the watch of a lost file. -/
theorem Watched.of_lost (h : f.fd = none) : f.Watched stale := by
  intro v hv
  simp [h] at hv

theorem Accounted.of_lost (h : f.fd = none) : f.Accounted pending :=
  fun _ => .inr (.inr h)

/-- While a reload is pending, every change is accounted for. -/
theorem Accounted.of_pending (h : pending) : f.Accounted pending :=
  fun _ => .inl h

theorem Watched.mono {stale' : Prop} (h : f.Watched stale) (hstale : stale → stale') :
    f.Watched stale' := by
  intro v hv
  obtain ⟨hr, hv⟩ := h v hv
  exact ⟨hr, hv.imp_right fun h => h.imp_right hstale⟩

theorem Accounted.mono {pending' : Prop} (h : f.Accounted pending)
    (hpending : pending → pending') : f.Accounted pending' :=
  fun hne => (h hne).imp_left hpending

/-- Nothing is queued for a file that is not registered. -/
theorem Idle.notify (h : f.Idle) (gone : Bool) : f.notify gone = f := by
  simp [File.notify, watching, h.1]

theorem Idle.change (h : f.Idle) (c : Change) : (f.change c).Idle := by
  rcases f.change_cases c with hc | ⟨held, hc⟩ | ⟨held, hc⟩ <;> rw [hc]
  · exact h
  · rw [h.notify]
    exact h
  · rw [h.notify]
    exact h

theorem Idle.changes (h : f.Idle) (cs : List Change) : (f.changes cs).Idle :=
  changes_invariant (fun _ c h => h.change c) h cs

theorem notify_queued (gone : Bool) :
    f.queued = some true → (f.notify gone).queued = some true := by
  intro h
  unfold notify
  split
  · simp [h]
  · exact h

/-- A notified file has an event in its queue. -/
theorem Watched.notify (h : f.Watched stale) (gone : Bool) {v : Nat} (hv : f.fd = some v) :
    (f.notify gone).queued ≠ none ∨ stale := by
  obtain ⟨hr, hv' | hq | hs⟩ := h v hv
  · left
    subst hv'
    simp [File.notify, watching, hr, hv]
  · left
    simp [notify_queued gone hq]
  · exact .inr hs

/-- When the vnode goes, the scanner is going to be told. -/
theorem Watched.notify_gone (h : f.Watched stale) {v : Nat} (hv : f.fd = some v) :
    (f.notify true).queued = some true ∨ stale := by
  obtain ⟨hr, hv' | hq | hs⟩ := h v hv
  · left
    subst hv'
    simp [File.notify, watching, hr, hv]
  · exact .inl (notify_queued true hq)
  · exact .inr hs

/-- The scanner keeps track of the vnode through every change. -/
theorem Watched.change (h : f.Watched stale) (c : Change) : (f.change c).Watched stale := by
  intro v hv
  rw [f.change_fd] at hv
  obtain ⟨hr, hv'⟩ := h v hv
  refine ⟨by rw [f.change_registered, hr], ?_⟩
  rcases f.change_cases c with hc | ⟨held, hc⟩ | ⟨held, hc⟩ <;> rw [hc]
  · exact hv'
  · exact hv'.imp_right fun hq => hq.imp_left (notify_queued false)
  · exact .inr (h.notify_gone hv)

/-- Every change is accounted for. -/
theorem Accounted.change (h : f.Accounted pending) (hw : f.Watched stale)
    (hstale : stale → pending) (c : Change) : (f.change c).Accounted pending := by
  cases hfd : f.fd with
  | none => exact Accounted.of_lost (by rw [f.change_fd, hfd])
  | some v =>
    have hevent : ∀ gone, pending ∨ (f.notify gone).queued ≠ none := by
      intro gone
      rcases hw.notify gone hfd with hq | hs
      · exact .inr hq
      · exact .inl (hstale hs)
    rcases f.change_cases c with hc | ⟨held, hc⟩ | ⟨held, hc⟩ <;> rw [hc]
    · exact h
    · exact fun _ => (hevent false).imp_right .inl
    · exact fun _ => (hevent true).imp_right .inl

theorem Watched.changes (h : f.Watched stale) (cs : List Change) :
    (f.changes cs).Watched stale :=
  changes_invariant (p := fun f' => f'.Watched stale) (fun _ c h => h.change c) h cs

/-- Changes of a watched file are accounted for. -/
theorem Accounted.changes (h : f.Accounted pending) (hw : f.Watched stale)
    (hstale : stale → pending) (cs : List Change) : (f.changes cs).Accounted pending := by
  have hboth : (f.changes cs).Accounted pending ∧ (f.changes cs).Watched stale :=
    changes_invariant (p := fun f' => f'.Accounted pending ∧ f'.Watched stale)
      (fun _ c hf => ⟨hf.1.change hf.2 hstale c, hf.2.change c⟩) ⟨h, hw⟩ cs
  exact hboth.1

end File

end ShadowMount.ConfigWatch
