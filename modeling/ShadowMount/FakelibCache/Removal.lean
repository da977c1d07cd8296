import ShadowMount.FakelibCache.Effects

/-!
# Fakelib cache - Programs that remove caches

What the removal of a tree, of a title's cache and of expired caches do, whatever fails.
-/

namespace ShadowMount.FakelibCache

open Foundation

variable {c : Call} {m m' : State} {α : Type} {R : World → CallEvent → Prop}

theorem satisfies_act {f : World → Except Fault World} {post : Bool → State → Prop}
    (hfail : ∀ e, post false (m.record c (some e) m.world))
    (hok : ∀ w, f m.world = .ok w → post true (m.record c none w)) : Satisfies (act c f) m post :=
  .bind (satisfies_call hfail hok)

theorem satisfies_attempt {post : Bool → State → Prop}
    (hfail : ∀ e, post false (m.record c (some e) m.world))
    (hok : post true (m.record c none m.world)) : Satisfies (attempt c) m post := by
  refine satisfies_act hfail ?_
  intro w hw
  cases hw
  exact hok

theorem satisfies_look {ask : World → α} {post : Option α → State → Prop}
    (hfail : ∀ e, post none (m.record c (some e) m.world))
    (hok : post (some (ask m.world)) (m.record c none m.world)) : Satisfies (look c ask) m post :=
  satisfies_query (fun e _ => hfail e) hok

theorem attempt_calls (hR : ∀ w error, R w ⟨c, error, w⟩) (m : State) :
    Satisfies (attempt c) m fun _ => Calls R m :=
  satisfies_attempt (fun _ => .single (hR _ _)) (.single (hR _ _))

theorem look_calls (hR : ∀ w error, R w ⟨c, error, w⟩) (ask : World → α) (m : State) :
    Satisfies (look c ask) m fun _ => Calls R m :=
  satisfies_look (fun _ => .single (hR _ _)) (.single (hR _ _))

/-- The calls whose failure leaves a cache that `prepare_title_cache` should have
replaced or removed. -/
def Call.isDecisive : Call → Bool
  | .guard | .askProtected | .lookRoot | .unlinkManifest _ => true
  | _ => false

/-- None of these calls has failed. -/
def Finished (log : Log) : Prop :=
  ∀ e ∈ log, e.call.isDecisive = true → e.error = none

instance (log : Log) : Decidable (Finished log) :=
  decidable_of_iff (log.all (fun e => !e.call.isDecisive || e.error.isNone) = true) (by
    simp only [Finished, List.all_eq_true, Bool.or_eq_true, Bool.not_eq_true',
      Option.isNone_iff_eq_none]
    refine forall₂_congr fun e _ => ?_
    cases e.call.isDecisive <;> simp)

theorem Finished.before (h : Finished m'.log) (hcalls : Calls R m m') : Finished m.log :=
  fun e he => h e (hcalls.mem_log he)

theorem not_finished_record (hc : c.isDecisive = true) (m : State) (e : Fault) (w : World) :
    ¬ Finished (m.record c (some e) w).log := by
  intro h
  cases h ⟨c, some e, w⟩ (List.mem_cons_self ..) hc

/-- A call that only asks. -/
def Idle (w : World) (e : CallEvent) : Prop := e.call.isProbe = true ∧ e.world = w

theorem Idle.effect {w : World} {e : CallEvent} (h : Idle w e) : Effect w e := by
  obtain ⟨c, error, w'⟩ := e
  obtain ⟨hc, rfl⟩ := h
  exact .probe hc error

theorem world_of_idle (h : Calls Idle m m') : m'.world = m.world :=
  Calls.frame (f := id) h fun _ _ he => he.2

theorem attempt_idle (hc : c.isProbe = true) (m : State) :
    Satisfies (attempt c) m fun ok m' =>
      Calls Idle m m' ∧ (ok = false → c.isDecisive = true → ¬ Finished m'.log) := by
  refine satisfies_attempt ?_ ?_
  · intro e
    exact ⟨.single ⟨hc, rfl⟩, fun _ hdec => not_finished_record hdec m e _⟩
  · exact ⟨.single ⟨hc, rfl⟩, nofun⟩

theorem look_idle (hc : c.isProbe = true) (ask : World → α) (m : State) :
    Satisfies (look c ask) m fun r m' => Calls Idle m m' ∧
      (r = some (ask m'.world) ∨ r = none ∧ (c.isDecisive = true → ¬ Finished m'.log)) := by
  refine satisfies_look ?_ ?_
  · intro e
    exact ⟨.single ⟨hc, rfl⟩, .inr ⟨rfl, fun hdec => not_finished_record hdec m e _⟩⟩
  · exact ⟨.single ⟨hc, rfl⟩, .inl rfl⟩

/-- The calls of a removal below a path. -/
inductive Removal (root : Path) (w : World) : CallEvent → Prop where
  | probe (error : Option Fault) : Removal root w ⟨.other, error, w⟩
  | failed (rest : Path) (e : Fault) : Removal root w ⟨.delete (root ++ rest), some e, w⟩
  | deleted (rest : Path) : Removal root w ⟨.delete (root ++ rest), none, w.erase (root ++ rest)⟩

theorem Removal.effect {root : Path} {w : World} {e : CallEvent} (h : Removal root w e) :
    Effect w e := by
  cases h with
  | probe error => exact .probe rfl error
  | failed rest e => exact .failed _ e
  | deleted rest => exact .deleted _

theorem delete_removal (root rest : Path) (m : State) :
    Satisfies (delete (root ++ rest)) m fun _ => Calls (Removal root) m := by
  refine satisfies_act (fun e => .single (Removal.failed rest e)) ?_
  intro w hw
  split at hw
  · cases hw
  · cases hw
    exact .single (Removal.deleted rest)

theorem probe_removal (root : Path) (m : State) :
    Satisfies (attempt .other) m fun _ => Calls (Removal root) m :=
  attempt_calls (fun _ error => Removal.probe error) m

mutual

/-- A node is removed below the root only. -/
theorem removeNode_removal (root : Path) : ∀ (node : Node) (rest : Path) (m : State),
    Satisfies (removeNode node (root ++ rest)) m fun _ => Calls (Removal root) m
  | .dir _ entries, rest, m => by
    rw [removeNode]
    refine Calls.bind (probe_removal root m) ?_
    rintro (_ | _) m₁ -
    · exact Satisfies.pure Calls.refl
    refine Calls.bind (removeEntries_removal root entries rest m₁) ?_
    intro removed m₂ _
    refine Calls.bind (probe_removal root m₂) ?_
    intro closed m₃ _
    split
    · exact delete_removal root rest m₃
    · exact Satisfies.pure Calls.refl
  | .file _ _, rest, m => delete_removal root rest m
  | .special _, rest, m => delete_removal root rest m

/-- Entries are removed below the root only. -/
theorem removeEntries_removal (root : Path) : ∀ (entries : Entries) (rest : Path) (m : State),
    Satisfies (removeEntries entries (root ++ rest)) m fun _ => Calls (Removal root) m
  | .nil, rest, m => by
    rw [removeEntries]
    exact Calls.bind (probe_removal root m) fun _ _ _ => Satisfies.pure Calls.refl
  | .cons name node others, rest, m => by
    rw [removeEntries]
    refine Calls.bind (probe_removal root m) ?_
    rintro (_ | _) m₁ -
    · exact Satisfies.pure Calls.refl
    dsimp only
    split
    · exact Satisfies.pure Calls.refl
    refine Calls.bind (probe_removal root m₁) ?_
    rintro (_ | _) m₂ -
    · exact Satisfies.pure Calls.refl
    rw [List.append_assoc]
    refine Calls.bind (removeNode_removal root node (rest ++ [name]) m₂) ?_
    rintro (_ | _) m₃ -
    · exact Satisfies.pure Calls.refl
    · exact removeEntries_removal root others rest m₃

end

/-- A removal touches only what is below its path. -/
theorem removeCacheTree_removal (root : Path) (m : State) :
    Satisfies (removeCacheTree root) m fun _ => Calls (Removal root) m := by
  refine Calls.bind (look_calls (fun _ error => Removal.probe error) _ m) ?_
  rintro (_ | _ | node) m₁ -
  · exact .pure .refl
  · exact .pure .refl
  · simpa using removeNode_removal root node [] m₁

theorem removeCacheTree_effect (root : Path) (m : State) :
    Satisfies (removeCacheTree root) m fun _ => Calls Effect m :=
  (removeCacheTree_removal root m).mono fun _ _ h => h.mono fun _ _ => Removal.effect

end ShadowMount.FakelibCache
