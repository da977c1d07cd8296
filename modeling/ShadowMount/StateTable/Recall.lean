import ShadowMount.StateTable.Tables

/-!
# State tables - what the records remember

A record changes by the calls for its key and by those for all keys, and an entry that was given
up or pruned starts again at zero.  So the records never know more than the calls have said: a
cached answer is the one that was stored last, and a limit is never reached early.

Main results:

- Theorem {lit}`cached_answers_current`: the caches of the path state, over all runs.
- Theorem {lit}`limits_not_premature`: the counters of both tables, over all runs.
-/

namespace ShadowMount.StateTable

open Foundation

variable {key : Text}

section Rule

variable {ρ γ : Type} {L : Layout ρ} {run : Table ρ → γ → Table ρ} {op : γ → Op ρ}

/-- What a call does to the record of a key whose entry stays. -/
def Op.effect (key : Text) : Op ρ → ρ → ρ
  | .query _, r => r
  | .modify key' f, r => if key = key' then f r else r
  | .upsert key' _ f, r => if key = key' then f r else r
  | .prune _, r => r
  | .updateAll f, r => f r

/-- A record comes from the one before the call, or from a new entry. -/
theorem StateMap.Step.source {capacity : Nat} {zero : ρ} {m m' : StateMap ρ} {o : Op ρ}
    (h : StateMap.Step capacity zero m o m') {r' : ρ} (hr' : m' key = some r') :
    ∃ r, (m key = some r ∨ r = zero) ∧ r' = o.effect key r := by
  cases o with
  | query key' =>
    subst h
    exact ⟨r', .inl hr', rfl⟩
  | modify key' f =>
    subst h
    by_cases hkey : key = key'
    · subst hkey
      rw [Function.update_self, Option.map_eq_some_iff] at hr'
      obtain ⟨r, hr, hf⟩ := hr'
      exact ⟨r, .inl hr, by simp [Op.effect, hf]⟩
    · rw [Function.update_of_ne hkey] at hr'
      exact ⟨r', .inl hr', by simp [Op.effect, hkey]⟩
  | upsert key' prefs f =>
    by_cases hkey : key = key'
    · subst hkey
      have hself : ∀ {r : ρ} {m₁ : StateMap ρ}, Function.update m₁ key (some (f r)) key = some r' →
          r' = (Op.upsert key prefs f).effect key r := by
        intro r m₁ heq
        rw [Function.update_self] at heq
        simp [Op.effect, Option.some.inj heq]
      cases h with
      | held hr => exact ⟨_, .inl hr, hself hr'⟩
      | added hnone hroom => exact ⟨zero, .inr rfl, hself hr'⟩
      | evicted victim hnone hfull hvictim => exact ⟨zero, .inr rfl, hself hr'⟩
    · refine ⟨r', .inl ?_, by simp [Op.effect, hkey]⟩
      cases h with
      | held hr => rwa [Function.update_of_ne hkey] at hr'
      | added hnone hroom => rwa [Function.update_of_ne hkey] at hr'
      | evicted victim hnone hfull hvictim =>
        rw [Function.update_of_ne hkey] at hr'
        by_cases hgone : key = victim
        · rw [hgone, Function.update_self] at hr'
          cases hr'
        · rwa [Function.update_of_ne hgone] at hr'
  | prune p =>
    subst h
    exact ⟨r', .inl (Option.filter_eq_some_iff.1 hr').1, rfl⟩
  | updateAll f =>
    subst h
    obtain ⟨r, hr, hf⟩ := Option.map_eq_some_iff.1 hr'
    exact ⟨r, .inl hr, hf.symm⟩

/-- The calls of a history, the latest first. -/
abbrev calls (h : History (Table ρ) γ) : List γ := h.map Prod.snd

/-- What holds of new records, and of every record that a call has changed, holds of all. -/
theorem contents_invariant (hrun : ∀ t call, (op call).Fits L → run t call = L.apply t (op call))
    {P : List γ → Text → ρ → Prop} (hzero : ∀ before key, P before key L.zero)
    (hstep : ∀ before call key r, P before key r → P (call :: before) key ((op call).effect key r))
    {h : History (Table ρ) γ} {t : Table ρ} (htrace : Trace (runs L run op) h t) {r : ρ}
    (hr : L.lookup t key = some r) : P (calls h) key r := by
  rw [(wellFormed_of_reachable hrun ⟨h, htrace⟩).lookup_eq] at hr
  induction htrace generalizing key r with
  | start hs =>
    rw [show _ = L.empty from hs, L.contents_empty] at hr
    cases hr
  | step hprev hs ih =>
    obtain ⟨rfl, hfits⟩ := hs
    have hmap := (refinesMap hrun).step _ _ ⟨_, hprev⟩ hfits
    obtain ⟨r₀, hr₀, rfl⟩ := hmap.source hr
    apply hstep
    cases hr₀ with
    | inl hheld => exact ih hheld
    | inr hnew => exact hnew ▸ hzero _ key

/-- What is stored is what the last call stored. -/
theorem stored_last (hrun : ∀ t call, (op call).Fits L → run t call = L.apply t (op call))
    {σ β : Type} {flag : ρ → Bool} {view : ρ → β} {stored : Text → γ → Option σ} {image : σ → β}
    (hzero : flag L.zero = false) (hview : ∀ r r', view r = view r' → flag r = flag r')
    (hstep : ∀ call key r, view ((op call).effect key r) = (stored key call).elim (view r) image)
    {h : History (Table ρ) γ} {t : Table ρ} (htrace : Trace (runs L run op) h t) {r : ρ}
    (hr : L.lookup t key = some r) (hflag : flag r = true) :
    ∃ s, (calls h).findSome? (stored key) = some s ∧ view r = image s := by
  refine contents_invariant hrun (P := fun before key r => flag r = true →
    ∃ s, before.findSome? (stored key) = some s ∧ view r = image s) ?_ ?_ htrace hr hflag
  · intro before key hset
    rw [hzero] at hset
    cases hset
  · intro before call key r ih hset
    have heffect := hstep call key r
    cases hstored : stored key call with
    | some s =>
      rw [hstored] at heffect
      exact ⟨s, by simp [hstored], heffect⟩
    | none =>
      rw [hstored] at heffect
      obtain ⟨s, hfind, hsame⟩ := ih ((hview _ _ heffect).symm.trans hset)
      exact ⟨s, by simp [hstored, hfind], heffect.trans hsame⟩

/-- What a call is to a counter. -/
inductive CounterEvent where
  | attempt
  | reset
  | other
deriving DecidableEq

/-- The attempts since the last reset, in events with the latest first. -/
def attemptsSince : List CounterEvent → Nat
  | .attempt :: before => attemptsSince before + 1
  | .other :: before => attemptsSince before
  | _ => 0

/-- What one call may do to a counter. -/
def CounterEvent.bound (n : Nat) : CounterEvent → Nat
  | .attempt => n + 1
  | .reset => 0
  | .other => n

theorem counter_le (hrun : ∀ t call, (op call).Fits L → run t call = L.apply t (op call))
    {count : ρ → Nat} {event : Text → γ → CounterEvent} (hzero : count L.zero = 0)
    (hstep : ∀ call key r, count ((op call).effect key r) ≤ (event key call).bound (count r))
    {h : History (Table ρ) γ} {t : Table ρ} (htrace : Trace (runs L run op) h t) {r : ρ}
    (hr : L.lookup t key = some r) : count r ≤ attemptsSince ((calls h).map (event key)) := by
  apply contents_invariant hrun (P := fun before key r =>
    count r ≤ attemptsSince (before.map (event key))) _ _ htrace hr
  · intro before key
    rw [hzero]
    exact Nat.zero_le _
  · intro before call key r hle
    apply (hstep call key r).trans
    rw [List.map_cons]
    cases event key call with
    | attempt => exact Nat.add_le_add_right hle 1
    | reset => exact Nat.le_refl 0
    | other => exact hle

end Rule

/-- The file and the answer a call stores for a path. -/
def storedInfo (path : Text) : PathCall → Option (Stat × Option (Text × Text))
  | .storeCachedGameInfo _ path' param info => if path = path' then some (param, info) else none
  | _ => none

/-- The fingerprint a call stores for a path. -/
def storedFingerprint (path : Text) : PathCall → Option UInt64
  | .storeModuleCaseFingerprint _ path' fingerprint =>
    if path = path' then some fingerprint else none
  | _ => none

/-- What a record holds of a parameter file. -/
def PathRecord.gameInfo (r : PathRecord) : Bool × Bool × Int × Int × Int × Nat × Text × Text :=
  (r.gameInfoCached, r.gameInfoValid, r.gameInfoMtime, r.gameInfoMtimeNsec, r.gameInfoSize,
    r.gameInfoIno, r.gameTitleId, r.gameTitleName)

/-- What a record holds of the modules of a game. -/
def PathRecord.moduleCase (r : PathRecord) : Bool × UInt64 :=
  (r.moduleCaseChecked, r.moduleCaseFingerprint)

theorem effect_gameInfo (path : Text) (call : PathCall) (r : PathRecord) :
    (call.op.effect path r).gameInfo = (storedInfo path call).elim r.gameInfo fun s =>
      (PathRecord.zero.withGameInfo s.1 s.2).gameInfo := by
  cases call with
  | recordMissingParamFailure stat path' =>
    simp only [PathCall.op, storedInfo]
    split
    · simp only [Op.effect]
      split <;> rfl
    · rfl
  | resetAllImageMountAttempts =>
    simp only [PathCall.op, Op.effect, storedInfo, PathRecord.resetAttempts]
    split <;> rfl
  | _ =>
    simp only [PathCall.op, Op.effect, storedInfo]
    first
      | rfl
      | split <;> rfl

theorem effect_moduleCase (path : Text) (call : PathCall) (r : PathRecord) :
    (call.op.effect path r).moduleCase =
      (storedFingerprint path call).elim r.moduleCase fun fingerprint => (true, fingerprint) := by
  cases call with
  | recordMissingParamFailure stat path' =>
    simp only [PathCall.op, storedFingerprint]
    split
    · simp only [Op.effect]
      split <;> rfl
    · rfl
  | resetAllImageMountAttempts =>
    simp only [PathCall.op, Op.effect, storedFingerprint, PathRecord.resetAttempts]
    split <;> rfl
  | _ =>
    simp only [PathCall.op, Op.effect, storedFingerprint]
    first
      | rfl
      | split <;> rfl

/-- The answers of the caches are never out of date.  What `load_cached_game_info` returns for
a path was stored for it by the latest call that stored anything, from a file of the same times,
size and number, and a fingerprint matches only when it is the one stored last. -/
theorem cached_answers_current {h : History (Table PathRecord) PathCall} {t : Table PathRecord}
    (htrace : Trace (runs pathLayout PathCall.run PathCall.op) h t) (path : Text) :
    (∀ param answer, PathState.loadCachedGameInfo t path param = some answer →
      ∃ stored info, (calls h).findSome? (storedInfo path) = some (stored, info) ∧
        (stored.mtimeSec = param.mtimeSec ∧ stored.mtimeNsec = param.mtimeNsec ∧
          stored.size = param.size ∧ stored.inode = param.inode) ∧
        answer = info.map fun p => (strlcpy maxTitleId p.1, strlcpy maxTitleName p.2)) ∧
    ∀ fingerprint, PathState.moduleCaseFingerprintMatches t path fingerprint = true →
      (calls h).findSome? (storedFingerprint path) = some fingerprint := by
  constructor
  · intro param answer hload
    unfold PathState.loadCachedGameInfo at hload
    split at hload
    next r hr =>
      split at hload
      next => cases hload
      next hsame =>
        simp only [ne_eq, Bool.or_eq_true, Bool.not_eq_true', decide_eq_true_eq, not_or,
          Bool.not_eq_false, not_not] at hsame
        obtain ⟨⟨⟨⟨hcached, hmtime⟩, hnsec⟩, hsize⟩, hino⟩ := hsame
        obtain ⟨⟨stored, info⟩, hfind, hheld⟩ := stored_last PathCall.run_eq_apply rfl
          (fun _ _ => congrArg Prod.fst) (fun call key r => effect_gameInfo key call r)
            htrace hr hcached
        simp only [PathRecord.gameInfo, PathRecord.withGameInfo, Prod.mk.injEq] at hheld
        obtain ⟨-, hvalid, hmtime', hnsec', hsize', hino', htitle, hname⟩ := hheld
        refine ⟨stored, info, hfind, ⟨by rw [← hmtime', hmtime], by rw [← hnsec', hnsec],
          by rw [← hsize', hsize], by rw [← hino', hino]⟩, ?_⟩
        rw [hvalid] at hload
        cases info with
        | none => exact (Option.some.inj hload).symm
        | some p =>
          rw [htitle, hname] at hload
          simpa [strlcpy, List.take_take] using hload.symm
    next => cases hload
  · intro fingerprint hmatch
    unfold PathState.moduleCaseFingerprintMatches at hmatch
    split at hmatch
    next r hr =>
      rw [Bool.and_eq_true, decide_eq_true_iff] at hmatch
      obtain ⟨hchecked, rfl⟩ := hmatch
      obtain ⟨stored, hfind, hheld⟩ := stored_last PathCall.run_eq_apply rfl
        (fun _ _ => congrArg Prod.fst) (fun call key r => effect_moduleCase key call r) htrace hr
        hchecked
      rw [hfind, show r.moduleCaseFingerprint = stored from congrArg Prod.snd hheld]
    next => cases hmatch

/-- A game whose parameter file is read once. -/
theorem cached_answers_current_after_store :
    let path := "/data/games/a".toList
    let param : Stat := ⟨false, true, 7, 100, 5, 6, 5, 6⟩
    let store := PathCall.storeCachedGameInfo (fun _ => .missing) path param
      (some ("PPSA00001".toList, "Game".toList))
    ∃ stored info, [store].findSome? (storedInfo path) = some (stored, info) ∧
      stored.inode = param.inode ∧ PathState.loadCachedGameInfo (store.run pathLayout.empty) path
        param = some (info.map fun p => (strlcpy maxTitleId p.1, strlcpy maxTitleName p.2)) := by
  intro path param store
  have htrace : Trace (runs pathLayout PathCall.run PathCall.op) [(pathLayout.empty, store)]
      (store.run pathLayout.empty) := .step (.start rfl) ⟨rfl, by decide +kernel⟩
  have hload : PathState.loadCachedGameInfo (store.run pathLayout.empty) path param =
      some (some ("PPSA00001".toList, "Game".toList)) := by
    decide +kernel
  obtain ⟨stored, info, hstored, hsame, hanswer⟩ :=
    (cached_answers_current htrace path).1 param _ hload
  exact ⟨stored, info, hstored, hsame.2.2.2, by rw [hload, hanswer]⟩

/-- What a call is to the failures of a path to have a parameter file. -/
def missingParamEvent (path : Text) : PathCall → CounterEvent
  | .recordMissingParamFailure _ path' => if path = path' then .attempt else .other
  | .clearMissingParamEntry path' => if path = path' then .reset else .other
  | _ => .other

/-- What a call is to the attempts to mount an image. -/
def imageMountEvent (path : Text) : PathCall → CounterEvent
  | .bumpImageMountAttempts _ path' => if path = path' then .attempt else .other
  | .clearImageMountAttempts path' => if path = path' then .reset else .other
  | .resetAllImageMountAttempts => .reset
  | _ => .other

/-- What a call is to the attempts to register a title. -/
def registerEvent (titleId : Text) : TitleCall → CounterEvent
  | .markRegisterAttempted titleId' => if titleId = titleId' then .attempt else .other
  | .clearRegisterAttempts titleId' => if titleId = titleId' then .reset else .other
  | .resetTitleAttempts titleId' => if titleId = titleId' then .reset else .other
  | .resetAllTitleAttempts => .reset
  | _ => .other

/-- What a call is to the attempts to mount a title that failed. -/
def failedMountEvent (titleId : Text) : TitleCall → CounterEvent
  | .bumpFailedMountAttempts titleId' => if titleId = titleId' then .attempt else .other
  | .clearFailedMountAttempts titleId' => if titleId = titleId' then .reset else .other
  | .resetTitleAttempts titleId' => if titleId = titleId' then .reset else .other
  | .resetAllTitleAttempts => .reset
  | _ => .other

theorem bump_le (n : Nat) : bump n ≤ n + 1 := by
  unfold bump
  split <;> omega

theorem missingParamAttempts_le (call : PathCall) (path : Text) (r : PathRecord) :
    (call.op.effect path r).missingParamAttempts ≤
      (missingParamEvent path call).bound r.missingParamAttempts := by
  cases call with
  | recordMissingParamFailure stat path' =>
    simp only [PathCall.op, missingParamEvent]
    by_cases hbase : isUnderImageMountBase path' <;> by_cases hpath : path = path' <;>
      simp [Op.effect, CounterEvent.bound, PathRecord.missParam, hbase, hpath, bump_le]
  | clearMissingParamEntry path' =>
    by_cases hpath : path = path' <;>
      simp [PathCall.op, Op.effect, missingParamEvent, CounterEvent.bound, hpath]
  | resetAllImageMountAttempts =>
    simp only [PathCall.op, Op.effect, PathRecord.resetAttempts]
    split <;> exact Nat.le_refl _
  | _ =>
    simp only [PathCall.op, Op.effect]
    try split
    all_goals exact Nat.le_refl _

/-- A call raises the attempts by what it counts. -/
theorem imageMountAttempts_le (call : PathCall) (path : Text) (r : PathRecord) :
    (call.op.effect path r).imageMountAttempts ≤
      (imageMountEvent path call).bound r.imageMountAttempts := by
  cases call with
  | recordMissingParamFailure stat path' =>
    simp only [PathCall.op]
    by_cases hbase : isUnderImageMountBase path' <;> by_cases hpath : path = path' <;>
      simp [Op.effect, imageMountEvent, CounterEvent.bound, PathRecord.missParam, hbase, hpath]
  | bumpImageMountAttempts stat path' =>
    by_cases hpath : path = path' <;> simp [PathCall.op, Op.effect, imageMountEvent,
      CounterEvent.bound, PathRecord.attemptMount, hpath, bump_le]
  | clearImageMountAttempts path' =>
    by_cases hpath : path = path' <;> simp [PathCall.op, Op.effect, imageMountEvent,
      CounterEvent.bound, PathRecord.clearAttempts, hpath]
  | resetAllImageMountAttempts =>
    simp only [PathCall.op, Op.effect, PathRecord.resetAttempts]
    split
    next hzero => exact Nat.le_of_eq hzero
    next => exact Nat.le_refl 0
  | _ =>
    simp only [PathCall.op, Op.effect]
    try split
    all_goals exact Nat.le_refl _

theorem registerAttempts_le (call : TitleCall) (titleId : Text) (r : TitleRecord) :
    (call.op.effect titleId r).registerAttempts ≤
      (registerEvent titleId call).bound r.registerAttempts := by
  cases call with
  | resetAllTitleAttempts =>
    simp only [TitleCall.op, Op.effect]
    split
    next hzero => exact Nat.le_of_eq hzero.1
    next => exact Nat.le_refl 0
  | _ titleId' =>
    by_cases htitle : titleId = titleId' <;> simp [TitleCall.op, Op.effect, registerEvent,
      CounterEvent.bound, TitleRecord.attemptMount, TitleRecord.noteDuplicate,
      TitleRecord.resetAttempts, htitle, bump_le]

theorem mountRegAttempts_le (call : TitleCall) (titleId : Text) (r : TitleRecord) :
    (call.op.effect titleId r).mountRegAttempts ≤
      (failedMountEvent titleId call).bound r.mountRegAttempts := by
  cases call with
  | resetAllTitleAttempts =>
    simp only [TitleCall.op, Op.effect]
    split
    next hzero => exact Nat.le_of_eq hzero.2
    next => exact Nat.le_refl 0
  | _ titleId' =>
    by_cases htitle : titleId = titleId' <;> simp [TitleCall.op, Op.effect, failedMountEvent,
      CounterEvent.bound, TitleRecord.attemptMount, TitleRecord.noteDuplicate,
      TitleRecord.resetAttempts, htitle, bump_le]

/-- No limit is reached before its number of attempts: a path or a title that is given up has
failed that often since its counter was cleared. -/
theorem limits_not_premature {h : History (Table PathRecord) PathCall} {t : Table PathRecord}
    (htrace : Trace (runs pathLayout PathCall.run PathCall.op) h t)
    {h' : History (Table TitleRecord) TitleCall} {t' : Table TitleRecord}
    (htrace' : Trace (runs titleLayout TitleCall.run TitleCall.op) h' t') :
    (∀ path, (PathState.isMissingParamScanLimited t path = true →
        maxMissingParamScanAttempts ≤ attemptsSince ((calls h).map (missingParamEvent path))) ∧
      (PathState.isImageMountLimited t path = true →
        maxImageMountAttempts ≤ attemptsSince ((calls h).map (imageMountEvent path)))) ∧
    ∀ titleId, (TitleState.wasRegisterAttempted t' titleId = true →
        maxRegisterAttempts ≤ attemptsSince ((calls h').map (registerEvent titleId))) ∧
      TitleState.getFailedMountAttempts t' titleId ≤
        attemptsSince ((calls h').map (failedMountEvent titleId)) := by
  refine ⟨fun path => ⟨fun hlimited => ?_, fun hlimited => ?_⟩,
    fun titleId => ⟨fun hattempted => ?_, ?_⟩⟩
  · unfold PathState.isMissingParamScanLimited at hlimited
    rw [Bool.and_eq_true] at hlimited
    obtain ⟨-, hlimited⟩ := hlimited
    split at hlimited
    next r hr =>
      exact (of_decide_eq_true hlimited).trans
        (counter_le PathCall.run_eq_apply rfl missingParamAttempts_le htrace hr)
    next => cases hlimited
  · unfold PathState.isImageMountLimited at hlimited
    split at hlimited
    next r hr =>
      exact (of_decide_eq_true hlimited).trans
        (counter_le PathCall.run_eq_apply rfl imageMountAttempts_le htrace hr)
    next => cases hlimited
  · unfold TitleState.wasRegisterAttempted at hattempted
    split at hattempted
    next r hr =>
      exact (of_decide_eq_true hattempted).trans
        (counter_le TitleCall.run_eq_apply rfl registerAttempts_le htrace' hr)
    next => cases hattempted
  · unfold TitleState.getFailedMountAttempts
    cases hr : titleLayout.lookup t' titleId with
    | none => exact Nat.zero_le _
    | some r => exact counter_le TitleCall.run_eq_apply rfl mountRegAttempts_le htrace' hr

/-- An image that is given up after its third attempt. -/
theorem limits_not_premature_third_attempt :
    let path := "/data/a.exfat".toList
    let bump := PathCall.bumpImageMountAttempts (fun _ => .missing) path
    PathState.isImageMountLimited ([bump, bump, bump].foldl PathCall.run pathLayout.empty) path =
        true ∧
      maxImageMountAttempts ≤ attemptsSince ([bump, bump, bump].map (imageMountEvent path)) := by
  intro path bump
  have hfits : bump.op.Fits pathLayout := by
    decide +kernel
  have htrace := ((Trace.start (M := runs pathLayout PathCall.run PathCall.op) rfl).step
    (i := bump) ⟨rfl, hfits⟩).step (i := bump) ⟨rfl, hfits⟩ |>.step (i := bump) ⟨rfl, hfits⟩
  have hlimited : PathState.isImageMountLimited
      ([bump, bump, bump].foldl PathCall.run pathLayout.empty) path = true := by
    decide +kernel
  have hstart : Trace (runs titleLayout TitleCall.run TitleCall.op) [] titleLayout.empty :=
    Trace.start rfl
  exact ⟨hlimited, ((limits_not_premature htrace hstart).1 path).2 hlimited⟩

end ShadowMount.StateTable
