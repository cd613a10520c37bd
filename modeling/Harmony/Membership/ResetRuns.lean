import Harmony.Membership.ResetLifecycle
import Harmony.Membership.Symbolic

/-! Runs of the reset lifecycle. The replay meets at each event the quorum that the proposals
before it have left; here the quorum at each event is given, so that the replay of a log is
one run among all. -/

namespace Harmony.Membership

open Harmony.Lib

/-- The replay of events that each meet the given quorum. -/
def replayAt (env : ReplayEnv) (steps : List (ℕ × SignedMembershipEvent)) : ReplayState :=
  steps.foldl (fun st p => step env { st with m := { st.m with adminQuorum := p.1 } } p.2)
    (ReplayState.init env.adminAddr)

theorem replayAt_snoc (env : ReplayEnv) (steps : List (ℕ × SignedMembershipEvent))
    (p : ℕ × SignedMembershipEvent) :
    replayAt env (steps ++ [p]) = step env { replayAt env steps with
      m := { (replayAt env steps).m with adminQuorum := p.1 } } p.2 := by
  simp only [replayAt, List.foldl_append, List.foldl_cons, List.foldl_nil]

theorem replay_eq_replayAt (env : ReplayEnv) (sorted : List SignedMembershipEvent) :
    replay env sorted =
      replayAt env ((positions env sorted).map fun p => (p.1.m.adminQuorum, p.2)) := by
  induction sorted using List.reverseRecOn with
  | nil => rfl
  | append_singleton sorted e ih =>
    rw [positions_snoc, List.map_append, List.map_singleton, replayAt_snoc, ← ih, replay_snoc]

/-! ### What one event does to the resets -/

def ReplayState.resetLog (st : ReplayState) :
    BTreeMap EventId ResetWork × (EventId → List QueuedResetResponse) :=
  (st.resetWork, st.pendingResetResponses)

def isResetEvent (e : SignedMembershipEvent) : Bool :=
  match e.kind with
  | .dfrostResetProposal _ _ _ _ _ => true
  | .dfrostResetCosign _ => true
  | .dfrostResetResponse _ _ _ _ => true
  | _ => false

section OneEvent

variable {env : ReplayEnv} {st st' : ReplayState} {e : SignedMembershipEvent} {id : EventId}
  {work work' : ResetWork}

theorem applyEvent_resetLog (hk : isResetEvent e = false) (ha : applyEvent env st e = some st') :
    st'.resetLog = st.resetLog := by
  cases hkind : e.kind with
  | dfrostResetProposal a b c d f => simp [isResetEvent, hkind] at hk
  | dfrostResetCosign target => simp [isResetEvent, hkind] at hk
  | dfrostResetResponse target verdict groupSig newVk => simp [isResetEvent, hkind] at hk
  | epochRotation priorEpoch triggeredBy recipients =>
    simp only [applyEvent, hkind] at ha
    obtain ⟨m, applied, rfl⟩ := applyEpochRotation_some ha
    rfl
  | epochCatchup epoch triggeredBy recipients =>
    simp only [applyEvent, hkind] at ha
    obtain ⟨m, rfl⟩ := applyEpochCatchup_some ha
    rfl
  | adminProposal kind =>
    simp only [applyEvent, hkind, Option.some.injEq, applyAdminProposal_eq hkind] at ha
    rw [← ha]
    rfl
  | adminCountersign target =>
    simp only [applyEvent, hkind, Option.some.injEq, applyAdminCountersign_eq hkind] at ha
    rw [← ha]
    rfl
  | recoveryProposal lostAdmin newAdmin configDigest =>
    simp only [applyEvent, hkind, applyRecoveryProposal] at ha
    split at ha
    · simp at ha
    · split_ifs at ha
      cases ha
      rfl
  | recoveryCosign target =>
    simp only [applyEvent, hkind, Option.some.injEq] at ha
    rw [← ha]
    unfold applyRecoveryCosign
    split <;> rfl
  | recoveryVeto target =>
    simp only [applyEvent, hkind, Option.some.injEq] at ha
    rw [← ha]
    unfold applyRecoveryVeto
    split_ifs <;> rfl
  | _ =>
    simp only [applyEvent, hkind, Option.some.injEq] at ha
    cases ha
    rfl

theorem step_resetLog_of_some (ha : applyEvent env st e = some st') :
    (step env st e).resetLog = st'.resetLog := by
  unfold step
  rw [ha]
  rfl

theorem step_resetLog (hk : isResetEvent e = false) : (step env st e).resetLog = st.resetLog := by
  cases ha : applyEvent env st e with
  | none =>
    unfold step
    rw [ha]
    rfl
  | some st' => rw [step_resetLog_of_some ha, applyEvent_resetLog hk ha]

theorem maybeTip_grown (work : ResetWork) (quorum wall : ℕ) :
    ResetGrown (· = wall) work (maybeTipResetQuorum work quorum wall) := by
  unfold maybeTipResetQuorum
  split_ifs with h
  · exact ⟨rfl, rfl, Or.inr ⟨h.1, wall, rfl, rfl⟩, [], (List.append_nil _).symm,
      fun _ h => absurd h List.not_mem_nil⟩
  · exact ResetGrown.refl work

theorem cosign_grown (work : ResetWork) (actor : OwnerAddr) {P : ℕ → Prop} :
    ResetGrown P work (foldResetCosign work actor) :=
  ⟨rfl, rfl, Or.inl rfl, [], (List.append_nil _).symm, fun _ h => absurd h List.not_mem_nil⟩

theorem response_grown (C : Crypto) (work : ResetWork) (id : EventId) (r : QueuedResetResponse) :
    ResetGrown (· = r.wallMs) work (foldResetResponse C work id r) := by
  have happend : ResetGrown (· = r.wallMs) work { work with
      responses := work.responses ++ [(r.wallMs, r.responseId, r.verdict, r.newVk)] } :=
    ⟨rfl, rfl, Or.inl rfl, _, rfl, fun _ h => by rw [List.mem_singleton.mp h]⟩
  unfold foldResetResponse
  split_ifs with hactor
  · exact ResetGrown.refl work
  · split
    · simp only
      split_ifs
      · exact happend
      · exact ResetGrown.refl work
    · exact ResetGrown.refl work

theorem ResetGrown.mono {P Q : ℕ → Prop} (h : ResetGrown P work work') (hPQ : ∀ w, P w → Q w) :
    ResetGrown Q work work' := by
  obtain ⟨more, hmore, hP⟩ := h.responses
  refine ⟨h.t0WallMs, h.vetoWindowMs, ?_, more, hmore, fun r hr => hPQ _ (hP r hr)⟩
  exact h.reached.imp id fun ⟨hnone, tq, hP, hnew⟩ => ⟨hnone, tq, hPQ tq hP, hnew⟩

/-- What a proposal opens with: at most its own wall as the tip, and what was queued for it. -/
structure OpenedAt (wall : ℕ) (queued : List QueuedResetResponse) (work : ResetWork) : Prop where
  t0WallMs : work.t0WallMs = wall
  reached : ∀ tq, work.tQReached = some tq → tq = wall
  responses : ∀ r ∈ work.responses, ∃ q ∈ queued, r.1 = q.wallMs

namespace OpenedAt

variable {wall : ℕ} {queued more : List QueuedResetResponse} (h : OpenedAt wall queued work)

include h

theorem cosigns (actors : List OwnerAddr) :
    OpenedAt wall queued (actors.foldl foldResetCosign work) := by
  induction actors generalizing work with
  | nil => exact h
  | cons actor actors ih => exact ih ⟨h.t0WallMs, h.reached, h.responses⟩

theorem maybeTip (quorum : ℕ) : OpenedAt wall queued (maybeTipResetQuorum work quorum wall) := by
  unfold maybeTipResetQuorum
  split_ifs
  · exact ⟨h.t0WallMs, fun tq htq => (Option.some.inj htq).symm, h.responses⟩
  · exact h

theorem drained (C : Crypto) (hmore : ∀ q ∈ more, q ∈ queued) :
    OpenedAt wall queued (more.foldl (fun w r => foldResetResponse C w id r) work) := by
  induction more generalizing work with
  | nil => exact h
  | cons q more ih =>
    refine ih ?_ fun q' hq' => hmore q' (List.mem_cons_of_mem q hq')
    have hg := response_grown C work id q
    obtain ⟨new, hnew, hwall⟩ := hg.responses
    have htip : (foldResetResponse C work id q).tQReached = work.tQReached := by
      unfold foldResetResponse
      split_ifs
      · rfl
      · split
        · simp only
          split_ifs <;> rfl
        · rfl
    refine ⟨hg.t0WallMs.trans h.t0WallMs, fun tq htq => h.reached tq (htip.symm.trans htq), ?_⟩
    intro r hr
    rw [hnew, List.mem_append] at hr
    rcases hr with hr | hr
    · exact h.responses r hr
    · exact ⟨q, hmore q List.mem_cons_self, hwall r hr⟩

end OpenedAt

/-- Everything one event can do to the reset entries and their queues. -/
theorem step_reset_cases (env : ReplayEnv) (st : ReplayState) (e : SignedMembershipEvent) :
    (step env st e).resetLog = st.resetLog ∨
    (∃ work, OpenedAt e.hlc.wallMs (st.pendingResetResponses e.id) work ∧
      (step env st e).resetLog = (st.resetWork.insert e.id work,
        Function.update st.pendingResetResponses e.id [])) ∨
    (∃ target work work', st.resetWork[target]? = some work ∧
      ResetGrown (· = e.hlc.wallMs) work work' ∧
      (step env st e).resetLog = (st.resetWork.insert target work', st.pendingResetResponses)) ∨
    ∃ target r, r.wallMs = e.hlc.wallMs ∧ (step env st e).resetLog = (st.resetWork,
      Function.update st.pendingResetResponses target (st.pendingResetResponses target ++ [r])) := by
  cases hk : e.kind with
  | dfrostResetProposal targetVk targetEpoch newMembers newThreshold vetoWindowMs =>
    refine Or.inr (Or.inl ?_)
    rw [step_resetLog_of_some (by rw [applyEvent, hk])]
    refine ⟨_, OpenedAt.drained (OpenedAt.maybeTip (OpenedAt.cosigns ?_ _) _) env.crypto
      fun q hq => hq, rfl⟩
    exact ⟨rfl, fun tq htq => by simp at htq, fun r hr => absurd hr List.not_mem_nil⟩
  | dfrostResetCosign target =>
    rw [step_resetLog_of_some (by rw [applyEvent, hk])]
    unfold applyDfrostResetCosign
    cases hget : st.resetWork[target]? with
    | none => exact Or.inl rfl
    | some work =>
      simp only
      split_ifs
      · exact Or.inl rfl
      · exact Or.inr (Or.inr (Or.inl ⟨target, work, _, hget,
          (cosign_grown work e.actor).trans (maybeTip_grown _ _ _), rfl⟩))
  | dfrostResetResponse target verdict groupSig newVk =>
    rw [step_resetLog_of_some (by rw [applyEvent, hk])]
    simp only [applyDfrostResetResponse]
    cases hget : st.resetWork[target]? with
    | none => exact Or.inr (Or.inr (Or.inr ⟨target, _, rfl, rfl⟩))
    | some work => exact Or.inr (Or.inr (Or.inl ⟨target, work, _, hget,
        response_grown env.crypto work target ⟨_, e.id, e.actor, verdict, groupSig, newVk⟩, rfl⟩))
  | _ => exact Or.inl (step_resetLog (by rw [isResetEvent, hk]))

end OneEvent

/-! ### Runs -/

section Runs

variable {env : ReplayEnv} {pre mid : List (ℕ × SignedMembershipEvent)} {id : EventId}
  {work : ResetWork} {P : ℕ → Prop}

/-- Every wall of the entry is one that the run has met, and its tip does not precede it. -/
structure EntryMet (met : ℕ → Prop) (work : ResetWork) : Prop where
  opened : met work.t0WallMs
  reached : ∀ tq, work.tQReached = some tq → met tq ∧ work.t0WallMs ≤ tq
  responses : ∀ r ∈ work.responses, met r.1

structure ResetsMet (met : ℕ → Prop) (st : ReplayState) : Prop where
  entries : ∀ (id : EventId) (work : ResetWork), st.resetWork[id]? = some work → EntryMet met work
  queued : ∀ (id : EventId), ∀ r ∈ st.pendingResetResponses id, met r.wallMs

theorem EntryMet.grown {met : ℕ → Prop} {wall : ℕ} {work work' : ResetWork} (h : EntryMet met work)
    (hgrown : ResetGrown (· = wall) work work') (hmet : met wall) (hle : ∀ w, met w → w ≤ wall) :
    EntryMet met work' := by
  constructor
  · rw [hgrown.t0WallMs]
    exact h.opened
  · intro tq htq
    rw [hgrown.t0WallMs]
    rcases hgrown.reached with hsame | ⟨-, tq', rfl, hnew⟩
    · exact h.reached tq (hsame ▸ htq)
    · obtain rfl := Option.some.inj (htq.symm.trans hnew)
      exact ⟨hmet, hle _ h.opened⟩
  · intro r hr
    obtain ⟨more, hmore, hwall⟩ := hgrown.responses
    rw [hmore, List.mem_append] at hr
    rcases hr with hr | hr
    · exact h.responses r hr
    · rw [hwall r hr]
      exact hmet

theorem ResetsMet.insert {met : ℕ → Prop} {st : ReplayState} (h : ResetsMet met st) {target : EventId}
    {work : ResetWork} (hwork : EntryMet met work) (id : EventId) (w : ResetWork)
    (hw : (st.resetWork.insert target work)[id]? = some w) : EntryMet met w := by
  rw [BTreeMap.get_insert] at hw
  split_ifs at hw
  · exact Option.some.inj hw ▸ hwork
  · exact h.entries id w hw

theorem step_resetsMet {met : ℕ → Prop} {st : ReplayState} {e : SignedMembershipEvent}
    (h : ResetsMet met st) (hmet : met e.hlc.wallMs) (hle : ∀ w, met w → w ≤ e.hlc.wallMs) :
    ResetsMet met (step env st e) := by
  have hmeets : ∀ {works : BTreeMap EventId ResetWork} {queues : EventId → List QueuedResetResponse},
      (step env st e).resetLog = (works, queues) →
        (∀ (id : EventId) (work : ResetWork), works[id]? = some work → EntryMet met work) →
          (∀ id, ∀ r ∈ queues id, met r.wallMs) → ResetsMet met (step env st e) := by
    intro works queues hlog hworks hqueues
    obtain ⟨rfl, rfl⟩ := Prod.mk.inj hlog
    exact ⟨hworks, hqueues⟩
  rcases step_reset_cases env st e with
    hsame | ⟨work, hopen, hlog⟩ | ⟨target, work, work', hget, hgrown, hlog⟩ | ⟨target, r, hr, hlog⟩
  · exact hmeets hsame h.entries h.queued
  · refine hmeets hlog (h.insert ⟨?_, fun tq htq => ?_, fun r hr => ?_⟩) fun id r hr => ?_
    · rw [hopen.t0WallMs]
      exact hmet
    · rw [hopen.reached tq htq, hopen.t0WallMs]
      exact ⟨hmet, le_rfl⟩
    · obtain ⟨q, hq, hwall⟩ := hopen.responses r hr
      rw [hwall]
      exact h.queued e.id q hq
    · rw [Function.update_apply] at hr
      split_ifs at hr
      · exact absurd hr List.not_mem_nil
      · exact h.queued id r hr
  · exact hmeets hlog (h.insert ((h.entries target work hget).grown hgrown hmet hle)) h.queued
  · refine hmeets hlog h.entries fun id q hq => ?_
    rw [Function.update_apply] at hq
    split_ifs at hq
    · rw [List.mem_append, List.mem_singleton] at hq
      rcases hq with hq | rfl
      · exact h.queued target q hq
      · rw [hr]
        exact hmet
    · exact h.queued id q hq

theorem EntryMet.mono {met met' : ℕ → Prop} {work : ResetWork} (h : EntryMet met work)
    (hsub : ∀ w, met w → met' w) : EntryMet met' work :=
  ⟨hsub _ h.opened, fun tq htq => ⟨hsub tq (h.reached tq htq).1, (h.reached tq htq).2⟩,
    fun r hr => hsub _ (h.responses r hr)⟩

theorem replayAt_resetsMet {steps : List (ℕ × SignedMembershipEvent)}
    (hs : steps.Pairwise fun a b => a.2.hlc.wallMs ≤ b.2.hlc.wallMs) :
    ResetsMet (fun w => ∃ p ∈ steps, w = p.2.hlc.wallMs) (replayAt env steps) := by
  induction steps using List.reverseRecOn with
  | nil =>
    refine ⟨fun id work h => ?_, fun id r hr => absurd hr List.not_mem_nil⟩
    simp [replayAt, ReplayState.init] at h
  | append_singleton steps p ih =>
    obtain ⟨hs, -, hlast⟩ := List.pairwise_append.mp hs
    have hmore : ∀ w, (∃ q ∈ steps, w = q.2.hlc.wallMs) →
        ∃ q ∈ steps ++ [p], w = q.2.hlc.wallMs := by
      rintro w ⟨q, hq, hw⟩
      exact ⟨q, by simp [hq], hw⟩
    have hprev := ih hs
    rw [replayAt_snoc]
    refine step_resetsMet ⟨fun id work hget => (hprev.entries id work hget).mono hmore,
      fun id r hr => hmore _ (hprev.queued id r hr)⟩ ⟨p, by simp, rfl⟩ ?_
    rintro w ⟨q, hq, rfl⟩
    rcases List.mem_append.mp hq with hq | hq
    · exact hlast q hq p (by simp)
    · rw [List.mem_singleton.mp hq]

theorem step_grown {st : ReplayState} {e : SignedMembershipEvent} (hfresh : e.id ≠ id)
    (hget : st.resetWork[id]? = some work) :
    ∃ work', (step env st e).resetWork[id]? = some work' ∧
      ResetGrown (· = e.hlc.wallMs) work work' := by
  have hworks : ∀ {works : BTreeMap EventId ResetWork} {queues : EventId → List QueuedResetResponse},
      (step env st e).resetLog = (works, queues) → (step env st e).resetWork = works :=
    fun h => (Prod.mk.inj h).1
  rcases step_reset_cases env st e with
    hsame | ⟨opened, -, hlog⟩ | ⟨target, old, new, hold, hgrown, hlog⟩ | ⟨target, r, -, hlog⟩
  · exact ⟨work, by rw [hworks hsame, hget], ResetGrown.refl work⟩
  · exact ⟨work, by rw [hworks hlog, BTreeMap.get_insert, if_neg hfresh, hget], ResetGrown.refl work⟩
  · rw [hworks hlog]
    by_cases htarget : target = id
    · subst htarget
      obtain rfl := Option.some.inj (hold.symm.trans hget)
      exact ⟨new, by rw [BTreeMap.get_insert, if_pos rfl], hgrown⟩
    · exact ⟨work, by rw [BTreeMap.get_insert, if_neg htarget, hget], ResetGrown.refl work⟩
  · exact ⟨work, by rw [hworks hlog, hget], ResetGrown.refl work⟩

theorem replayAt_grown (hfresh : ∀ q ∈ mid, q.2.id ≠ id) (hP : ∀ q ∈ mid, P q.2.hlc.wallMs)
    (hget : (replayAt env pre).resetWork[id]? = some work) :
    ∃ work', (replayAt env (pre ++ mid)).resetWork[id]? = some work' ∧ ResetGrown P work work' := by
  induction mid using List.reverseRecOn with
  | nil => exact ⟨work, by rw [List.append_nil, hget], ResetGrown.refl work⟩
  | append_singleton mid q ih =>
    obtain ⟨work', hget', hgrown⟩ :=
      ih (fun a ha => hfresh a (by simp [ha])) fun a ha => hP a (by simp [ha])
    have hstep : { replayAt env (pre ++ mid) with
        m := { (replayAt env (pre ++ mid)).m with adminQuorum := q.1 } }.resetWork[id]? =
          some work' := hget'
    obtain ⟨work'', hget'', hnext⟩ := step_grown (hfresh q (by simp)) hstep
    refine ⟨work'', ?_, hgrown.trans (hnext.mono fun w hw => hw ▸ hP q (by simp))⟩
    rw [← List.append_assoc, replayAt_snoc]
    exact hget''

theorem replayAt_entry_id {steps : List (ℕ × SignedMembershipEvent)}
    (hget : (replayAt env steps).resetWork[id]?.isSome) : ∃ p ∈ steps, p.2.id = id := by
  induction steps using List.reverseRecOn with
  | nil => simp [replayAt, ReplayState.init] at hget
  | append_singleton steps p ih =>
    by_cases hid : p.2.id = id
    · exact ⟨p, by simp, hid⟩
    suffices hold : (replayAt env steps).resetWork[id]?.isSome by
      obtain ⟨q, hq, hqid⟩ := ih hold
      exact ⟨q, by simp [hq], hqid⟩
    rw [replayAt_snoc] at hget
    have hworks : ∀ {works : BTreeMap EventId ResetWork}
        {queues : EventId → List QueuedResetResponse} {st : ReplayState},
        st.resetLog = (works, queues) → st.resetWork = works := fun h => (Prod.mk.inj h).1
    rcases step_reset_cases env { replayAt env steps with
        m := { (replayAt env steps).m with adminQuorum := p.1 } } p.2 with
      hsame | ⟨opened, -, hlog⟩ | ⟨target, old, new, hold, -, hlog⟩ | ⟨target, r, -, hlog⟩
    · rwa [hworks hsame] at hget
    · rwa [hworks hlog, BTreeMap.get_insert, if_neg hid] at hget
    · rw [hworks hlog, BTreeMap.get_insert] at hget
      split_ifs at hget with htarget
      · rw [← htarget]
        exact Option.isSome_iff_exists.mpr ⟨old, hold⟩
      · exact hget
    · rwa [hworks hlog] at hget

end Runs

/-- What an evaluation of the run `pre` at `t` says of the proposal `id` still holds when
`mid` has followed and the evaluation is repeated at `t'`. -/
def VerdictStands (env : ReplayEnv) (pre mid : List (ℕ × SignedMembershipEvent)) (t t' : ℕ)
    (id : EventId) : Prop :=
  ∀ o, (evaluateResetPhases (replayAt env pre).resetWork t)[id]? = some o →
    ∃ o', (evaluateResetPhases (replayAt env (pre ++ mid)).resetWork t')[id]? = some o' ∧
      o.Precedes o'

/-- An authorization without endorsement comes after the window and the finality delay of the
proposal, and no veto fell into the window. -/
def UnendorsedWaited (env : ReplayEnv) (steps : List (ℕ × SignedMembershipEvent)) (t : ℕ)
    (id : EventId) : Prop :=
  ∀ work o, (replayAt env steps).resetWork[id]? = some work →
    (evaluateResetPhases (replayAt env steps).resetWork t)[id]? = some o →
      o.phase = .authorized → o.endorsed = false →
        work.t0WallMs + work.vetoWindowMs + resetFinalityMs < t ∧ ∃ d, o.deadlineMs = some d ∧
          ∀ r ∈ work.responses, r.2.2.1 = .veto → ¬(work.t0WallMs ≤ r.1 ∧ r.1 ≤ d)

theorem evaluateResetPhases_get (works : BTreeMap EventId ResetWork) (t : ℕ) (id : EventId) :
    (evaluateResetPhases works t)[id]? = works[id]?.map (resetOutcome t) := by
  rw [evaluateResetPhases, Std.ExtTreeMap.getElem?_map]

/-- The phases of a reset only move forward, where the later steps come after the walls
folded before them and an expired proposal did not expire for want of room for its window. -/
theorem reset_lifecycle_monotone {env : ReplayEnv} {pre mid : List (ℕ × SignedMembershipEvent)}
    {t t' : ℕ} {id : EventId}
    (hs : (pre ++ mid).Pairwise fun a b => a.2.hlc.wallMs ≤ b.2.hlc.wallMs)
    (hids : KeyNodup (·.2.id) (pre ++ mid)) (hlate : ∀ q ∈ mid, t < q.2.hlc.wallMs) (hle : t ≤ t')
    (hpast : ∀ p ∈ pre, ∀ q ∈ mid, p.2.hlc.wallMs < q.2.hlc.wallMs)
    (hfits : ∀ work, (replayAt env pre).resetWork[id]? = some work →
      (resetOutcome t work).phase = .expired →
        ∀ tq, work.tQReached = some tq → tq + work.vetoWindowMs < 2 ^ 64) :
    VerdictStands env pre mid t t' id ∧ UnendorsedWaited env pre t id := by
  have hmet : ResetsMet _ (replayAt env pre) := replayAt_resetsMet (List.pairwise_append.mp hs).1
  constructor
  · intro o ho
    rw [evaluateResetPhases_get, Option.map_eq_some_iff] at ho
    obtain ⟨work, hget, rfl⟩ := ho
    have hentry := hmet.entries id work hget
    have hfresh : ∀ q ∈ mid, q.2.id ≠ id := by
      intro q hq hid
      obtain ⟨p, hp, hpid⟩ := replayAt_entry_id (Option.isSome_iff_exists.mpr ⟨work, hget⟩)
      exact hids.ne_of_append hp hq (hpid.trans hid.symm)
    have hnew : ∀ q ∈ mid, t < q.2.hlc.wallMs ∧
        ∀ w, (∃ p ∈ pre, w = p.2.hlc.wallMs) → w < q.2.hlc.wallMs := by
      refine fun q hq => ⟨hlate q hq, ?_⟩
      rintro w ⟨p, hp, rfl⟩
      exact hpast p hp q hq
    obtain ⟨work', hget', hgrown⟩ := replayAt_grown (P := fun w => t < w ∧
      ∀ old, (∃ p ∈ pre, old = p.2.hlc.wallMs) → old < w) hfresh hnew hget
    refine ⟨resetOutcome t' work', by rw [evaluateResetPhases_get, hget']; rfl,
      outcome_precedes hgrown ⟨fun w hw => hw.1, fun w hw r hr => ?_, fun w hw tq htq => ?_⟩ hle
        (hfits work hget)⟩
    · exact hw.2 _ (hentry.responses r hr)
    · exact hw.2 _ (hentry.reached tq htq).1
  · intro work o hget ho hphase hend
    rw [evaluateResetPhases_get, hget, Option.map_some, Option.some.injEq] at ho
    subst ho
    exact unendorsed_waited (fun tq htq => ((hmet.entries id work hget).reached tq htq).2) hphase hend

def proposeReset (id : EventId) (wallMs : ℕ) : SignedMembershipEvent :=
  signed id wallMs 1 (.dfrostResetProposal 50 0 [1, 2] 2 resetVetoWindowCeilingMs)

def answerReset (id : EventId) (wallMs : ℕ) (verdict : ResetVerdict) : SignedMembershipEvent :=
  signed id wallMs 2 (.dfrostResetResponse 1 verdict 50 none)

def emptyEnv : ReplayEnv := prePass symbolicCrypto [] 1 none

/-- A window that runs past the last wall expires at once and is vetoed afterwards; of two
responses with one wall the one with the smaller id wins, also when it is folded later. -/
theorem reset_verdict_flips :
    ¬VerdictStands emptyEnv [(1, proposeReset 1 (2 ^ 64 - 10))]
        [(1, answerReset 2 (2 ^ 64 - 5) .veto)] (2 ^ 64 - 10) (2 ^ 64 - 5) 1 ∧
      ¬VerdictStands emptyEnv [(1, proposeReset 1 1), (1, answerReset 3 5 .endorse)]
        [(1, answerReset 2 5 .veto)] 4 5 1 := by
  constructor
  · intro h
    obtain ⟨o', ho', hkeeps⟩ := h ⟨.expired, none, none, false, none, none⟩ (by decide +kernel)
    have hafter : (evaluateResetPhases (replayAt emptyEnv ([(1, proposeReset 1 (2 ^ 64 - 10))] ++
        [(1, answerReset 2 (2 ^ 64 - 5) .veto)])).resetWork (2 ^ 64 - 5))[1]? =
          some ⟨.vetoed, none, none, false, none, none⟩ := by decide +kernel
    rw [hafter] at ho'
    have hphase := (hkeeps.settled rfl).1
    rw [← Option.some.inj ho'] at hphase
    cases hphase
  · intro h
    obtain ⟨o', ho', hkeeps⟩ := h
      ⟨.authorized, some (1 + resetVetoWindowCeilingMs), some 5, true, none, none⟩
      (by decide +kernel)
    have hafter : (evaluateResetPhases (replayAt emptyEnv ([(1, proposeReset 1 1),
        (1, answerReset 3 5 .endorse)] ++ [(1, answerReset 2 5 .veto)])).resetWork 5)[1]? =
          some ⟨.vetoed, some (1 + resetVetoWindowCeilingMs), none, false, none, none⟩ := by
      decide +kernel
    rw [hafter] at ho'
    have hphase := (hkeeps.authorized rfl).2
    rw [← Option.some.inj ho'] at hphase
    cases hphase

theorem reset_lifecycle_monotone_answered :
    VerdictStands emptyEnv [(1, proposeReset 1 1), (1, answerReset 2 5 .endorse)]
        [(1, answerReset 3 6 .veto)] 5 7 1 ∧
      UnendorsedWaited emptyEnv [(1, proposeReset 1 1), (1, answerReset 2 5 .endorse)] 5 1 := by
  refine reset_lifecycle_monotone (by decide) (by decide) (by decide) (by decide) (by decide) ?_
  intro work hget hphase
  have hopen : ((replayAt emptyEnv [(1, proposeReset 1 1),
      (1, answerReset 2 5 .endorse)]).resetWork[1]?.map (resetOutcome 5)).map (·.phase) =
        some .authorized := by decide +kernel
  rw [hget, Option.map_some, Option.map_some, hphase] at hopen
  cases hopen

end Harmony.Membership
