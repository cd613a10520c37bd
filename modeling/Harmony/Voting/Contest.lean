import Harmony.Voting.Stores
import Harmony.Voting.Tick

/-! The contestability window of a conviction poll. A poll that a tick finalizes was
past its threshold for a whole window, and so long ago lies every unsignal of that
period, provided no unsignal replaces the stamp of a later one. -/

namespace Harmony.Voting

open Harmony.Lib
open Harmony.Membership (SpaceId)

variable (cx : Codec) (cv : Curve) (communityId : SpaceId) (ctx : TickContext)

/-- The event withdraws support from the poll. -/
def Unsignals (event : SignedVotingEvent) (pid : PollId) : Prop :=
  event.kind = .signal ∧ event.tier = .conviction ∧ cx.signal event.payload = .ok ⟨pid, false⟩

/-- A poll past its threshold, and the state of its contest. -/
structure InContest (p : PollState) (t2 : Tier2ProposalState) : Prop where
  lifecycle : p.meta.lifecycle = .thresholdReached
  state : p.tierState = .tier2 t2

/-- An unsignal on a poll in contest does not move the stamp of the last one back, unless
the crossing is later anyway. -/
def StampKept (log : VotingLog) (pid : PollId) (event : SignedVotingEvent) : Prop :=
  Unsignals cx event pid → ∀ p t2, log.polls[pid]? = some p → InContest p t2 →
    ∀ reachedAt ∈ t2.thresholdReachedAtMs, ∀ stamp ∈ t2.lastUnsignalAfterThresholdMs,
      stamp ≤ max reachedAt event.hlc.wallMs

/-- The steps after the last crossing of the threshold, at `reachedAt`; the poll stays past
it through all of them. -/
def ReachedSince (pid : PollId) (steps : List VotingStep) (reachedAt : ℤ)
    (since : List VotingStep) : Prop :=
  ∃ before, steps = before ++ .pass .detectThreshold reachedAt :: since ∧
    ∀ mid, mid <+: since → ∃ p, (VotingNode.run cx cv communityId ctx
      (before ++ .pass .detectThreshold reachedAt :: mid)).log.polls[pid]? = some p ∧
      p.meta.lifecycle = .thresholdReached

variable {cx cv communityId ctx} {pid : PollId}

/-! ### Steps and the contest -/

section Apply

variable {log : VotingLog} {event : SignedVotingEvent}

theorem nextLifecycle_ne_thresholdReached {l : Lifecycle}
    (hk : event.tier = .conviction → event.kind ≠ .signal ∧ event.kind ≠ .delegate ∧
      event.kind ≠ .undelegate) :
    nextLifecycle l event.kind event.tier ≠ .ok .thresholdReached := by
  unfold nextLifecycle
  split <;> simp_all

theorem Unsignals.pollIdOf (h : Unsignals cx event pid) :
    VotingLog.pollIdOf cx communityId event = .ok pid := by
  simp [VotingLog.pollIdOf, h.1, h.2.2]

/-- An unsignal reaches a poll in contest and stamps it. -/
theorem apply_unsignal {snapshot : Option MembershipSnapshot} {p' : PollState}
    {t2' : Tier2ProposalState} (hu : Unsignals cx event pid)
    (hp : (log.applyWithSnapshot cx cv event communityId snapshot).1.polls[pid]? = some p')
    (h : InContest p' t2') : ∃ p t2, log.polls[pid]? = some p ∧ InContest p t2 ∧
      t2'.thresholdReachedAtMs = t2.thresholdReachedAtMs ∧
      t2'.lastUnsignalAfterThresholdMs = some (event.hlc.wallMs : ℤ) := by
  simp only [VotingLog.applyWithSnapshot, hu.pollIdOf, hu.1, hu.2.1, and_self, if_true,
    VotingLog.applySignal, hu.2.2] at hp
  cases hold : log.polls[pid]? with
  | none => simp [hold] at hp
  | some p =>
    rw [hold] at hp
    dsimp only at hp
    split_ifs at hp with hlife
    · cases hstate : p.tierState with
      | tier2 t2 =>
        simp only [hstate, VotingLog.record, BTreeMap.get_insert, if_true, Option.some.injEq] at hp
        subst hp
        have hlife : p.meta.lifecycle = .thresholdReached := h.lifecycle
        refine ⟨p, t2, rfl, ⟨hlife, hstate⟩, ?_⟩
        have hstate' := h.state
        simp only [PollState.push, TierState.tier2.injEq] at hstate'
        subst hstate'
        simp [Tier2ProposalState.signal, hlife]
      | tier1 tally =>
        simp only [hstate, hold, Option.some.injEq] at hp
        subst hp
        cases hstate.symm.trans h.state
      | tier3 poll =>
        simp only [hstate, hold, Option.some.injEq] at hp
        subst hp
        cases hstate.symm.trans h.state
    · rw [hold, Option.some.injEq] at hp
      subst hp
      exact absurd (.inr h.lifecycle) hlife

/-- Any other call leaves a contest as it is. -/
theorem apply_of_not_unsignal {snapshot : Option MembershipSnapshot} {p' : PollState}
    {t2' : Tier2ProposalState} (hu : ¬Unsignals cx event pid)
    (hp : (log.applyWithSnapshot cx cv event communityId snapshot).1.polls[pid]? = some p')
    (h : InContest p' t2') : ∃ p t2, log.polls[pid]? = some p ∧ InContest p t2 ∧
      t2'.thresholdReachedAtMs = t2.thresholdReachedAtMs ∧
      t2'.lastUnsignalAfterThresholdMs = t2.lastUnsignalAfterThresholdMs := by
  have hsame : log.polls[pid]? = some p' → ∃ p t2, log.polls[pid]? = some p ∧ InContest p t2 ∧
      t2'.thresholdReachedAtMs = t2.thresholdReachedAtMs ∧
      t2'.lastUnsignalAfterThresholdMs = t2.lastUnsignalAfterThresholdMs :=
    fun hold => ⟨p', t2', hold, h, rfl, rfl⟩
  have heffect : VotingLog.ApplyEffect cx cv communityId log event
      (log.applyWithSnapshot cx cv event communityId snapshot).1 :=
    VotingLog.applyWithSnapshot_effect event snapshot
  generalize (log.applyWithSnapshot cx cv event communityId snapshot).1 = log' at hp heffect
  cases heffect with
  | rejected => exact hsame hp
  | delegation graph hk => exact hsame hp
  | recorded pid' q howner hupdate =>
    simp only [VotingLog.record, BTreeMap.get_insert] at hp
    split_ifs at hp with hpid
    · obtain rfl := Option.some.inj hp
      subst hpid
      generalize hold : log.polls[pid']? = old at hupdate
      cases hupdate with
      | @signal p t2 payload hk ht hdecode hlife hstate =>
        have hproposal : payload.proposalId = pid' := by
          simpa [VotingLog.pollOf, VotingLog.pollIdOf, hk, hdecode, Except.toOption] using howner
        have hsupport : payload.support = true := by
          by_contra hs
          refine hu ⟨hk, ht, ?_⟩
          rw [hdecode, ← hproposal]
          simp [← Bool.eq_false_iff.mpr hs]
        have hstate' := h.state
        simp only [PollState.push, TierState.tier2.injEq] at hstate'
        subst hstate'
        exact ⟨p, t2, rfl, ⟨h.lifecycle, hstate⟩, rfl, by simp [Tier2ProposalState.signal, hsupport]⟩
      | tier3 _ _ _ happly =>
        obtain ⟨t3', ht3⟩ := (VotingLog.applyTier3To_of_ok happly).2
        cases ht3.symm.trans h.state
      | lifecycle hnext hk ht =>
        have hlife := h.lifecycle
        simp only [PollState.push, PollState.setLifecycle] at hlife
        rw [hlife] at hnext
        exact absurd hnext (nextLifecycle_ne_thresholdReached hk)
      | create hk hcreate =>
        have hlife := (VotingLog.createPoll_of_ok hcreate).2
        rw [h.lifecycle] at hlife
        cases hlife
    · exact hsame hp

end Apply

/-! ### Passes and the contest -/

section Pass

variable {node : VotingNode} {nowMs : ℤ} {p p' : PollState} {t2' : Tier2ProposalState}

/-- What a pass does to a poll. -/
inductive PassEffect (windowMs nowMs : ℤ) (pass : TickPass) (p : PollState) : PollState → Prop
  | same : PassEffect windowMs nowMs pass p p
  | closed {p' : PollState} (hlife : p'.meta.lifecycle = .closed) :
      PassEffect windowMs nowMs pass p p'
  | crossed {p' : PollState} {t2 : Tier2ProposalState} (hpass : pass = .detectThreshold)
      (hlife : p'.meta.lifecycle = .thresholdReached) (hstate : p'.tierState = .tier2 t2)
      (hreached : t2.thresholdReachedAtMs = some nowMs)
      (hstamp : t2.lastUnsignalAfterThresholdMs = none) : PassEffect windowMs nowMs pass p p'
  | reverted {p' : PollState} (hlife : p'.meta.lifecycle = .open) :
      PassEffect windowMs nowMs pass p p'
  | finalized {p' : PollState} (hwindow : p.uncontested windowMs nowMs = true)
      (hlife : p'.meta.lifecycle = .finalized) : PassEffect windowMs nowMs pass p p'
  | archived {p' : PollState} (hlife : p'.meta.lifecycle = .archived) :
      PassEffect windowMs nowMs pass p p'

theorem detectThreshold_effect (windowMs : ℤ) (p : PollState) (graph : DelegationGraph) :
    PassEffect windowMs nowMs .detectThreshold p (p.detectThreshold nowMs graph) := by
  unfold PollState.detectThreshold
  split_ifs
  · exact .same
  · split
    · dsimp only
      split_ifs
      · exact .crossed rfl rfl rfl rfl rfl
      · exact .reverted rfl
      · exact .same
    · exact .same

theorem getElem?_mapPolls {f : PollId → PollState → PollState}
    (h : (node.mapPolls f).log.polls[pid]? = some p') :
    ∃ p, node.log.polls[pid]? = some p ∧ f pid p = p' := by
  rw [VotingNode.mapPolls, Std.ExtTreeMap.getElem?_map] at h
  exact Option.map_eq_some_iff.mp h

theorem pass_effect {pass : TickPass}
    (hp : (node.pass cx ctx nowMs pass).log.polls[pid]? = some p') :
    ∃ p, node.log.polls[pid]? = some p ∧
      PassEffect ctx.contestabilityWindowMs nowMs pass p p' := by
  cases pass with
  | closeExpired =>
    obtain ⟨p, hold, rfl⟩ := getElem?_mapPolls hp
    refine ⟨p, hold, ?_⟩
    unfold PollState.closeExpired
    split_ifs
    · exact .closed rfl
    · exact .same
  | detectThreshold =>
    obtain ⟨p, hold, rfl⟩ := getElem?_mapPolls hp
    exact ⟨p, hold, detectThreshold_effect _ p _⟩
  | collectUncontested => exact ⟨p', hp, .same⟩
  | finalize =>
    obtain ⟨p, hold, rfl⟩ := getElem?_mapPolls hp
    refine ⟨p, hold, ?_⟩
    split_ifs
    · unfold PollState.finalizeUncontested
      split_ifs with hwindow
      · exact .finalized hwindow rfl
      · exact .same
    · exact .same
  | archiveSweep =>
    simp only [VotingNode.pass] at hp
    split at hp
    · dsimp only at hp
      split at hp
      · rw [VotingLog.archive_polls, Option.map_eq_some_iff] at hp
        obtain ⟨p, hold, rfl⟩ := hp
        refine ⟨p, hold, ?_⟩
        split_ifs
        · exact .archived rfl
        · exact .same
      · exact ⟨p', hp, .same⟩
    · exact ⟨p', hp, .same⟩

theorem pass_contest {pass : TickPass}
    (hp : (node.pass cx ctx nowMs pass).log.polls[pid]? = some p') (h : InContest p' t2') :
    node.log.polls[pid]? = some p' ∨ pass = .detectThreshold ∧
      t2'.thresholdReachedAtMs = some nowMs ∧ t2'.lastUnsignalAfterThresholdMs = none := by
  obtain ⟨p, hold, heffect⟩ := pass_effect hp
  cases heffect with
  | same => exact .inl hold
  | crossed hpass hlife hstate hreached hstamp =>
    obtain rfl := TierState.tier2.inj (hstate.symm.trans h.state)
    exact .inr ⟨hpass, hreached, hstamp⟩
  | closed hlife => cases hlife.symm.trans h.lifecycle
  | reverted hlife => cases hlife.symm.trans h.lifecycle
  | finalized hwindow hlife => cases hlife.symm.trans h.lifecycle
  | archived hlife => cases hlife.symm.trans h.lifecycle

theorem contest_of_uncontested {windowMs : ℤ} (h : p.uncontested windowMs nowMs = true) :
    ∃ t2, InContest p t2 ∧ ∃ reachedAt, t2.thresholdReachedAtMs = some reachedAt ∧
      windowMs ≤ nowMs - max reachedAt (t2.lastUnsignalAfterThresholdMs.getD reachedAt) := by
  unfold PollState.uncontested at h
  rw [Bool.and_eq_true, decide_eq_true_eq] at h
  obtain ⟨hlife, h⟩ := h
  split at h
  · rename_i t2 hstate
    rw [Option.any_eq_true] at h
    obtain ⟨reachedAt, hr, hw⟩ := h
    exact ⟨t2, ⟨hlife, hstate⟩, reachedAt, hr, by simpa using hw⟩
  · cases h

/-- A pass only finalizes a poll whose window is clear. -/
theorem uncontested_of_finalized {pass : TickPass} (hold : node.log.polls[pid]? = some p)
    (hlife : p.meta.lifecycle ≠ .finalized)
    (hp : (node.pass cx ctx nowMs pass).log.polls[pid]? = some p')
    (hfin : p'.meta.lifecycle = .finalized) :
    p.uncontested ctx.contestabilityWindowMs nowMs = true := by
  obtain ⟨q, hq, heffect⟩ := pass_effect hp
  obtain rfl := Option.some.inj (hold.symm.trans hq)
  cases heffect with
  | same => exact absurd hfin hlife
  | finalized hwindow => exact hwindow
  | closed hclosed => cases hclosed.symm.trans hfin
  | crossed _ hreached => cases hreached.symm.trans hfin
  | reverted hopen => cases hopen.symm.trans hfin
  | archived harchived => cases harchived.symm.trans hfin

end Pass

/-! ### Runs -/

theorem run_snoc (steps : List VotingStep) (s : VotingStep) :
    VotingNode.run cx cv communityId ctx (steps ++ [s]) =
      (VotingNode.run cx cv communityId ctx steps).step cx cv communityId ctx s := by
  simp [VotingNode.run]

/-- A crossing opens the period it belongs to. -/
theorem ReachedSince.crossing {steps : List VotingStep} {reachedAt : ℤ} {p : PollState}
    (hp : (VotingNode.run cx cv communityId ctx
      (steps ++ [.pass .detectThreshold reachedAt])).log.polls[pid]? = some p)
    (h : p.meta.lifecycle = .thresholdReached) :
    ReachedSince cx cv communityId ctx pid (steps ++ [.pass .detectThreshold reachedAt])
      reachedAt [] := by
  refine ⟨steps, rfl, fun mid hmid => ?_⟩
  rw [List.prefix_nil.mp hmid]
  exact ⟨p, hp, h⟩

/-- A step that leaves the poll past its threshold prolongs the period. -/
theorem ReachedSince.snoc {steps since : List VotingStep} {reachedAt : ℤ} {s : VotingStep}
    {p : PollState} (hr : ReachedSince cx cv communityId ctx pid steps reachedAt since)
    (hp : (VotingNode.run cx cv communityId ctx (steps ++ [s])).log.polls[pid]? = some p)
    (h : p.meta.lifecycle = .thresholdReached) :
    ReachedSince cx cv communityId ctx pid (steps ++ [s]) reachedAt (since ++ [s]) := by
  obtain ⟨before, rfl, hmid⟩ := hr
  refine ⟨before, by simp, fun mid hpre => ?_⟩
  rcases List.prefix_concat_iff.mp hpre with rfl | hpre
  · exact ⟨p, by simpa using hp, h⟩
  · exact hmid mid hpre

/-- Where a contest stands: when it began, and that none of its unsignals lies after the
stamp. -/
def ContestInv (steps : List VotingStep) (pid : PollId) (cx : Codec) (cv : Curve)
    (communityId : SpaceId) (ctx : TickContext) : Prop :=
  ∀ p t2, (VotingNode.run cx cv communityId ctx steps).log.polls[pid]? = some p →
    InContest p t2 → ∃ reachedAt since, t2.thresholdReachedAtMs = some reachedAt ∧
      ReachedSince cx cv communityId ctx pid steps reachedAt since ∧
      ∀ event snapshot, .apply event snapshot ∈ since → Unsignals cx event pid →
        (event.hlc.wallMs : ℤ) ≤
          max reachedAt (t2.lastUnsignalAfterThresholdMs.getD reachedAt)

theorem contestInv_apply {steps : List VotingStep} {event : SignedVotingEvent}
    {snapshot : Option MembershipSnapshot} (ih : ContestInv steps pid cx cv communityId ctx)
    (hkept : StampKept cx (VotingNode.run cx cv communityId ctx steps).log pid event) :
    ContestInv (steps ++ [.apply event snapshot]) pid cx cv communityId ctx := by
  intro p' t2' hp' h'
  have hrun := hp'
  rw [run_snoc] at hp'
  by_cases hu : Unsignals cx event pid
  · obtain ⟨p, t2, hp, h, hreached, hstamp⟩ := apply_unsignal hu hp' h'
    obtain ⟨reachedAt, since, hr, hsince, hwalls⟩ := ih p t2 hp h
    refine ⟨reachedAt, _, hreached.trans hr, hsince.snoc hrun h'.lifecycle, ?_⟩
    intro e snap he hue
    rw [hstamp, Option.getD_some]
    rcases List.mem_append.mp he with he | he
    · have hold := hwalls e snap he hue
      cases hs : t2.lastUnsignalAfterThresholdMs with
      | none =>
        rw [hs, Option.getD_none] at hold
        omega
      | some stamp =>
        have hle := hkept hu p t2 hp h reachedAt hr stamp hs
        rw [hs, Option.getD_some] at hold
        omega
    · simp only [List.mem_singleton, VotingStep.apply.injEq] at he
      rw [he.1]
      exact le_max_right _ _
  · obtain ⟨p, t2, hp, h, hreached, hstamp⟩ := apply_of_not_unsignal hu hp' h'
    obtain ⟨reachedAt, since, hr, hsince, hwalls⟩ := ih p t2 hp h
    refine ⟨reachedAt, _, hreached.trans hr, hsince.snoc hrun h'.lifecycle, ?_⟩
    intro e snap he hue
    rw [hstamp]
    rcases List.mem_append.mp he with he | he
    · exact hwalls e snap he hue
    · simp only [List.mem_singleton, VotingStep.apply.injEq] at he
      exact absurd (he.1 ▸ hue) hu

theorem contestInv_pass {steps : List VotingStep} {pass : TickPass} {nowMs : ℤ}
    (ih : ContestInv steps pid cx cv communityId ctx) :
    ContestInv (steps ++ [.pass pass nowMs]) pid cx cv communityId ctx := by
  intro p' t2' hp' h'
  have hrun := hp'
  rw [run_snoc] at hp'
  rcases pass_contest hp' h' with hold | ⟨rfl, hreached, hstamp⟩
  · obtain ⟨reachedAt, since, hr, hsince, hwalls⟩ := ih p' t2' hold h'
    refine ⟨reachedAt, _, hr, hsince.snoc hrun h'.lifecycle, ?_⟩
    intro e snap he hue
    rcases List.mem_append.mp he with he | he
    · exact hwalls e snap he hue
    · simp at he
  · exact ⟨nowMs, [], hreached, .crossing hrun h'.lifecycle, by simp⟩

theorem run_contestInv {steps : List VotingStep}
    (hkept : ∀ pre event snapshot, pre ++ [.apply event snapshot] <+: steps →
      StampKept cx (VotingNode.run cx cv communityId ctx pre).log pid event) :
    ContestInv steps pid cx cv communityId ctx := by
  induction steps using List.reverseRecOn with
  | nil =>
    intro p t2 hp
    simp [VotingNode.run] at hp
  | append_singleton steps s ih =>
    have ih := ih fun pre event snapshot h =>
      hkept pre event snapshot (h.trans (List.prefix_append _ _))
    cases s with
    | apply event snapshot =>
      exact contestInv_apply ih (hkept steps event snapshot (List.prefix_refl _))
    | pass pass nowMs => exact contestInv_pass ih

/-- The poll has been past its threshold for a whole window before `nowMs`, and every
unsignal of that period is a window old. -/
def WindowRespected (cx : Codec) (cv : Curve) (communityId : SpaceId) (ctx : TickContext)
    (pid : PollId) (steps : List VotingStep) (nowMs : ℤ) : Prop :=
  ∃ reachedAt since, ReachedSince cx cv communityId ctx pid steps reachedAt since ∧
    ctx.contestabilityWindowMs ≤ nowMs - reachedAt ∧
    ∀ event snapshot, .apply event snapshot ∈ since → Unsignals cx event pid →
      ctx.contestabilityWindowMs ≤ nowMs - event.hlc.wallMs

/-- In a run whose unsignals keep the stamps, the window is respected by every pass of a
tick that finalizes a poll. -/
theorem contest_respected {cx : Codec} {cv : Curve} {communityId : SpaceId} {ctx : TickContext}
    {pid : PollId} {steps : List VotingStep} {pass : TickPass} {nowMs : ℤ} {p p' : PollState}
    (hkept : ∀ pre event snapshot, pre ++ [.apply event snapshot] <+: steps →
      StampKept cx (VotingNode.run cx cv communityId ctx pre).log pid event)
    (hp : (VotingNode.run cx cv communityId ctx steps).log.polls[pid]? = some p)
    (hbefore : p.meta.lifecycle ≠ .finalized)
    (hp' : (VotingNode.run cx cv communityId ctx
      (steps ++ [.pass pass nowMs])).log.polls[pid]? = some p')
    (hafter : p'.meta.lifecycle = .finalized) :
    WindowRespected cx cv communityId ctx pid steps nowMs := by
  rw [run_snoc] at hp'
  change (VotingNode.pass cx ctx _ nowMs pass).log.polls[pid]? = some p' at hp'
  obtain ⟨t2, h, reachedAt, hr, hw⟩ :=
    contest_of_uncontested (uncontested_of_finalized hp hbefore hp' hafter)
  obtain ⟨reachedAt', since, hr', hsince, hwalls⟩ := run_contestInv hkept p t2 hp h
  obtain rfl := Option.some.inj (hr.symm.trans hr')
  refine ⟨reachedAt, since, hsince, by omega, fun event snapshot he hu => ?_⟩
  have := hwalls event snapshot he hu
  omega

/-! ### Two runs -/

/-- A window of 24 hours. -/
def dayContext : TickContext := ⟨24 * 60 * 60 * 1000, false⟩

def sampleUnsignal (wallMs : ℕ) (actor : ℕ) : SignedVotingEvent :=
  Sample.event .conviction .signal wallMs "b" actor
    (Sample.signalPayload Sample.convictionPoll false)

theorem sampleUnsignal_unsignals (wallMs actor : ℕ) :
    Unsignals Sample.convictionCodec (sampleUnsignal wallMs actor) Sample.convictionPoll := by
  have hdecode : Sample.convictionCodec.signal
      (Sample.signalPayload Sample.convictionPoll false) =
        .ok ⟨Sample.convictionPoll, false⟩ := by decide
  exact ⟨rfl, rfl, hdecode⟩

/-- The sample poll after a run. -/
def samplePoll (steps : List VotingStep) : Option PollState :=
  (VotingNode.run Sample.convictionCodec Sample.onePointCurve 7 dayContext
    steps).log.polls[Sample.convictionPoll]?

/-- One unsignal, and a tick a day and a second later. -/
def oneUnsignal : List VotingStep :=
  [.apply Sample.convictionCreate none, .pass .detectThreshold 10,
   .apply (sampleUnsignal 1000 2) none, .pass .collectUncontested 86402000]

def unsignalStamp (p : PollState) : Option ℤ :=
  match p.tierState with
  | .tier2 t2 => t2.lastUnsignalAfterThresholdMs
  | _ => none

/-- The only unsignal of the run meets a poll without a stamp. -/
theorem oneUnsignal_stampKept (pre : List VotingStep) (event : SignedVotingEvent)
    (snapshot : Option MembershipSnapshot) (h : pre ++ [.apply event snapshot] <+: oneUnsignal) :
    StampKept Sample.convictionCodec (VotingNode.run Sample.convictionCodec Sample.onePointCurve 7
      dayContext pre).log Sample.convictionPoll event := by
  intro hu p t2 hp hc reachedAt _ stamp hstamp
  have hpre : pre <+: oneUnsignal := (List.prefix_append _ _).trans h
  have hevent : oneUnsignal[pre.length]? = some (.apply event snapshot) := by
    obtain ⟨rest, hrest⟩ := h
    rw [← hrest]
    simp
  have hlen : pre.length < oneUnsignal.length := (List.getElem?_eq_some_iff.mp hevent).1
  have hp : samplePoll pre = some p := hp
  rw [List.prefix_iff_eq_take.mp hpre] at hp
  generalize pre.length = i at hp hevent hlen
  have hlen : i < 4 := hlen
  interval_cases i
  · cases hevent
    cases hu.1
  · cases hevent
  · have hnone : (samplePoll (oneUnsignal.take 2)).bind unsignalStamp = none := by
      decide +kernel
    rw [hp, Option.bind_some, unsignalStamp, hc.state] at hnone
    cases hnone.symm.trans hstamp
  · cases hevent

theorem contest_respected_oneUnsignal :
    WindowRespected Sample.convictionCodec Sample.onePointCurve 7 dayContext Sample.convictionPoll
      oneUnsignal 86402000 := by
  have hbefore : (samplePoll oneUnsignal).map (·.meta.lifecycle) = some .thresholdReached := by
    decide +kernel
  have hafter : (samplePoll (oneUnsignal ++ [.pass .finalize 86402000])).map (·.meta.lifecycle) =
      some .finalized := by decide +kernel
  obtain ⟨p, hp, hlife⟩ := Option.map_eq_some_iff.mp hbefore
  obtain ⟨p', hp', hlife'⟩ := Option.map_eq_some_iff.mp hafter
  exact contest_respected oneUnsignal_stampKept hp (by simp [hlife]) hp' hlife'

/-- Two unsignals, the one with the earlier time arrives last. -/
def lateUnsignal : List VotingStep :=
  .apply Sample.convictionCreate none :: runVotingTick 10 ++
    [.apply (sampleUnsignal 50000000 2) none, .apply (sampleUnsignal 20 3) none,
     .pass .closeExpired 86400030, .pass .detectThreshold 86400030,
     .pass .collectUncontested 86400030]

/-- The next pass of the tick finalizes the poll, a day after the crossing, but only ten
hours after the first of the two unsignals. -/
theorem contest_shortened :
    (samplePoll lateUnsignal).map (·.meta.lifecycle) = some .thresholdReached ∧
    (samplePoll (lateUnsignal ++ [.pass .finalize 86400030])).map (·.meta.lifecycle) =
      some .finalized ∧
    ¬WindowRespected Sample.convictionCodec Sample.onePointCurve 7 dayContext
      Sample.convictionPoll lateUnsignal 86400030 := by
  refine ⟨by decide +kernel, by decide +kernel, ?_⟩
  rintro ⟨reachedAt, since, ⟨before, hsteps, -⟩, hreached, hwalls⟩
  have hreached : (86400000 : ℤ) ≤ 86400030 - reachedAt := hreached
  have hcross : lateUnsignal[before.length]? = some (.pass .detectThreshold reachedAt) := by
    rw [hsteps]
    simp
  have hsince : since = lateUnsignal.drop (before.length + 1) := by
    rw [hsteps]
    simp
  have hlen : before.length < 11 := (List.getElem?_eq_some_iff.mp hcross).1
  generalize before.length = i at hcross hsince hlen
  -- the first unsignal comes after the first crossing, the second crossing is too late
  have hold : i ≤ 5 → False := by
    intro hi
    have hmem : .apply (sampleUnsignal 50000000 2) none ∈ since := by
      rw [hsince]
      interval_cases i <;> simp [lateUnsignal, runVotingTick]
    have hwall : (86400000 : ℤ) ≤ 86400030 - 50000000 :=
      hwalls _ none hmem (sampleUnsignal_unsignals 50000000 2)
    omega
  rcases Nat.lt_or_ge 5 i with hi | hi
  · interval_cases i <;> cases hcross
    omega
  · exact hold hi

end Harmony.Voting
