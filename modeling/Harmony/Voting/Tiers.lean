import Harmony.Voting.Contest

/-! Events and the tier of the poll they name. A rejected call leaves the log as it was.
Signals and Tier-3 events are checked against the tier of the poll; the events that go
through the lifecycle table are not, and reach a poll of another tier whenever the table has
an entry for them. -/

namespace Harmony.Voting

open Harmony.Lib
open Harmony.Membership (SpaceId)

def TierState.tier : TierState → Tier
  | .tier1 _ => .approval
  | .tier2 _ => .conviction
  | .tier3 _ => .sortition

/-- The state belongs to the tier, and the PollCreate is behind it. -/
structure PollState.WellTiered (p : PollState) : Prop where
  tier : p.tierState.tier = p.meta.tier
  created : p.meta.lifecycle ≠ .draft

namespace VotingLog

def WellTiered (log : VotingLog) : Prop :=
  ∀ (pid : PollId) (p : PollState), log.polls[pid]? = some p → p.WellTiered

variable (cx : Codec) (cv : Curve) (communityId : SpaceId)

/-- A rejected call changes nothing, and so is every call with an event that names a poll of
another tier. -/
structure OwnTierOnly (log : VotingLog) (event : SignedVotingEvent)
    (snapshot : Option MembershipSnapshot) : Prop where
  atomic : ∀ err, (log.applyWithSnapshot cx cv event communityId snapshot).2 = .error err →
    (log.applyWithSnapshot cx cv event communityId snapshot).1 = log
  foreign : ∀ pid p, pollOf cx communityId event = some pid → log.polls[pid]? = some p →
    p.meta.tier ≠ event.tier →
    ∃ err, (log.applyWithSnapshot cx cv event communityId snapshot).2 = .error err

/-- The event is checked against the tier of the poll, or the lifecycle table refuses it. -/
def Refused (p : PollState) (event : SignedVotingEvent) : Prop :=
  (event.kind = .signal ∧ event.tier = .conviction) ∨ event.tier = .sortition ∨
    ∃ err, nextLifecycle p.meta.lifecycle event.kind event.tier = .error err

variable {cx cv communityId} {log : VotingLog} {event : SignedVotingEvent} {pid : PollId}
  {snapshot : Option MembershipSnapshot}

/-! ### Rejected calls -/

/-- An error comes with the log as it was. -/
def Atomic (log : VotingLog) (r : VotingLog × Except ApplyError PollId) : Prop :=
  ∀ err, r.2 = .error err → r.1 = log

theorem atomic_of_error (log : VotingLog) (err : ApplyError) : Atomic log (log, .error err) :=
  fun _ _ => rfl

theorem atomic_of_ok (log log' : VotingLog) (pid : PollId) : Atomic log (log', .ok pid) := nofun

theorem applySignal_atomic : Atomic log (log.applySignal cx event pid) := by
  unfold applySignal
  repeat' split
  all_goals first
    | exact atomic_of_error _ _
    | exact atomic_of_ok _ _ _

theorem applyDelegate_atomic : Atomic log (log.applyDelegate cx event pid) := by
  unfold applyDelegate
  split
  · exact atomic_of_error _ _
  · split
    · rename_i graph err hg
      have hgraph : graph = log.delegationGraph := by
        unfold DelegationGraph.applyDelegate at hg
        split_ifs at hg <;> simp_all
      rw [hgraph]
      exact atomic_of_error _ _
    · exact atomic_of_ok _ _ _

theorem applyUndelegate_atomic : Atomic log (log.applyUndelegate cx event pid) := by
  unfold applyUndelegate
  split
  · exact atomic_of_error _ _
  · exact atomic_of_ok _ _ _

theorem applyTier3_atomic : Atomic log (log.applyTier3 cx cv event pid) := by
  unfold applyTier3
  split
  · exact atomic_of_error _ _
  · rename_i p hp
    split
    · rename_i t3 hstate
      split
      · exact atomic_of_ok _ _ _
      · rename_i p' err herr
        obtain rfl := applyTier3To_of_error hstate herr
        rw [insert_self_polls hp]
        exact atomic_of_error _ _
    · exact atomic_of_error _ _

theorem applyLifecycle_atomic :
    Atomic log (log.applyLifecycle cx event communityId snapshot pid) := by
  unfold applyLifecycle
  repeat' split
  all_goals first
    | exact atomic_of_error _ _
    | exact atomic_of_ok _ _ _

theorem applyWithSnapshot_atomic :
    Atomic log (log.applyWithSnapshot cx cv event communityId snapshot) := by
  unfold applyWithSnapshot
  split
  · exact atomic_of_error _ _
  · split_ifs
    · exact applySignal_atomic
    · exact applyDelegate_atomic
    · exact applyUndelegate_atomic
    · exact applyTier3_atomic
    · exact applyLifecycle_atomic

/-! ### Every log a run reaches is well tiered -/

theorem nextLifecycle_ne_draft {l next : Lifecycle} {kind : PollEventKindCode} {tier : Tier}
    (h : nextLifecycle l kind tier = .ok next) : next ≠ .draft := by
  unfold nextLifecycle at h
  split at h <;> cases h <;> simp

theorem syncLifecycleFromStage_wellTiered {p : PollState} (h : p.WellTiered) :
    p.syncLifecycleFromStage.WellTiered := by
  unfold PollState.syncLifecycleFromStage
  split
  · split
    · exact ⟨h.tier, nofun⟩
    · exact ⟨h.tier, nofun⟩
    · exact h
  · exact h

theorem rebuild_wellTiered {p : PollState} (h : p.WellTiered) :
    (p.rebuild cx cv).WellTiered := by
  unfold PollState.rebuild
  split
  · rename_i t3 hstate
    apply syncLifecycleFromStage_wellTiered
    exact ⟨by rw [← h.tier, hstate]; rfl, h.created⟩
  · exact syncLifecycleFromStage_wellTiered h

theorem applyTier3To_wellTiered {p p' : PollState} {t3 : Tier3PollState}
    (hstate : p.tierState = .tier3 t3) (h : p.WellTiered)
    (happly : applyTier3To cx cv p t3 event = (p', .ok ())) : p'.WellTiered := by
  have hstep : ∀ u, PollState.WellTiered { p with tierState := .tier3 u } := fun u =>
    ⟨by rw [← h.tier, hstate]; rfl, h.created⟩
  have hpush : ∀ q : PollState, q.WellTiered → (q.push event).WellTiered := fun q hq =>
    ⟨hq.tier, hq.created⟩
  unfold applyTier3To at happly
  split at happly
  · dsimp only at happly
    split_ifs at happly
    · rw [← (Prod.mk.inj happly).1]
      exact rebuild_wellTiered (hpush _ (syncLifecycleFromStage_wellTiered (hstep _)))
    · rw [← (Prod.mk.inj happly).1]
      exact hpush _ (syncLifecycleFromStage_wellTiered (hstep _))
  · dsimp only at happly
    split_ifs at happly
    · rw [← (Prod.mk.inj happly).1]
      exact rebuild_wellTiered (hpush _ (hstep _))
    · simp at happly

theorem createPoll_wellTiered {p : PollState}
    (h : log.createPoll cx event communityId snapshot pid .open = .ok p) : p.WellTiered := by
  have hlife : p.meta.lifecycle ≠ .draft := by
    rw [(createPoll_of_ok h).2]
    exact nofun
  refine ⟨?_, hlife⟩
  unfold createPoll at h
  split at h
  · rename_i ht
    simp only [createTier1, bind_eq_ok] at h
    obtain ⟨cfg, -, h⟩ := h
    split_ifs at h
    rw [← pure_eq_ok.mp h]
    exact ht.symm
  · rename_i ht
    simp only [createTier2, bind_eq_ok] at h
    obtain ⟨cfg, -, h⟩ := h
    split_ifs at h
    rw [← pure_eq_ok.mp h]
    exact ht.symm
  · rename_i ht
    simp only [createTier3, bind_eq_ok] at h
    obtain ⟨cfg, -, h⟩ := h
    split_ifs at h
    obtain ⟨_, -, h⟩ := bind_eq_ok.mp h
    split at h
    · simp at h
    · rw [← pure_eq_ok.mp h]
      exact ht.symm

theorem PollUpdate.wellTiered {old : Option PollState} {p : PollState}
    (h : PollUpdate cx cv log event old p) (hold : ∀ q ∈ old, q.WellTiered) : p.WellTiered := by
  cases h with
  | @signal p t2 payload hk ht hdecode hlife hstate =>
    have hp := hold p rfl
    have htier : Tier.conviction = p.meta.tier := by rw [← hp.tier, hstate]; rfl
    exact ⟨htier, hp.created⟩
  | tier3 _ _ hstate happly => exact applyTier3To_wellTiered hstate (hold _ rfl) happly
  | @lifecycle p next hnext =>
    have hp := hold p rfl
    exact ⟨hp.tier, nextLifecycle_ne_draft hnext⟩
  | create _ hcreate => exact createPoll_wellTiered hcreate

theorem applyWithSnapshot_wellTiered (h : log.WellTiered) :
    (log.applyWithSnapshot cx cv event communityId snapshot).1.WellTiered := by
  have heffect : ApplyEffect cx cv communityId log event
      (log.applyWithSnapshot cx cv event communityId snapshot).1 :=
    applyWithSnapshot_effect event snapshot
  generalize (log.applyWithSnapshot cx cv event communityId snapshot).1 = log' at heffect
  cases heffect with
  | rejected => exact h
  | delegation graph hk => exact h
  | recorded pid' q howner hupdate =>
    intro pid p hp
    simp only [record, BTreeMap.get_insert] at hp
    split_ifs at hp with hpid
    · obtain rfl := Option.some.inj hp
      exact hupdate.wellTiered (h pid')
    · exact h pid p hp

end VotingLog

variable {cx : Codec} {cv : Curve} {communityId : SpaceId} {ctx : TickContext}

theorem mapPolls_wellTiered {node : VotingNode} {f : PollId → PollState → PollState}
    (h : node.log.WellTiered) (hf : ∀ pid p, PollState.WellTiered p → (f pid p).WellTiered) :
    (node.mapPolls f).log.WellTiered := by
  intro pid p' hp'
  obtain ⟨p, hp, rfl⟩ := getElem?_mapPolls hp'
  exact hf pid p (h pid p hp)

theorem pass_wellTiered {node : VotingNode} {nowMs : ℤ} (pass : TickPass)
    (h : node.log.WellTiered) : (node.pass cx ctx nowMs pass).log.WellTiered := by
  cases pass with
  | closeExpired =>
    refine mapPolls_wellTiered h fun pid p hp => ?_
    unfold PollState.closeExpired
    split_ifs
    · exact ⟨hp.tier, nofun⟩
    · exact hp
  | detectThreshold =>
    refine mapPolls_wellTiered h fun pid p hp => ?_
    unfold PollState.detectThreshold
    split_ifs
    · exact hp
    · split
      · rename_i t2 hstate
        have htier : Tier.conviction = p.meta.tier := by rw [← hp.tier, hstate]; rfl
        dsimp only
        split_ifs
        · exact ⟨htier, nofun⟩
        · exact ⟨htier, nofun⟩
        · exact hp
      · exact hp
  | collectUncontested => exact h
  | finalize =>
    refine mapPolls_wellTiered h fun pid p hp => ?_
    unfold PollState.finalizeUncontested
    split_ifs
    · exact ⟨hp.tier, nofun⟩
    · exact hp
    · exact hp
  | archiveSweep =>
    unfold VotingNode.pass
    dsimp only
    split_ifs
    · intro pid p' hp'
      dsimp only at hp'
      rw [VotingLog.archive_polls] at hp'
      obtain ⟨p, hp, rfl⟩ := Option.map_eq_some_iff.mp hp'
      split_ifs
      · exact ⟨(h pid p hp).tier, nofun⟩
      · exact h pid p hp
    · exact h
    · exact h

theorem run_wellTiered (steps : List VotingStep) :
    (VotingNode.run cx cv communityId ctx steps).log.WellTiered := by
  induction steps using List.reverseRecOn with
  | nil =>
    intro pid p hp
    simp [VotingNode.run] at hp
  | append_singleton steps s ih =>
    rw [run_snoc]
    cases s with
    | apply event snapshot => exact VotingLog.applyWithSnapshot_wellTiered ih
    | pass pass nowMs => exact pass_wellTiered pass ih

/-! ### Events for a poll of another tier -/

namespace VotingLog

variable {log : VotingLog} {event : SignedVotingEvent} {pid : PollId}
  {snapshot : Option MembershipSnapshot} {p : PollState}

theorem pollIdOf_of_pollOf (h : pollOf cx communityId event = some pid) :
    pollIdOf cx communityId event = .ok pid ∧ event.kind ≠ .delegate ∧
      event.kind ≠ .undelegate := by
  unfold pollOf at h
  split_ifs at h with hk
  rw [not_or] at hk
  refine ⟨?_, hk⟩
  cases hid : pollIdOf cx communityId event with
  | error err => simp [hid, Except.toOption] at h
  | ok pid' => simpa [hid, Except.toOption] using h

theorem applySignal_foreign (hp : log.polls[pid]? = some p) (hw : p.WellTiered)
    (ht : p.meta.tier ≠ .conviction) : ∃ err, (log.applySignal cx event pid).2 = .error err := by
  unfold applySignal
  rw [hp]
  split
  · exact ⟨_, rfl⟩
  · dsimp only
    split_ifs
    · split
      · rename_i t2 hstate
        exact absurd (by rw [← hw.tier, hstate]; rfl) ht
      · exact ⟨_, rfl⟩
    · exact ⟨_, rfl⟩

theorem applyTier3_foreign (hp : log.polls[pid]? = some p) (hw : p.WellTiered)
    (ht : p.meta.tier ≠ .sortition) : ∃ err, (log.applyTier3 cx cv event pid).2 = .error err := by
  unfold applyTier3
  rw [hp]
  dsimp only
  split
  · rename_i t3 hstate
    exact absurd (by rw [← hw.tier, hstate]; rfl) ht
  · exact ⟨_, rfl⟩

theorem nextLifecycle_create {l : Lifecycle} {tier : Tier} (h : l ≠ .draft) :
    nextLifecycle l .pollCreate tier = .error ⟨l, .pollCreate⟩ := by
  cases l <;> first | rfl | exact absurd rfl h

theorem applyLifecycle_error_iff (hp : log.polls[pid]? = some p) :
    (∃ err, (log.applyLifecycle cx event communityId snapshot pid).2 = .error err) ↔
      ∃ err, nextLifecycle p.meta.lifecycle event.kind event.tier = .error err := by
  unfold applyLifecycle
  rw [hp]
  dsimp only
  cases nextLifecycle p.meta.lifecycle event.kind event.tier with
  | error err => exact ⟨fun _ => ⟨err, rfl⟩, fun _ => ⟨_, rfl⟩⟩
  | ok next => simp

theorem foreign_error_iff (hid : pollOf cx communityId event = some pid)
    (hp : log.polls[pid]? = some p) (hw : p.WellTiered) (ht : p.meta.tier ≠ event.tier) :
    (∃ err, (log.applyWithSnapshot cx cv event communityId snapshot).2 = .error err) ↔
      Refused p event := by
  obtain ⟨hid, hd, hu⟩ := pollIdOf_of_pollOf hid
  unfold applyWithSnapshot
  rw [hid]
  dsimp only
  by_cases hsignal : event.kind = .signal ∧ event.tier = .conviction
  · rw [if_pos hsignal]
    exact ⟨fun _ => .inl hsignal, fun _ => applySignal_foreign hp hw (hsignal.2 ▸ ht)⟩
  · rw [if_neg hsignal, if_neg fun h => hd h.1, if_neg fun h => hu h.1]
    by_cases hsort : event.tier = .sortition
    · refine ⟨fun _ => .inr (.inl hsort), fun _ => ?_⟩
      split_ifs with htier3
      · exact applyTier3_foreign hp hw (hsort ▸ ht)
      · have hk : event.kind = .pollCreate := not_not.mp fun hk => htier3 ⟨hsort, hk⟩
        rw [applyLifecycle_error_iff hp, hk, nextLifecycle_create hw.created]
        exact ⟨_, rfl⟩
    · rw [if_neg fun h => hsort h.1, applyLifecycle_error_iff hp]
      simp [Refused, hsignal, hsort]

/-- In a well-tiered log a call keeps to its own tier exactly if its event, whenever it names a
poll of another one, is refused. -/
theorem WellTiered.ownTierOnly (h : log.WellTiered) (event : SignedVotingEvent)
    (snapshot : Option MembershipSnapshot) :
    log.OwnTierOnly cx cv communityId event snapshot ↔
      ∀ pid (p : PollState), pollOf cx communityId event = some pid → log.polls[pid]? = some p →
        p.meta.tier ≠ event.tier → Refused p event := by
  constructor
  · intro hown pid p hid hp ht
    exact (foreign_error_iff hid hp (h pid p hp) ht).mp (hown.foreign pid p hid hp ht)
  · intro hrefused
    refine ⟨applyWithSnapshot_atomic, fun pid p hid hp ht => ?_⟩
    exact (foreign_error_iff hid hp (h pid p hp) ht).mpr (hrefused pid p hid hp ht)

end VotingLog

/-- In every log a node reaches, a rejected call changes nothing; and a call keeps to its
own tier exactly if, whenever its event names a poll of another tier, the event is a Signal
of Tier 2, an event of Tier 3 or refused by the lifecycle table. -/
theorem ownTierOnly_iff (cx : Codec) (cv : Curve) (communityId : SpaceId) (ctx : TickContext)
    (steps : List VotingStep) (event : SignedVotingEvent) (snapshot : Option MembershipSnapshot) :
    (VotingNode.run cx cv communityId ctx steps).log.OwnTierOnly cx cv communityId event snapshot ↔
      ∀ pid (p : PollState), VotingLog.pollOf cx communityId event = some pid →
        (VotingNode.run cx cv communityId ctx steps).log.polls[pid]? = some p →
        p.meta.tier ≠ event.tier → VotingLog.Refused p event :=
  VotingLog.WellTiered.ownTierOnly (run_wellTiered steps) event snapshot

/-- A Tier-1 PollClose closes the conviction poll it names. -/
theorem foreign_close_accepted :
    ¬(VotingNode.run Sample.convictionCodec Sample.onePointCurve 7 dayContext
      [.apply Sample.convictionCreate none]).log.OwnTierOnly Sample.convictionCodec
        Sample.onePointCurve 7
        (Sample.event .approval .pollClose 2 "a" 1 (Sample.refPayload Sample.convictionPoll)) none := by
  intro h
  have hpoll : (samplePoll [.apply Sample.convictionCreate none]).map (·.meta.tier) =
      some .conviction := by decide +kernel
  obtain ⟨p, hp, htier⟩ := Option.map_eq_some_iff.mp hpoll
  obtain ⟨err, herr⟩ := h.foreign Sample.convictionPoll p (by decide +kernel) hp (by simp [htier, Sample.event])
  have hok : ((VotingNode.run Sample.convictionCodec Sample.onePointCurve 7 dayContext
      [.apply Sample.convictionCreate none]).log.applyWithSnapshot Sample.convictionCodec
        Sample.onePointCurve
        (Sample.event .approval .pollClose 2 "a" 1 (Sample.refPayload Sample.convictionPoll)) 7
        none).2 = .ok Sample.convictionPoll := by decide +kernel
  cases hok.symm.trans herr

end Harmony.Voting
