import Harmony.Lib.Trace
import Harmony.Voting.Tiers

/-! `voting.cbor` and the restore at boot. The file holds the recorded events and, for each
poll, the state that no event sets; a boot applies the events to an empty log and puts that
state over the polls. The polls themselves are not in the file. -/

namespace Harmony.Voting

open Harmony.Lib
open Harmony.Membership (OwnerAddr SpaceId Hlc)

/-- What applying the events again does not bring back. -/
structure PollRestore where
  «meta» : PollMeta
  tier2Timing : Option (Option ℤ × Option ℤ)
  tier3CommunityEpoch : Option ℕ
  voided : Option VoidedInfo

structure PersistedVotingLog where
  events : List SignedVotingEvent
  pollRestore : BTreeMap PollId PollRestore
  retiredEpochWatermark : Option VoidedInfo

def TierState.asTier3 : TierState → Option Tier3PollState
  | .tier3 t3 => some t3
  | _ => none

namespace PollState

def toRestore (p : PollState) : PollRestore where
  «meta» := p.meta
  tier2Timing := match p.tierState with
    | .tier2 t2 => some (t2.thresholdReachedAtMs, t2.lastUnsignalAfterThresholdMs)
    | _ => none
  tier3CommunityEpoch := p.tierState.asTier3.map (·.meta.communityEpoch)
  voided := p.tierState.asTier3.bind (·.voided)

def setTier3PollEpoch (p : PollState) (epoch : ℕ) : PollState :=
  match p.tierState with
  | .tier3 t3 =>
    { p with tierState := .tier3 { t3 with «meta» := { t3.meta with communityEpoch := epoch } } }
  | _ => p

def setTier2Timing (p : PollState) (timing : Option ℤ × Option ℤ) : PollState :=
  match p.tierState with
  | .tier2 t2 =>
    { p with tierState := .tier2 { t2 with
        thresholdReachedAtMs := timing.1
        lastUnsignalAfterThresholdMs := timing.2 } }
  | _ => p

/-- Also to `none`, which takes back what the watermark did to a poll of the replay. -/
def setVoided (p : PollState) (voided : Option VoidedInfo) : PollState :=
  match p.tierState with
  | .tier3 t3 => { p with tierState := .tier3 { t3 with voided := voided } }
  | _ => p

def overlay (p : PollState) (r : PollRestore) : PollState :=
  let p := { p with «meta» := r.meta }
  let p := r.tier2Timing.elim p p.setTier2Timing
  let p := r.tier3CommunityEpoch.elim p p.setTier3PollEpoch
  p.setVoided r.voided

end PollState

def snapshotForPersist (log : VotingLog) : PersistedVotingLog where
  events := log.events
  pollRestore := log.polls.map fun _ p => p.toRestore
  retiredEpochWatermark := log.retiredEpochWatermark

section

variable (cx : Codec) (cv : Curve) (communityId : SpaceId)
  (snapshotAt : Hlc → Option MembershipSnapshot)

/-- The events applied to an empty log, each with the membership of its own time; a refused
one is skipped. -/
def replayLog (watermark : Option VoidedInfo) (events : List SignedVotingEvent) : VotingLog :=
  events.foldl (fun log e => (log.applyWithSnapshot cx cv e communityId (snapshotAt e.hlc)).1)
    { retiredEpochWatermark := watermark }

def reconcileVotingFromState (rec : PersistedVotingLog) : VotingLog :=
  if rec.events.isEmpty then { retiredEpochWatermark := rec.retiredEpochWatermark }
  else
    let log := replayLog cx cv communityId snapshotAt rec.retiredEpochWatermark rec.events
    { log with polls := log.polls.map fun pid p => rec.pollRestore[pid]?.elim p p.overlay }

end

/-! ### The log of a replay beside the live one -/

/-- The lifecycle a poll of the first two tiers has from its events alone. -/
def eventLifecycle (events : List SignedVotingEvent) : Lifecycle :=
  if events.any (·.kind = .pollResult) then .finalized
  else if events.any (·.kind = .pollClose) then .closed
  else .open

/-- The same but for the stamps of the tick. -/
inductive SameTier : TierState → TierState → Prop
  | tier1 (tally : Tier1TallyState) : SameTier (.tier1 tally) (.tier1 tally)
  | tier2 {t u : Tier2ProposalState} (hconfig : u.config = t.config)
      (hsupply : u.totalSupply = t.totalSupply) (hvoters : u.perVoter = t.perVoter) :
      SameTier (.tier2 t) (.tier2 u)
  | tier3 (t3 : Tier3PollState) : SameTier (.tier3 t3) (.tier3 t3)

theorem SameTier.refl : ∀ t : TierState, SameTier t t
  | .tier1 tally => .tier1 tally
  | .tier2 _ => .tier2 rfl rfl rfl
  | .tier3 t3 => .tier3 t3

/-- The poll `q` of a replay beside the live poll `p`: the lifecycle may lag behind the tick. -/
structure Mirrors (p q : PollState) : Prop where
  events : q.events = p.events
  tier1Cfg : q.tier1Cfg = p.tier1Cfg
  tier1Snapshot : q.tier1Snapshot = p.tier1Snapshot
  tierState : SameTier p.tierState q.tierState
  sortition : p.meta.tier = .sortition → q.meta.lifecycle = p.meta.lifecycle
  lifecycle : p.meta.tier ≠ .sortition → q.meta.lifecycle = eventLifecycle p.events
  lag : p.meta.tier ≠ .sortition → p.meta.lifecycle = eventLifecycle p.events ∨
    eventLifecycle p.events = .open

/-- A replay has seen what the live log has. -/
structure MirrorsLog (log rep : VotingLog) : Prop where
  events : rep.events = log.events
  delegationGraph : rep.delegationGraph = log.delegationGraph
  watermark : log.retiredEpochWatermark = none
  watermark' : rep.retiredEpochWatermark = none
  polls : ∀ pid : PollId, Option.Rel Mirrors log.polls[pid]? rep.polls[pid]?

section Mirrors

variable {cx : Codec} {cv : Curve} {communityId : SpaceId} {log rep : VotingLog}
  {event : SignedVotingEvent} {pid : PollId} {p q : PollState}

theorem eventLifecycle_concat {events : List SignedVotingEvent} (hc : event.kind ≠ .pollClose)
    (hr : event.kind ≠ .pollResult) : eventLifecycle (events ++ [event]) = eventLifecycle events := by
  simp [eventLifecycle, hc, hr]

theorem eventLifecycle_close {events : List SignedVotingEvent} (h : eventLifecycle events = .open)
    (hk : event.kind = .pollClose) : eventLifecycle (events ++ [event]) = .closed := by
  unfold eventLifecycle at h
  split_ifs at h with hr hc
  simp_all [eventLifecycle]

theorem eventLifecycle_result {events : List SignedVotingEvent} (hk : event.kind = .pollResult) :
    eventLifecycle (events ++ [event]) = .finalized := by
  simp [eventLifecycle, hk]

theorem Mirrors.open_of_running (h : Mirrors p q) (ht : p.meta.tier ≠ .sortition)
    (hl : p.meta.lifecycle = .open ∨ p.meta.lifecycle = .thresholdReached) :
    eventLifecycle p.events = .open := by
  rcases h.lag ht with heq | hopen
  · rcases hl with hl | hl
    · rw [← heq, hl]
    · rw [hl] at heq
      unfold eventLifecycle at heq
      split_ifs at heq
  · exact hopen

theorem MirrorsLog.record {p' q' : PollState} (h : MirrorsLog log rep) (hp : Mirrors p' q') :
    MirrorsLog (log.record pid p' event) (rep.record pid q' event) where
  events := by simp [VotingLog.record, h.events]
  delegationGraph := h.delegationGraph
  watermark := h.watermark
  watermark' := h.watermark'
  polls k := by
    simp only [VotingLog.record, BTreeMap.get_insert]
    split_ifs
    · exact .some hp
    · exact h.polls k

theorem MirrorsLog.get_some (h : MirrorsLog log rep) (hp : log.polls[pid]? = some p) :
    ∃ q, rep.polls[pid]? = some q ∧ Mirrors p q := by
  have hpoll := h.polls pid
  rw [hp] at hpoll
  generalize rep.polls[pid]? = o at hpoll
  cases hpoll with
  | some hpq => exact ⟨_, rfl, hpq⟩

theorem MirrorsLog.get_none (h : MirrorsLog log rep) (hp : log.polls[pid]? = none) :
    rep.polls[pid]? = none := by
  have hpoll := h.polls pid
  rw [hp] at hpoll
  generalize rep.polls[pid]? = o at hpoll
  cases hpoll
  rfl

/-- An accepted call on the live log and the same call on the replay. -/
def Follows (event : SignedVotingEvent) (log : VotingLog) (r r' : VotingLog × Except ApplyError PollId) :
    Prop :=
  ∀ pid, r.2 = .ok pid → r.1.events = log.events ++ [event] ∧ MirrorsLog r.1 r'.1

theorem follows_of_error {r' : VotingLog × Except ApplyError PollId} {err : ApplyError} :
    Follows event log (log, .error err) r' := by
  intro pid hok
  cases hok

theorem SameTier.tier2_inv {t : Tier2ProposalState} {b : TierState} (h : SameTier (.tier2 t) b) :
    ∃ u, b = .tier2 u ∧ u.config = t.config ∧ u.totalSupply = t.totalSupply ∧
      u.perVoter = t.perVoter := by
  cases h with
  | tier2 hconfig hsupply hvoters => exact ⟨_, rfl, hconfig, hsupply, hvoters⟩

theorem SameTier.tier3_inv {t : Tier3PollState} {b : TierState} (h : SameTier (.tier3 t) b) :
    b = .tier3 t := by
  cases h
  rfl

theorem SameTier.signal {t u : Tier2ProposalState} (h : SameTier (.tier2 t) (.tier2 u))
    (actor : OwnerAddr) (support : Bool) (wallMs logical : ℕ) (flag flag' : Bool) :
    SameTier (.tier2 (t.signal actor support wallMs logical flag))
      (.tier2 (u.signal actor support wallMs logical flag')) := by
  cases h with
  | tier2 hconfig hsupply hvoters =>
    refine .tier2 hconfig hsupply ?_
    simp only [Tier2ProposalState.signal, Tier2ProposalState.halfLifeMs, hconfig, hvoters]

/-! ### Calls -/

theorem applySignal_follows (h : MirrorsLog log rep) (hw : log.WellTiered)
    (hk : event.kind = .signal) :
    Follows event log (log.applySignal cx event pid) (rep.applySignal cx event pid) := by
  cases hdec : cx.signal event.payload with
  | error err => simp only [VotingLog.applySignal, hdec, follows_of_error]
  | ok payload =>
    cases hp : log.polls[pid]? with
    | none => simp only [VotingLog.applySignal, hdec, hp, follows_of_error]
    | some p =>
      obtain ⟨q, hq, hpq⟩ := h.get_some hp
      by_cases hl : p.meta.lifecycle = .open ∨ p.meta.lifecycle = .thresholdReached
      swap
      · simp only [VotingLog.applySignal, hdec, hp, hl, not_false_eq_true, if_true, follows_of_error]
      have hrest := hpq.tierState
      cases hstate : p.tierState with
      | tier1 tally =>
        simp only [VotingLog.applySignal, hdec, hp, hl, not_true_eq_false, if_false, hstate,
          follows_of_error]
      | tier3 t3 =>
        simp only [VotingLog.applySignal, hdec, hp, hl, not_true_eq_false, if_false, hstate,
          follows_of_error]
      | tier2 t2 =>
        have ht : p.meta.tier ≠ .sortition := by
          simp [← (hw pid p hp).tier, hstate, TierState.tier]
        have hopen : eventLifecycle p.events = .open := hpq.open_of_running ht hl
        have hql : q.meta.lifecycle = .open := (hpq.lifecycle ht).trans hopen
        rw [hstate] at hrest
        obtain ⟨u, hu, -⟩ := hrest.tier2_inv
        rw [hu] at hrest
        intro pid' _
        simp only [VotingLog.applySignal, hdec, hp, hl, hq, hql, hstate, hu, not_true_eq_false,
          if_false, true_or]
        refine ⟨rfl, h.record ⟨by simp [hpq.events], hpq.tier1Cfg, hpq.tier1Snapshot,
          hrest.signal .., fun hs => absurd hs ht, fun _ => ?_, fun _ => ?_⟩⟩
        · simp only [PollState.push_events]
          rw [eventLifecycle_concat (by simp [hk]) (by simp [hk])]
          exact hpq.lifecycle ht
        · simp only [PollState.push_events]
          rw [eventLifecycle_concat (by simp [hk]) (by simp [hk])]
          exact .inr hopen

theorem MirrorsLog.delegation (h : MirrorsLog log rep) (graph : DelegationGraph) :
    MirrorsLog { log with delegationGraph := graph, events := log.events ++ [event] }
      { rep with delegationGraph := graph, events := rep.events ++ [event] } where
  events := by rw [h.events]
  delegationGraph := rfl
  watermark := h.watermark
  watermark' := h.watermark'
  polls := h.polls

theorem applyDelegate_follows (h : MirrorsLog log rep) :
    Follows event log (log.applyDelegate cx event pid) (rep.applyDelegate cx event pid) := by
  intro pid' hok
  unfold VotingLog.applyDelegate at hok ⊢
  rw [h.delegationGraph]
  cases hdec : cx.delegate event.payload with
  | error err => simp [hdec] at hok
  | ok payload =>
    simp only [hdec] at hok ⊢
    cases hgraph : log.delegationGraph.applyDelegate event.actor payload.recipient event.ordinal with
    | mk graph result =>
      cases result with
      | error err => simp [hgraph] at hok
      | ok _ => exact ⟨rfl, h.delegation graph⟩

theorem applyUndelegate_follows (h : MirrorsLog log rep) :
    Follows event log (log.applyUndelegate cx event pid) (rep.applyUndelegate cx event pid) := by
  intro pid' hok
  unfold VotingLog.applyUndelegate at hok ⊢
  rw [h.delegationGraph]
  cases hdec : cx.undelegate event.payload with
  | error err => simp [hdec] at hok
  | ok _ => exact ⟨rfl, h.delegation _⟩

theorem Mirrors.of_sortition {p' q' : PollState} (ht : p'.meta.tier = .sortition)
    (hevents : q'.events = p'.events) (hcfg : q'.tier1Cfg = p'.tier1Cfg)
    (hsnap : q'.tier1Snapshot = p'.tier1Snapshot) (hstate : SameTier p'.tierState q'.tierState)
    (hlife : q'.meta.lifecycle = p'.meta.lifecycle) : Mirrors p' q' where
  events := hevents
  tier1Cfg := hcfg
  tier1Snapshot := hsnap
  tierState := hstate
  sortition _ := hlife
  lifecycle hne := absurd ht hne
  lag hne := absurd ht hne

theorem syncLifecycleFromStage_tier (p : PollState) :
    p.syncLifecycleFromStage.meta.tier = p.meta.tier := by
  unfold PollState.syncLifecycleFromStage
  split
  · split <;> rfl
  · rfl

theorem Mirrors.sync (h : Mirrors p q) (ht : p.meta.tier = .sortition) (t3 : Tier3PollState) :
    Mirrors (PollState.syncLifecycleFromStage { p with tierState := .tier3 t3 })
      (PollState.syncLifecycleFromStage { q with tierState := .tier3 t3 }) := by
  refine .of_sortition ((syncLifecycleFromStage_tier _).trans ht) ?_ ?_ ?_ ?_ ?_ <;>
    unfold PollState.syncLifecycleFromStage <;> dsimp only
  · split <;> exact h.events
  · split <;> exact h.tier1Cfg
  · split <;> exact h.tier1Snapshot
  · split <;> exact .tier3 t3
  · split
    · rfl
    · rfl
    · exact h.sortition ht

theorem Mirrors.push_sortition (h : Mirrors p q) (ht : p.meta.tier = .sortition) :
    Mirrors (p.push event) (q.push event) :=
  .of_sortition ht (by simp [h.events]) h.tier1Cfg h.tier1Snapshot h.tierState (h.sortition ht)

theorem Mirrors.rebuild {t3 : Tier3PollState} (h : Mirrors p q) (ht : p.meta.tier = .sortition)
    (hstate : p.tierState = .tier3 t3) : Mirrors (p.rebuild cx cv) (q.rebuild cx cv) := by
  have hq : q.tierState = .tier3 t3 := by
    have hsame := h.tierState
    rw [hstate] at hsame
    exact hsame.tier3_inv
  have hfold : t3.rebuildFromEvents cx cv q.events = t3.rebuildFromEvents cx cv p.events := by
    rw [h.events]
  simp only [PollState.rebuild, hstate, hq, hfold]
  exact h.sync ht _

theorem applyTier3To_follows {p' : PollState} {t3 : Tier3PollState} (h : Mirrors p q)
    (ht : p.meta.tier = .sortition)
    (happly : VotingLog.applyTier3To cx cv p t3 event = (p', .ok ())) :
    ∃ q', VotingLog.applyTier3To cx cv q t3 event = (q', .ok ()) ∧ Mirrors p' q' := by
  have hlate : VotingLog.refoldsBallot q t3 event = VotingLog.refoldsBallot p t3 event := by
    simp only [VotingLog.refoldsBallot, PollState.finalizeKey, h.events]
  unfold VotingLog.applyTier3To at happly ⊢
  rw [hlate]
  cases hstep : t3.applyEvent cx cv event with
  | mk u result =>
    cases result with
    | ok outcome =>
      simp only [hstep] at happly ⊢
      have hsync := @Mirrors.push_sortition event _ _ (h.sync ht u)
        ((syncLifecycleFromStage_tier _).trans ht)
      split_ifs at happly ⊢ with hfold
      · rw [← (Prod.mk.inj happly).1]
        refine ⟨_, rfl, @Mirrors.rebuild _ _ _ _ u hsync ((syncLifecycleFromStage_tier _).trans ht) ?_⟩
        simp only [PollState.push, PollState.syncLifecycleFromStage]
        split <;> rfl
      · rw [← (Prod.mk.inj happly).1]
        exact ⟨_, rfl, hsync⟩
    | error err =>
      simp only [hstep] at happly ⊢
      have hkeep : Mirrors { p with tierState := .tier3 u } { q with tierState := .tier3 u } :=
        .of_sortition ht h.events h.tier1Cfg h.tier1Snapshot (.tier3 u) (h.sortition ht)
      split_ifs at happly ⊢ with hfold
      · rw [← (Prod.mk.inj happly).1]
        exact ⟨_, rfl, @Mirrors.rebuild _ _ _ _ u (hkeep.push_sortition ht) ht rfl⟩
      · simp at happly

theorem applyTier3_follows (h : MirrorsLog log rep) (hw : log.WellTiered) :
    Follows event log (log.applyTier3 cx cv event pid) (rep.applyTier3 cx cv event pid) := by
  intro pid' hok
  unfold VotingLog.applyTier3 at hok ⊢
  cases hp : log.polls[pid]? with
  | none => simp [hp] at hok
  | some p =>
    obtain ⟨q, hq, hpq⟩ := h.get_some hp
    have hrest := hpq.tierState
    cases hstate : p.tierState with
    | tier1 tally => simp [hp, hstate] at hok
    | tier2 t2 => simp [hp, hstate] at hok
    | tier3 t3 =>
      have ht : p.meta.tier = .sortition := by rw [← (hw pid p hp).tier, hstate]; rfl
      rw [hstate] at hrest
      simp only [hp, hstate, hq, hrest.tier3_inv] at hok ⊢
      cases happly : VotingLog.applyTier3To cx cv p t3 event with
      | mk p' result =>
        cases result with
        | error err => simp [happly] at hok
        | ok _ =>
          obtain ⟨q', hq', hmirror⟩ := applyTier3To_follows hpq ht happly
          simp only [hq']
          exact ⟨rfl, h.record hmirror⟩

/-- Closing and finalizing apart, the lifecycle table only keeps open polls open. -/
theorem nextLifecycle_plain {l next : Lifecycle} {kind : PollEventKindCode} {tier : Tier}
    (h : nextLifecycle l kind tier = .ok next) (hcreate : kind ≠ .pollCreate)
    (hclose : kind ≠ .pollClose) (hresult : kind ≠ .pollResult)
    (hsignal : ¬(kind = .signal ∧ tier = .conviction))
    (hdelegate : ¬(kind = .delegate ∧ tier = .conviction))
    (hundelegate : ¬(kind = .undelegate ∧ tier = .conviction)) : l = .open ∧ next = .open := by
  unfold nextLifecycle at h
  split at h <;> simp_all

/-- The table on the lagging side. -/
theorem Mirrors.nextLifecycle {next : Lifecycle} (h : Mirrors p q) (hw : p.WellTiered)
    (hnext : Voting.nextLifecycle p.meta.lifecycle event.kind event.tier = .ok next)
    (hsignal : ¬(event.kind = .signal ∧ event.tier = .conviction))
    (hdelegate : ¬(event.kind = .delegate ∧ event.tier = .conviction))
    (hundelegate : ¬(event.kind = .undelegate ∧ event.tier = .conviction))
    (hresult : event.kind = .pollResult → p.meta.tier ≠ .sortition →
      p.events.any (·.kind = .pollClose) = true) :
    Voting.nextLifecycle q.meta.lifecycle event.kind event.tier = .ok next ∧
      Mirrors ((p.setLifecycle next).push event) ((q.setLifecycle next).push event) := by
  by_cases ht : p.meta.tier = .sortition
  · rw [h.sortition ht]
    exact ⟨hnext, .of_sortition ht (by simp [h.events]) h.tier1Cfg h.tier1Snapshot h.tierState rfl⟩
  have hcreate : event.kind ≠ .pollCreate := by
    intro hk
    rw [hk, VotingLog.nextLifecycle_create hw.created] at hnext
    cases hnext
  -- the pair after the event, from what the event makes of the two lifecycles
  have hpair : Voting.nextLifecycle q.meta.lifecycle event.kind event.tier = .ok next →
      eventLifecycle (p.events ++ [event]) = next →
      Voting.nextLifecycle q.meta.lifecycle event.kind event.tier = .ok next ∧
        Mirrors ((p.setLifecycle next).push event) ((q.setLifecycle next).push event) :=
    fun hq he => ⟨hq, by simp [h.events], h.tier1Cfg, h.tier1Snapshot, h.tierState,
      fun hs => absurd hs ht, fun _ => he.symm, fun _ => .inl he.symm⟩
  have hrunning : p.meta.lifecycle = .open → q.meta.lifecycle = .open ∧
      eventLifecycle p.events = .open := fun hl => by
    have hopen := h.open_of_running ht (.inl hl)
    exact ⟨(h.lifecycle ht).trans hopen, hopen⟩
  by_cases hclose : event.kind = .pollClose
  · have hl : p.meta.lifecycle = .open ∧ next = .closed := by
      rw [hclose] at hnext
      cases hp : p.meta.lifecycle <;> rw [hp] at hnext <;> simp [Voting.nextLifecycle] at hnext
      exact ⟨rfl, hnext.symm⟩
    obtain ⟨hq, hopen⟩ := hrunning hl.1
    rw [hl.2] at hpair ⊢
    exact hpair (by rw [hq, hclose]; rfl) (eventLifecycle_close hopen hclose)
  by_cases hfinal : event.kind = .pollResult
  · have hnotopen : eventLifecycle p.events ≠ .open := by
      have hany := hresult hfinal ht
      unfold eventLifecycle
      split_ifs <;> simp
    have hlive : p.meta.lifecycle = eventLifecycle p.events := (h.lag ht).resolve_right hnotopen
    have hq : q.meta.lifecycle = p.meta.lifecycle := (h.lifecycle ht).trans hlive.symm
    have hfinalized : next = .finalized := by
      rw [hfinal] at hnext
      unfold Voting.nextLifecycle at hnext
      split at hnext <;> simp_all
    rw [hq]
    rw [hq] at hpair
    exact hpair hnext (by rw [hfinalized]; exact eventLifecycle_result hfinal)
  · obtain ⟨hl, rfl⟩ := nextLifecycle_plain hnext hcreate hclose hfinal hsignal hdelegate hundelegate
    obtain ⟨hq, hopen⟩ := hrunning hl
    rw [hl] at hnext
    rw [hq] at hpair ⊢
    exact hpair hnext (by rw [eventLifecycle_concat hclose hfinal, hopen])

theorem checkRetryOf_mirror (h : MirrorsLog log rep) (cfg : Tier3PollConfigPayload) :
    rep.checkRetryOf cfg = log.checkRetryOf cfg := by
  unfold VotingLog.checkRetryOf
  cases cfg.retryOf with
  | none => rfl
  | some prev =>
    cases hp : log.polls[prev]? with
    | none => simp only [hp, h.get_none hp]
    | some p =>
      obtain ⟨q, hq, hpq⟩ := h.get_some hp
      have hrest := hpq.tierState
      simp only [hp, hq]
      cases hstate : p.tierState with
      | tier1 tally =>
        rw [hstate] at hrest
        generalize q.tierState = b at hrest
        cases hrest
        rfl
      | tier2 t2 =>
        rw [hstate] at hrest
        obtain ⟨u, hu, -⟩ := hrest.tier2_inv
        rw [hu]
      | tier3 t3 =>
        rw [hstate] at hrest
        rw [hrest.tier3_inv]

theorem createPoll_mirror {snapshot : Option MembershipSnapshot} (h : MirrorsLog log rep)
    (next : Lifecycle) : rep.createPoll cx event communityId snapshot pid next =
      log.createPoll cx event communityId snapshot pid next := by
  unfold VotingLog.createPoll
  split
  · rfl
  · rfl
  · simp only [VotingLog.createTier3, checkRetryOf_mirror h, h.watermark, h.watermark']

theorem mirrors_created {snapshot : Option MembershipSnapshot} (hk : event.kind = .pollCreate)
    (hcreate : log.createPoll cx event communityId snapshot pid .open = .ok p) : Mirrors p p := by
  obtain ⟨hevents, hlife⟩ := VotingLog.createPoll_of_ok hcreate
  have hopen : eventLifecycle p.events = .open := by simp [hevents, eventLifecycle, hk]
  exact ⟨rfl, rfl, rfl, .refl _, fun _ => rfl, fun _ => hlife.trans hopen.symm, fun _ => .inr hopen⟩

theorem applyLifecycle_follows {snapshot : Option MembershipSnapshot} (h : MirrorsLog log rep)
    (hw : log.WellTiered) (hsignal : ¬(event.kind = .signal ∧ event.tier = .conviction))
    (hdelegate : ¬(event.kind = .delegate ∧ event.tier = .conviction))
    (hundelegate : ¬(event.kind = .undelegate ∧ event.tier = .conviction))
    (hresult : ∀ pid', (log.applyLifecycle cx event communityId snapshot pid).2 = .ok pid' →
      ∀ p, log.polls[pid]? = some p → event.kind = .pollResult → p.meta.tier ≠ .sortition →
        p.events.any (·.kind = .pollClose) = true) :
    Follows event log (log.applyLifecycle cx event communityId snapshot pid)
      (rep.applyLifecycle cx event communityId snapshot pid) := by
  intro pid' hok
  have hclosed := hresult pid' hok
  unfold VotingLog.applyLifecycle at hok ⊢
  cases hp : log.polls[pid]? with
  | some p =>
    obtain ⟨q, hq, hpq⟩ := h.get_some hp
    simp only [hp] at hok
    cases hnext : nextLifecycle p.meta.lifecycle event.kind event.tier with
    | error err => simp [hnext] at hok
    | ok next =>
      obtain ⟨hnext', hmirror⟩ := hpq.nextLifecycle (hw pid p hp) hnext hsignal hdelegate hundelegate
        (hclosed p hp)
      simp only [hq, hnext, hnext']
      exact ⟨rfl, h.record hmirror⟩
  | none =>
    simp only [hp, h.get_none hp] at hok ⊢
    by_cases hk : event.kind = .pollCreate
    · simp only [hk, ne_eq, not_true_eq_false, if_false] at hok ⊢
      cases hcreate : log.createPoll cx event communityId snapshot pid .open with
      | error err => simp [nextLifecycle, hcreate] at hok
      | ok p =>
        simp only [nextLifecycle, hcreate, createPoll_mirror h]
        exact ⟨rfl, h.record (mirrors_created hk hcreate)⟩
    · simp [hk] at hok

theorem applyLifecycle_snapshot {snapshot snapshot' : Option MembershipSnapshot}
    (h : event.kind = .pollCreate → snapshot = snapshot') :
    log.applyLifecycle cx event communityId snapshot pid =
      log.applyLifecycle cx event communityId snapshot' pid := by
  by_cases hk : event.kind = .pollCreate
  · rw [h hk]
  · simp only [VotingLog.applyLifecycle, ne_eq, hk, not_false_eq_true, if_true]

end Mirrors

/-! ### Runs -/

section Runs

variable (cx : Codec) (cv : Curve) (communityId : SpaceId) (ctx : TickContext)
  (snapshotAt : Hlc → Option MembershipSnapshot)

/-- A PollCreate comes with the membership of its time; a PollResult that is accepted for a poll
of the first two tiers comes after a PollClose; the sweep finds nothing to archive. -/
def Restorable (node : VotingNode) : VotingStep → Prop
  | .apply event snapshot =>
    (event.kind = .pollCreate → snapshot = snapshotAt event.hlc) ∧
    ((node.log.applyWithSnapshot cx cv event communityId snapshot).2.isOk = true →
      ∀ pid, VotingLog.pollOf cx communityId event = some pid →
      ∀ p, node.log.polls[pid]? = some p → event.kind = .pollResult → p.meta.tier ≠ .sortition →
        p.events.any (·.kind = .pollClose) = true)
  | .pass .archiveSweep nowMs => node.log.toArchive nowMs.toNat = []
  | .pass _ _ => True

variable {cx cv communityId ctx snapshotAt} {node : VotingNode} {rep : VotingLog}
  {event : SignedVotingEvent} {snapshot : Option MembershipSnapshot}

theorem applyWithSnapshot_follows (h : MirrorsLog node.log rep) (hw : node.log.WellTiered)
    (hr : Restorable cx cv communityId snapshotAt node (.apply event snapshot)) :
    Follows event node.log (node.log.applyWithSnapshot cx cv event communityId snapshot)
      (rep.applyWithSnapshot cx cv event communityId (snapshotAt event.hlc)) := by
  obtain ⟨hsnap, hresult⟩ := hr
  unfold VotingLog.applyWithSnapshot at hresult ⊢
  cases hid : VotingLog.pollIdOf cx communityId event with
  | error err => exact follows_of_error
  | ok pid =>
    simp only [hid] at hresult
    dsimp only
    split_ifs at hresult ⊢ with hsignal hdelegate hundelegate hsort
    · exact applySignal_follows h hw hsignal.1
    · exact applyDelegate_follows h
    · exact applyUndelegate_follows h
    · exact applyTier3_follows h hw
    · rw [← applyLifecycle_snapshot hsnap]
      refine applyLifecycle_follows h hw hsignal hdelegate hundelegate fun pid' hok p hp hk => ?_
      refine hresult (by rw [hok]; rfl) pid ?_ p hp hk
      exact VotingLog.pollOf_eq_some hid (by simp [hk]) (by simp [hk])

theorem MirrorsLog.mapPolls {f : PollId → PollState → PollState} (h : MirrorsLog node.log rep)
    (hf : ∀ pid p q, node.log.polls[pid]? = some p → Mirrors p q → Mirrors (f pid p) q) :
    MirrorsLog (node.mapPolls f).log rep where
  events := h.events
  delegationGraph := h.delegationGraph
  watermark := h.watermark
  watermark' := h.watermark'
  polls pid := by
    rw [VotingNode.mapPolls, Std.ExtTreeMap.getElem?_map]
    cases hp : node.log.polls[pid]? with
    | none =>
      rw [h.get_none hp]
      exact .none
    | some p =>
      obtain ⟨q, hq, hpq⟩ := h.get_some hp
      rw [hq]
      exact .some (hf pid p q hp hpq)

theorem Mirrors.tick {p q : PollState} {l : Lifecycle} (h : Mirrors p q)
    (ht : p.meta.tier ≠ .sortition)
    (hl : p.meta.lifecycle = .open ∨ p.meta.lifecycle = .thresholdReached) :
    Mirrors (p.setLifecycle l) q :=
  ⟨h.events, h.tier1Cfg, h.tier1Snapshot, h.tierState, fun hs => absurd hs ht,
    fun _ => h.lifecycle ht, fun _ => .inr (h.open_of_running ht hl)⟩

theorem Mirrors.stamp {p q : PollState} {t2 : Tier2ProposalState} (h : Mirrors p q)
    (hstate : p.tierState = .tier2 t2) (reachedAt unsignalAt : Option ℤ) :
    Mirrors { p with tierState := .tier2 { t2 with
      thresholdReachedAtMs := reachedAt
      lastUnsignalAfterThresholdMs := unsignalAt } } q := by
  have hsame := h.tierState
  rw [hstate] at hsame
  obtain ⟨u, hu, hconfig, hsupply, hvoters⟩ := hsame.tier2_inv
  refine ⟨h.events, h.tier1Cfg, h.tier1Snapshot, ?_, h.sortition, h.lifecycle, h.lag⟩
  rw [hu]
  exact .tier2 hconfig hsupply hvoters

theorem Mirrors.detectThreshold {p q : PollState} {nowMs : ℤ} {graph : DelegationGraph}
    (h : Mirrors p q) : Mirrors (p.detectThreshold nowMs graph) q := by
  unfold PollState.detectThreshold
  split_ifs with htier
  · exact h
  have ht : p.meta.tier ≠ .sortition := by
    simp [not_not.mp htier]
  split
  · rename_i t2 hstate
    dsimp only
    split_ifs with hcross hrevert
    · exact (h.stamp hstate _ _).tick ht (.inl hcross.1)
    · exact (h.stamp hstate _ _).tick ht (.inr hrevert.1)
    · exact h
  · exact h

theorem Mirrors.finalizeUncontested {p q : PollState} {windowMs nowMs : ℤ} (h : Mirrors p q)
    (hw : p.WellTiered) : Mirrors (p.finalizeUncontested windowMs nowMs) q := by
  unfold PollState.finalizeUncontested
  split_ifs with hwindow
  swap
  · exact h
  simp only [PollState.uncontested, Bool.and_eq_true, decide_eq_true_eq] at hwindow
  have ht : p.meta.tier ≠ .sortition := by
    obtain ⟨-, hstate⟩ := hwindow
    rw [← hw.tier]
    cases hp : p.tierState <;> simp [hp, TierState.tier] at hstate ⊢
  exact ⟨h.events, h.tier1Cfg, h.tier1Snapshot, h.tierState, fun hs => absurd hs ht,
    fun _ => h.lifecycle ht, fun _ => .inr (h.open_of_running ht (.inr hwindow.1))⟩

theorem pass_mirrors {pass : TickPass} {nowMs : ℤ} (h : MirrorsLog node.log rep)
    (hw : node.log.WellTiered)
    (hr : Restorable cx cv communityId snapshotAt node (.pass pass nowMs)) :
    MirrorsLog (node.pass cx ctx nowMs pass).log rep ∧
      (node.pass cx ctx nowMs pass).log.events = node.log.events := by
  cases pass with
  | closeExpired =>
    refine ⟨h.mapPolls fun pid p q hp hpq => ?_, rfl⟩
    unfold PollState.closeExpired
    split_ifs with hdue
    · exact hpq.tick (by simp [hdue.1]) (.inl hdue.2.1)
    · exact hpq
  | detectThreshold => exact ⟨h.mapPolls fun _ _ _ _ hpq => hpq.detectThreshold, rfl⟩
  | collectUncontested => exact ⟨h, rfl⟩
  | finalize =>
    refine ⟨h.mapPolls fun pid p q hp hpq => ?_, rfl⟩
    split_ifs
    · exact hpq.finalizeUncontested (hw pid p hp)
    · exact hpq
  | archiveSweep =>
    have hnone : node.log.archiveFinalizedPolls cx nowMs.toNat = (node.log, []) := by
      rw [VotingLog.archiveFinalizedPolls]
      simp only [Restorable] at hr
      simp [hr]
    simp only [VotingNode.pass, hnone, ite_self]
    split_ifs <;> exact ⟨h, rfl⟩

theorem replayLog_concat (watermark : Option VoidedInfo) (events : List SignedVotingEvent)
    (event : SignedVotingEvent) :
    replayLog cx cv communityId snapshotAt watermark (events ++ [event]) =
      ((replayLog cx cv communityId snapshotAt watermark events).applyWithSnapshot cx cv event
        communityId (snapshotAt event.hlc)).1 := by
  simp [replayLog]

theorem run_mirrors (steps : List VotingStep)
    (h : ∀ ns ∈ trace (VotingNode.step cx cv communityId ctx) {} steps,
      Restorable cx cv communityId snapshotAt ns.1 ns.2) :
    MirrorsLog (VotingNode.run cx cv communityId ctx steps).log
      (replayLog cx cv communityId snapshotAt none
        (VotingNode.run cx cv communityId ctx steps).log.events) := by
  induction steps using List.reverseRecOn with
  | nil => exact ⟨rfl, rfl, rfl, rfl, fun pid => by simp [VotingNode.run, replayLog]⟩
  | append_singleton steps s ih =>
    simp only [trace_snoc, List.forall_mem_append, List.forall_mem_singleton] at h
    obtain ⟨hsteps, hs⟩ := h
    have hmirror := ih hsteps
    have hw : (VotingNode.run cx cv communityId ctx steps).log.WellTiered := run_wellTiered steps
    rw [run_snoc]
    change Restorable cx cv communityId snapshotAt (VotingNode.run cx cv communityId ctx steps) s at hs
    cases s with
    | pass pass nowMs =>
      obtain ⟨hlog, hevents⟩ := @pass_mirrors cx cv communityId ctx snapshotAt _ _ pass nowMs hmirror
        hw hs
      simp only [VotingNode.step, hevents]
      exact hlog
    | apply event snapshot =>
      have hfollows := applyWithSnapshot_follows hmirror hw hs
      simp only [VotingNode.step]
      cases hcall : ((VotingNode.run cx cv communityId ctx steps).log.applyWithSnapshot cx cv event
          communityId snapshot).2 with
      | error err =>
        rw [VotingLog.applyWithSnapshot_atomic err hcall]
        exact hmirror
      | ok pid =>
        obtain ⟨hevents, hlog⟩ := hfollows pid hcall
        rw [hevents, replayLog_concat]
        exact hlog

/-! ### The restored log -/

theorem Mirrors.overlay {p q : PollState} (h : Mirrors p q) : q.overlay p.toRestore = p := by
  obtain ⟨pmeta, pevents, pstate, pcfg, psnap⟩ := p
  obtain ⟨qmeta, qevents, qstate, qcfg, qsnap⟩ := q
  obtain ⟨rfl, rfl, rfl, hstate, -, -, -⟩ := h
  dsimp only at hstate
  cases hstate with
  | tier1 tally => rfl
  | tier2 hconfig hsupply hvoters =>
    rename_i t u
    obtain ⟨tconfig, tsupply, tvoters, treached, tunsignal⟩ := t
    obtain ⟨uconfig, usupply, uvoters, ureached, uunsignal⟩ := u
    obtain rfl : uconfig = tconfig := hconfig
    obtain rfl : usupply = tsupply := hsupply
    obtain rfl : uvoters = tvoters := hvoters
    rfl
  | tier3 t3 => rfl

theorem reconcile_eq (rec : PersistedVotingLog) :
    reconcileVotingFromState cx cv communityId snapshotAt rec =
      let log := replayLog cx cv communityId snapshotAt rec.retiredEpochWatermark rec.events
      { log with polls := log.polls.map fun pid p => rec.pollRestore[pid]?.elim p p.overlay } := by
  unfold reconcileVotingFromState
  split_ifs with hnone
  · have hempty : (∅ : BTreeMap PollId PollState).map
        (fun pid p => rec.pollRestore[pid]?.elim p p.overlay) = ∅ :=
      Std.ExtTreeMap.ext_getElem? fun pid => by simp
    simp [replayLog, List.isEmpty_iff.mp hnone, hempty]
  · rfl

theorem MirrorsLog.reconcile {log : VotingLog}
    (h : MirrorsLog log (replayLog cx cv communityId snapshotAt none log.events)) :
    reconcileVotingFromState cx cv communityId snapshotAt (snapshotForPersist log) = log := by
  rw [reconcile_eq]
  simp only [snapshotForPersist, h.watermark]
  set rep : VotingLog := replayLog cx cv communityId snapshotAt none log.events with hrep
  have hpolls : rep.polls.map (fun pid p =>
      (log.polls.map fun _ p => p.toRestore)[pid]?.elim p p.overlay) = log.polls := by
    refine Std.ExtTreeMap.ext_getElem? fun pid => ?_
    rw [Std.ExtTreeMap.getElem?_map, Std.ExtTreeMap.getElem?_map]
    cases hp : log.polls[pid]? with
    | none =>
      rw [h.get_none hp]
      rfl
    | some p =>
      obtain ⟨q, hq, hpq⟩ := h.get_some hp
      rw [hq]
      exact congrArg some hpq.overlay
  rw [hpolls, h.events, h.delegationGraph, h.watermark', ← h.watermark]

/-- A restart restores the whole log a node has written, the marks of the tick included, if
every PollResult of the first two tiers followed a recorded PollClose and nothing was archived. -/
theorem reconcile_snapshot (cx : Codec) (cv : Curve) (communityId : SpaceId) (ctx : TickContext)
    (snapshotAt : Hlc → Option MembershipSnapshot) (steps : List VotingStep)
    (h : ∀ ns ∈ trace (VotingNode.step cx cv communityId ctx) {} steps,
      Restorable cx cv communityId snapshotAt ns.1 ns.2) :
    reconcileVotingFromState cx cv communityId snapshotAt
        (snapshotForPersist (VotingNode.run cx cv communityId ctx steps).log) =
      (VotingNode.run cx cv communityId ctx steps).log :=
  (run_mirrors steps h).reconcile

end Runs

/-- A poll whose contest window is running, restored. -/
theorem reconcile_snapshot_sample :
    reconcileVotingFromState Sample.convictionCodec Sample.onePointCurve 7 (fun _ => none)
        (snapshotForPersist (VotingNode.run Sample.convictionCodec Sample.onePointCurve 7 dayContext
          oneUnsignal).log) =
      (VotingNode.run Sample.convictionCodec Sample.onePointCurve 7 dayContext oneUnsignal).log := by
  refine reconcile_snapshot _ _ _ _ _ _ fun ns hns => ?_
  simp only [oneUnsignal, trace, List.mem_cons, List.not_mem_nil, or_false] at hns
  rcases hns with rfl | rfl | rfl | rfl
  · exact ⟨fun _ => rfl, fun _ _ _ _ _ hk => by cases hk⟩
  · trivial
  · exact ⟨fun _ => rfl, fun _ _ _ _ _ hk => by cases hk⟩
  · trivial

def resultAfterTick : List VotingStep :=
  [.apply Sample.convictionCreate none, .pass .detectThreshold 10,
   .apply (Sample.event .conviction .pollResult 20 "a" 1 (Sample.refPayload Sample.convictionPoll))
     none]

/-- The restart refuses the PollResult: in the replay the poll is open. -/
theorem resultAfterTick_lost :
    (VotingNode.run Sample.convictionCodec Sample.onePointCurve 7 dayContext
      resultAfterTick).log.events.length = 2 ∧
    (reconcileVotingFromState Sample.convictionCodec Sample.onePointCurve 7 (fun _ => none)
      (snapshotForPersist (VotingNode.run Sample.convictionCodec Sample.onePointCurve 7 dayContext
        resultAfterTick).log)).events.length = 1 := by
  decide +kernel

end Harmony.Voting
