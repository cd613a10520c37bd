import Harmony.Voting.Tier3Live
import Harmony.Voting.Tiers

/-! Runs of calls about one Tier-3 poll. As long as no arriving event conflicts with a recorded
one, the live projection is the fold of the recorded events in canonical order, and two nodes
that recorded the same events show the same poll. -/

namespace Harmony.Voting

open Harmony.Lib
open Harmony.Membership (OwnerAddr SpaceId Digest Hlc)
open Tier3PollState (Same SameParts SameVerdict newFromCreate)

variable (cx : Codec) (cv : Curve) (communityId : SpaceId)

abbrev VotingCall := SignedVotingEvent × Option MembershipSnapshot

/-- What a reader sees of a poll; candidates, ballots and declines have no order. -/
structure SameProjection (x y : Tier3PollState) : Prop where
  stage : x.stage = y.stage
  sortitionResult : x.sortitionResult = y.sortitionResult
  declines : x.declines.Perm y.declines
  statements : x.deliberation.statements = y.deliberation.statements
  votes : x.deliberation.votes = y.deliberation.votes
  candidates : x.candidates.Perm y.candidates
  ratificationBallots : x.ratificationBallots.Perm y.ratificationBallots
  result : x.result = y.result

theorem SameProjection.of_same {x y : Tier3PollState} (h : Same x y) : SameProjection x y :=
  ⟨h.stage, h.sortitionResult, h.declines, h.statements, h.votes,
    Tier3PollState.perm_of_filter_eq h.candidates, h.ratificationBallots, h.result⟩

namespace PollState

/-- No recorded event of a later key conflicts with an event that is let in; one of another
tier is a Signal of Tier 2 or refused by the lifecycle table. -/
def unconflicted (p : PollState) (event : SignedVotingEvent) : Bool :=
  match p.tierState with
  | .tier3 t3 =>
    if event.tier = .sortition then
      !t3.admits cx event || p.events.all fun f =>
        !decide (canonicalKey cx event < canonicalKey cx f) || !t3.conflicts cx cv p.events event f
    else (event.kind = .signal && event.tier = .conviction) ||
      !(nextLifecycle p.meta.lifecycle event.kind event.tier).isOk
  | _ => true

/-- The poll as its PollCreate leaves it, with the committee of its community installed. -/
structure JustCreated (p : PollState) : Prop where
  creates : ∀ f ∈ p.events, f.kind = .pollCreate
  state : ∃ (m : Tier3PollMeta) (electorate : List OwnerAddr) (oracle : CommitteeOracle)
    (voided : Option VoidedInfo), (validateTier3PollConfig m.config).isOk = true ∧
      p.tierState = .tier3 { newFromCreate m electorate with
        committeeOracle := oracle, voided := voided }

end PollState

namespace VotingLog

def call (log : VotingLog) (c : VotingCall) : VotingLog :=
  (log.applyWithSnapshot cx cv c.1 communityId c.2).1

/-- No call about the poll brings an event that conflicts with a recorded one. -/
def Unconflicted (pid : PollId) : VotingLog → List VotingCall → Prop
  | _, [] => True
  | log, c :: cs =>
    (pollOf cx communityId c.1 = some pid →
      log.polls[pid]?.all (·.unconflicted cx cv c.1) = true) ∧
    Unconflicted pid (log.call cx cv communityId c) cs

instance decidableUnconflicted (pid : PollId) (log : VotingLog) (calls : List VotingCall) :
    Decidable (log.Unconflicted cx cv communityId pid calls) := by
  induction calls generalizing log with
  | nil => exact .isTrue trivial
  | cons c cs ih =>
    haveI := ih (log.call cx cv communityId c)
    unfold Unconflicted
    infer_instance

end VotingLog

variable {cx cv communityId} {pid : PollId} {log : VotingLog} {p : PollState}

theorem validate_size {cfg : Tier3PollConfigPayload}
    (h : (validateTier3PollConfig cfg).isOk = true) : 20 ≤ cfg.sortitionSize := by
  by_contra hsize
  have hrange : ¬(20 ≤ cfg.sortitionSize ∧ cfg.sortitionSize ≤ 300) := fun h => hsize h.1
  simp only [validateTier3PollConfig, hrange, not_false_eq_true, if_true] at h
  split_ifs at h <;> simp [Except.isOk, Except.toBool] at h

theorem createTier3_justCreated {event : SignedVotingEvent} {snapshot : Option MembershipSnapshot}
    {next : Lifecycle} (hk : event.kind = .pollCreate)
    (h : log.createTier3 cx event communityId snapshot pid next = .ok p) : p.JustCreated := by
  simp only [VotingLog.createTier3, bind_eq_ok] at h
  obtain ⟨cfg, -, h⟩ := h
  split_ifs at h with hvalid
  obtain ⟨_, -, h⟩ := bind_eq_ok.mp h
  split at h
  · cases h
  · rw [← pure_eq_ok.mp h]
    exact ⟨by simp [hk], _, _, nullCommitteeOracle, _, hvalid, rfl⟩

theorem applyLifecycle_create {event : SignedVotingEvent} {snapshot : Option MembershipSnapshot}
    (hp : log.polls[pid]? = none) (hk : event.kind = .pollCreate)
    (hcreate : log.createPoll cx event communityId snapshot pid .open = .ok p) :
    log.applyLifecycle cx event communityId snapshot pid = (log.record pid p event, .ok pid) := by
  have hnext : nextLifecycle .draft .pollCreate event.tier = .ok .open := rfl
  simp [VotingLog.applyLifecycle, hp, hk, hnext, hcreate]

theorem PollState.JustCreated.settled (h : p.JustCreated) : ∃ t3, Settled cx cv p t3 := by
  obtain ⟨m, electorate, oracle, voided, hvalid, hstate⟩ := h.state
  refine ⟨_, hstate, validate_size hvalid, ?_⟩
  rw [Tier3PollState.rebuildFromEvents, Tier3PollState.replay_of_undecoded fun f hf =>
    Tier3PollState.decodes_create (h.creates f (mem_sortBy.mp hf))]
  exact ⟨by constructor <;> first | rfl | exact fun _ => rfl, fun _ => rfl, fun _ => rfl⟩

theorem unconflicted_of_tier3 {t3 : Tier3PollState} (hstate : p.tierState = .tier3 t3)
    {event : SignedVotingEvent} (ht : event.tier = .sortition)
    (h : p.unconflicted cx cv event = true)
    (ha : t3.admits cx event = true) {f : SignedVotingEvent} (hf : f ∈ p.events)
    (hlt : canonicalKey cx event < canonicalKey cx f) :
    t3.conflicts cx cv p.events event f = false := by
  simp only [PollState.unconflicted, hstate, ht, if_true, ha, Bool.not_true, Bool.false_or,
    List.all_eq_true] at h
  simpa [hlt] using h f hf

/-- An event of another tier does not get through the lifecycle table. -/
theorem tier_of_lifecycle {t3 : Tier3PollState} (hstate : p.tierState = .tier3 t3)
    {event : SignedVotingEvent} {next : Lifecycle} (h : p.unconflicted cx cv event = true)
    (hsignal : event.tier = .conviction → event.kind ≠ .signal)
    (hnext : nextLifecycle p.meta.lifecycle event.kind event.tier = .ok next) :
    event.tier = .sortition := by
  by_contra ht
  simp only [PollState.unconflicted, hstate, ht, if_false, hnext, Bool.or_eq_true,
    Bool.and_eq_true, decide_eq_true_eq] at h
  rcases h with ⟨hk, hc⟩ | h
  · exact hsignal hc hk
  · simp [Except.isOk, Except.toBool] at h

theorem CollisionFree.mono {events events' : List SignedVotingEvent}
    (h : CollisionFree cx events') (hsub : ∀ e ∈ events, e ∈ events') : CollisionFree cx events :=
  fun a ha b hb => h a (hsub a ha) b (hsub b hb)

/-- A settled poll that came from the state `t` by events of `all`. -/
structure Grown (cx : Codec) (cv : Curve) (all : List SignedVotingEvent) (t : Tier3PollState)
    (p : PollState) (t3 : Tier3PollState) : Prop extends Settled cx cv p t3 where
  wellTiered : p.WellTiered
  recorded : ∀ e ∈ p.events, e ∈ all
  root : Tier3PollState.SameRoot t t3
  verdict : ∀ e ∈ all, SameVerdict cx cv t3 t e

theorem Grown.step {all : List SignedVotingEvent} {t t3 : Tier3PollState} {event : SignedVotingEvent}
    {p' : PollState} (h : Grown cx cv all t p t3) (hfree : CollisionFree cx all)
    (hmem : event ∈ all) (ht : event.tier = .sortition) (hc : p.unconflicted cx cv event = true)
    (happly : VotingLog.applyTier3To cx cv p t3 event = (p', .ok ())) :
    ∃ t3', Grown cx cv all t p' t3' := by
  have hevents : p'.events = p.events ++ [event] := (VotingLog.applyTier3To_of_ok happly).1
  have hsub : ∀ e ∈ p.events ++ [event], e ∈ all := fun e he =>
    (List.mem_append.mp he).elim (h.recorded e) fun he => (List.mem_singleton.mp he) ▸ hmem
  obtain ⟨t3', hsettled⟩ : ∃ t3', Settled cx cv p' t3' :=
    h.toSettled.step (hfree.mono hsub) happly fun ha _ hf hlt =>
      unconflicted_of_tier3 h.state ht hc ha hf hlt
  obtain ⟨t3'', hstate, heffect⟩ := VotingLog.applyTier3To_effect happly
  obtain rfl : t3' = t3'' := TierState.tier3.inj (hsettled.state.symm.trans hstate)
  have hroot : Tier3PollState.SameRoot t (t3.applyEvent cx cv event).1 :=
    h.root.trans (Tier3PollState.applyEvent_outside cx cv t3 event).sameRoot
  have hverdict : ∀ e ∈ all, SameVerdict cx cv (t3.applyEvent cx cv event).1 t e := fun e he =>
    (Tier3PollState.sameVerdict_applyEvent (hfree event hmem e he)).trans (h.verdict e he)
  refine ⟨t3', ⟨hsettled, VotingLog.applyTier3To_wellTiered h.state h.wellTiered happly,
    fun e he => hsub e (hevents ▸ he), ?_, ?_⟩⟩
  · cases heffect with
    | applied => exact hroot
    | rebuilt => exact hroot.trans (Tier3PollState.sameRoot_rebuild _ _)
  · cases heffect with
    | applied => exact hverdict
    | rebuilt =>
      intro e he
      have hfold : SameVerdict cx cv ((t3.applyEvent cx cv event).1.rebuildFromEvents cx cv
          (p.events ++ [event])) (t3.applyEvent cx cv event).1 e :=
        Tier3PollState.sameVerdict_replay (s := (t3.applyEvent cx cv event).1.reset) hfree
          (fun f hf => hsub f (mem_sortBy.mp hf)) he
      exact hfold.trans (hverdict e he)

def aboutPoll (cx : Codec) (communityId : SpaceId) (pid : PollId) (calls : List VotingCall) :
    List SignedVotingEvent :=
  (calls.map Prod.fst).filter fun e => VotingLog.pollOf cx communityId e = some pid

/-- What a call does to one grown poll. -/
theorem Grown.call {all : List SignedVotingEvent} {t t3 : Tier3PollState} (c : VotingCall)
    (hp : log.polls[pid]? = some p) (h : Grown cx cv all t p t3) (hfree : CollisionFree cx all)
    (hc : VotingLog.pollOf cx communityId c.1 = some pid →
      c.1 ∈ all ∧ p.unconflicted cx cv c.1 = true) :
    ∃ p' t3', (log.call cx cv communityId c).polls[pid]? = some p' ∧ Grown cx cv all t p' t3' := by
  have heffect : VotingLog.ApplyEffect cx cv communityId log c.1 (log.call cx cv communityId c) :=
    VotingLog.applyWithSnapshot_effect c.1 c.2
  generalize log.call cx cv communityId c = log' at heffect ⊢
  cases heffect with
  | rejected => exact ⟨p, t3, hp, h⟩
  | delegation graph hk => exact ⟨p, t3, hp, h⟩
  | recorded pid' q howner hupdate =>
    by_cases hpid : pid' = pid
    · subst hpid
      obtain ⟨hmem, hquiet⟩ := hc howner
      rw [hp] at hupdate
      have hq : ∃ t3', Grown cx cv all t q t3' := by
        cases hupdate with
        | signal hk ht hdecode hlife hstate => cases h.state.symm.trans hstate
        | lifecycle hnext hk ht =>
          have htier : c.1.tier = .sortition :=
            tier_of_lifecycle h.state hquiet (fun hc => (hk hc).1) hnext
          rw [ht htier, VotingLog.nextLifecycle_create h.wellTiered.created] at hnext
          cases hnext
        | tier3 ht hk hstate happly =>
          obtain rfl := TierState.tier3.inj (hstate.symm.trans h.state)
          exact h.step hfree hmem ht hquiet happly
      obtain ⟨t3', hq⟩ := hq
      exact ⟨q, t3', by simp [VotingLog.record], hq⟩
    · exact ⟨p, t3, by simp [VotingLog.record, BTreeMap.get_insert, hpid, hp], h⟩

theorem Grown.run {all : List SignedVotingEvent} {t t3 : Tier3PollState} {calls : List VotingCall}
    (hp : log.polls[pid]? = some p) (h : Grown cx cv all t p t3) (hfree : CollisionFree cx all)
    (hmem : ∀ e ∈ aboutPoll cx communityId pid calls, e ∈ all)
    (hc : log.Unconflicted cx cv communityId pid calls) :
    ∃ p' t3', (calls.foldl (VotingLog.call cx cv communityId) log).polls[pid]? = some p' ∧
      Grown cx cv all t p' t3' := by
  induction calls generalizing log p t3 with
  | nil => exact ⟨p, t3, hp, h⟩
  | cons c cs ih =>
    have hhead : VotingLog.pollOf cx communityId c.1 = some pid →
        c.1 ∈ aboutPoll cx communityId pid (c :: cs) := fun hown => by
      simp [aboutPoll, hown]
    have htail : ∀ e ∈ aboutPoll cx communityId pid cs, e ∈ aboutPoll cx communityId pid (c :: cs) :=
      fun e he => by simp_all [aboutPoll]
    obtain ⟨p', t3', hp', hgrown⟩ := h.call c hp hfree fun hown =>
      ⟨hmem _ (hhead hown), by simpa [hp] using hc.1 hown⟩
    exact ih hp' hgrown (fun e he => hmem e (htail e he)) hc.2

/-! ### Live state and fold -/

/-- A run of calls after a PollCreate in which none is let in that conflicts with an event that
is recorded already or carries another tier; the hashes of its events do not collide. -/
structure QuietRun (cx : Codec) (cv : Curve) (communityId : SpaceId) (pid : PollId)
    (log : VotingLog) (p : PollState) (calls : List VotingCall) : Prop where
  found : log.polls[pid]? = some p
  created : p.JustCreated
  wellTiered : p.WellTiered
  free : CollisionFree cx (p.events ++ aboutPoll cx communityId pid calls)
  unconflicted : log.Unconflicted cx cv communityId pid calls

theorem QuietRun.grown {calls : List VotingCall} {t : Tier3PollState}
    (h : QuietRun cx cv communityId pid log p calls) (ht : p.tierState = .tier3 t) :
    ∃ p' t3, (calls.foldl (VotingLog.call cx cv communityId) log).polls[pid]? = some p' ∧
      Grown cx cv (p.events ++ aboutPoll cx communityId pid calls) t p' t3 := by
  obtain ⟨t3, hsettled⟩ : ∃ t3, Settled cx cv p t3 := h.created.settled
  obtain rfl := TierState.tier3.inj (hsettled.state.symm.trans ht)
  exact Grown.run h.found ⟨hsettled, h.wellTiered, fun e he => List.mem_append_left _ he,
    ⟨rfl, rfl, rfl⟩, fun _ _ _ _ => rfl⟩ h.free (fun e he => List.mem_append_right _ he)
    h.unconflicted

/-- As long as no arriving event conflicts with a recorded one, what a node shows of a Tier-3
poll is the fold of the recorded events in canonical order, in whatever order they came. -/
theorem live_eq_replay {calls : List VotingCall}
    (h : QuietRun cx cv communityId pid log p calls) :
    ∃ p' t3, (calls.foldl (VotingLog.call cx cv communityId) log).polls[pid]? = some p' ∧
      p'.tierState = .tier3 t3 ∧ SameProjection t3 (t3.rebuildFromEvents cx cv p'.events) := by
  obtain ⟨_, _, _, _, _, ht⟩ := h.created.state
  obtain ⟨p', t3, hp', hgrown⟩ := h.grown ht
  exact ⟨p', t3, hp', hgrown.state, .of_same hgrown.same⟩

/-- Two nodes that created the same poll and recorded the same events show the same, however
the events were ordered on their ways. -/
theorem replicas_agree {logA logB : VotingLog} {a b a' b' : PollState}
    {callsA callsB : List VotingCall} (hA : QuietRun cx cv communityId pid logA a callsA)
    (hB : QuietRun cx cv communityId pid logB b callsB) (hstate : a.tierState = b.tierState)
    (ha : (callsA.foldl (VotingLog.call cx cv communityId) logA).polls[pid]? = some a')
    (hb : (callsB.foldl (VotingLog.call cx cv communityId) logB).polls[pid]? = some b')
    (hperm : a'.events.Perm b'.events) :
    ∃ x y, a'.tierState = .tier3 x ∧ b'.tierState = .tier3 y ∧ SameProjection x y := by
  obtain ⟨t, ht⟩ : ∃ t, a.tierState = .tier3 t := by
    obtain ⟨_, _, _, _, _, ht⟩ := hA.created.state
    exact ⟨_, ht⟩
  obtain ⟨_, x, hx, hgrownA⟩ := hA.grown ht
  obtain ⟨_, y, hy, hgrownB⟩ := hB.grown (hstate ▸ ht)
  obtain rfl := Option.some.inj (ha.symm.trans hx)
  obtain rfl := Option.some.inj (hb.symm.trans hy)
  refine ⟨x, y, hgrownA.state, hgrownB.state, .of_same ?_⟩
  have hfreeB : CollisionFree cx b'.events := hB.free.mono hgrownB.recorded
  have hfoldA : Same (x.rebuildFromEvents cx cv a'.events) (t.rebuildFromEvents cx cv a'.events) :=
    hgrownA.root.rebuild (hA.free.mono hgrownA.recorded) fun f hf =>
      hgrownA.verdict f (hgrownA.recorded f hf)
  have hfoldB : Same (y.rebuildFromEvents cx cv b'.events) (t.rebuildFromEvents cx cv b'.events) :=
    hgrownB.root.rebuild hfreeB fun f hf => hgrownB.verdict f (hgrownB.recorded f hf)
  have hfold : t.rebuildFromEvents cx cv a'.events = t.rebuildFromEvents cx cv b'.events :=
    Tier3PollState.rebuildFromEvents_perm hfreeB hperm
  have hcommon : Same x (t.rebuildFromEvents cx cv b'.events) :=
    hfold ▸ hgrownA.same.trans hfoldA
  exact hcommon.trans (hgrownB.same.trans hfoldB).symm

def memberBallot : SignedVotingEvent :=
  Sample.event .sortition .ratificationBallot 120001 "c" 3 (Sample.ballotPayload 5)

def sampleCodec : Codec :=
  { Sample.sortitionCodec with sha256 := fun bytes =>
      if bytes = Sample.sigInputBytes memberBallot.toSigInput then
        0x10a4afe89cc390c1b352a42aa82b30223e0dd30dda63f9189061b919c9d17260
      else Sample.sortitionCodec.sha256 bytes }

def sampleLog : VotingLog :=
  ({} : VotingLog).call sampleCodec Sample.onePointCurve 7 (Sample.sortitionCreate, none)

theorem sampleLog_created : ∃ p, sampleLog.polls[Sample.sortitionPoll]? = some p ∧
    p.JustCreated ∧ p.WellTiered ∧ p.events = [Sample.sortitionCreate] := by
  obtain ⟨p, hcreate⟩ : ∃ p, ({} : VotingLog).createPoll sampleCodec
      Sample.sortitionCreate 7 none Sample.sortitionPoll .open = .ok p := ⟨_, rfl⟩
  have hpid : VotingLog.pollIdOf sampleCodec 7 Sample.sortitionCreate =
      .ok Sample.sortitionPoll := by decide +kernel
  have happly : sampleLog = ({} : VotingLog).record Sample.sortitionPoll p
      Sample.sortitionCreate := by
    rw [sampleLog, VotingLog.call, VotingLog.applyWithSnapshot, hpid]
    exact congrArg Prod.fst (applyLifecycle_create rfl rfl hcreate)
  exact ⟨p, by simp [happly, VotingLog.record], createTier3_justCreated rfl hcreate,
    VotingLog.createPoll_wellTiered hcreate, (VotingLog.createPoll_of_ok hcreate).1⟩

/-- Draft, approval and two ballots; the earlier ballot arrives last. -/
def sampleCalls : List VotingCall :=
  [(Sample.draft, none), (Sample.approval, none), (Sample.ballot 120003 0, none),
   (memberBallot, none)]

/-- The same events in their order. -/
def sampleCallsInOrder : List VotingCall :=
  [(Sample.draft, none), (Sample.approval, none), (memberBallot, none),
   (Sample.ballot 120003 0, none)]

theorem quietRun_sample {p : PollState} (hp : sampleLog.polls[Sample.sortitionPoll]? = some p)
    (hcreated : p.JustCreated) (hw : p.WellTiered) (hevents : p.events = [Sample.sortitionCreate])
    {calls : List VotingCall} (hcalls : calls = sampleCalls ∨ calls = sampleCallsInOrder) :
    QuietRun sampleCodec Sample.onePointCurve 7 Sample.sortitionPoll sampleLog p calls where
  found := hp
  created := hcreated
  wellTiered := hw
  free := by
    rw [hevents]
    unfold CollisionFree
    rcases hcalls with rfl | rfl <;> decide +kernel
  unconflicted := by rcases hcalls with rfl | rfl <;> decide +kernel

theorem live_eq_replay_sample : ∃ p' t3,
    (sampleCalls.foldl (VotingLog.call sampleCodec Sample.onePointCurve 7)
      sampleLog).polls[Sample.sortitionPoll]? = some p' ∧ p'.tierState = .tier3 t3 ∧
      SameProjection t3
        (t3.rebuildFromEvents sampleCodec Sample.onePointCurve p'.events) := by
  obtain ⟨p, hp, hcreated, hw, hevents⟩ := sampleLog_created
  exact live_eq_replay (quietRun_sample hp hcreated hw hevents (.inl rfl))

theorem replicas_agree_sample : ∃ a' b' x y,
    (sampleCalls.foldl (VotingLog.call sampleCodec Sample.onePointCurve 7)
      sampleLog).polls[Sample.sortitionPoll]? = some a' ∧
    (sampleCallsInOrder.foldl (VotingLog.call sampleCodec Sample.onePointCurve 7)
      sampleLog).polls[Sample.sortitionPoll]? = some b' ∧ a'.events ≠ b'.events ∧
    a'.tierState = .tier3 x ∧ b'.tierState = .tier3 y ∧ SameProjection x y := by
  obtain ⟨p, hp, hcreated, hw, hevents⟩ := sampleLog_created
  have hA := quietRun_sample hp hcreated hw hevents (.inl rfl)
  have hB := quietRun_sample hp hcreated hw hevents (.inr rfl)
  obtain ⟨a', ha', heventsA⟩ := Option.map_eq_some_iff.mp (show
    (sampleCalls.foldl (VotingLog.call sampleCodec Sample.onePointCurve 7)
      sampleLog).polls[Sample.sortitionPoll]?.map (·.events) =
        some (Sample.sortitionCreate :: sampleCalls.map Prod.fst) by decide +kernel)
  obtain ⟨b', hb', heventsB⟩ := Option.map_eq_some_iff.mp (show
    (sampleCallsInOrder.foldl (VotingLog.call sampleCodec Sample.onePointCurve 7)
      sampleLog).polls[Sample.sortitionPoll]?.map (·.events) =
        some (Sample.sortitionCreate :: sampleCallsInOrder.map Prod.fst) by decide +kernel)
  have hperm : a'.events.Perm b'.events := by
    rw [heventsA, heventsB]
    decide +kernel
  have hne : a'.events ≠ b'.events := by
    rw [heventsA, heventsB]
    decide +kernel
  obtain ⟨x, y, hx, hy, hsame⟩ := replicas_agree hA hB rfl ha' hb' hperm
  exact ⟨a', b', x, y, ha', hb', hne, hx, hy, hsame⟩

def approvalFirst : List VotingCall := [(Sample.approval, none), (Sample.draft, none)]

/-- The node does not show the approval, the fold does. -/
theorem approvalFirst_diverges : (approvalFirst.foldl
    (VotingLog.call sampleCodec Sample.onePointCurve 7)
      sampleLog).polls[Sample.sortitionPoll]?.all (fun p' => match p'.tierState with
        | .tier3 t3 => t3.candidates.map (·.approvals) = [{2}] ∧
            (t3.rebuildFromEvents sampleCodec Sample.onePointCurve
              p'.events).candidates.map (·.approvals) = [{2, 3}]
        | _ => False) = true := by
  decide +kernel

end Harmony.Voting
