import Harmony.Membership.Order

/-! What one replayed event can do. Each component of the running state moves by
an equation of its own: a member record by `memberUpdate`, the governance fields by
the direct event or by the proposal that reaches its quorum at the event. Every
invariant of a replay is derived from these. -/

namespace Harmony.Membership

open Harmony.Lib

/-! ### Governance -/

abbrev ProposalsIndex := BTreeMap EventId (ProposalKind × OwnerAddr × ℕ)

/-- The part of the running state that power and proposals move. It evolves by
itself: no member status and no clock enters `govStep`. -/
structure Governance where
  powerLevels : BTreeMap OwnerAddr ℕ
  adminQuorum : ℕ
  powerThresholds : PowerThresholds
  recoveryDesignates : Option RecoveryDesignates
  signersSeen : EventId → Finset OwnerAddr
  appliedProposals : Finset EventId
  seenProposals : Finset EventId
  configChangeWalls : List ℕ

def ReplayState.governance (st : ReplayState) : Governance where
  powerLevels := st.m.powerLevels
  adminQuorum := st.m.adminQuorum
  powerThresholds := st.m.powerThresholds
  recoveryDesignates := st.m.recoveryDesignates
  signersSeen := st.runningSignersSeen
  appliedProposals := st.appliedAdminProposals
  seenProposals := st.seenAdminProposals
  configChangeWalls := st.recConfigChangeWalls

/-- What the recovery and reset arms leave alone. -/
structure Core where
  m : MaterializedMembership
  governance : Governance
  recRotationApplied : Finset EventId

def ReplayState.core (st : ReplayState) : Core := ⟨st.m, st.governance, st.recRotationApplied⟩

@[simp] theorem core_m (st : ReplayState) : st.core.m = st.m := rfl

@[simp] theorem core_governance (st : ReplayState) : st.core.governance = st.governance := rfl

@[simp] theorem core_recRotationApplied (st : ReplayState) :
    st.core.recRotationApplied = st.recRotationApplied := rfl

def tipped (idx : ProposalsIndex) (g : Governance) (e : SignedMembershipEvent) :
    Option (EventId × ProposalKind) :=
  match e.kind with
  | .adminProposal _ =>
    if e.id ∉ g.appliedProposals ∧ g.adminQuorum ≤ (insert e.actor (g.signersSeen e.id)).card ∧
        0 < g.adminQuorum then
      idx[e.id]?.map fun p => (e.id, p.1)
    else none
  | .adminCountersign target =>
    if target ∈ g.seenProposals ∧ target ∉ g.appliedProposals ∧
        (insert e.actor (g.signersSeen target)).card = g.adminQuorum ∧ 0 < g.adminQuorum then
      idx[target]?.bind fun p =>
        if e.hlc.wallMs - p.2.2 ≤ adminProposalExpiryMs then some (target, p.1) else none
    else none
  | _ => none

def Governance.sign (g : Governance) (id : EventId) (actor : OwnerAddr) : Governance :=
  { g with signersSeen := Function.update g.signersSeen id (insert actor (g.signersSeen id)) }

def recordSigner (idx : ProposalsIndex) (g : Governance) (e : SignedMembershipEvent) :
    Governance :=
  match e.kind with
  | .adminProposal _ =>
    { g with seenProposals := insert e.id g.seenProposals }.sign e.id e.actor
  | .adminCountersign target =>
    if target ∉ g.seenProposals then g.sign target e.actor
    else if target ∈ g.appliedProposals then g
    else if idx[target]?.isSome then g.sign target e.actor
    else g
  | _ => g

def enact (g : Governance) (id : EventId) (kind : ProposalKind) (e : SignedMembershipEvent) :
    Governance :=
  let g := { g with appliedProposals := insert id g.appliedProposals }
  match kind with
  | .setPower target level => { g with powerLevels := g.powerLevels.insert target level }
  | .kick _ _ => g
  | .changeQuorum newQuorum => { g with adminQuorum := newQuorum }
  | .setRecoveryDesignates designates threshold vetoWindowMs =>
    { g with
      recoveryDesignates := some ⟨designates, threshold, vetoWindowMs, e.hlc⟩
      configChangeWalls := g.configChangeWalls ++ [e.hlc.wallMs] }
  | .changeThresholds newThresholds => { g with powerThresholds := newThresholds }

def govStep (idx : ProposalsIndex) (g : Governance) (e : SignedMembershipEvent) : Governance :=
  match e.kind with
  | .setPower target level => { g with powerLevels := g.powerLevels.insert target level }
  | _ =>
    (tipped idx g e).elim (recordSigner idx g e) fun p => enact (recordSigner idx g e) p.1 p.2 e

def ReplayState.withGovernance (st : ReplayState) (g : Governance) : ReplayState :=
  { st with
    m := { st.m with
      powerLevels := g.powerLevels
      adminQuorum := g.adminQuorum
      powerThresholds := g.powerThresholds
      recoveryDesignates := g.recoveryDesignates }
    runningSignersSeen := g.signersSeen
    appliedAdminProposals := g.appliedProposals
    seenAdminProposals := g.seenProposals
    recConfigChangeWalls := g.configChangeWalls }

def kickTarget : ProposalKind → Option OwnerAddr
  | .kick target _ => some target
  | _ => none

def kickedBy (idx : ProposalsIndex) (g : Governance) (e : SignedMembershipEvent) :
    Option OwnerAddr :=
  match e.kind with
  | .kick target _ => some target
  | _ => (tipped idx g e).bind fun p => kickTarget p.2

/-- A proposal or countersign moves governance, and kicks when it completes a kick. -/
def settle (idx : ProposalsIndex) (st : ReplayState) (e : SignedMembershipEvent) : ReplayState :=
  let st' := st.withGovernance (govStep idx st.governance e)
  { st' with
    m := (kickedBy idx st.governance e).elim st'.m fun target => kickMember st'.m target e.hlc }

def isAdminVote (e : SignedMembershipEvent) : Prop :=
  (∃ kind, e.kind = .adminProposal kind) ∨ ∃ target, e.kind = .adminCountersign target

theorem settle_of_none {idx : ProposalsIndex} {st : ReplayState} {e : SignedMembershipEvent}
    (hv : isAdminVote e) (ht : tipped idx st.governance e = none) :
    settle idx st e = st.withGovernance (recordSigner idx st.governance e) := by
  rcases hv with ⟨kind, hk⟩ | ⟨target, hk⟩ <;> simp only [settle, govStep, kickedBy, hk, ht] <;> rfl

theorem settle_of_some {idx : ProposalsIndex} {st : ReplayState} {e : SignedMembershipEvent}
    {id : EventId} {kind : ProposalKind} (hv : isAdminVote e)
    (ht : tipped idx st.governance e = some (id, kind)) :
    settle idx st e =
      applyTippedProposal (st.withGovernance (recordSigner idx st.governance e)) id kind e := by
  rcases hv with ⟨_, hk⟩ | ⟨target, hk⟩ <;> simp only [settle, govStep, kickedBy, hk, ht] <;>
    cases kind <;> rfl

theorem applyAdminProposal_eq {env : ReplayEnv} {st : ReplayState} {e : SignedMembershipEvent}
    {kind : ProposalKind} (hk : e.kind = .adminProposal kind) :
    applyAdminProposal env st e = settle env.proposalsIndex st e := by
  have hst : addSigner { st with seenAdminProposals := insert e.id st.seenAdminProposals } e.id
      e.actor = st.withGovernance (recordSigner env.proposalsIndex st.governance e) := by
    simp only [recordSigner, hk]; rfl
  have htip : tipped env.proposalsIndex st.governance e =
      if e.id ∉ st.appliedAdminProposals ∧
          st.m.adminQuorum ≤ (insert e.actor (st.runningSignersSeen e.id)).card ∧
          0 < st.m.adminQuorum then
        env.proposalsIndex[e.id]?.map fun p => (e.id, p.1)
      else none := by
    simp only [tipped, hk]; rfl
  simp only [applyAdminProposal, addSigner, Function.update_self]
  split_ifs at htip ⊢ with h
  · cases hi : env.proposalsIndex[e.id]? with
    | none => rw [settle_of_none (Or.inl ⟨_, hk⟩) (by simp [htip, hi]), ← hst]; rfl
    | some p => rw [settle_of_some (Or.inl ⟨_, hk⟩) (by rw [htip, hi]; rfl), ← hst]; rfl
  · rw [settle_of_none (Or.inl ⟨_, hk⟩) htip, ← hst]; rfl

theorem applyAdminCountersign_eq {env : ReplayEnv} {st : ReplayState} {e : SignedMembershipEvent}
    {target : EventId} (hk : e.kind = .adminCountersign target) :
    applyAdminCountersign env st e target = settle env.proposalsIndex st e := by
  have hv : isAdminVote e := Or.inr ⟨_, hk⟩
  by_cases hs : target ∈ st.seenAdminProposals
  · by_cases ha : target ∈ st.appliedAdminProposals
    · rw [settle_of_none hv (by simp [tipped, hk, ReplayState.governance, ha])]
      simp [applyAdminCountersign, recordSigner, hk, ReplayState.governance, hs, ha]
      rfl
    · cases hi : env.proposalsIndex[target]? with
      | none =>
        rw [settle_of_none hv (by simp [tipped, hk, hi])]
        simp [applyAdminCountersign, recordSigner, hk, ReplayState.governance, hs, ha, hi]
        rfl
      | some p =>
        obtain ⟨kind, proposer, wall⟩ := p
        have hst : addSigner st target e.actor =
            st.withGovernance (recordSigner env.proposalsIndex st.governance e) := by
          simp [recordSigner, hk, ReplayState.governance, hs, ha, hi]; rfl
        have htip : tipped env.proposalsIndex st.governance e =
            if (insert e.actor (st.runningSignersSeen target)).card = st.m.adminQuorum ∧
                0 < st.m.adminQuorum ∧ e.hlc.wallMs - wall ≤ adminProposalExpiryMs then
              some (target, kind)
            else none := by
          simp only [tipped, hk, ReplayState.governance, hs, ha, hi, not_false_eq_true, true_and,
            Option.bind_some]
          split_ifs <;> simp_all
        simp only [applyAdminCountersign, hs, ha, hi, not_true_eq_false, if_false]
        rw [show ((addSigner st target e.actor).runningSignersSeen target) =
          insert e.actor (st.runningSignersSeen target) from Function.update_self ..,
          show (addSigner st target e.actor).m.adminQuorum = st.m.adminQuorum from rfl]
        split_ifs at htip ⊢ with h
        · rw [settle_of_some hv htip, ← hst]
        · rw [settle_of_none hv htip, ← hst]
  · rw [settle_of_none hv (by simp [tipped, hk, ReplayState.governance, hs])]
    simp [applyAdminCountersign, recordSigner, hk, ReplayState.governance, hs]
    rfl

/-! ### The arms of the replay -/

section Arms

variable (env : ReplayEnv) (st : ReplayState) (e : SignedMembershipEvent)

@[simp] theorem applyRecoveryProposal_core (lostAdmin newAdmin : OwnerAddr)
    (configDigest : Digest) :
    ((applyRecoveryProposal env st e lostAdmin newAdmin configDigest).getD st).core = st.core := by
  unfold applyRecoveryProposal
  split
  · rfl
  · split_ifs <;> rfl

@[simp] theorem applyRecoveryCosign_core (target : EventId) :
    (applyRecoveryCosign env st e target).core = st.core := by
  unfold applyRecoveryCosign
  split <;> rfl

@[simp] theorem applyRecoveryVeto_core (target : EventId) :
    (applyRecoveryVeto env st e target).core = st.core := by
  unfold applyRecoveryVeto
  split_ifs <;> rfl

@[simp] theorem applyDfrostResetProposal_core (targetVk : PubKey) (targetEpoch : ℕ)
    (newMembers : List OwnerAddr) (newThreshold vetoWindowMs : ℕ) :
    (applyDfrostResetProposal env st e targetVk targetEpoch newMembers newThreshold
      vetoWindowMs).core = st.core := rfl

@[simp] theorem applyDfrostResetCosign_core (target : EventId) :
    (applyDfrostResetCosign st e target).core = st.core := by
  unfold applyDfrostResetCosign
  split
  · split_ifs <;> rfl
  · rfl

@[simp] theorem applyDfrostResetResponse_core (target : EventId) (verdict : ResetVerdict)
    (groupSig : Sig) (newVk : Option PubKey) :
    (applyDfrostResetResponse env st e target verdict groupSig newVk).core = st.core := by
  simp only [applyDfrostResetResponse]
  split <;> rfl

theorem applyEpochCatchup_core (epoch : ℕ) (triggeredBy : EventId)
    (recipients : List RecipientCiphertext) :
    ∃ catchup, ((applyEpochCatchup env st e epoch triggeredBy recipients).getD st).core =
      { st.core with m := { st.m with pendingCatchupFor := catchup } } := by
  unfold applyEpochCatchup
  by_cases he : epoch = st.m.currentEpoch.getD 0
  · cases catchupTrigger env st triggeredBy with
    | none => exact ⟨st.m.pendingCatchupFor, by simp [he]; rfl⟩
    | some target =>
      simp only [he, ne_eq, not_true_eq_false, if_false]
      split_ifs
      · exact ⟨_, rfl⟩
      · exact ⟨_, rfl⟩
      · exact ⟨_, rfl⟩
  · exact ⟨st.m.pendingCatchupFor, by simp [he]; rfl⟩

/-- A rotation advances the epoch and settles its target, or is dropped. -/
theorem applyEpochRotation_core (priorEpoch : ℕ) (triggeredBy : EventId)
    (recipients : List RecipientCiphertext) :
    ((applyEpochRotation env st e priorEpoch triggeredBy recipients).getD st).core =
      (rotationVerdict env st e priorEpoch triggeredBy recipients).elim st.core fun verdict =>
        { st.core with
          m := { st.m with
            currentEpoch := some (st.m.currentEpoch.getD 0 + 1)
            pendingRotationFor := st.m.pendingRotationFor.erase verdict.1 }
          recRotationApplied :=
            if verdict.2.isSome then insert triggeredBy st.recRotationApplied
            else st.recRotationApplied } := by
  unfold applyEpochRotation
  cases rotationVerdict env st e priorEpoch triggeredBy recipients <;> rfl

theorem step_core : (step env st e).core = ((applyEvent env st e).getD st).core := by
  unfold step
  cases applyEvent env st e <;> rfl

end Arms

theorem replay_snoc (env : ReplayEnv) (sorted : List SignedMembershipEvent)
    (e : SignedMembershipEvent) : replay env (sorted ++ [e]) = step env (replay env sorted) e := by
  simp only [replay, List.foldl_append, List.foldl_cons, List.foldl_nil]

/-! ### Member records -/

/-- How an event moves the record of `x`. -/
def memberUpdate (env : ReplayEnv) (kicked : Option OwnerAddr) (e : SignedMembershipEvent)
    (x : OwnerAddr) (old : Option MemberState) : Option MemberState :=
  match e.kind with
  | .join => if e.actor = x then onJoin e old else old
  | .leave => if e.actor = x then onLeave e old else old
  | .invite target => if target = x then onInvite e old else old
  | .unban target _ => if target = x then onUnban old else old
  | .pendingJoin _ =>
    if e.actor = x then
      onPendingJoin (decide (e.id ∈ env.canonicalPendingIds)) (pendingExpired env e) e old
    else old
  | .deviceAnnounce => if e.actor = x then onDeviceAnnounce e old else old
  | .deviceRetire _ cert => if e.actor = x then onDeviceRetire cert.deviceKey old else old
  | _ => if kicked = some x then onKick e.hlc old else old

theorem kickMember_members (m : MaterializedMembership) (target x : OwnerAddr) (leftAt : Hlc) :
    (kickMember m target leftAt).members[x]? =
      if target = x then onKick leftAt m.members[x]? else m.members[x]? := by
  simp only [kickMember, BTreeMap.get_alter]

theorem settle_members (idx : ProposalsIndex) (st : ReplayState) (e : SignedMembershipEvent)
    (x : OwnerAddr) :
    (settle idx st e).m.members[x]? =
      if kickedBy idx st.governance e = some x then onKick e.hlc st.m.members[x]?
      else st.m.members[x]? := by
  simp only [settle]
  cases kickedBy idx st.governance e with
  | none => simp [ReplayState.withGovernance]
  | some target => simp [ReplayState.withGovernance, kickMember_members]

theorem step_members (env : ReplayEnv) (st : ReplayState) (e : SignedMembershipEvent)
    (x : OwnerAddr) :
    (step env st e).m.members[x]? =
      memberUpdate env (kickedBy env.proposalsIndex st.governance e) e x st.m.members[x]? := by
  rw [← core_m, step_core]
  cases hk : e.kind with
  | kick target reason => simp [applyEvent, memberUpdate, hk, kickedBy, kickMember_members]
  | adminProposal kind =>
    simp [applyEvent, memberUpdate, hk, applyAdminProposal_eq hk, settle_members]
  | adminCountersign target =>
    simp [applyEvent, memberUpdate, hk, applyAdminCountersign_eq hk, settle_members]
  | epochRotation priorEpoch triggeredBy recipients =>
    simp only [applyEvent, hk, applyEpochRotation_core]
    cases rotationVerdict env st e priorEpoch triggeredBy recipients <;>
      simp [memberUpdate, hk, kickedBy, tipped]
  | epochCatchup epoch triggeredBy recipients =>
    obtain ⟨catchup, hcore⟩ := applyEpochCatchup_core env st e epoch triggeredBy recipients
    simp [applyEvent, hk, hcore, memberUpdate, kickedBy, tipped]
  | _ =>
    simp only [applyEvent, hk, applyRecoveryProposal_core]
    simp [memberUpdate, hk, kickedBy, tipped, BTreeMap.get_alter]

theorem settle_governance (idx : ProposalsIndex) (st : ReplayState) (e : SignedMembershipEvent) :
    (settle idx st e).governance = govStep idx st.governance e := by
  simp only [settle]
  cases kickedBy idx st.governance e <;> rfl

theorem step_governance (env : ReplayEnv) (st : ReplayState) (e : SignedMembershipEvent) :
    (step env st e).governance = govStep env.proposalsIndex st.governance e := by
  rw [← core_governance, step_core]
  cases hk : e.kind with
  | setPower target level =>
    simp only [applyEvent, hk, govStep]
    rfl
  | adminProposal kind =>
    simp only [applyEvent, hk, applyAdminProposal_eq hk, Option.getD_some, core_governance,
      settle_governance]
  | adminCountersign target =>
    simp only [applyEvent, hk, applyAdminCountersign_eq hk, Option.getD_some, core_governance,
      settle_governance]
  | epochRotation priorEpoch triggeredBy recipients =>
    simp only [applyEvent, hk, applyEpochRotation_core, govStep, tipped, recordSigner]
    cases rotationVerdict env st e priorEpoch triggeredBy recipients <;> rfl
  | epochCatchup epoch triggeredBy recipients =>
    obtain ⟨catchup, hcore⟩ := applyEpochCatchup_core env st e epoch triggeredBy recipients
    simp only [applyEvent, hk, hcore, govStep, tipped, recordSigner]
    rfl
  | _ =>
    simp only [applyEvent, hk, govStep, tipped, recordSigner, applyRecoveryProposal_core,
      Option.getD_some, applyRecoveryCosign_core, applyRecoveryVeto_core,
      applyDfrostResetProposal_core, applyDfrostResetCosign_core, applyDfrostResetResponse_core]
    rfl

/-! ### Positions of a log -/

section Positions

variable (C : Crypto) (events : List SignedMembershipEvent) (adminAddr : OwnerAddr)
  (nowMs : Option ℕ)

def stateBefore (e : SignedMembershipEvent) : ReplayState :=
  replay (prePass C events adminAddr nowMs) (sortEvents (before eventSortKey events e))

def stateAfter (e : SignedMembershipEvent) : ReplayState :=
  step (prePass C events adminAddr nowMs) (stateBefore C events adminAddr nowMs e) e

def finalState : ReplayState :=
  replay (prePass C events adminAddr nowMs) (sortEvents events)

theorem materializeWithNow_eq :
    materializeWithNow C events adminAddr nowMs =
      postPass (prePass C events adminAddr nowMs) (finalState C events adminAddr nowMs) := rfl

variable {C events adminAddr nowMs} {k p : SignedMembershipEvent}

/-- The replay reaches an event with what the sorted log holds before it. -/
theorem stateBefore_eq (hids : DistinctIds events) {pre post : List SignedMembershipEvent}
    (hs : sortEvents events = pre ++ k :: post) :
    stateBefore C events adminAddr nowMs k = replay (prePass C events adminAddr nowMs) pre := by
  rw [stateBefore, sortEvents, sortBy_before_eq hids.keyNodup hs]

theorem before_before (hlt : eventSortKey k < eventSortKey p) :
    before eventSortKey (before eventSortKey events p) k = before eventSortKey events k := by
  simp only [before, List.filter_filter]
  refine List.filter_congr fun e _ => ?_
  simpa using fun h => lt_trans h hlt

def Next (events : List SignedMembershipEvent) (q p : SignedMembershipEvent) : Prop :=
  ∃ pre post, sortEvents events = pre ++ q :: p :: post

theorem Next.mem (h : Next events k p) : k ∈ events ∧ p ∈ events := by
  obtain ⟨pre, post, hs⟩ := h
  have hmem : ∀ a ∈ sortEvents events, a ∈ events := fun a => mem_sortBy.mp
  rw [hs] at hmem
  exact ⟨hmem k (by simp), hmem p (by simp)⟩

theorem Next.lt (hids : DistinctIds events) (h : Next events k p) :
    eventSortKey k < eventSortKey p := by
  obtain ⟨pre, post, hs⟩ := h
  exact (sortBy_split_lt hids.keyNodup hs).2 p (by simp)

theorem Next.stateBefore (hids : DistinctIds events) (h : Next events k p) :
    stateBefore C events adminAddr nowMs p = stateAfter C events adminAddr nowMs k := by
  obtain ⟨pre, post, hs⟩ := h
  have hs' : sortEvents events = (pre ++ [k]) ++ p :: post := by simpa using hs
  rw [stateBefore_eq hids hs', stateAfter, stateBefore_eq hids hs, replay_snoc]

/-- What holds at `k` and passes from each position to the next holds from `k` on. -/
theorem positions_from {P : SignedMembershipEvent → Prop} (hids : DistinctIds events)
    (hk : k ∈ events) (h0 : P k)
    (hstep : ∀ q p, Next events q p → eventSortKey k ≤ eventSortKey q → P q → P p) :
    ∀ p ∈ events, eventSortKey k ≤ eventSortKey p → P p := by
  have hpost : ∀ post pre q, sortEvents events = pre ++ q :: post →
      eventSortKey k ≤ eventSortKey q → P q → ∀ p ∈ post, P p := by
    intro post
    induction post with
    | nil => simp
    | cons a post ih =>
      intro pre q hs hle hq
      have hnext : Next events q a := ⟨pre, post, hs⟩
      have ha : P a := hstep q a hnext hle hq
      refine List.forall_mem_cons.mpr ⟨ha, ?_⟩
      exact ih (pre ++ [q]) a (by simp [hs]) (hle.trans (hnext.lt hids).le) ha
  intro p hp hle
  rcases hle.eq_or_lt with heq | hlt
  · rwa [← hids.keyNodup.inj hk hp heq]
  · refine hpost _ _ k (sortBy_split hids.keyNodup hk) le_rfl h0 p ?_
    simpa [after] using ⟨hp, hlt⟩

theorem exists_last_position (hids : DistinctIds events) (hk : k ∈ events) :
    ∃ z ∈ events, (∀ a ∈ events, eventSortKey a ≤ eventSortKey z) ∧
      finalState C events adminAddr nowMs = stateAfter C events adminAddr nowMs z := by
  have hne : sortEvents events ≠ [] := List.ne_nil_of_mem (mem_sortBy.mpr hk)
  obtain ⟨pre, z, hs⟩ : ∃ pre z, sortEvents events = pre ++ [z] :=
    ⟨_, _, (List.dropLast_append_getLast hne).symm⟩
  have hmem : ∀ a, a ∈ events ↔ a ∈ pre ++ [z] := fun a => by rw [← hs, sortEvents, mem_sortBy]
  have hle : (sortBy eventSortKey events).Pairwise fun a b => eventSortKey a ≤ eventSortKey b :=
    sortBy_sorted events
  rw [show sortBy eventSortKey events = _ from hs, List.pairwise_append] at hle
  refine ⟨z, (hmem z).mpr (by simp), fun a ha => ?_, ?_⟩
  · rcases List.mem_append.mp ((hmem a).mp ha) with ha | ha
    · exact hle.2.2 a ha z (by simp)
    · rw [List.mem_singleton.mp ha]
  · rw [finalState, hs, replay_snoc, stateAfter, stateBefore_eq hids hs]

/-- What holds right after `k` and is kept at every later position holds at every
later position and at the end. -/
theorem holds_from {P : ReplayState → Prop} (hids : DistinctIds events) (hk : k ∈ events)
    (h0 : P (stateAfter C events adminAddr nowMs k))
    (hstep : ∀ e ∈ events, eventSortKey k < eventSortKey e →
      P (stateBefore C events adminAddr nowMs e) → P (stateAfter C events adminAddr nowMs e)) :
    (∀ p ∈ events, eventSortKey k ≤ eventSortKey p →
      P (stateAfter C events adminAddr nowMs p)) ∧ P (finalState C events adminAddr nowMs) := by
  have hall := positions_from (P := fun p => P (stateAfter C events adminAddr nowMs p)) hids hk h0
    fun q p hnext hle hq =>
      hstep p hnext.mem.2 (hle.trans_lt (hnext.lt hids)) (hnext.stateBefore hids ▸ hq)
  obtain ⟨z, hz, hlast, hfinal⟩ : ∃ z ∈ events, (∀ a ∈ events, eventSortKey a ≤ eventSortKey z) ∧
      finalState C events adminAddr nowMs = stateAfter C events adminAddr nowMs z :=
    exists_last_position hids hk
  exact ⟨hall, hfinal ▸ hall z hz (hlast k hk)⟩

end Positions

/-! ### Records through the post-pass -/

theorem executeRecovery_members (env : ReplayEnv) (st : ReplayState) (m : MaterializedMembership)
    (id : EventId) (work : RecoveryWork) (deadlineMs : ℕ) (x : OwnerAddr) :
    (executeRecovery env st m id work deadlineMs).members[x]? =
      if work.lostAdmin = x then
        onDerivedKick (decide (work.lostAdmin = env.adminAddr)) ⟨deadlineMs, 0, ""⟩ m.members[x]?
      else m.members[x]? := by
  simp only [executeRecovery, BTreeMap.get_alter]

/-- What holds of a record in the replay and is kept by a derived ban holds of it
in the view. -/
theorem view_record {env : ReplayEnv} {st : ReplayState} {x : OwnerAddr}
    {P : Option MemberState → Prop} (h0 : P st.m.members[x]?)
    (hban : ∀ b derivedAt r, P r → P (onDerivedKick b derivedAt r)) :
    P (postPass env st).members[x]? := by
  simp only [postPass, recoveryPostPass]
  refine List.foldlRecOn (motive := fun m : MaterializedMembership => P m.members[x]?) _ _ h0 fun m hm p _ => ?_
  split
  · split_ifs
    · rename_i outcome _ _
      cases outcome.deadlineMs with
      | none => exact hm
      | some deadlineMs =>
        simp only [Option.elim_some, executeRecovery_members]
        split_ifs
        · exact hban _ _ _ hm
        · exact hm
    · exact hm
  · exact hm

end Harmony.Membership
