import Harmony.Voting.Ingest

/-! What one step of the engine does to its log and to its tasks. -/

namespace Harmony.Voting

open Harmony.Lib
open Harmony.Membership (OwnerAddr SpaceId EventId Digest Bytes Hlc)

/-- A poll changed from outside its events, of which the audit kinds stay; `R` says how its
Tier-3 state changed. -/
structure Touched (R : Tier3PollState → Tier3PollState → Prop) (p p' : PollState) : Prop where
  events : ∀ e ∈ p'.events, e ∈ p.events
  audited : ∀ e ∈ p.events, VotingLog.auditKind e.kind = true → e ∈ p'.events
  tier3 : ∀ t3', p'.tierState = .tier3 t3' → ∃ t3, p.tierState = .tier3 t3 ∧ R t3 t3'
  back : ∀ t3, p.tierState = .tier3 t3 → ∃ t3', p'.tierState = .tier3 t3'

section Touched

variable {R : Tier3PollState → Tier3PollState → Prop} {p p' : PollState}

theorem Touched.of_same (hevents : ∀ e ∈ p'.events, e ∈ p.events)
    (haudited : ∀ e ∈ p.events, VotingLog.auditKind e.kind = true → e ∈ p'.events)
    (hstate : p'.tierState = p.tierState) : Touched Eq p p' where
  events := hevents
  audited := haudited
  tier3 t3 h := ⟨t3, hstate ▸ h, rfl⟩
  back t3 h := ⟨t3, hstate ▸ h⟩

theorem Touched.of_tier2 {t2 t2' : Tier2ProposalState} (hevents : p'.events = p.events)
    (hstate : p.tierState = .tier2 t2) (hstate' : p'.tierState = .tier2 t2') :
    Touched R p p' where
  events e h := hevents ▸ h
  audited e h _ := hevents ▸ h
  tier3 t3 h := by simp [hstate'] at h
  back t3 h := by simp [hstate] at h

theorem Touched.of_update {t3 t3' : Tier3PollState} (hstate : p.tierState = .tier3 t3)
    (h : R t3 t3') : Touched R p { p with tierState := .tier3 t3' } where
  events _ h := h
  audited _ h _ := h
  tier3 t h' := ⟨t3, hstate, by cases h'; exact h⟩
  back _ _ := ⟨t3', rfl⟩

theorem Touched.of_other (h : ∀ t3, p.tierState ≠ .tier3 t3) : Touched R p p where
  events _ h := h
  audited _ h _ := h
  tier3 t3 h' := absurd h' (h t3)
  back t3 h' := absurd h' (h t3)

theorem Touched.refl (p : PollState) : Touched Eq p p :=
  .of_same (fun _ h => h) (fun _ h _ => h) rfl

theorem PollState.voidFor_touched (p : PollState) (info : VoidedInfo) :
    Touched (fun t3 t3' => t3' = t3.voidedBy info) p (p.voidFor info) := by
  unfold PollState.voidFor
  split
  · rename_i t3 hstate
    exact .of_update hstate rfl
  · rename_i hother
    exact .of_other hother

theorem PollState.setOracle_touched (p : PollState) (oracle : CommitteeOracle) :
    Touched (fun t3 t3' => t3' = { t3 with committeeOracle := oracle }) p (p.setOracle oracle) := by
  unfold PollState.setOracle
  split
  · rename_i t3 hstate
    exact .of_update hstate rfl
  · rename_i hother
    exact .of_other hother

theorem PollState.detectThreshold_touched (p : PollState) (nowMs : ℤ) (graph : DelegationGraph) :
    Touched Eq p (p.detectThreshold nowMs graph) := by
  unfold PollState.detectThreshold
  split_ifs
  · exact .refl p
  split
  · rename_i t2 hstate
    dsimp only
    split_ifs
    · exact .of_tier2 rfl hstate rfl
    · exact .of_tier2 rfl hstate rfl
    · exact .refl p
  · exact .refl p

end Touched

/-- Polls stay, each changed from outside. -/
def TouchedAll (R : Tier3PollState → Tier3PollState → Prop) (log log' : VotingLog) : Prop :=
  ∀ pid : PollId, Option.Rel (Touched R) log.polls[pid]? log'.polls[pid]?

theorem TouchedAll.refl (log : VotingLog) : TouchedAll Eq log log := fun pid => by
  cases log.polls[pid]? with
  | none => exact .none
  | some p => exact .some (.refl p)

theorem touchedAll_map {R : Tier3PollState → Tier3PollState → Prop} {log log' : VotingLog}
    {f : PollId → PollState → PollState} (hf : ∀ pid p, Touched R p (f pid p))
    (hpolls : log'.polls = log.polls.map f) : TouchedAll R log log' := fun pid => by
  rw [hpolls, Std.ExtTreeMap.getElem?_map]
  cases log.polls[pid]? with
  | none => exact .none
  | some p => exact .some (hf pid p)

theorem TouchedAll.get_some {R : Tier3PollState → Tier3PollState → Prop} {log log' : VotingLog}
    (h : TouchedAll R log log') {pid : PollId} {p' : PollState}
    (hp : log'.polls[pid]? = some p') : ∃ p, log.polls[pid]? = some p ∧ Touched R p p' := by
  have hrel := h pid
  rw [hp] at hrel
  generalize log.polls[pid]? = o at hrel
  cases hrel with
  | some hpp => exact ⟨_, rfl, hpp⟩

theorem TouchedAll.some_get {R : Tier3PollState → Tier3PollState → Prop} {log log' : VotingLog}
    (h : TouchedAll R log log') {pid : PollId} {p : PollState}
    (hp : log.polls[pid]? = some p) : ∃ p', log'.polls[pid]? = some p' ∧ Touched R p p' := by
  have hrel := h pid
  rw [hp] at hrel
  generalize log'.polls[pid]? = o at hrel
  cases hrel with
  | some hpp => exact ⟨_, rfl, hpp⟩

theorem pass_touched (cx : Codec) (ctx : TickContext) (node : VotingNode) (nowMs : ℤ)
    (pass : TickPass) : TouchedAll Eq node.log (node.pass cx ctx nowMs pass).log := by
  cases pass with
  | closeExpired =>
    refine touchedAll_map (fun pid p => ?_) rfl
    unfold PollState.closeExpired
    split_ifs
    · exact .of_same (fun _ h => h) (fun _ h _ => h) rfl
    · exact .refl p
  | detectThreshold => exact touchedAll_map (fun pid p => p.detectThreshold_touched _ _) rfl
  | collectUncontested => exact .refl _
  | finalize =>
    refine touchedAll_map (fun pid p => ?_) rfl
    unfold PollState.finalizeUncontested
    split_ifs
    · exact .of_same (fun _ h => h) (fun _ h _ => h) rfl
    · exact .refl p
    · exact .refl p
  | archiveSweep =>
    unfold VotingNode.pass
    split_ifs
    · dsimp only
      unfold VotingLog.archiveFinalizedPolls
      dsimp only
      split_ifs
      · exact .refl _
      · refine touchedAll_map (fun pid p => ?_) rfl
        split_ifs
        · exact .of_same (fun e h => List.mem_of_mem_filter h)
            (fun e h haudit => List.mem_filter.mpr ⟨h, haudit⟩) rfl
        · exact .refl p
    · exact .refl _
    · exact .refl _

theorem voidTier3PollsForReset_touched (log : VotingLog) (oldEpoch : ℕ) (resetId : EventId) :
    TouchedAll (fun t3 t3' => t3' = t3.voidedBy ⟨resetId, oldEpoch⟩) log
      (log.voidTier3PollsForReset oldEpoch resetId).1 :=
  touchedAll_map (fun _ p => p.voidFor_touched _) rfl

theorem installCommitteeOracle_touched (log : VotingLog) (pid : PollId)
    (oracle : CommitteeOracle) :
    TouchedAll (fun t3 t3' => ∃ oracle, t3' = { t3 with committeeOracle := oracle }) log
      (log.installCommitteeOracle pid oracle) := by
  intro k
  rw [VotingLog.installCommitteeOracle, BTreeMap.get_alter]
  cases hp : log.polls[k]? with
  | none =>
    split_ifs <;> exact .none
  | some p =>
    have htouched : Touched (fun t3 t3' => t3' = { t3 with committeeOracle := oracle }) p
        (p.setOracle oracle) := p.setOracle_touched oracle
    split_ifs
    · exact .some ⟨htouched.events, htouched.audited, fun t3' h =>
        let ⟨t3, hstate, heq⟩ := htouched.tier3 t3' h
        ⟨t3, hstate, oracle, heq⟩, htouched.back⟩
    · exact .some ⟨fun _ h => h, fun _ h _ => h, fun t3 h => ⟨t3, h, t3.committeeOracle, rfl⟩,
        fun t3 h => ⟨t3, h⟩⟩

namespace VotingLogEngine

variable {P : VotingLogEngineParams} {engine : VotingLogEngine} {s : EngineStep}
  {beaconOracle : Option BeaconOracle} {receiverNowMs : Option ℕ}

/-- A step leaves the log alone, applies the event of a task, or changes polls from outside. -/
inductive LogChange (P : VotingLogEngineParams) (engine : VotingLogEngine) (s : EngineStep) :
    VotingLog → Prop
  | same (hs : s.resets = none) : LogChange P engine s engine.node.log
  | peer (event : SignedVotingEvent) (snapshot : MembershipSnapshot)
      (htask : IngestTask.eligible event snapshot ∈ engine.tasks) (hs : s.resets = none) :
      LogChange P engine s (engine.node.log.applyWithSnapshot P.cx P.cv event P.communityId
        (some snapshot)).1
  | own (event : SignedVotingEvent) (snapshot : Option MembershipSnapshot)
      (htask : IngestTask.announced event snapshot ∈ engine.tasks) (hs : s.resets = none) :
      LogChange P engine s (engine.node.log.applyWithSnapshot P.cx P.cv event P.communityId
        snapshot).1
  | pass (pass : TickPass) (nowMs : ℤ) (hs : s.resets = none) :
      LogChange P engine s (engine.node.pass P.cx P.tick nowMs pass).log
  | reset (oldEpoch : ℕ) (resetId : EventId) (hs : s.resets = some ⟨resetId, oldEpoch⟩) :
      LogChange P engine s (engine.node.log.voidTier3PollsForReset oldEpoch resetId).1
  | oracle (pid : PollId) (oracle : CommitteeOracle) (hs : s.resets = none) :
      LogChange P engine s (engine.node.log.installCommitteeOracle pid oracle)

theorem apply_fst_log (event : SignedVotingEvent) (snapshot : Option MembershipSnapshot)
    (next : Option IngestTask) : (engine.apply P event snapshot next).1.node.log =
      (engine.node.log.applyWithSnapshot P.cx P.cv event P.communityId snapshot).1 := by
  unfold apply
  split <;> rename_i h <;> rw [h] <;> rfl

theorem spawn_foldl_log (events : List SignedVotingEvent) : (events.foldl (fun engine event =>
    engine.spawn (.accepted event none)) engine).node = engine.node := by
  induction events generalizing engine with
  | nil => rfl
  | cons event events ih => exact ih

theorem advance_log (i : ℕ) (hs : s.resets = none) : LogChange P engine s
    (engine.advance P i beaconOracle receiverNowMs).node.log := by
  unfold advance
  cases htask : engine.tasks[i]? with
  | none => exact .same hs
  | some task =>
    have hmem : task ∈ engine.tasks := List.mem_of_getElem? htask
    have hlog : LogChange P engine s
        (engine.runSection P beaconOracle receiverNowMs task).1.node.log := by
      cases task with
      | verified event snapshot => exact .same hs
      | copied event snapshot t3 key claimed => exact .same hs
      | recomputed event snapshot key expected claimed => exact .same hs
      | eligible event snapshot =>
        rw [runSection, apply_fst_log]
        exact .peer event snapshot hmem hs
      | applied event => exact .same hs
      | accepted event snapshot => exact .same hs
      | announced event snapshot =>
        rw [runSection, apply_fst_log]
        exact .own event snapshot hmem hs
    dsimp only
    split <;> rename_i h <;> rw [h] at hlog <;> exact hlog

theorem step_log (engine : VotingLogEngine) (s : EngineStep) :
    LogChange P engine s (engine.step P s).node.log := by
  cases s with
  | receive route event receiverNowMs snapshot identity =>
    dsimp only [step]
    unfold receive
    split
    · exact .same rfl
    · split_ifs <;> exact .same rfl
  | publish event snapshot =>
    dsimp only [step]
    split_ifs
    · unfold publish
      split_ifs <;> exact .same rfl
    · exact .same rfl
  | beacon messageHash vrfOutput nowMs =>
    dsimp only [step]
    unfold onBeacon
    rw [spawn_foldl_log]
    exact .same rfl
  | mintFailed pid base =>
    dsimp only [step]
    unfold mintFailed
    split
    · exact .same rfl
    · split_ifs <;> exact .same rfl
  | mintClose pid base receiverNowMs =>
    dsimp only [step]
    unfold mintClose
    split
    · exact .same rfl
    · split_ifs <;> exact .same rfl
  | mintResult pid =>
    dsimp only [step]
    unfold mintResult
    split
    · exact .same rfl
    · split <;> exact .same rfl
  | advance task beaconOracle receiverNowMs => exact advance_log task rfl
  | pass pass nowMs => exact .pass pass nowMs rfl
  | reset oldEpoch resetId => exact .reset oldEpoch resetId rfl
  | installOracle pid oracle => exact .oracle pid oracle rfl

/-! ### Recorded events -/

/-- The kinds that no poll of another tier records. -/
def tier3Kind (kind : PollEventKindCode) : Bool :=
  kind ∈ [.sortitionSelection, .deliberationStatement, .deliberationVote, .miniPublicDecline,
    .draftCandidate, .draftApproval, .sortitionFailed, .ratificationBallot, .tallyShare]

theorem tier_of_update {log : VotingLog} {event : SignedVotingEvent} {old : Option PollState}
    {p : PollState} (h : VotingLog.PollUpdate P.cx P.cv log event old p)
    (hkind : tier3Kind event.kind = true) : event.tier = .sortition := by
  cases h with
  | signal hk => simp [hk, tier3Kind] at hkind
  | tier3 ht => exact ht
  | @lifecycle q next hnext =>
    exfalso
    revert hnext
    cases hk : event.kind <;> simp [hk, tier3Kind] at hkind <;> unfold nextLifecycle <;>
      cases q.meta.lifecycle <;> simp
  | create hk => simp [hk, tier3Kind] at hkind

/-- Events recorded by a call are those of the poll before and the event of the call. -/
theorem recorded_of_effect {log log' : VotingLog} {event e : SignedVotingEvent} {pid : PollId}
    {p : PollState} (h : VotingLog.ApplyEffect P.cx P.cv P.communityId log event log')
    (hp : log'.polls[pid]? = some p) (he : e ∈ p.events) :
    (∃ q, log.polls[pid]? = some q ∧ e ∈ q.events) ∨
      (e = event ∧ VotingLog.pollOf P.cx P.communityId event = some pid ∧
        (tier3Kind event.kind = true → event.tier = .sortition)) := by
  cases h with
  | rejected => exact .inl ⟨p, hp, he⟩
  | delegation graph hk => exact .inl ⟨p, hp, he⟩
  | recorded pid' p' howner hupdate =>
    simp only [VotingLog.record, BTreeMap.get_insert] at hp
    split_ifs at hp with hpid
    · obtain rfl := Option.some.inj hp
      subst hpid
      rw [hupdate.events, List.mem_append, List.mem_singleton] at he
      rcases he with he | rfl
      · cases hq : log.polls[pid']? with
        | none => simp [hq] at he
        | some q => exact .inl ⟨q, rfl, by simpa [hq] using he⟩
      · exact .inr ⟨rfl, howner, tier_of_update hupdate⟩
    · exact .inl ⟨p, hp, he⟩

theorem LogChange.recorded {log' : VotingLog} {pid : PollId} {p : PollState}
    {e : SignedVotingEvent} (h : LogChange P engine s log') (hp : log'.polls[pid]? = some p)
    (he : e ∈ p.events) : (∃ q, engine.node.log.polls[pid]? = some q ∧ e ∈ q.events) ∨
      (VotingLog.pollOf P.cx P.communityId e = some pid ∧
        (tier3Kind e.kind = true → e.tier = .sortition) ∧
        ((∃ snapshot, IngestTask.eligible e snapshot ∈ engine.tasks) ∨
          ∃ snapshot, IngestTask.announced e snapshot ∈ engine.tasks)) := by
  have houtside : ∀ {R : Tier3PollState → Tier3PollState → Prop} {log'' : VotingLog},
      TouchedAll R engine.node.log log'' → log''.polls[pid]? = some p →
        ∃ q, engine.node.log.polls[pid]? = some q ∧ e ∈ q.events := by
    intro R log'' htouched hp''
    obtain ⟨q, hq, hpq⟩ := htouched.get_some hp''
    exact ⟨q, hq, hpq.events e he⟩
  cases h with
  | same hs => exact .inl ⟨p, hp, he⟩
  | peer event snapshot htask hs =>
    rcases recorded_of_effect (VotingLog.applyWithSnapshot_effect event _) hp he with
      hold | ⟨rfl, ho, ht⟩
    · exact .inl hold
    · exact .inr ⟨ho, ht, .inl ⟨snapshot, htask⟩⟩
  | own event snapshot htask hs =>
    rcases recorded_of_effect (VotingLog.applyWithSnapshot_effect event _) hp he with
      hold | ⟨rfl, ho, ht⟩
    · exact .inl hold
    · exact .inr ⟨ho, ht, .inr ⟨snapshot, htask⟩⟩
  | pass pass nowMs hs =>
    exact .inl (houtside (pass_touched P.cx P.tick engine.node nowMs pass) hp)
  | reset oldEpoch resetId hs =>
    exact .inl (houtside (voidTier3PollsForReset_touched engine.node.log oldEpoch resetId) hp)
  | oracle poll oracle hs =>
    exact .inl (houtside (installCommitteeOracle_touched engine.node.log poll oracle) hp)

/-! ### Tasks -/

/-- Where the own events of an engine come from. -/
inductive Minted (P : VotingLogEngineParams) (engine : VotingLogEngine) :
    EngineStep → SignedVotingEvent → Prop
  | command {event : SignedVotingEvent} {snapshot : Option MembershipSnapshot}
      (hbuilds : commandBuilds P.cx event = true)
      (hgate : engine.node.log.publishGate P.cx event = .ok ()) :
      Minted P engine (.publish event snapshot) event
  | selection {pid : PollId} {t3 : Tier3PollState} {messageHash vrfOutput : Digest} {nowMs : ℕ}
      {event : SignedVotingEvent} (hpoll : engine.node.log.tier3Of pid = some t3)
      (hawaits : pid ∈ engine.awaitingBeacon P messageHash)
      (hevent : selectionEvent P pid t3 vrfOutput nowMs = some event) :
      Minted P engine (.beacon messageHash vrfOutput nowMs) event
  | failed {pid : PollId} {t3 : Tier3PollState} {base : Hlc}
      (hpoll : engine.node.log.tier3Of pid = some t3) (hfails : t3.failsFor P.selfOwner = true) :
      Minted P engine (.mintFailed pid base) (P.encoder.build .sortitionFailed
        (engineAutoHlcFromBase base pid "sf") P.selfOwner (P.encoder.pollRef pid))
  | close {pid : PollId} {t3 : Tier3PollState} {base : Hlc} {receiverNowMs : Option ℕ}
      (hpoll : engine.node.log.tier3Of pid = some t3) (hcloses : t3.closesAt receiverNowMs = true) :
      Minted P engine (.mintClose pid base receiverNowMs) (P.encoder.build .pollClose
        (engineAutoHlcFromBase base pid "cl") P.selfOwner (P.encoder.pollRef pid))
  | result {pid : PollId} {t3 : Tier3PollState} {result : StarResult} {base : Hlc}
      (hpoll : engine.node.log.tier3Of pid = some t3)
      (hresult : t3.resultToMint P.cx P.cv = some result) (hbase : t3.maxReceivedHlc = some base) :
      Minted P engine (.mintResult pid) (P.encoder.build .pollResult
        (engineAutoHlcFromBase base pid "rs") P.selfOwner (P.encoder.pollResult pid result))

/-- How a task comes to be. -/
inductive TaskOrigin (P : VotingLogEngineParams) (engine : VotingLogEngine) (s : EngineStep) :
    IngestTask → Prop
  | kept {task : IngestTask} (h : task ∈ engine.tasks) : TaskOrigin P engine s task
  | received (event : SignedVotingEvent) (snapshot : MembershipSnapshot) :
      TaskOrigin P engine s (.verified event snapshot)
  | minted {event : SignedVotingEvent} (snapshot : Option MembershipSnapshot)
      (h : Minted P engine s event) : TaskOrigin P engine s (.accepted event snapshot)
  | advanced {i : ℕ} {task next : IngestTask} {beaconOracle : Option BeaconOracle}
      {receiverNowMs : Option ℕ} (hs : s = .advance i beaconOracle receiverNowMs)
      (htask : engine.tasks[i]? = some task)
      (hnext : (engine.runSection P beaconOracle receiverNowMs task).2 = some next) :
      TaskOrigin P engine s next

theorem mem_spawn {task new : IngestTask} (h : task ∈ (engine.spawn new).tasks) :
    task ∈ engine.tasks ∨ task = new := by
  simpa [spawn] using h

theorem mem_spawn_foldl {task : IngestTask} (events : List SignedVotingEvent)
    (h : task ∈ (events.foldl (fun engine event => engine.spawn (.accepted event none))
      engine).tasks) : task ∈ engine.tasks ∨ ∃ event ∈ events, task = .accepted event none := by
  induction events generalizing engine with
  | nil => exact .inl h
  | cons event events ih =>
    rcases ih h with hold | ⟨e, he, rfl⟩
    · rcases mem_spawn hold with hold | rfl
      · exact .inl hold
      · exact .inr ⟨event, List.mem_cons_self, rfl⟩
    · exact .inr ⟨e, List.mem_cons_of_mem _ he, rfl⟩

theorem apply_fst_tasks (event : SignedVotingEvent) (snapshot : Option MembershipSnapshot)
    (next : Option IngestTask) : (engine.apply P event snapshot next).1.tasks = engine.tasks := by
  unfold apply
  split <;> rfl

theorem runSection_fst_tasks (engine : VotingLogEngine) (beaconOracle : Option BeaconOracle)
    (receiverNowMs : Option ℕ) (task : IngestTask) :
    (engine.runSection P beaconOracle receiverNowMs task).1.tasks = engine.tasks := by
  cases task with
  | eligible event snapshot => exact apply_fst_tasks ..
  | announced event snapshot => exact apply_fst_tasks ..
  | _ => rfl

section Origins

variable {task : IngestTask} {receiverNowMs : Option ℕ} {pid : PollId} {base : Hlc}

theorem TaskOrigin.of_receive {route : Route} {event : SignedVotingEvent}
    {snapshot : Option MembershipSnapshot} {identity : Option Bytes}
    (h : task ∈ (engine.receive P route event receiverNowMs snapshot identity).tasks) :
    TaskOrigin P engine (.receive route event receiverNowMs snapshot identity) task := by
  unfold receive at h
  split at h
  · exact .kept h
  · split_ifs at h
    · rcases mem_spawn h with h | rfl
      · exact .kept h
      · exact .received ..
    · exact .kept h

theorem TaskOrigin.of_publish {event : SignedVotingEvent} {snapshot : Option MembershipSnapshot}
    (hbuilds : commandBuilds P.cx event = true)
    (h : task ∈ (engine.publish P event snapshot).tasks) :
    TaskOrigin P engine (.publish event snapshot) task := by
  unfold publish at h
  split_ifs at h with hgate
  · rcases mem_spawn h with h | rfl
    · exact .kept h
    · refine .minted snapshot (.command hbuilds ?_)
      cases hg : engine.node.log.publishGate P.cx event with
      | ok u => rfl
      | error err => simp [hg, Except.isOk, Except.toBool] at hgate
  · exact .kept h

theorem TaskOrigin.of_beacon {messageHash vrfOutput : Digest} {nowMs : ℕ}
    (h : task ∈ (engine.onBeacon P messageHash vrfOutput nowMs).tasks) :
    TaskOrigin P engine (.beacon messageHash vrfOutput nowMs) task := by
  rcases mem_spawn_foldl _ h with h | ⟨event, he, rfl⟩
  · exact .kept h
  · obtain ⟨pid, hpid, he⟩ := List.mem_filterMap.mp he
    obtain ⟨t3, hpoll, he⟩ := Option.bind_eq_some_iff.mp he
    exact .minted none (.selection hpoll hpid he)

theorem TaskOrigin.of_mintFailed (h : task ∈ (engine.mintFailed P pid base).tasks) :
    TaskOrigin P engine (.mintFailed pid base) task := by
  unfold mintFailed at h
  split at h
  · exact .kept h
  · rename_i t3 hpoll
    split_ifs at h with hfails
    · rcases mem_spawn h with h | rfl
      · exact .kept h
      · exact .minted none (.failed hpoll hfails)
    · exact .kept h

theorem TaskOrigin.of_mintClose (h : task ∈ (engine.mintClose P pid base receiverNowMs).tasks) :
    TaskOrigin P engine (.mintClose pid base receiverNowMs) task := by
  unfold mintClose at h
  split at h
  · exact .kept h
  · rename_i t3 hpoll
    split_ifs at h with hcloses
    · rcases mem_spawn h with h | rfl
      · exact .kept h
      · exact .minted none (.close hpoll hcloses)
    · exact .kept h

theorem TaskOrigin.of_mintResult (h : task ∈ (engine.mintResult P pid).tasks) :
    TaskOrigin P engine (.mintResult pid) task := by
  unfold mintResult at h
  split at h
  · exact .kept h
  · rename_i t3 hpoll
    split at h
    · rename_i result base hresult hbase
      rcases mem_spawn h with h | rfl
      · exact .kept h
      · exact .minted none (.result hpoll hresult hbase)
    · exact .kept h

theorem TaskOrigin.of_advance {i : ℕ} {beaconOracle : Option BeaconOracle}
    (h : task ∈ (engine.advance P i beaconOracle receiverNowMs).tasks) :
    TaskOrigin P engine (.advance i beaconOracle receiverNowMs) task := by
  unfold advance at h
  cases htask : engine.tasks[i]? with
  | none =>
    simp only [htask] at h
    exact .kept h
  | some old =>
    have htasks : (engine.runSection P beaconOracle receiverNowMs old).1.tasks = engine.tasks :=
      runSection_fst_tasks engine beaconOracle receiverNowMs old
    simp only [htask] at h
    split at h <;> rename_i hsection <;> rw [hsection] at htasks
    · rcases List.mem_or_eq_of_mem_set h with h | rfl
      · exact .kept (htasks ▸ h)
      · exact .advanced rfl htask (by rw [hsection])
    · exact .kept (htasks ▸ List.mem_of_mem_eraseIdx h)

end Origins

theorem step_tasks {task : IngestTask} (h : task ∈ (engine.step P s).tasks) :
    TaskOrigin P engine s task := by
  cases s with
  | receive route event receiverNowMs snapshot identity => exact .of_receive h
  | publish event snapshot =>
    dsimp only [step] at h
    split_ifs at h with hbuilds
    · exact .of_publish hbuilds h
    · exact .kept h
  | beacon messageHash vrfOutput nowMs => exact .of_beacon h
  | mintFailed pid base => exact .of_mintFailed h
  | mintClose pid base receiverNowMs => exact .of_mintClose h
  | mintResult pid => exact .of_mintResult h
  | advance i beaconOracle receiverNowMs => exact .of_advance h
  | pass pass nowMs => exact .kept h
  | reset oldEpoch resetId => exact .kept h
  | installOracle pid oracle => exact .kept h

/-! ### Memo -/

theorem apply_fst_tracker (event : SignedVotingEvent) (snapshot : Option MembershipSnapshot)
    (next : Option IngestTask) :
    (engine.apply P event snapshot next).1.tracker = engine.tracker := by
  unfold apply
  split <;> rfl

theorem verifySrMemoInsert_get {tracker : VotingReplayTracker} {key k : PollId ×ₗ Digest}
    {value result : StarResult}
    (h : (tracker.verifySrMemoInsert key value).verifySrMemo[k]? = some result) :
    tracker.verifySrMemo[k]? = some result ∨ (k = key ∧ result = value) := by
  unfold VotingReplayTracker.verifySrMemoInsert at h
  dsimp only at h
  rw [BTreeMap.get_insert] at h
  split_ifs at h with hk hfull hfull
  · subst hk
    exact .inr ⟨rfl, by simpa using h.symm⟩
  · subst hk
    cases hold : tracker.verifySrMemo[key]? with
    | none => exact .inr ⟨rfl, by simpa [hold] using h.symm⟩
    | some old => exact .inl (by simpa [hold] using h)
  · simp at h
  · exact .inl h

/-- How a step changes the tracker. -/
inductive TrackerChange (engine : VotingLogEngine) : VotingReplayTracker → Prop
  | same : TrackerChange engine engine.tracker
  | peer (event : SignedVotingEvent) (htask : IngestTask.applied event ∈ engine.tasks) :
      TrackerChange engine (engine.tracker.record event)
  | own (event : SignedVotingEvent) (snapshot : Option MembershipSnapshot)
      (htask : IngestTask.accepted event snapshot ∈ engine.tasks) :
      TrackerChange engine (engine.tracker.record event)
  | memo (event : SignedVotingEvent) (snapshot : MembershipSnapshot) (key : PollId ×ₗ Digest)
      (expected claimed : StarResult)
      (htask : IngestTask.recomputed event snapshot key expected claimed ∈ engine.tasks) :
      TrackerChange engine (engine.tracker.verifySrMemoInsert key expected)

theorem runSection_tracker {task : IngestTask} (htask : task ∈ engine.tasks) :
    TrackerChange engine (engine.runSection P beaconOracle receiverNowMs task).1.tracker := by
  cases task with
  | verified event snapshot => exact .same
  | copied event snapshot t3 key claimed => exact .same
  | recomputed event snapshot key expected claimed => exact .memo _ _ _ _ _ htask
  | eligible event snapshot =>
    rw [runSection, apply_fst_tracker]
    exact .same
  | applied event => exact .peer event htask
  | accepted event snapshot => exact .own event snapshot htask
  | announced event snapshot =>
    rw [runSection, apply_fst_tracker]
    exact .same

theorem spawn_foldl_tracker (events : List SignedVotingEvent) : (events.foldl (fun engine event =>
    engine.spawn (.accepted event none)) engine).tracker = engine.tracker := by
  induction events generalizing engine with
  | nil => rfl
  | cons event events ih => exact ih

theorem step_tracker (engine : VotingLogEngine) (s : EngineStep) :
    TrackerChange engine (engine.step P s).tracker := by
  cases s with
  | receive route event receiverNowMs snapshot identity =>
    dsimp only [step]
    unfold receive
    split
    · exact .same
    · split_ifs <;> exact .same
  | publish event snapshot =>
    dsimp only [step]
    split_ifs
    · unfold publish
      split_ifs <;> exact .same
    · exact .same
  | beacon messageHash vrfOutput nowMs =>
    dsimp only [step]
    unfold onBeacon
    rw [spawn_foldl_tracker]
    exact .same
  | mintFailed pid base =>
    dsimp only [step]
    unfold mintFailed
    split
    · exact .same
    · split_ifs <;> exact .same
  | mintClose pid base receiverNowMs =>
    dsimp only [step]
    unfold mintClose
    split
    · exact .same
    · split_ifs <;> exact .same
  | mintResult pid =>
    dsimp only [step]
    unfold mintResult
    split
    · exact .same
    · split <;> exact .same
  | advance i beaconOracle receiverNowMs =>
    dsimp only [step]
    unfold advance
    cases htask : engine.tasks[i]? with
    | none => exact .same
    | some task =>
      have htracker : TrackerChange engine
          (engine.runSection P beaconOracle receiverNowMs task).1.tracker :=
        runSection_tracker (List.mem_of_getElem? htask)
      dsimp only
      split <;> rename_i h <;> rw [h] at htracker <;> exact htracker
  | pass pass nowMs => exact .same
  | reset oldEpoch resetId => exact .same
  | installOracle pid oracle => exact .same

@[simp] theorem record_verifySrMemo (tracker : VotingReplayTracker) (event : SignedVotingEvent) :
    (tracker.record event).verifySrMemo = tracker.verifySrMemo := rfl

@[simp] theorem verifySrMemoInsert_seen (tracker : VotingReplayTracker) (key : PollId ×ₗ Digest)
    (value : StarResult) : (tracker.verifySrMemoInsert key value).seen = tracker.seen := rfl

@[simp] theorem verifySrMemoInsert_seenCoords (tracker : VotingReplayTracker)
    (key : PollId ×ₗ Digest) (value : StarResult) :
    (tracker.verifySrMemoInsert key value).seenCoords = tracker.seenCoords := rfl

theorem step_memo {key : PollId ×ₗ Digest} {result : StarResult}
    (h : (engine.step P s).tracker.verifySrMemo[key]? = some result) :
    engine.tracker.verifySrMemo[key]? = some result ∨ ∃ event snapshot claimed,
      IngestTask.recomputed event snapshot key result claimed ∈ engine.tasks := by
  have hchange : TrackerChange engine (engine.step P s).tracker := step_tracker engine s
  generalize (engine.step P s).tracker = tracker at h hchange
  cases hchange with
  | same => exact .inl h
  | peer event htask => exact .inl h
  | own event snapshot htask => exact .inl h
  | memo event snapshot k expected claimed htask =>
    rcases verifySrMemoInsert_get h with hold | ⟨rfl, rfl⟩
    · exact .inl hold
    · exact .inr ⟨event, snapshot, claimed, htask⟩

end VotingLogEngine
end Harmony.Voting
