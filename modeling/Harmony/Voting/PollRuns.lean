import Harmony.Voting.IngestSteps
import Harmony.Voting.Tier3Runs

/-! A Tier-3 poll over a run of the engine: where its state comes from in one step, and what it
keeps through all of them. -/

namespace Harmony.Voting

open Harmony.Lib
open Harmony.Membership (OwnerAddr SpaceId EventId Digest Bytes Hlc)
open Tier3PollState (newFromCreate Outside)

variable {cx : Codec} {cv : Curve} {log : VotingLog} {pid : PollId} {event : SignedVotingEvent}
  {p p' : PollState} {t3 t3' : Tier3PollState}

theorem tier3Of_eq_some (h : log.tier3Of pid = some t3) :
    ∃ p, log.polls[pid]? = some p ∧ p.tierState = .tier3 t3 := by
  obtain ⟨p, hp, hstate⟩ := Option.bind_eq_some_iff.mp h
  refine ⟨p, hp, ?_⟩
  split at hstate
  · rename_i t hstate'
    rw [hstate', Option.some.inj hstate]
  · simp at hstate

/-! ### Folds -/

section Folds

variable {Q : Tier3PollState → Prop}

theorem Tier3PollState.replay_induct (events : List SignedVotingEvent) (h : Q t3)
    (hstep : ∀ e ∈ events, ∀ s, Q s → Q (s.applyEvent cx cv e).1) :
    Q (t3.replay cx cv events) := by
  induction events generalizing t3 with
  | nil => exact h
  | cons e events ih =>
    exact ih (hstep e List.mem_cons_self t3 h) fun f hf => hstep f (List.mem_cons_of_mem _ hf)

/-- What holds before a recorded event and after a reset, and every event of the poll keeps,
holds after it. -/
theorem VotingLog.Tier3Effect.induct (heffect : VotingLog.Tier3Effect cx cv p t3 event t3')
    (h : Q t3) (hreset : ∀ s, Q s → Q s.reset)
    (hstep : ∀ e ∈ p.events ++ [event], ∀ s, Q s → Q (s.applyEvent cx cv e).1) : Q t3' := by
  have happly : Q (t3.applyEvent cx cv event).1 := hstep event (by simp) t3 h
  cases heffect with
  | applied outcome hok hkeep => exact happly
  | rebuilt =>
    refine Tier3PollState.replay_induct _ (hreset _ happly) fun e he => ?_
    exact hstep e (mem_sortBy.mp he)

end Folds

/-- A poll keeps what its PollCreate fixed. -/
structure SameFrame (s t : Tier3PollState) : Prop where
  «meta» : t.meta = s.meta
  electorate : t.eligibleElectorateSnapshot = s.eligibleElectorateSnapshot

theorem SameFrame.refl (s : Tier3PollState) : SameFrame s s := ⟨rfl, rfl⟩

theorem SameFrame.trans {s t u : Tier3PollState} (h : SameFrame s t) (h' : SameFrame t u) :
    SameFrame s u := ⟨h'.meta.trans h.meta, h'.electorate.trans h.electorate⟩

theorem applyEvent_sameFrame (cx : Codec) (cv : Curve) (s : Tier3PollState)
    (ev : SignedVotingEvent) : SameFrame s (s.applyEvent cx cv ev).1 := by
  have houtside : Outside s (s.applyEvent cx cv ev).1 := Tier3PollState.applyEvent_outside cx cv s ev
  exact ⟨houtside.meta, houtside.eligibleElectorateSnapshot⟩

theorem VotingLog.Tier3Effect.sameFrame (h : VotingLog.Tier3Effect cx cv p t3 event t3') :
    SameFrame t3 t3' :=
  h.induct (.refl t3) (fun _ hs => hs.trans ⟨rfl, rfl⟩) fun e _ s hs =>
    hs.trans (applyEvent_sameFrame cx cv s e)

/-! ### One step -/

/-- A Tier-3 poll as its PollCreate leaves it. -/
structure FreshPoll (watermark : Option VoidedInfo) (t3 : Tier3PollState) : Prop where
  valid : (validateTier3PollConfig t3.meta.config).isOk = true
  nodup : t3.eligibleElectorateSnapshot.Nodup
  state : t3 = { newFromCreate t3.meta t3.eligibleElectorateSnapshot with
    voided := VotingLog.voidedAt watermark t3.meta.communityEpoch }

theorem nodup_eligibleMembers (snapshot : MembershipSnapshot) (eligibility : Eligibility) :
    (eligibleMembers snapshot eligibility).Nodup :=
  snapshot.members.nodup_keys.filter _

theorem createPoll_fresh {communityId : SpaceId} {snapshot : Option MembershipSnapshot}
    {next : Lifecycle} (h : log.createPoll cx event communityId snapshot pid next = .ok p)
    (hstate : p.tierState = .tier3 t3) : FreshPoll log.retiredEpochWatermark t3 := by
  unfold VotingLog.createPoll at h
  split at h
  · simp only [VotingLog.createTier1, bind_eq_ok] at h
    obtain ⟨cfg, -, h⟩ := h
    split_ifs at h
    rw [← pure_eq_ok.mp h] at hstate
    cases hstate
  · simp only [VotingLog.createTier2, bind_eq_ok] at h
    obtain ⟨cfg, -, h⟩ := h
    split_ifs at h
    rw [← pure_eq_ok.mp h] at hstate
    cases hstate
  · simp only [VotingLog.createTier3, bind_eq_ok] at h
    obtain ⟨cfg, -, h⟩ := h
    split_ifs at h with hvalid
    obtain ⟨_, -, h⟩ := bind_eq_ok.mp h
    split at h
    · cases h
    · rw [← pure_eq_ok.mp h] at hstate
      cases hstate
      refine ⟨hvalid, ?_, rfl⟩
      cases snapshot with
      | none => exact List.nodup_nil
      | some snap => exact nodup_eligibleMembers snap _

/-! ### Ballots in the log of a node -/

section Ballots

open Tier3PollState

variable {communityId : SpaceId} {ctx : TickContext}

/-- Calls append to the run a poll is the outcome of, and rebuilds start a new one. -/
theorem VotingLog.PollUpdate.isReplay {old : Option PollState}
    (h : VotingLog.PollUpdate cx cv log event old p)
    (hold : ∀ q ∈ old, ∀ t, q.tierState = .tier3 t → IsReplay cx cv t)
    (hstate : p.tierState = .tier3 t3) : IsReplay cx cv t3 := by
  cases h with
  | signal hk ht hdecode hlife htier2 => simp [PollState.push] at hstate
  | tier3 ht hk hold3 happly =>
    exact applyTier3To_isReplay (hold _ rfl _ hold3) happly hstate
  | lifecycle hnext hk ht => exact hold _ rfl t3 hstate
  | create hk hcreate =>
    refine ⟨t3, [], ?_, rfl⟩
    rw [(createPoll_fresh hcreate hstate).state]
    exact ⟨rfl, rfl⟩

/-- Every Tier-3 state a node reaches is the outcome of a run from a poll without ballots. -/
theorem VotingNode.run_isReplay (steps : List VotingStep) :
    ∀ (pid : PollId) (p : PollState) (t3 : Tier3PollState),
      (VotingNode.run cx cv communityId ctx steps).log.polls[pid]? = some p →
        p.tierState = .tier3 t3 → IsReplay cx cv t3 := by
  induction steps using List.reverseRecOn with
  | nil =>
    intro pid p t3 hp
    simp [VotingNode.run] at hp
  | append_singleton steps s ih =>
    intro pid p t3 hp hstate
    rw [run_snoc] at hp
    cases s with
    | apply event snapshot =>
      have heffect : VotingLog.ApplyEffect cx cv communityId
          (VotingNode.run cx cv communityId ctx steps).log event
          ((VotingNode.run cx cv communityId ctx steps).log.applyWithSnapshot cx cv event
            communityId snapshot).1 := VotingLog.applyWithSnapshot_effect event snapshot
      have hp' : ((VotingNode.run cx cv communityId ctx steps).log.applyWithSnapshot cx cv event
          communityId snapshot).1.polls[pid]? = some p := hp
      generalize ((VotingNode.run cx cv communityId ctx steps).log.applyWithSnapshot cx cv event
          communityId snapshot).1 = log' at hp' heffect
      cases heffect with
      | rejected => exact ih pid p t3 hp' hstate
      | delegation graph hk => exact ih pid p t3 hp' hstate
      | recorded pid' q howner hupdate =>
        simp only [VotingLog.record, BTreeMap.get_insert] at hp'
        split_ifs at hp' with hpid
        · obtain rfl := Option.some.inj hp'
          exact hupdate.isReplay (fun q hq t => ih pid' q t hq) hstate
        · exact ih pid p t3 hp' hstate
    | pass pass nowMs =>
      obtain ⟨q, hq, htouched⟩ := (pass_touched cx ctx _ nowMs pass).get_some hp
      obtain ⟨t, ht, rfl⟩ := htouched.tier3 t3 hstate
      exact ih pid q t hq ht

/-- So a poll in which nobody who has a ballot casts another expects the tally of each actor's
last ballot. -/
theorem VotingNode.run_expects (steps : List VotingStep)
    (hp : (VotingNode.run cx cv communityId ctx steps).log.polls[pid]? = some p)
    (hstate : p.tierState = .tier3 t3) (ordered : List CandidateRef) :
    ∃ (s : Tier3PollState) (events : List SignedVotingEvent), s.NoBallots ∧
      t3 = s.replay cx cv events ∧
      ((∀ pre ev, pre ++ [ev] <+: events → ¬Resubmits cx cv (s.replay cx cv pre) ev) →
        recomputeExpectedResult cv t3 ordered =
          tallyOf cv t3 ordered (lastBallots (s.acceptedBallots cx cv events))) := by
  obtain ⟨s, events, hs, rfl⟩ := run_isReplay steps pid p t3 hp hstate
  refine ⟨s, events, hs, rfl, fun honce => ?_⟩
  have heach := (oneBallotEach_iff_nodup hs events).mpr ((nodup_accepted_iff hs events).mpr honce)
  exact recomputeExpectedResult_lastBallots hs heach ordered

end Ballots

namespace VotingLogEngine

variable {P : VotingLogEngineParams} {engine : VotingLogEngine} {s : EngineStep}

/-- What a step that applies no event makes of a Tier-3 state. -/
inductive KeptAs (s : EngineStep) (t3 : Tier3PollState) : Tier3PollState → Prop
  | same : KeptAs s t3 (s.resets.elim t3 t3.voidedBy)
  | oracle (hs : s.resets = none) (oracle : CommitteeOracle) :
      KeptAs s t3 { t3 with committeeOracle := oracle }

/-- Where the Tier-3 state of a poll comes from in one step. -/
inductive Tier3Origin (P : VotingLogEngineParams) (engine : VotingLogEngine) (s : EngineStep)
    (pid : PollId) (p' : PollState) : Tier3PollState → Prop
  | created {t3 : Tier3PollState} (hs : s.resets = none)
      (hnone : engine.node.log.polls[pid]? = none)
      (hfresh : FreshPoll engine.node.log.retiredEpochWatermark t3) :
      Tier3Origin P engine s pid p' t3
  | kept {p : PollState} {t3 t3' : Tier3PollState} (hp : engine.node.log.polls[pid]? = some p)
      (hstate : p.tierState = .tier3 t3)
      (haudited : ∀ e ∈ p.events, VotingLog.auditKind e.kind = true → e ∈ p'.events)
      (hkept : KeptAs s t3 t3') : Tier3Origin P engine s pid p' t3'
  | applied {p : PollState} {t3 t3' : Tier3PollState} {event : SignedVotingEvent}
      (hs : s.resets = none) (hp : engine.node.log.polls[pid]? = some p)
      (hstate : p.tierState = .tier3 t3) (htier : event.tier = .sortition)
      (happly : VotingLog.applyTier3To P.cx P.cv p t3 event = (p', .ok ()))
      (hevents : p'.events = p.events ++ [event])
      (heffect : VotingLog.Tier3Effect P.cx P.cv p t3 event t3') : Tier3Origin P engine s pid p' t3'

theorem KeptAs.of_eq (hs : s.resets = none) (t3 : Tier3PollState) : KeptAs s t3 t3 := by
  have h : KeptAs s t3 (s.resets.elim t3 t3.voidedBy) := .same
  simpa [hs] using h

theorem KeptAs.eq (h : KeptAs s t3 t3') :
    ∃ voided oracle, t3' = { t3 with voided := voided, committeeOracle := oracle } := by
  cases h with
  | same =>
    cases s.resets with
    | none => exact ⟨t3.voided, t3.committeeOracle, rfl⟩
    | some info =>
      rw [Option.elim_some, Tier3PollState.voidedBy]
      split_ifs
      · exact ⟨some info, t3.committeeOracle, rfl⟩
      · exact ⟨t3.voided, t3.committeeOracle, rfl⟩
  | oracle hs oracle => exact ⟨t3.voided, oracle, rfl⟩

theorem Tier3Origin.of_old (hs : s.resets = none) (hp : engine.node.log.polls[pid]? = some p')
    (hstate : p'.tierState = .tier3 t3') : Tier3Origin P engine s pid p' t3' :=
  .kept hp hstate (fun _ h _ => h) (.of_eq hs t3')

theorem apply_tier3 {snapshot : Option MembershipSnapshot} (hs : s.resets = none)
    (hp : (engine.node.log.applyWithSnapshot P.cx P.cv event P.communityId
      snapshot).1.polls[pid]? = some p') (hstate : p'.tierState = .tier3 t3') :
    Tier3Origin P engine s pid p' t3' := by
  have heffect : VotingLog.ApplyEffect P.cx P.cv P.communityId engine.node.log event
      (engine.node.log.applyWithSnapshot P.cx P.cv event P.communityId snapshot).1 :=
    VotingLog.applyWithSnapshot_effect event snapshot
  generalize (engine.node.log.applyWithSnapshot P.cx P.cv event P.communityId
    snapshot).1 = log' at hp heffect
  cases heffect with
  | rejected => exact .of_old hs hp hstate
  | delegation graph hk => exact .of_old hs hp hstate
  | recorded pid' q howner hupdate =>
    simp only [VotingLog.record, BTreeMap.get_insert] at hp
    split_ifs at hp with hpid
    swap
    · exact .of_old hs hp hstate
    obtain rfl := Option.some.inj hp
    subst hpid
    generalize hold : engine.node.log.polls[pid']? = old at hupdate
    cases hupdate with
    | signal hk ht hdecode hlife htier2 => simp [PollState.push] at hstate
    | tier3 ht hk htier3 happly =>
      obtain ⟨t, ht3, heffect⟩ := VotingLog.applyTier3To_effect happly
      rw [hstate] at ht3
      obtain rfl := TierState.tier3.inj ht3
      exact .applied hs hold htier3 ht happly (VotingLog.applyTier3To_of_ok happly).1 heffect
    | lifecycle hnext hk ht =>
      refine .kept hold hstate (fun e he _ => ?_) (.of_eq hs t3')
      simp [PollState.push, PollState.setLifecycle, he]
    | create hk hcreate => exact .created hs hold (createPoll_fresh hcreate hstate)

theorem TouchedAll.origin {R : Tier3PollState → Tier3PollState → Prop} {log' : VotingLog}
    (h : TouchedAll R engine.node.log log') (hR : ∀ t t', R t t' → KeptAs s t t')
    (hp : log'.polls[pid]? = some p') (hstate : p'.tierState = .tier3 t3') :
    Tier3Origin P engine s pid p' t3' := by
  obtain ⟨p, hp, htouched⟩ := h.get_some hp
  obtain ⟨t3, ht3, hrel⟩ := htouched.tier3 t3' hstate
  exact .kept hp ht3 htouched.audited (hR t3 t3' hrel)

theorem step_tier3 (hp : (engine.step P s).node.log.polls[pid]? = some p')
    (hstate : p'.tierState = .tier3 t3') : Tier3Origin P engine s pid p' t3' := by
  have hchange : LogChange P engine s (engine.step P s).node.log := step_log engine s
  generalize (engine.step P s).node.log = log' at hp hchange
  cases hchange with
  | same hs => exact .of_old hs hp hstate
  | peer event snapshot htask hs => exact apply_tier3 hs hp hstate
  | own event snapshot htask hs => exact apply_tier3 hs hp hstate
  | pass pass nowMs hs =>
    refine TouchedAll.origin (pass_touched P.cx P.tick engine.node nowMs pass) ?_ hp hstate
    rintro t t' rfl
    exact .of_eq hs t
  | reset oldEpoch resetId hs =>
    refine TouchedAll.origin (voidTier3PollsForReset_touched engine.node.log oldEpoch resetId) ?_
      hp hstate
    rintro t t' rfl
    have hsame : KeptAs s t (s.resets.elim t t.voidedBy) := .same
    simpa [hs] using hsame
  | oracle poll oracle hs =>
    refine TouchedAll.origin (installCommitteeOracle_touched engine.node.log poll oracle) ?_
      hp hstate
    rintro t t' ⟨o, rfl⟩
    exact .oracle hs o

/-! ### Runs -/

@[simp] theorem run_snoc (steps : List EngineStep) (s : EngineStep) :
    run P (steps ++ [s]) = (run P steps).step P s := by
  simp [run]

/-- The induction over a run, a Tier-3 poll at a time. -/
theorem run_induct {Q : List EngineStep → PollId → PollState → Tier3PollState → Prop}
    (hstep : ∀ steps s, (∀ pid p t3, (run P steps).node.log.polls[pid]? = some p →
        p.tierState = .tier3 t3 → Q steps pid p t3) →
      ∀ pid p' t3', (run P (steps ++ [s])).node.log.polls[pid]? = some p' →
        p'.tierState = .tier3 t3' → Tier3Origin P (run P steps) s pid p' t3' →
        Q (steps ++ [s]) pid p' t3') (steps : List EngineStep) :
    ∀ pid p t3, (run P steps).node.log.polls[pid]? = some p → p.tierState = .tier3 t3 →
      Q steps pid p t3 := by
  induction steps using List.reverseRecOn with
  | nil =>
    intro pid p t3 hp
    simp [run] at hp
  | append_singleton steps s ih =>
    intro pid p' t3' hp hstate
    refine hstep steps s ih pid p' t3' hp hstate (step_tier3 ?_ hstate)
    rwa [run_snoc] at hp

theorem recorded_tier (steps : List EngineStep) {p : PollState} {e : SignedVotingEvent}
    (hp : (run P steps).node.log.polls[pid]? = some p) (he : e ∈ p.events)
    (hkind : tier3Kind e.kind = true) : e.tier = .sortition := by
  induction steps using List.reverseRecOn generalizing p with
  | nil => simp [run] at hp
  | append_singleton steps s ih =>
    rw [run_snoc] at hp
    rcases (step_log (run P steps) s).recorded hp he with ⟨q, hq, he⟩ | ⟨-, htier, -⟩
    · exact ih hq he
    · exact htier hkind

theorem LogChange.isSome {log' : VotingLog} (h : LogChange P engine s log')
    (hp : engine.node.log.polls[pid]?.isSome = true) : log'.polls[pid]?.isSome = true := by
  have hcall : ∀ (event : SignedVotingEvent) (snapshot : Option MembershipSnapshot),
      (engine.node.log.applyWithSnapshot P.cx P.cv event P.communityId
        snapshot).1.polls[pid]?.isSome = true := by
    intro event snapshot
    have heffect : VotingLog.ApplyEffect P.cx P.cv P.communityId engine.node.log event
        (engine.node.log.applyWithSnapshot P.cx P.cv event P.communityId snapshot).1 :=
      VotingLog.applyWithSnapshot_effect event snapshot
    generalize (engine.node.log.applyWithSnapshot P.cx P.cv event P.communityId
      snapshot).1 = log' at heffect
    cases heffect with
    | rejected => exact hp
    | delegation graph hk => exact hp
    | recorded pid' q howner hupdate =>
      simp only [VotingLog.record, BTreeMap.get_insert]
      split_ifs
      · rfl
      · exact hp
  have houtside : ∀ {R : Tier3PollState → Tier3PollState → Prop} {log'' : VotingLog},
      TouchedAll R engine.node.log log'' → log''.polls[pid]?.isSome = true := by
    intro R log'' htouched
    obtain ⟨p, hp⟩ := Option.isSome_iff_exists.mp hp
    obtain ⟨p', hp', -⟩ := htouched.some_get hp
    rw [hp']
    rfl
  cases h with
  | same hs => exact hp
  | peer event snapshot htask hs => exact hcall event _
  | own event snapshot htask hs => exact hcall event snapshot
  | pass pass nowMs hs => exact houtside (pass_touched P.cx P.tick engine.node nowMs pass)
  | reset oldEpoch resetId hs =>
    exact houtside (voidTier3PollsForReset_touched engine.node.log oldEpoch resetId)
  | oracle poll oracle hs =>
    exact houtside (installCommitteeOracle_touched engine.node.log poll oracle)

theorem run_isSome (pre post : List EngineStep)
    (hp : (run P pre).node.log.polls[pid]?.isSome = true) :
    (run P (pre ++ post)).node.log.polls[pid]?.isSome = true := by
  induction post using List.reverseRecOn with
  | nil => simpa using hp
  | append_singleton post s ih =>
    rw [← List.append_assoc, run_snoc]
    exact (step_log _ s).isSome ih

theorem run_sameFrame (pre post : List EngineStep) {p : PollState}
    (hp : (run P pre).node.log.polls[pid]? = some p) (hstate : p.tierState = .tier3 t3)
    (hp' : (run P (pre ++ post)).node.log.polls[pid]? = some p')
    (hstate' : p'.tierState = .tier3 t3') : SameFrame t3 t3' := by
  induction post using List.reverseRecOn generalizing p' t3' with
  | nil =>
    rw [List.append_nil, hp] at hp'
    obtain rfl := Option.some.inj hp'
    rw [hstate] at hstate'
    obtain rfl := TierState.tier3.inj hstate'
    exact .refl t3
  | append_singleton post s ih =>
    rw [← List.append_assoc, run_snoc] at hp'
    cases step_tier3 hp' hstate' with
    | created hs hnone hfresh =>
      have hsome : (run P (pre ++ post)).node.log.polls[pid]?.isSome = true :=
        run_isSome pre post (by rw [hp]; rfl)
      simp [hnone] at hsome
    | kept hq hqstate haudited hkept =>
      obtain ⟨voided, oracle, rfl⟩ := hkept.eq
      have hold := ih hq hqstate
      exact ⟨hold.meta, hold.electorate⟩
    | applied hs hq hqstate htier happly hevents heffect => exact (ih hq hqstate).trans heffect.sameFrame

end VotingLogEngine
end Harmony.Voting
