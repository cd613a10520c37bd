import Harmony.Voting.PollRuns
import Harmony.Voting.Warrants

/-! Resets of the committee over a run of the engine. Whether a poll was there when its epoch was
retired or came in later, it is void if it is still open; an ended one stays as it is. -/

namespace Harmony.Voting

open Harmony.Lib
open Harmony.Membership (OwnerAddr SpaceId EventId Digest Bytes Hlc)
open Tier3PollState (stepped decodes admits_eq_true_iff resultOf_of_ne)

variable {cx : Codec} {cv : Curve} {s t3 t3' : Tier3PollState} {event : SignedVotingEvent}
  {events : List SignedVotingEvent} {p p' : PollState}

/-! ### An end is kept -/

/-- A PollResult that a fold can read. -/
def Results (cx : Codec) (events : List SignedVotingEvent) : Prop :=
  ∃ e ∈ events, e.kind = .pollResult ∧ decodes cx e = true

theorem Results.mono {events' : List SignedVotingEvent} (h : Results cx events)
    (hsub : ∀ e ∈ events, VotingLog.auditKind e.kind = true → e ∈ events') :
    Results cx events' := by
  obtain ⟨e, he, hk, hd⟩ := h
  exact ⟨e, hsub e he (by simp [VotingLog.auditKind, hk]), hk, hd⟩

theorem results_of_applyEvent (h : s.stage = .finalized → Results cx events) (he : event ∈ events)
    (hstage : (s.applyEvent cx cv event).1.stage = .finalized) : Results cx events := by
  rw [(stepped cx cv s event).stage] at hstage
  by_cases hresult : (s.resultOf cx cv event).isSome = true
  · have hadmitted : s.admits cx event = true ∧ event.kind = .pollResult := by
      by_contra hnot
      simp [Tier3PollState.resultOf, hnot] at hresult
    exact ⟨event, he, hadmitted.2, (admits_eq_true_iff.mp hadmitted.1).2.2.2⟩
  · rw [if_neg hresult] at hstage
    split_ifs at hstage
    exact h hstage

theorem rebuild_terminal (hvoided : s.voided = none) (h : Results cx events) :
    (s.rebuildFromEvents cx cv events).Terminal := by
  obtain ⟨e, he, hk, hd⟩ := h
  have hmem : e ∈ sortBy (canonicalKey cx) events := mem_sortBy.mpr he
  obtain ⟨pre, post, hsorted⟩ := List.append_of_mem hmem
  have hkeys : ∀ g ∈ pre, canonicalKey cx g ≤ canonicalKey cx e := by
    have hpair : (sortBy (canonicalKey cx) events).Pairwise fun a b =>
        canonicalKey cx a ≤ canonicalKey cx b := sortBy_sorted events
    rw [hsorted, List.pairwise_append] at hpair
    exact fun g hg => hpair.2.2 g hg e List.mem_cons_self
  rw [Tier3PollState.rebuildFromEvents, hsorted, Tier3PollState.replay_append]
  by_cases hopen : (s.reset.replay cx cv pre).Terminal
  · exact Tier3PollState.replay_terminal hopen
  · have hadmits : (s.reset.replay cx cv pre).admits cx e = true :=
      Tier3PollState.admits_of_sorted rfl hvoided hkeys hd hopen
    have hends : ((s.reset.replay cx cv pre).applyEvent cx cv e).1.Terminal :=
      Tier3PollState.terminal_of_admits hadmits (.inl hk)
    exact Tier3PollState.replay_terminal (l := post) hends

/-- What an accepted event finds: an open poll, or a finalized one it is folded into. -/
theorem applyTier3To_open (h : VotingLog.applyTier3To cx cv p t3 event = (p', .ok ())) :
    t3.guard event = none ∨
      (t3.stage = .finalized ∧ p'.tierState = .tier3 (t3.rebuildFromEvents cx cv
        (p.events ++ [event]))) := by
  cases hg : t3.guard event with
  | none => exact .inl rfl
  | some err =>
    have happly : t3.applyEvent cx cv event = (t3, .error err) := by
      simp [Tier3PollState.applyEvent, hg]
    unfold VotingLog.applyTier3To at h
    rw [happly] at h
    dsimp only at h
    split_ifs at h with hrefold
    swap
    · simp at h
    rw [Bool.and_eq_true, decide_eq_true_eq] at hrefold
    refine .inr ⟨?_, ?_⟩
    · by_contra hstage
      rw [hrefold.1] at hg
      unfold Tier3PollState.guard at hg
      split_ifs at hg <;> simp at hg
    · obtain ⟨rfl, -⟩ := Prod.mk.inj h
      exact VotingLog.rebuild_tierState rfl

theorem VotingLog.Tier3Effect.voided (h : VotingLog.Tier3Effect cx cv p t3 event t3') :
    t3'.voided = t3.voided :=
  h.induct (Q := fun s => s.voided = t3.voided) rfl (fun _ hs => hs) fun e _ s hs =>
    (stepped cx cv s e).voided.trans hs

/-! ### The watermark -/

def Retired (watermark : Option VoidedInfo) (epoch : ℕ) : Prop :=
  ∃ info ∈ watermark, epoch ≤ info.oldEpoch

theorem retired_raise {watermark : Option VoidedInfo} {info : VoidedInfo} {epoch : ℕ} :
    Retired (VotingLog.raiseWatermark watermark info) epoch ↔
      Retired watermark epoch ∨ epoch ≤ info.oldEpoch := by
  unfold VotingLog.raiseWatermark Retired
  cases watermark with
  | none => simp
  | some old =>
    simp only [Option.all_some, decide_eq_true_eq, Option.mem_def, Option.some.injEq,
      exists_eq_left']
    split_ifs with hlt
    · simp only [Option.some.injEq, exists_eq_left']
      omega
    · simp only [Option.some.injEq, exists_eq_left']
      omega

theorem voidedAt_isSome {watermark : Option VoidedInfo} {epoch : ℕ} :
    (VotingLog.voidedAt watermark epoch).isSome = true ↔ Retired watermark epoch := by
  cases watermark with
  | none => simp [VotingLog.voidedAt, Retired]
  | some info => simp [VotingLog.voidedAt, Retired, Option.isSome_filter]

section Steps

open VotingLogEngine

variable {P : VotingLogEngineParams} {engine : VotingLogEngine} {step : EngineStep}

theorem step_watermark (engine : VotingLogEngine) (step : EngineStep) :
    (engine.step P step).node.log.retiredEpochWatermark =
      step.resets.elim engine.node.log.retiredEpochWatermark
        (VotingLog.raiseWatermark engine.node.log.retiredEpochWatermark) := by
  have hcall : ∀ (event : SignedVotingEvent) (snapshot : Option MembershipSnapshot),
      (engine.node.log.applyWithSnapshot P.cx P.cv event P.communityId
        snapshot).1.retiredEpochWatermark = engine.node.log.retiredEpochWatermark := by
    intro event snapshot
    have heffect : VotingLog.ApplyEffect P.cx P.cv P.communityId engine.node.log event
        (engine.node.log.applyWithSnapshot P.cx P.cv event P.communityId snapshot).1 :=
      VotingLog.applyWithSnapshot_effect event snapshot
    generalize (engine.node.log.applyWithSnapshot P.cx P.cv event P.communityId
      snapshot).1 = log' at heffect
    cases heffect with
    | rejected => rfl
    | delegation graph hk => rfl
    | recorded pid q howner hupdate => rfl
  have hchange : LogChange P engine step (engine.step P step).node.log := step_log engine step
  generalize (engine.step P step).node.log = log' at hchange
  cases hchange with
  | same hs => rw [hs, Option.elim_none]
  | peer event snapshot htask hs => rw [hs, Option.elim_none, hcall]
  | own event snapshot htask hs => rw [hs, Option.elim_none, hcall]
  | pass pass nowMs hs =>
    rw [hs, Option.elim_none]
    cases pass with
    | archiveSweep =>
      unfold VotingNode.pass VotingLog.archiveFinalizedPolls
      dsimp only
      split_ifs <;> rfl
    | _ => rfl
  | reset oldEpoch resetId hs => rw [hs]; rfl
  | oracle poll oracle hs => rw [hs, Option.elim_none]; rfl

/-- A void poll is open, an open one is void if its epoch is retired, and a finalized one holds
the result that a fold ends with. -/
structure VoidRule (cx : Codec) (watermark : Option VoidedInfo) (p : PollState)
    (t3 : Tier3PollState) : Prop where
  stays : t3.voided.isSome = true → ¬t3.Terminal
  voided : ¬t3.Terminal → (t3.voided.isSome = true ↔ Retired watermark t3.meta.communityEpoch)
  results : t3.stage = .finalized → Results cx p.events

variable {watermark : Option VoidedInfo}

theorem FreshPoll.voidRule (h : FreshPoll watermark t3) : VoidRule cx watermark p t3 := by
  have hstage : t3.stage = .sortition := by
    rw [h.state]
    rfl
  have hopen : ¬t3.Terminal := by simp [Tier3PollState.Terminal, hstage]
  refine ⟨fun _ => hopen, fun _ => ?_, by simp [hstage]⟩
  rw [← voidedAt_isSome, h.state]
  rfl

theorem VoidRule.voidedBy (h : VoidRule cx watermark p t3) (info : VoidedInfo) :
    VoidRule cx (VotingLog.raiseWatermark watermark info) p (t3.voidedBy info) := by
  unfold Tier3PollState.voidedBy
  split_ifs with hvoidable
  · simp only [Tier3PollState.voidable, Bool.and_eq_true, Bool.not_eq_true',
      decide_eq_false_iff_not, decide_eq_true_eq] at hvoidable
    obtain ⟨⟨-, hopen⟩, hepoch⟩ := hvoidable
    exact ⟨fun _ => hopen, fun _ => by simp [retired_raise, hepoch], h.results⟩
  · refine ⟨h.stays, fun hopen => ?_, h.results⟩
    rw [h.voided hopen, retired_raise]
    refine ⟨.inl, fun hr => hr.elim id fun hepoch => ?_⟩
    -- an open poll of the epoch that was passed over is void already
    rw [← h.voided hopen]
    by_contra hnone
    simp only [Tier3PollState.voidable, hopen, hepoch, decide_false, Bool.not_false, decide_true,
      Bool.and_true, Option.isNone_iff_eq_none] at hvoidable
    exact hnone (Option.isSome_iff_ne_none.mpr hvoidable)

theorem VoidRule.kept {t3' : Tier3PollState} (h : VoidRule cx engine.node.log.retiredEpochWatermark p t3)
    (hkept : KeptAs step t3 t3')
    (haudited : ∀ e ∈ p.events, VotingLog.auditKind e.kind = true → e ∈ p'.events) :
    VoidRule cx (engine.step P step).node.log.retiredEpochWatermark p' t3' := by
  have hstate : VoidRule cx (engine.step P step).node.log.retiredEpochWatermark p t3' := by
    rw [step_watermark]
    cases hkept with
    | same =>
      cases step.resets with
      | none => exact h
      | some info => exact h.voidedBy info
    | oracle hs oracle =>
      rw [hs]
      exact ⟨h.stays, h.voided, h.results⟩
  exact ⟨hstate.stays, hstate.voided, fun hf => (hstate.results hf).mono haudited⟩

theorem guard_eq_none (h : t3.guard event = none) : ¬t3.Terminal ∧ t3.voided = none := by
  unfold Tier3PollState.guard at h
  split_ifs at h with hfailed hfinalized hvoided
  exact ⟨by simp [Tier3PollState.Terminal, hfailed, hfinalized], by simpa using hvoided⟩

theorem VoidRule.applied (h : VoidRule cx watermark p t3)
    (happly : VotingLog.applyTier3To cx cv p t3 event = (p', .ok ()))
    (hevents : p'.events = p.events ++ [event]) (hstate : p'.tierState = .tier3 t3')
    (heffect : VotingLog.Tier3Effect cx cv p t3 event t3') : VoidRule cx watermark p' t3' := by
  have hsub : ∀ e ∈ p.events, e ∈ p.events ++ [event] := fun e he => List.mem_append_left _ he
  have hvoided : t3'.voided = t3.voided := heffect.voided
  have hresults : t3'.stage = .finalized → Results cx p'.events := by
    rw [hevents]
    refine heffect.induct (Q := fun s => s.stage = .finalized → Results cx (p.events ++ [event]))
      (fun hf => (h.results hf).mono fun e he _ => hsub e he) (fun s _ hf => ?_)
      fun e he s hs => results_of_applyEvent hs he
    simp [Tier3PollState.reset, Tier3PollState.newFromCreate] at hf
  rcases applyTier3To_open happly with hguard | ⟨hstage, hrebuilt⟩
  · obtain ⟨hopen, hnone⟩ := guard_eq_none hguard
    have hlive : ¬Retired watermark t3.meta.communityEpoch := by
      rw [← h.voided hopen, hnone]
      simp
    refine ⟨by simp [hvoided, hnone], fun _ => ?_, hresults⟩
    rw [hvoided, hnone, heffect.sameFrame.meta]
    simp [hlive]
  · have hends : t3.Terminal := .inr hstage
    have hnone : t3.voided = none := by
      by_contra hsome
      exact h.stays (Option.isSome_iff_ne_none.mpr hsome) hends
    have hrebuilt' : t3' = t3.rebuildFromEvents cx cv (p.events ++ [event]) :=
      TierState.tier3.inj (hstate.symm.trans hrebuilt)
    have hterminal : t3'.Terminal := by
      rw [hrebuilt']
      exact rebuild_terminal hnone ((h.results hstage).mono fun e he _ => hsub e he)
    exact ⟨by simp [hvoided, hnone], fun hopen => absurd hterminal hopen, hresults⟩

theorem run_voidRule (steps : List EngineStep) {pid : PollId}
    (hp : (run P steps).node.log.polls[pid]? = some p) (hstate : p.tierState = .tier3 t3) :
    VoidRule P.cx (run P steps).node.log.retiredEpochWatermark p t3 := by
  refine run_induct (P := P) (Q := fun steps _ p t3 =>
    VoidRule P.cx (run P steps).node.log.retiredEpochWatermark p t3) ?_ steps pid p t3 hp hstate
  intro steps step ih pid p' t3' hp' hstate' horigin
  rw [VotingLogEngine.run_snoc]
  cases horigin with
  | created hs hnone hfresh =>
    rw [step_watermark, hs]
    exact hfresh.voidRule
  | kept hp hstate haudited hkept => exact (ih _ _ _ hp hstate).kept hkept haudited
  | applied hs hp hstate htier happly hevents heffect =>
    rw [step_watermark, hs]
    exact (ih _ _ _ hp hstate).applied happly hevents hstate' heffect

end Steps

open VotingLogEngine (run run_isSome step_tier3)

/-- In every run an open poll is void exactly when its epoch is retired, and no void poll ends. -/
theorem voided_iff_retired (P : VotingLogEngineParams) (steps : List EngineStep) {pid : PollId}
    {p : PollState} {t3 : Tier3PollState} (hp : (run P steps).node.log.polls[pid]? = some p)
    (hstate : p.tierState = .tier3 t3) : (t3.voided.isSome = true → ¬t3.Terminal) ∧
      (¬t3.Terminal → (t3.voided.isSome = true ↔
        Retired (run P steps).node.log.retiredEpochWatermark t3.meta.communityEpoch)) := by
  have hrule : VoidRule P.cx (run P steps).node.log.retiredEpochWatermark p t3 :=
    run_voidRule steps hp hstate
  exact ⟨hrule.stays, hrule.voided⟩

/-- Nothing that happens later changes a void poll, but for its view of the committees. -/
theorem voided_frozen (P : VotingLogEngineParams) (pre post : List EngineStep) {pid : PollId}
    {p p' : PollState} {t3 t3' : Tier3PollState}
    (hp : (run P pre).node.log.polls[pid]? = some p) (hstate : p.tierState = .tier3 t3)
    (hvoided : t3.voided.isSome = true)
    (hp' : (run P (pre ++ post)).node.log.polls[pid]? = some p')
    (hstate' : p'.tierState = .tier3 t3') :
    t3' = { t3 with committeeOracle := t3'.committeeOracle } := by
  induction post using List.reverseRecOn generalizing p' t3' with
  | nil =>
    rw [List.append_nil, hp] at hp'
    obtain rfl := Option.some.inj hp'
    rw [hstate] at hstate'
    obtain rfl := TierState.tier3.inj hstate'
    rfl
  | append_singleton post step ih =>
    rw [← List.append_assoc, VotingLogEngine.run_snoc] at hp'
    cases step_tier3 hp' hstate' with
    | created hs hnone hfresh =>
      have hsome : (run P (pre ++ post)).node.log.polls[pid]?.isSome = true :=
        run_isSome pre post (by rw [hp]; rfl)
      simp [hnone] at hsome
    | kept hq hqstate haudited hkept =>
      have hold := ih hq hqstate
      cases hkept with
      | same =>
        cases step.resets with
        | none => exact hold
        | some info =>
          have hvoid := congrArg Tier3PollState.voided hold
          rw [Option.elim_some, Tier3PollState.voidedBy, if_neg]
          · exact hold
          · have hsome := (congrArg Option.isSome hvoid).trans hvoided
            simp [Tier3PollState.voidable, Option.isSome_iff_ne_none.mp hsome]
      | oracle hs oracle =>
        rw [hold]
    | @applied q t _ event hs hq hqstate htier happly hevents heffect =>
      have hsome : t.voided.isSome = true :=
        (congrArg Option.isSome (congrArg Tier3PollState.voided (ih hq hqstate))).trans hvoided
      rcases applyTier3To_open happly with hguard | ⟨hstage, -⟩
      · simp [(guard_eq_none hguard).2] at hsome
      · exact absurd (.inr hstage) ((run_voidRule (pre ++ post) hq hqstate).stays hsome)

/-! ### Replay of the lineage -/

section Lineage

variable {lineage : List (ℕ × EventId)} {log : VotingLog}

def firstCovering (lineage : List (ℕ × EventId)) (epoch : ℕ) : Option VoidedInfo :=
  (lineage.find? fun r => epoch ≤ r.1).map fun r => ⟨r.2, r.1⟩

def Tier3PollState.live (s : Tier3PollState) : Bool := s.voided.isNone && !decide s.Terminal

def Tier3PollState.voidedUnder (lineage : List (ℕ × EventId)) (s : Tier3PollState) :
    Tier3PollState :=
  if s.live then { s with voided := firstCovering lineage s.meta.communityEpoch } else s

def PollState.voidUnder (lineage : List (ℕ × EventId)) (p : PollState) : PollState :=
  match p.tierState with
  | .tier3 t3 => { p with tierState := .tier3 (t3.voidedUnder lineage) }
  | _ => p

def PollState.isVoid (p : PollState) : Bool :=
  match p.tierState with
  | .tier3 t3 => t3.voided.isSome
  | _ => false

def VotingLog.voidCount (log : VotingLog) : ℕ := log.polls.toList.countP fun q => q.2.isVoid

theorem firstCovering_snoc (r : ℕ × EventId) (epoch : ℕ) :
    firstCovering (lineage ++ [r]) epoch = (firstCovering lineage epoch).or
      (if epoch ≤ r.1 then some ⟨r.2, r.1⟩ else none) := by
  rw [firstCovering, firstCovering, List.find?_append]
  cases lineage.find? fun r => epoch ≤ r.1 with
  | some r => rfl
  | none => by_cases h : epoch ≤ r.1 <;> simp [h]

theorem live_eq_true : t3.live = true ↔ t3.voided = none ∧ ¬t3.Terminal := by
  simp [Tier3PollState.live]

theorem voidable_eq_true {oldEpoch : ℕ} : t3.voidable oldEpoch = true ↔
    t3.live = true ∧ t3.meta.communityEpoch ≤ oldEpoch := by
  simp [Tier3PollState.voidable, Tier3PollState.live]

theorem voidedUnder_snoc (r : ℕ × EventId) : t3.voidedUnder (lineage ++ [r]) =
    (t3.voidedUnder lineage).voidedBy ⟨r.2, r.1⟩ := by
  unfold Tier3PollState.voidedUnder
  split_ifs with hlive
  · obtain ⟨-, hopen⟩ := live_eq_true.mp hlive
    have hterminal : ¬({ t3 with voided := none } : Tier3PollState).Terminal := hopen
    rw [firstCovering_snoc]
    cases firstCovering lineage t3.meta.communityEpoch with
    | some info => simp [Tier3PollState.voidedBy, Tier3PollState.voidable]
    | none =>
      by_cases hepoch : t3.meta.communityEpoch ≤ r.1
      · simp [Tier3PollState.voidedBy, Tier3PollState.voidable, hepoch, hterminal]
      · simp [Tier3PollState.voidedBy, Tier3PollState.voidable, hepoch]
  · rw [Tier3PollState.voidedBy, if_neg]
    exact fun hvoidable => hlive (voidable_eq_true.mp hvoidable).1

theorem voidedUnder_nil : t3.voidedUnder [] = t3 := by
  unfold Tier3PollState.voidedUnder
  split_ifs with hlive
  · simp only [Tier3PollState.live, Bool.and_eq_true, Option.isNone_iff_eq_none] at hlive
    rw [show firstCovering [] t3.meta.communityEpoch = t3.voided from hlive.1.symm]
  · rfl

@[simp] theorem voidUnder_nil : p.voidUnder [] = p := by
  cases p with
  | mk m events state cfg snapshot =>
    cases state with
    | tier3 t3 => simp [PollState.voidUnder, voidedUnder_nil]
    | _ => rfl

theorem voidUnder_snoc (r : ℕ × EventId) :
    p.voidUnder (lineage ++ [r]) = (p.voidUnder lineage).voidFor ⟨r.2, r.1⟩ := by
  cases p with
  | mk m events state cfg snapshot =>
    cases state with
    | tier3 t3 => simp [PollState.voidUnder, PollState.voidFor, voidedUnder_snoc]
    | _ => rfl

theorem replay_snoc (r : ℕ × EventId) : log.replayVkLineageVoids (lineage ++ [r]) =
    (((log.replayVkLineageVoids lineage).1.voidTier3PollsForReset r.1 r.2).1,
      (log.replayVkLineageVoids lineage).2 +
        ((log.replayVkLineageVoids lineage).1.voidTier3PollsForReset r.1 r.2).2) := by
  simp [VotingLog.replayVkLineageVoids]

theorem replay_polls (lineage : List (ℕ × EventId)) (pid : PollId) :
    (log.replayVkLineageVoids lineage).1.polls[pid]? =
      log.polls[pid]?.map (·.voidUnder lineage) := by
  induction lineage using List.reverseRecOn with
  | nil => simp [VotingLog.replayVkLineageVoids]
  | append_singleton lineage r ih =>
    rw [replay_snoc, VotingLog.voidTier3PollsForReset, Std.ExtTreeMap.getElem?_map, ih]
    cases log.polls[pid]? with
    | none => rfl
    | some p => simp [voidUnder_snoc r]

theorem replay_watermark (lineage : List (ℕ × EventId)) (epoch : ℕ) :
    Retired (log.replayVkLineageVoids lineage).1.retiredEpochWatermark epoch ↔
      Retired log.retiredEpochWatermark epoch ∨ ∃ r ∈ lineage, epoch ≤ r.1 := by
  induction lineage using List.reverseRecOn with
  | nil => simp [VotingLog.replayVkLineageVoids]
  | append_singleton lineage r ih =>
    rw [replay_snoc, VotingLog.voidTier3PollsForReset]
    simp only [retired_raise, ih, List.mem_append, List.mem_singleton]
    grind

theorem countP_voidFor (info : VoidedInfo) (l : List (PollId × PollState)) :
    l.countP (fun q => (q.2.voidFor info).isVoid) =
      l.countP (fun q => q.2.isVoid) + (l.filter fun q => q.2.voidable info.oldEpoch).length := by
  have hstep : ∀ p : PollState, (p.voidFor info).isVoid = (p.isVoid || p.voidable info.oldEpoch) ∧
      (p.isVoid = true → p.voidable info.oldEpoch = false) := by
    intro p
    cases p with
    | mk m events state cfg snapshot =>
      cases state with
      | tier3 t3 =>
        simp only [PollState.voidFor, PollState.isVoid, PollState.voidable, Tier3PollState.voidedBy]
        cases hvoidable : t3.voidable info.oldEpoch with
        | true =>
          have hnone : t3.voided = none := (live_eq_true.mp (voidable_eq_true.mp hvoidable).1).1
          simp [hnone]
        | false => simp
      | _ => exact ⟨rfl, fun _ => rfl⟩
  induction l with
  | nil => rfl
  | cons q l ih =>
    obtain ⟨hafter, hbefore⟩ := hstep q.2
    rw [List.countP_cons, List.countP_cons, List.filter_cons, ih, hafter]
    cases hvoid : q.2.isVoid with
    | true => simp [hbefore hvoid]; omega
    | false =>
      cases q.2.voidable info.oldEpoch with
      | true => simp; omega
      | false => simp

theorem voidCount_sweep (log : VotingLog) (oldEpoch : ℕ) (resetId : EventId) :
    (log.voidTier3PollsForReset oldEpoch resetId).1.voidCount =
      log.voidCount + (log.voidTier3PollsForReset oldEpoch resetId).2 := by
  rw [VotingLog.voidTier3PollsForReset, VotingLog.voidCount, VotingLog.voidCount,
    Std.ExtTreeMap.toList_map, List.countP_map]
  exact countP_voidFor ⟨resetId, oldEpoch⟩ log.polls.toList

theorem replay_count (log : VotingLog) (lineage : List (ℕ × EventId)) :
    (log.replayVkLineageVoids lineage).1.voidCount =
      log.voidCount + (log.replayVkLineageVoids lineage).2 := by
  induction lineage using List.reverseRecOn with
  | nil => rfl
  | append_singleton lineage r ih =>
    rw [replay_snoc, voidCount_sweep, ih]
    omega

theorem raise_of_retired {watermark : Option VoidedInfo} {info : VoidedInfo}
    (h : Retired watermark info.oldEpoch) : VotingLog.raiseWatermark watermark info = watermark := by
  obtain ⟨old, hold, hle⟩ := h
  rw [Option.mem_def] at hold
  simp [VotingLog.raiseWatermark, hold, hle]

theorem sweep_of_settled {oldEpoch : ℕ} {resetId : EventId}
    (hpolls : ∀ (pid : PollId) (p : PollState), log.polls[pid]? = some p → p.voidable oldEpoch = false)
    (hretired : Retired log.retiredEpochWatermark oldEpoch) :
    log.voidTier3PollsForReset oldEpoch resetId = (log, 0) := by
  have hmap : (log.polls.map fun _ p => p.voidFor ⟨resetId, oldEpoch⟩) = log.polls := by
    refine Std.ExtTreeMap.ext_getElem? fun pid => ?_
    rw [Std.ExtTreeMap.getElem?_map]
    cases hp : log.polls[pid]? with
    | none => rfl
    | some p =>
      have hnot : p.voidable oldEpoch = false := hpolls pid p hp
      cases p with
      | mk m events state cfg snapshot =>
        cases state with
        | tier3 t3 =>
          simp only [PollState.voidable] at hnot
          simp [PollState.voidFor, Tier3PollState.voidedBy, hnot]
        | _ => rfl
  have hnone : (log.polls.toList.filter fun q => q.2.voidable oldEpoch) = [] := by
    rw [List.filter_eq_nil_iff]
    intro q hq
    simp [hpolls q.1 q.2 (mem_toList_iff.mp hq)]
  have hraise : VotingLog.raiseWatermark log.retiredEpochWatermark ⟨resetId, oldEpoch⟩ =
      log.retiredEpochWatermark := raise_of_retired hretired
  rw [VotingLog.voidTier3PollsForReset]
  simp only [hmap, hnone, hraise, List.length_nil]

theorem replay_of_settled (lineage : List (ℕ × EventId))
    (h : ∀ r ∈ lineage, (∀ (pid : PollId) (p : PollState), log.polls[pid]? = some p →
        p.voidable r.1 = false) ∧ Retired log.retiredEpochWatermark r.1) : log.replayVkLineageVoids lineage = (log, 0) := by
  induction lineage using List.reverseRecOn with
  | nil => rfl
  | append_singleton lineage r ih =>
    obtain ⟨hpolls, hretired⟩ := h r (by simp)
    rw [replay_snoc, ih fun r' hr' => h r' (List.mem_append_left _ hr'),
      sweep_of_settled hpolls hretired]
    rfl

theorem voidUnder_settled {r : ℕ × EventId} (hr : r ∈ lineage) :
    (p.voidUnder lineage).voidable r.1 = false := by
  cases p with
  | mk m events state cfg snapshot =>
    cases state with
    | tier3 t3 =>
      rw [PollState.voidUnder, PollState.voidable, ← Bool.not_eq_true]
      intro hvoidable
      obtain ⟨hlive, hepoch⟩ := voidable_eq_true.mp hvoidable
      unfold Tier3PollState.voidedUnder at hlive hepoch
      by_cases hbefore : t3.live = true
      · rw [if_pos hbefore] at hlive hepoch
        obtain ⟨hnone, -⟩ := live_eq_true.mp hlive
        simp only [firstCovering, Option.map_eq_none_iff, List.find?_eq_none] at hnone
        exact hnone r hr (by simpa using hepoch)
      · rw [if_neg hbefore] at hlive
        exact hbefore hlive
    | _ => rfl

end Lineage

/-- A replayed lineage makes every open poll void under the oldest reset that retires its epoch,
counts the polls it makes void, and does nothing a second time. -/
theorem replay_lineage (log : VotingLog) (lineage : List (ℕ × EventId)) :
    (∀ pid : PollId, (log.replayVkLineageVoids lineage).1.polls[pid]? =
        log.polls[pid]?.map (·.voidUnder lineage)) ∧
      (log.replayVkLineageVoids lineage).1.voidCount =
        log.voidCount + (log.replayVkLineageVoids lineage).2 ∧
      (log.replayVkLineageVoids lineage).1.replayVkLineageVoids lineage =
        ((log.replayVkLineageVoids lineage).1, 0) := by
  refine ⟨replay_polls lineage, replay_count log lineage, replay_of_settled lineage ?_⟩
  refine fun r hr => ⟨fun pid p hp => ?_, (replay_watermark lineage r.1).mpr (.inr ⟨r, hr, le_rfl⟩)⟩
  rw [replay_polls] at hp
  obtain ⟨q, -, rfl⟩ := Option.map_eq_some_iff.mp hp
  exact voidUnder_settled hr

def resetSteps : List EngineStep := secretSteps ++ [.reset 1 9]

theorem resetSteps_voided : ∃ p t3, (run secretParams resetSteps).node.log.polls[secretPoll]? =
    some p ∧ p.tierState = .tier3 t3 ∧ t3.voided = some ⟨9, 1⟩ ∧ t3.meta.communityEpoch = 1 := by
  obtain ⟨t3, hpoll, hvoided⟩ := Option.map_eq_some_iff.mp (show ((run secretParams
    resetSteps).node.log.tier3Of secretPoll).map (fun t => (t.voided, t.meta.communityEpoch)) =
      some (some ⟨9, 1⟩, 1) by decide +kernel)
  obtain ⟨p, hp, hstate⟩ := tier3Of_eq_some hpoll
  exact ⟨p, t3, hp, hstate, congrArg Prod.fst hvoided, congrArg Prod.snd hvoided⟩

theorem voided_iff_retired_sample : ∃ t3 : Tier3PollState, t3.voided = some ⟨9, 1⟩ ∧
    ¬t3.Terminal ∧ Retired (run secretParams resetSteps).node.log.retiredEpochWatermark 1 := by
  obtain ⟨p, t3, hp, hstate, hvoided, hepoch⟩ := resetSteps_voided
  have hrule := voided_iff_retired secretParams resetSteps hp hstate
  have hopen : ¬t3.Terminal := hrule.1 (by rw [hvoided]; rfl)
  refine ⟨t3, hvoided, hopen, ?_⟩
  have hretired := (hrule.2 hopen).mp (by rw [hvoided]; rfl)
  rwa [hepoch] at hretired

def laterReset : List EngineStep := [.pass .closeExpired 5, .reset 3 11]

theorem voided_frozen_sample : ∃ t3 t3' : Tier3PollState, t3.voided = some ⟨9, 1⟩ ∧
    (run secretParams (resetSteps ++ laterReset)).node.log.tier3Of secretPoll = some t3' ∧
      t3' = { t3 with committeeOracle := t3'.committeeOracle } := by
  obtain ⟨p, t3, hp, hstate, hvoided, -⟩ := resetSteps_voided
  obtain ⟨t3', hpoll⟩ := Option.isSome_iff_exists.mp (show ((run secretParams
    (resetSteps ++ laterReset)).node.log.tier3Of secretPoll).isSome = true by decide +kernel)
  obtain ⟨p', hp', hstate'⟩ := tier3Of_eq_some hpoll
  exact ⟨t3, t3', hvoided, hpoll, voided_frozen secretParams resetSteps laterReset hp hstate
    (by rw [hvoided]; rfl) hp' hstate'⟩

end Harmony.Voting
