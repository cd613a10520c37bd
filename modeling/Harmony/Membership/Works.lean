import Harmony.Membership.Rotation

/-! Recovery proposals along the replay and under the evaluator. An entry is opened
by a proposal, gathers signers, and while its window is open notes whether the new
admin is Joined; at a time reference the evaluator executes the least rival of each
lost admin. -/

namespace Harmony.Membership

open Harmony.Lib

/-! ### The evaluator -/

def outcomeOf (st : ReplayState) (t : ℕ) : EventId → RecoveryWork → RecoveryOutcome :=
  recoveryOutcome st.recVetoes st.recConfigChangeWalls t

def Executable (st : ReplayState) (t : ℕ) (id : EventId) (work : RecoveryWork) : Prop :=
  st.recProposals[id]? = some work ∧ (outcomeOf st t id work).phase = .executed

def Executed (st : ReplayState) (t : ℕ) (id : EventId) (work : RecoveryWork) (deadlineMs : ℕ) :
    Prop :=
  st.recProposals[id]? = some work ∧
    ∃ o, (recoveryOutcomesAt st t)[id]? = some o ∧ o.phase = .executed ∧
      o.deadlineMs = some deadlineMs

section Evaluator

variable {st : ReplayState} {t : ℕ} {id id' : EventId} {work work' : RecoveryWork} {d d' : ℕ}

theorem recoveryWinners_eq (outcome : EventId → RecoveryWork → RecoveryOutcome)
    (recProposals : BTreeMap EventId RecoveryWork) :
    recoveryWinners outcome recProposals =
      BTreeMap.leastBy (fun p : EventId × RecoveryWork => p.2.lostAdmin)
        (fun p => rivalKey p.1 p.2 (outcome p.1 p.2))
        (recProposals.toList.filter fun p => decide ((outcome p.1 p.2).phase = .executed)) := by
  simp only [recoveryWinners, BTreeMap.leastBy, List.foldl_filter, decide_eq_true_eq]

theorem outcomes_get :
    (recoveryOutcomesAt st t)[id]? = st.recProposals[id]?.map fun work =>
      if (outcomeOf st t id work).phase = .executed ∧
          (recoveryWinners (outcomeOf st t) st.recProposals)[work.lostAdmin]? ≠
            some (rivalKey id work (outcomeOf st t id work)) then
        { outcomeOf st t id work with phase := .superseded }
      else outcomeOf st t id work := by
  simp only [recoveryOutcomesAt, evaluateRecoveryPhases, Std.ExtTreeMap.getElem?_map]
  rfl

/-- An executable proposal has signers up to its threshold within thirty days, and
`t` is past the deadline that the last of them set. -/
theorem executable_deadline (h : (outcomeOf st t id work).phase = .executed) :
    ∃ tr d, work.tRReached = some tr ∧ tr - work.t0WallMs ≤ adminProposalExpiryMs ∧
      checkedAdd tr work.vetoWindowMs = some d ∧
      (outcomeOf st t id work).deadlineMs = some d ∧ d < t ∧ work.newAdminJoined = true ∧
      (∀ v ∈ st.recVetoes, v.1 = id → inRecoveryWindow work.t0WallMs (some d) v.2.1 = false) ∧
      ∀ w ∈ st.recConfigChangeWalls, inRecoveryWindow work.t0WallMs (some d) w = false := by
  simp only [outcomeOf, recoveryOutcome] at h ⊢
  split_ifs at h with hveto hconfig hexp
  cases hd : (recoveryDeadline work t).1 with
  | none => simp [hd] at h
  | some d =>
    simp only [hd] at h hveto hconfig ⊢
    split_ifs at h with hlate
    unfold recoveryDeadline at hd
    split at hd
    · rename_i tr htr
      split_ifs at hd with hage
      cases hadd : checkedAdd tr work.vetoWindowMs with
      | none => simp [hadd] at hd
      | some d' =>
        simp only [hadd, Option.some.injEq] at hd
        subst hd
        refine ⟨tr, d', htr, hage, hadd, rfl, hlate.1, hlate.2, fun v hv hid => ?_, fun w hw => ?_⟩
        · by_contra hwin
          refine hveto ?_
          rw [Option.isSome_map, List.find?_isSome]
          exact ⟨v, hv, by simpa [hid] using hwin⟩
        · by_contra hwin
          exact hconfig (List.any_eq_true.mpr ⟨w, hw, by simpa using hwin⟩)
    · simp at hd

theorem executed_iff :
    Executed st t id work d ↔
      Executable st t id work ∧ (outcomeOf st t id work).deadlineMs = some d ∧
        (recoveryWinners (outcomeOf st t) st.recProposals)[work.lostAdmin]? =
          some (rivalKey id work (outcomeOf st t id work)) := by
  constructor
  · rintro ⟨hw, o, ho, hphase, hd⟩
    rw [outcomes_get, hw, Option.map_some, Option.some.injEq] at ho
    split_ifs at ho with hlost
    · rw [← ho] at hphase
      simp at hphase
    · subst ho
      exact ⟨⟨hw, hphase⟩, hd, by simpa [hphase] using hlost⟩
  · rintro ⟨⟨hw, hphase⟩, hd, hwin⟩
    refine ⟨hw, outcomeOf st t id work, ?_, hphase, hd⟩
    rw [outcomes_get, hw, Option.map_some, if_neg (by simp [hwin])]

theorem Executed.executable (h : Executed st t id work d) : Executable st t id work :=
  (executed_iff.mp h).1

/-- The winner has the least key of the executable rivals. -/
theorem executed_iff_least :
    Executed st t id work d ↔
      Executable st t id work ∧ (outcomeOf st t id work).deadlineMs = some d ∧
        ∀ id' work', Executable st t id' work' → work'.lostAdmin = work.lostAdmin →
          rivalKey id work (outcomeOf st t id work) ≤
            rivalKey id' work' (outcomeOf st t id' work') := by
  rw [executed_iff, recoveryWinners_eq]
  refine and_congr_right fun hex => and_congr_right fun _ => ?_
  have hmem : ∀ {id' work'}, Executable st t id' work' ↔
      (id', work') ∈ st.recProposals.toList.filter
        fun p => decide ((outcomeOf st t p.1 p.2).phase = .executed) := by
    intro id' work'
    simp [Executable, Std.ExtTreeMap.mem_toList_iff_getElem?_eq_some]
  constructor
  · intro hwin id' work' hex' hlost
    obtain ⟨r, hr, hle⟩ := BTreeMap.get_leastBy_le
      (fun p : EventId × RecoveryWork => p.2.lostAdmin)
      (fun p => rivalKey p.1 p.2 (outcomeOf st t p.1 p.2)) (hmem.mp hex')
    rw [hlost, hwin, Option.some.injEq] at hr
    rwa [hr]
  · intro hleast
    obtain ⟨r, hr, hle⟩ := BTreeMap.get_leastBy_le
      (fun p : EventId × RecoveryWork => p.2.lostAdmin)
      (fun p => rivalKey p.1 p.2 (outcomeOf st t p.1 p.2)) (hmem.mp hex)
    obtain ⟨⟨id', work'⟩, hp, hlost, hkey⟩ := BTreeMap.exists_of_get_leastBy hr
    have hge := hleast id' work' (hmem.mpr hp) hlost
    rw [hr, le_antisymm hle (hkey ▸ hge)]

theorem rivalKey_inj {o o' : RecoveryOutcome} (h : rivalKey id work o = rivalKey id' work' o') :
    id = id' := by
  simp only [rivalKey, EmbeddingLike.apply_eq_iff_eq, Prod.mk.injEq] at h
  exact h.2

theorem Executed.unique (h : Executed st t id work d) (h' : Executed st t id' work' d')
    (hlost : work.lostAdmin = work'.lostAdmin) : id = id' ∧ work = work' ∧ d = d' := by
  obtain ⟨hex, hd, hleast⟩ := executed_iff_least.mp h
  obtain ⟨hex', hd', hleast'⟩ := executed_iff_least.mp h'
  have hid := rivalKey_inj (le_antisymm (hleast _ _ hex' hlost.symm) (hleast' _ _ hex hlost))
  subst hid
  have hwork : work = work' := Option.some.inj (hex.1.symm.trans hex'.1)
  subst hwork
  exact ⟨rfl, rfl, Option.some.inj (hd.symm.trans hd')⟩

theorem exists_executed {o : RecoveryOutcome} (hw : st.recProposals[id]? = some work)
    (ho : (recoveryOutcomesAt st t)[id]? = some o) (hphase : o.phase = .executed) :
    ∃ d, o.deadlineMs = some d ∧ Executed st t id work d := by
  have ho' := ho
  rw [outcomes_get, hw, Option.map_some, Option.some.injEq] at ho'
  split_ifs at ho' with hlost
  · rw [← ho'] at hphase
    simp at hphase
  · subst ho'
    obtain ⟨tr, d, -, -, -, hd, -⟩ := executable_deadline hphase
    exact ⟨d, hd, hw, _, ho, hphase, hd⟩

end Evaluator

/-! ### Work entries along the replay -/

section Opening

variable (env : ReplayEnv) (st : ReplayState) (e : SignedMembershipEvent)

/-- The entry a proposal opens under `config`, with the cosigns queued for it. -/
def openedWork (config : RecoveryDesignates) (lostAdmin newAdmin : OwnerAddr)
    (configDigest : Digest) : RecoveryWork :=
  (st.recPendingCosigns e.id).foldl (fun w cosign => foldRecoveryCosign w cosign e.hlc.wallMs)
    (maybeTipRecoveryThreshold
      ⟨e.actor, lostAdmin, newAdmin, e.hlc.wallMs, config.threshold, config.vetoWindowMs,
        config.designates, configDigest, {e.actor}, none, none, isJoinedMember st.m newAdmin⟩
      e.hlc.wallMs)

/-- A proposal is opened by a Joined designate under the running config. -/
def opens (config : RecoveryDesignates) (configDigest : Digest) : Prop :=
  st.m.recoveryDesignates = some config ∧
    runningRecoveryDigest env.crypto st.m = some configDigest ∧
    e.actor ∈ config.designates ∧ isJoinedMember st.m e.actor = true

theorem applyRecoveryProposal_cases (lostAdmin newAdmin : OwnerAddr) (configDigest : Digest) :
    applyRecoveryProposal env st e lostAdmin newAdmin configDigest = none ∨
      ∃ config, opens env st e config configDigest ∧
        applyRecoveryProposal env st e lostAdmin newAdmin configDigest = some { st with
          recPendingCosigns := Function.update st.recPendingCosigns e.id []
          recProposals := st.recProposals.insert e.id
            (openedWork st e config lostAdmin newAdmin configDigest) } := by
  unfold applyRecoveryProposal
  cases hc : st.m.recoveryDesignates with
  | none => exact Or.inl rfl
  | some config =>
    simp only
    split_ifs with hdigest hactor
    · exact Or.inl rfl
    · exact Or.inl rfl
    · rw [not_or, not_not] at hactor
      exact Or.inr ⟨config, ⟨hc, by simpa using hdigest, hactor.1, by simpa using hactor.2⟩, rfl⟩

end Opening

/-- What only the three recovery kinds move. -/
structure RecoveryLog where
  proposals : BTreeMap EventId RecoveryWork
  pendingCosigns : EventId → List QueuedRecoveryCosign
  vetoes : List (EventId × ℕ × OwnerAddr)

def ReplayState.recoveryLog (st : ReplayState) : RecoveryLog :=
  ⟨st.recProposals, st.recPendingCosigns, st.recVetoes⟩

def isRecoveryEvent (e : SignedMembershipEvent) : Bool :=
  match e.kind with
  | .recoveryProposal _ _ _ => true
  | .recoveryCosign _ => true
  | .recoveryVeto _ => true
  | _ => false

section Works

variable {env : ReplayEnv} {st st' : ReplayState} {e : SignedMembershipEvent}

theorem applyEpochRotation_some {priorEpoch : ℕ} {triggeredBy : EventId}
    {recipients : List RecipientCiphertext}
    (ha : applyEpochRotation env st e priorEpoch triggeredBy recipients = some st') :
    ∃ m applied, st' = { st with m := m, recRotationApplied := applied } := by
  obtain ⟨verdict, -, rfl⟩ := Option.map_eq_some_iff.mp ha
  exact ⟨_, _, rfl⟩

theorem applyEpochCatchup_some {epoch : ℕ} {triggeredBy : EventId}
    {recipients : List RecipientCiphertext}
    (ha : applyEpochCatchup env st e epoch triggeredBy recipients = some st') :
    ∃ m, st' = { st with m := m } := by
  unfold applyEpochCatchup at ha
  cases ht : catchupTrigger env st triggeredBy with
  | none => simp [ht] at ha
  | some target =>
    simp only [ht] at ha
    split_ifs at ha
    exact ⟨_, (Option.some.inj ha).symm⟩

theorem applyEvent_recoveryLog (hk : isRecoveryEvent e = false)
    (ha : applyEvent env st e = some st') : st'.recoveryLog = st.recoveryLog := by
  cases hkind : e.kind with
  | recoveryProposal lostAdmin newAdmin configDigest => simp [isRecoveryEvent, hkind] at hk
  | recoveryCosign target => simp [isRecoveryEvent, hkind] at hk
  | recoveryVeto target => simp [isRecoveryEvent, hkind] at hk
  | epochRotation priorEpoch triggeredBy recipients =>
    simp only [applyEvent, hkind] at ha
    obtain ⟨m, applied, rfl⟩ := applyEpochRotation_some ha
    rfl
  | epochCatchup epoch triggeredBy recipients =>
    simp only [applyEvent, hkind] at ha
    obtain ⟨m, rfl⟩ := applyEpochCatchup_some ha
    rfl
  | adminProposal kind =>
    simp only [applyEvent, hkind, Option.some.injEq, applyAdminProposal_eq hkind] at ha
    rw [← ha]
    rfl
  | adminCountersign target =>
    simp only [applyEvent, hkind, Option.some.injEq, applyAdminCountersign_eq hkind] at ha
    rw [← ha]
    rfl
  | dfrostResetCosign target =>
    simp only [applyEvent, hkind, Option.some.injEq] at ha
    rw [← ha]
    unfold applyDfrostResetCosign
    split
    · split_ifs <;> rfl
    · rfl
  | dfrostResetResponse target verdict groupSig newVk =>
    simp only [applyEvent, hkind, Option.some.injEq] at ha
    rw [← ha]
    simp only [applyDfrostResetResponse]
    split <;> rfl
  | _ =>
    simp only [applyEvent, hkind, Option.some.injEq] at ha
    cases ha
    rfl

/-- The note of whether the new admin is Joined, taken while the window is open. -/
def refreshed (e : SignedMembershipEvent) (m : MaterializedMembership) (work : RecoveryWork) :
    RecoveryWork :=
  if work.deadlineAtReplay.all (fun d => decide (e.hlc.wallMs ≤ d)) then
    { work with newAdminJoined := isJoinedMember m work.newAdmin }
  else work

theorem step_of_none (ha : applyEvent env st e = none) :
    (step env st e).m = st.m ∧ (step env st e).recoveryLog = st.recoveryLog := by
  rw [step, ha]
  exact ⟨rfl, rfl⟩

theorem step_of_some (ha : applyEvent env st e = some st') :
    (step env st e).m = st'.m ∧ (step env st e).recPendingCosigns = st'.recPendingCosigns ∧
      (step env st e).recVetoes = st'.recVetoes ∧
      ∀ id : EventId,
        (step env st e).recProposals[id]? = st'.recProposals[id]?.map (refreshed e st'.m) := by
  rw [step, ha]
  refine ⟨rfl, rfl, rfl, fun id => ?_⟩
  simp only [Option.map_some, Option.getD_some, refreshNewAdmin, Std.ExtTreeMap.getElem?_map]
  rfl

theorem step_recVetoes :
    (step env st e).recVetoes =
      match e.kind with
      | .recoveryVeto target =>
        if vetoQualifies env.adminAddr st.m e.actor then
          st.recVetoes ++ [(target, e.hlc.wallMs, e.actor)]
        else st.recVetoes
      | _ => st.recVetoes := by
  cases ha : applyEvent env st e with
  | none =>
    have hlog := congrArg RecoveryLog.vetoes (step_of_none ha).2
    cases hk : e.kind <;> first | exact hlog | simp [applyEvent, hk] at ha
  | some st' =>
    rw [(step_of_some ha).2.2.1]
    cases hk : e.kind with
    | recoveryVeto target =>
      simp only [applyEvent, hk, Option.some.injEq] at ha
      rw [← ha, applyRecoveryVeto]
      split_ifs <;> rfl
    | recoveryProposal lostAdmin newAdmin configDigest =>
      simp only [applyEvent, hk] at ha
      rcases applyRecoveryProposal_cases env st e lostAdmin newAdmin configDigest with
        hnone | ⟨config, -, hsome⟩
      · simp [hnone] at ha
      · rw [hsome, Option.some.injEq] at ha
        rw [← ha]
    | recoveryCosign target =>
      simp only [applyEvent, hk, Option.some.injEq] at ha
      rw [← ha, applyRecoveryCosign]
      split <;> rfl
    | _ =>
      exact congrArg RecoveryLog.vetoes
        (applyEvent_recoveryLog (by simp [isRecoveryEvent, hk]) ha)

/-- How a step moves the entry of `id`: it is opened, cosigned or kept, and then
refreshed; an event that is dropped leaves every entry as it is. -/
theorem step_work_cases {id : EventId} {work' : RecoveryWork}
    (h : (step env st e).recProposals[id]? = some work') :
    (applyEvent env st e = none ∧ st.recProposals[id]? = some work') ∨
      ∃ work, work' = refreshed e (step env st e).m work ∧
        (st.recProposals[id]? = some work ∨
          (∃ old, st.recProposals[id]? = some old ∧ e.kind = .recoveryCosign id ∧
            work = foldRecoveryCosign old (queuedCosign env st e) e.hlc.wallMs) ∨
          ∃ lostAdmin newAdmin configDigest config,
            e.kind = .recoveryProposal lostAdmin newAdmin configDigest ∧ id = e.id ∧
              opens env st e config configDigest ∧
              work = openedWork st e config lostAdmin newAdmin configDigest) := by
  cases ha : applyEvent env st e with
  | none =>
    refine Or.inl ⟨rfl, ?_⟩
    rw [← h]
    exact congrArg (·[id]?) (congrArg RecoveryLog.proposals (step_of_none ha).2).symm
  | some st' =>
    obtain ⟨hm, -, -, hget⟩ := step_of_some ha
    rw [hget] at h
    obtain ⟨work, hwork, rfl⟩ := Option.map_eq_some_iff.mp h
    refine Or.inr ⟨work, by rw [hm], ?_⟩
    cases hk : e.kind with
    | recoveryProposal lostAdmin newAdmin configDigest =>
      simp only [applyEvent, hk] at ha
      rcases applyRecoveryProposal_cases env st e lostAdmin newAdmin configDigest with
        hnone | ⟨config, hopen, hsome⟩
      · simp [hnone] at ha
      · rw [hsome, Option.some.injEq] at ha
        rw [← ha] at hwork
        simp only [BTreeMap.get_insert] at hwork
        split_ifs at hwork with hid
        · exact Or.inr (Or.inr ⟨_, _, _, config, rfl, hid.symm, hopen,
            (Option.some.inj hwork).symm⟩)
        · exact Or.inl hwork
    | recoveryCosign target =>
      simp only [applyEvent, hk, Option.some.injEq] at ha
      unfold applyRecoveryCosign at ha
      split at ha
      · rename_i old hold
        rw [← ha] at hwork
        simp only [BTreeMap.get_insert] at hwork
        split_ifs at hwork with hid
        · subst hid
          exact Or.inr (Or.inl ⟨old, hold, rfl, (Option.some.inj hwork).symm⟩)
        · exact Or.inl hwork
      · rw [← ha] at hwork
        exact Or.inl hwork
    | recoveryVeto target =>
      simp only [applyEvent, hk, Option.some.injEq, applyRecoveryVeto] at ha
      split_ifs at ha <;> rw [← ha] at hwork <;> exact Or.inl hwork
    | _ =>
      have hlog := congrArg RecoveryLog.proposals
        (applyEvent_recoveryLog (by simp [isRecoveryEvent, hk]) ha)
      exact Or.inl (by rw [← hwork]; exact congrArg (·[id]?) hlog.symm)

/-- While a window is open at `w`, the note on the new admin is current. -/
def Current (st : ReplayState) (w : ℕ) : Prop :=
  ∀ (id : EventId) work, st.recProposals[id]? = some work →
    work.deadlineAtReplay.all (fun d => decide (w ≤ d)) = true →
    work.newAdminJoined = isJoinedMember st.m work.newAdmin

theorem Current.mono {w w' : ℕ} (h : Current st w) (hle : w ≤ w') : Current st w' := by
  intro id work hw hopen
  refine h id work hw ?_
  cases hd : work.deadlineAtReplay with
  | none => rfl
  | some d =>
    simp only [hd, Option.all_some, decide_eq_true_eq] at hopen ⊢
    omega

theorem refreshed_fields (m : MaterializedMembership) (work : RecoveryWork) :
    refreshed e m work = { work with newAdminJoined := (refreshed e m work).newAdminJoined } := by
  unfold refreshed
  split_ifs <;> rfl

theorem step_current (h : Current st e.hlc.wallMs) : Current (step env st e) e.hlc.wallMs := by
  intro id work' hw hopen
  rcases step_work_cases hw with ⟨ha, hold⟩ | ⟨work, rfl, -⟩
  · rw [(step_of_none ha).1]
    exact h id work' hold hopen
  · have hd : (refreshed e (step env st e).m work).deadlineAtReplay = work.deadlineAtReplay := by
      rw [refreshed_fields]
    rw [hd] at hopen
    simp only [refreshed, hopen, if_true]

theorem replay_current {sorted : List SignedMembershipEvent} {w : ℕ}
    (hs : sorted.Pairwise fun a b => a.hlc.wallMs ≤ b.hlc.wallMs)
    (hw : ∀ a ∈ sorted, a.hlc.wallMs ≤ w) : Current (replay env sorted) w := by
  induction sorted using List.reverseRecOn generalizing w with
  | nil => intro id work hget; simp [replay, ReplayState.init] at hget
  | append_singleton sorted e ih =>
    rw [List.pairwise_append] at hs
    have hprev := ih hs.1 fun a ha => hs.2.2 a ha e (by simp)
    rw [replay_snoc]
    exact (step_current hprev).mono (hw e (by simp))

/-- An event that is no recovery event and leaves everybody's Joined status as it is
leaves every entry as it is. -/
theorem step_recProposals_quiet (hcur : Current st e.hlc.wallMs) (hk : isRecoveryEvent e = false)
    (hjoined : ∀ x, isJoinedMember (step env st e).m x = isJoinedMember st.m x) :
    (step env st e).recProposals = st.recProposals := by
  refine Std.ExtTreeMap.ext_getElem? fun id => ?_
  cases ha : applyEvent env st e with
  | none =>
    have hlog := congrArg RecoveryLog.proposals (step_of_none ha).2
    exact congrArg (·[id]?) hlog
  | some st' =>
    obtain ⟨hm, -, -, hget⟩ := step_of_some ha
    have hlog : st'.recProposals = st.recProposals :=
      congrArg RecoveryLog.proposals (applyEvent_recoveryLog hk ha)
    rw [hget, hlog]
    cases hw : st.recProposals[id]? with
    | none => rfl
    | some work =>
      simp only [Option.map_some, Option.some.injEq, refreshed]
      split_ifs with hopen
      · rw [← hm, hjoined, ← hcur id work hw hopen]
      · rfl

/-! ### What an entry is bound to -/

/-- The fields fixed when a proposal is opened. -/
structure Bound where
  proposer : OwnerAddr
  lostAdmin : OwnerAddr
  newAdmin : OwnerAddr
  t0WallMs : ℕ
  threshold : ℕ
  vetoWindowMs : ℕ
  designates : List OwnerAddr
  configDigest : Digest

def RecoveryWork.bound (work : RecoveryWork) : Bound :=
  ⟨work.proposer, work.lostAdmin, work.newAdmin, work.t0WallMs, work.threshold,
    work.vetoWindowMs, work.designates, work.configDigest⟩

@[simp] theorem maybeTip_bound (work : RecoveryWork) (w : ℕ) :
    (maybeTipRecoveryThreshold work w).bound = work.bound := by
  unfold maybeTipRecoveryThreshold
  split_ifs <;> rfl

@[simp] theorem foldRecoveryCosign_bound (work : RecoveryWork) (cosign : QueuedRecoveryCosign)
    (w : ℕ) : (foldRecoveryCosign work cosign w).bound = work.bound := by
  unfold foldRecoveryCosign
  split_ifs
  · rfl
  · rfl
  · rfl
  · rw [maybeTip_bound]
    rfl
  · rfl

@[simp] theorem refreshed_bound (m : MaterializedMembership) (work : RecoveryWork) :
    (refreshed e m work).bound = work.bound := by
  rw [refreshed_fields]
  rfl

theorem openedWork_bound (st : ReplayState) (e : SignedMembershipEvent)
    (config : RecoveryDesignates) (lostAdmin newAdmin : OwnerAddr) (configDigest : Digest) :
    (openedWork st e config lostAdmin newAdmin configDigest).bound =
      ⟨e.actor, lostAdmin, newAdmin, e.hlc.wallMs, config.threshold, config.vetoWindowMs,
        config.designates, configDigest⟩ := by
  unfold openedWork
  refine List.foldlRecOn (motive := fun w : RecoveryWork => w.bound = _) _ _ ?_ fun w hw c _ => ?_
  · rw [maybeTip_bound]
    rfl
  · rw [foldRecoveryCosign_bound, hw]

/-- The events of a replay, each with the running state it meets. -/
def positions (env : ReplayEnv) (sorted : List SignedMembershipEvent) :
    List (ReplayState × SignedMembershipEvent) :=
  trace (step env) (ReplayState.init env.adminAddr) sorted

theorem positions_snoc (env : ReplayEnv) (sorted : List SignedMembershipEvent)
    (e : SignedMembershipEvent) :
    positions env (sorted ++ [e]) = positions env sorted ++ [(replay env sorted, e)] :=
  trace_snoc _ _ _ _

theorem mem_positions {sorted : List SignedMembershipEvent} {s : ReplayState}
    {f : SignedMembershipEvent} :
    (s, f) ∈ positions env sorted ↔ ∃ pre post, sorted = pre ++ f :: post ∧ s = replay env pre :=
  mem_trace

theorem mem_of_position {sorted : List SignedMembershipEvent} {s : ReplayState}
    {f : SignedMembershipEvent} (h : (s, f) ∈ positions env sorted) : f ∈ sorted := by
  obtain ⟨pre, post, rfl, -⟩ := mem_positions.mp h
  simp

/-- Along a replay, what holds of an entry when it is opened, is kept by cosigns and by
the note on the new admin, and stands as the log grows, holds of every entry. -/
theorem works_induction {P : List SignedMembershipEvent → EventId → RecoveryWork → Prop}
    (hgrow : ∀ sorted e id work, (∀ a ∈ sorted, a.hlc.wallMs ≤ e.hlc.wallMs) → P sorted id work →
      P (sorted ++ [e]) id work)
    (hrefresh : ∀ sorted e id m work, P sorted id work → P sorted id (refreshed e m work))
    (hcosign : ∀ sorted e id work, (∀ a ∈ sorted, a.hlc.wallMs ≤ e.hlc.wallMs) →
      e.kind = .recoveryCosign id → P (sorted ++ [e]) id work →
      P (sorted ++ [e]) id
        (foldRecoveryCosign work (queuedCosign env (replay env sorted) e) e.hlc.wallMs))
    (hopen : ∀ sorted e lostAdmin newAdmin configDigest config,
      (sorted ++ [e]).Pairwise (fun a b => a.hlc.wallMs ≤ b.hlc.wallMs) →
      e.kind = .recoveryProposal lostAdmin newAdmin configDigest →
      opens env (replay env sorted) e config configDigest →
      P (sorted ++ [e]) e.id
        (openedWork (replay env sorted) e config lostAdmin newAdmin configDigest))
    {sorted : List SignedMembershipEvent}
    (hs : sorted.Pairwise fun a b => a.hlc.wallMs ≤ b.hlc.wallMs) {id : EventId}
    {work : RecoveryWork} (h : (replay env sorted).recProposals[id]? = some work) :
    P sorted id work := by
  induction sorted using List.reverseRecOn generalizing work with
  | nil => simp [replay, ReplayState.init] at h
  | append_singleton sorted e ih =>
    have hle : ∀ a ∈ sorted, a.hlc.wallMs ≤ e.hlc.wallMs :=
      fun a ha => (List.pairwise_append.mp hs).2.2 a ha e (by simp)
    have hold : ∀ {old : RecoveryWork}, (replay env sorted).recProposals[id]? = some old →
        P (sorted ++ [e]) id old := fun hget =>
      hgrow _ _ _ _ hle (ih (List.pairwise_append.mp hs).1 hget)
    rw [replay_snoc] at h
    rcases step_work_cases h with ⟨-, hkeep⟩ | ⟨old, rfl, hkeep | ⟨older, hget, hk, rfl⟩ | hopened⟩
    · exact hold hkeep
    · exact hrefresh _ _ _ _ _ (hold hkeep)
    · exact hrefresh _ _ _ _ _ (hcosign _ _ _ _ hle hk (hold hget))
    · obtain ⟨lostAdmin, newAdmin, configDigest, config, hk, rfl, hopens, rfl⟩ := hopened
      exact hrefresh _ _ _ _ _ (hopen _ _ _ _ _ _ hs hk hopens)

def openedBy (env : ReplayEnv) (sorted : List SignedMembershipEvent) (id : EventId)
    (work : RecoveryWork) (s : ReplayState) (p : SignedMembershipEvent)
    (config : RecoveryDesignates) : Prop :=
  (s, p) ∈ positions env sorted ∧ p.id = id ∧
    p.kind = .recoveryProposal work.lostAdmin work.newAdmin work.configDigest ∧
    opens env s p config work.configDigest ∧
    work.bound = ⟨p.actor, work.lostAdmin, work.newAdmin, p.hlc.wallMs, config.threshold,
      config.vetoWindowMs, config.designates, work.configDigest⟩

theorem openedBy_of_bound {sorted : List SignedMembershipEvent} {id : EventId}
    {work work' : RecoveryWork} {s : ReplayState} {p : SignedMembershipEvent}
    {config : RecoveryDesignates} (h : openedBy env sorted id work s p config)
    (hbound : work'.bound = work.bound) : openedBy env sorted id work' s p config := by
  have hfields := hbound
  simp only [RecoveryWork.bound, Bound.mk.injEq] at hfields
  obtain ⟨-, hlost, hnew, -, -, -, -, hdigest⟩ := hfields
  unfold openedBy
  rw [hlost, hnew, hdigest, hbound]
  exact h

theorem replay_openedBy {sorted : List SignedMembershipEvent}
    (hs : sorted.Pairwise fun a b => a.hlc.wallMs ≤ b.hlc.wallMs) {id : EventId}
    {work : RecoveryWork} (h : (replay env sorted).recProposals[id]? = some work) :
    ∃ s p config, openedBy env sorted id work s p config := by
  refine works_induction (P := fun sorted id work => ∃ s p config,
    openedBy env sorted id work s p config) ?_ ?_ ?_ ?_ hs h
  · rintro sorted e id work - ⟨s, p, config, hmem, hrest⟩
    exact ⟨s, p, config, by rw [positions_snoc]; exact List.mem_append_left _ hmem, hrest⟩
  · rintro sorted e id m work ⟨s, p, config, hopened⟩
    exact ⟨s, p, config, openedBy_of_bound hopened (refreshed_bound _ _)⟩
  · rintro sorted e id work - - ⟨s, p, config, hopened⟩
    exact ⟨s, p, config, openedBy_of_bound hopened (foldRecoveryCosign_bound _ _ _)⟩
  · rintro sorted e lostAdmin newAdmin configDigest config - hk hopens
    have hbound := openedWork_bound (replay env sorted) e config lostAdmin newAdmin
      configDigest
    have hfields := hbound
    simp only [RecoveryWork.bound, Bound.mk.injEq] at hfields
    obtain ⟨-, hlost, hnew, -, -, -, -, hdigest⟩ := hfields
    refine ⟨replay env sorted, e, config, ?_, rfl, ?_, ?_, ?_⟩
    · rw [positions_snoc]
      exact List.mem_append_right _ (by simp)
    · rw [hk, hlost, hnew, hdigest]
    · rw [hdigest]
      exact hopens
    · rw [hbound, hlost, hnew, hdigest]

theorem fresh_of_entry {pre post : List SignedMembershipEvent} {id : EventId} {work : RecoveryWork}
    (hs : pre.Pairwise fun a b => a.hlc.wallMs ≤ b.hlc.wallMs)
    (hids : KeyNodup (·.id) (pre ++ post)) (hget : (replay env pre).recProposals[id]? = some work) :
    ∀ a ∈ post, a.id ≠ id := by
  obtain ⟨s, p, -, hpos, hid, -⟩ := replay_openedBy hs hget
  intro a ha
  rw [← hid]
  exact (hids.ne_of_append (mem_of_position hpos) ha).symm

end Works

end Harmony.Membership
