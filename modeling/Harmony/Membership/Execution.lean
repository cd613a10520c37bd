import Harmony.Membership.Works

/-! Executed recoveries in the view. The post-pass promotes, bans and marks on top of
the replay at every materialization, so whatever follows an execution in the log is
overlaid by it. -/

namespace Harmony.Membership

open Harmony.Lib

/-! ### The post-pass -/

section PostPass

variable {env : ReplayEnv} {st : ReplayState} {x : OwnerAddr}

def postStep (env : ReplayEnv) (st : ReplayState) (m : MaterializedMembership)
    (p : EventId × RecoveryWork) : MaterializedMembership :=
  match (recoveryOutcomesAt st env.currentMaxWallMs)[p.1]? with
  | some outcome =>
    if outcome.phase = .executed then
      outcome.deadlineMs.elim m (executeRecovery env st m p.1 p.2)
    else m
  | none => m

theorem recoveryPostPass_eq :
    recoveryPostPass env st (recoveryOutcomesAt st env.currentMaxWallMs) =
      st.recProposals.toList.foldl (postStep env st) st.m := rfl

theorem postStep_executed {m : MaterializedMembership} {id : EventId} {work : RecoveryWork} {d : ℕ}
    (h : Executed st env.currentMaxWallMs id work d) :
    postStep env st m (id, work) = executeRecovery env st m id work d := by
  obtain ⟨-, o, ho, hphase, hd⟩ := h
  simp [postStep, ho, hphase, hd]

theorem postStep_cases (m : MaterializedMembership) {id : EventId} {work : RecoveryWork}
    (hw : st.recProposals[id]? = some work) :
    postStep env st m (id, work) = m ∨
      ∃ d, Executed st env.currentMaxWallMs id work d ∧
        postStep env st m (id, work) = executeRecovery env st m id work d := by
  cases ho : (recoveryOutcomesAt st env.currentMaxWallMs)[id]? with
  | none => exact Or.inl (by simp [postStep, ho])
  | some o =>
    by_cases hphase : o.phase = .executed
    · obtain ⟨d, -, hex⟩ := exists_executed hw ho hphase
      exact Or.inr ⟨d, hex, postStep_executed hex⟩
    · exact Or.inl (by simp [postStep, ho, hphase])

def promoted (env : ReplayEnv) (st : ReplayState) (x : OwnerAddr) : Prop :=
  ∃ id work d, Executed st env.currentMaxWallMs id work d ∧ work.newAdmin = x

def deposed (env : ReplayEnv) (st : ReplayState) (x : OwnerAddr) : Prop :=
  ∃ id work d, Executed st env.currentMaxWallMs id work d ∧ work.lostAdmin = x

theorem mem_recProposals {p : EventId × RecoveryWork} (hp : p ∈ st.recProposals.toList) :
    st.recProposals[p.1]? = some p.2 := Std.ExtTreeMap.mem_toList_iff_getElem?_eq_some.mp hp

theorem executeRecovery_powerLevels (m : MaterializedMembership) (id : EventId)
    (work : RecoveryWork) (d : ℕ) :
    (executeRecovery env st m id work d).powerLevels[x]? =
      if work.newAdmin = x then some 100 else m.powerLevels[x]? := by
  simp only [executeRecovery, BTreeMap.get_insert]

theorem postPass_promoted (h : promoted env st x) : (postPass env st).powerLevels[x]? = some 100 := by
  obtain ⟨id, work, d, hex, hx⟩ := h
  have hmem : (id, work) ∈ st.recProposals.toList :=
    Std.ExtTreeMap.mem_toList_iff_getElem?_eq_some.mpr hex.1
  obtain ⟨pre, post, hsplit⟩ := List.append_of_mem hmem
  simp only [postPass, recoveryPostPass_eq, hsplit, List.foldl_append, List.foldl_cons]
  refine List.foldlRecOn (motive := fun m : MaterializedMembership => m.powerLevels[x]? = some 100)
    _ _ ?_ fun m hm p hp => ?_
  · rw [postStep_executed hex, executeRecovery_powerLevels, if_pos hx]
  · have hp' : st.recProposals[p.1]? = some p.2 :=
      mem_recProposals (by rw [hsplit]; simp [hp])
    rcases postStep_cases m hp' with hsame | ⟨d', -, hrun⟩
    · rw [hsame, hm]
    · rw [hrun, executeRecovery_powerLevels, hm, ite_self]

theorem postPass_not_promoted (h : ¬promoted env st x) :
    (postPass env st).powerLevels[x]? = st.m.powerLevels[x]? := by
  simp only [postPass, recoveryPostPass_eq]
  refine List.foldlRecOn (motive := fun m : MaterializedMembership =>
    m.powerLevels[x]? = st.m.powerLevels[x]?) _ _ rfl fun m hm p hp => ?_
  rcases postStep_cases m (mem_recProposals hp) with hsame | ⟨d, hex, hrun⟩
  · rw [hsame, hm]
  · rw [hrun, executeRecovery_powerLevels, if_neg fun hx => h ⟨_, _, _, hex, hx⟩, hm]

/-- What the post-pass does not touch about `x`: the record and the marker. -/
def SameFor (x : OwnerAddr) (m m' : MaterializedMembership) : Prop :=
  m'.members[x]? = m.members[x]? ∧ (x ∈ m'.pendingRotationFor ↔ x ∈ m.pendingRotationFor)

theorem foldl_postStep_same {l : List (EventId × RecoveryWork)} (m : MaterializedMembership)
    (hl : ∀ p ∈ l, st.recProposals[p.1]? = some p.2 ∧
      ∀ d, Executed st env.currentMaxWallMs p.1 p.2 d → p.2.lostAdmin ≠ x) :
    SameFor x m (l.foldl (postStep env st) m) := by
  refine List.foldlRecOn (motive := SameFor x m) _ _ ⟨rfl, Iff.rfl⟩ fun m' hm p hp => ?_
  obtain ⟨hw, hne⟩ := hl p hp
  rcases postStep_cases m' hw with hsame | ⟨d, hex, hrun⟩
  · rwa [hsame]
  · have hx := hne d hex
    rw [hrun]
    refine ⟨?_, ?_⟩
    · rw [executeRecovery_members, if_neg hx, hm.1]
    · simp only [executeRecovery]
      split_ifs
      · exact hm.2
      · rw [Finset.mem_insert, or_iff_right (Ne.symm hx), hm.2]

theorem postPass_not_deposed (h : ¬deposed env st x) : SameFor x st.m (postPass env st) := by
  have hall : ∀ p ∈ st.recProposals.toList, st.recProposals[p.1]? = some p.2 ∧
      ∀ d, Executed st env.currentMaxWallMs p.1 p.2 d → p.2.lostAdmin ≠ x :=
    fun p hp => ⟨mem_recProposals hp, fun d hex hx => h ⟨_, _, _, hex, hx⟩⟩
  exact foldl_postStep_same st.m hall

/-- The one executed recovery of `x` decides its record and its marker. -/
theorem postPass_deposed {id : EventId} {work : RecoveryWork} {d : ℕ}
    (hex : Executed st env.currentMaxWallMs id work d) (hx : work.lostAdmin = x) :
    (postPass env st).members[x]? =
        onDerivedKick (decide (x = env.adminAddr)) ⟨d, 0, ""⟩ st.m.members[x]? ∧
      (x ∈ (postPass env st).pendingRotationFor ↔
        x ∈ st.m.pendingRotationFor ∨
          st.m.status x ≠ some .pendingJoin ∧ id ∉ st.recRotationApplied) := by
  have hmem : (id, work) ∈ st.recProposals.toList :=
    Std.ExtTreeMap.mem_toList_iff_getElem?_eq_some.mpr hex.1
  obtain ⟨pre, post, hsplit⟩ := List.append_of_mem hmem
  have hnodup : (pre ++ (id, work) :: post).Pairwise fun a b => a.1 ≠ b.1 := by
    rw [← hsplit]
    refine st.recProposals.distinct_keys_toList.imp fun hab => ?_
    simpa using hab
  rw [List.pairwise_append, List.pairwise_cons] at hnodup
  have hother : ∀ p ∈ pre ++ post, st.recProposals[p.1]? = some p.2 ∧
      ∀ d, Executed st env.currentMaxWallMs p.1 p.2 d → p.2.lostAdmin ≠ x := by
    intro p hp
    refine ⟨mem_recProposals (by rw [hsplit]; rcases List.mem_append.mp hp with h | h <;> simp [h]),
      fun d' hex' hx' => ?_⟩
    have hid := (hex'.unique hex (hx'.trans hx.symm)).1
    rcases List.mem_append.mp hp with h | h
    · exact hnodup.2.2 p h (id, work) (by simp) hid
    · exact hnodup.2.1.1 p h hid.symm
  have hpre := foldl_postStep_same st.m fun p hp => hother p (List.mem_append_left _ hp)
  have hpost := foldl_postStep_same
    (executeRecovery env st (pre.foldl (postStep env st) st.m) id work d)
    fun p hp => hother p (List.mem_append_right _ hp)
  have hview : SameFor x (executeRecovery env st (pre.foldl (postStep env st) st.m) id work d)
      (postPass env st) := by
    rw [← postStep_executed hex] at hpost
    simp only [postPass, recoveryPostPass_eq, hsplit, List.foldl_append, List.foldl_cons]
    rw [← postStep_executed hex]
    exact hpost
  have hstatus : (pre.foldl (postStep env st) st.m).status x = st.m.status x := by
    simp only [MaterializedMembership.status, hpre.1]
  refine ⟨?_, ?_⟩
  · rw [hview.1, executeRecovery_members, if_pos hx, hpre.1, hx]
  · rw [hview.2]
    simp only [executeRecovery, hx, hstatus]
    split_ifs with hskip
    · rw [hpre.2]
      refine (or_iff_left ?_).symm
      rintro ⟨hs, hid⟩
      exact hskip.elim hs hid
    · rw [not_or] at hskip
      exact iff_of_true (Finset.mem_insert_self _ _) (Or.inr hskip)

/-- The proposals a view lists, with the outcome of each. -/
theorem mem_recoveryViews {recProposals : BTreeMap EventId RecoveryWork}
    {outcomes : BTreeMap EventId RecoveryOutcome} {v : RecoveryProposalView} :
    v ∈ recoveryViews recProposals outcomes ↔
      ∃ id work o, recProposals[id]? = some work ∧ outcomes[id]? = some o ∧
        v = ⟨id, work.proposer, work.lostAdmin, work.newAdmin, work.signers, work.threshold,
          work.t0WallMs, o.deadlineMs, o.phase, o.vetoedBy⟩ := by
  simp only [recoveryViews, List.mem_insertionSort, List.mem_filterMap, Option.map_eq_some_iff,
    Prod.exists, Std.ExtTreeMap.mem_toList_iff_getElem?_eq_some]
  constructor
  · rintro ⟨id, work, hw, o, ho, rfl⟩
    exact ⟨id, work, o, hw, ho, rfl⟩
  · rintro ⟨id, work, o, hw, ho, rfl⟩
    exact ⟨id, work, hw, o, ho, rfl⟩

/-- A view shows exactly the executed recoveries as executed. -/
theorem executed_in_view {P : EventId → OwnerAddr → OwnerAddr → Option ℕ → Prop} :
    (∃ v ∈ (postPass env st).recoveryProposals, v.phase = .executed ∧
        P v.id v.lostAdmin v.newAdmin v.deadlineMs) ↔
      ∃ id work d, Executed st env.currentMaxWallMs id work d ∧
        P id work.lostAdmin work.newAdmin (some d) := by
  simp only [postPass, mem_recoveryViews]
  constructor
  · rintro ⟨v, ⟨id, work, o, hw, ho, rfl⟩, hphase, hP⟩
    obtain ⟨d, hd, hex⟩ := exists_executed hw ho hphase
    exact ⟨id, work, d, hex, hd ▸ hP⟩
  · rintro ⟨id, work, d, ⟨hw, o, ho, hphase, hd⟩, hP⟩
    exact ⟨_, ⟨id, work, o, hw, ho, rfl⟩, hphase, hd.symm ▸ hP⟩

def promotedIn (m : MaterializedMembership) (x : OwnerAddr) : Prop :=
  ∃ v ∈ m.recoveryProposals, v.phase = .executed ∧ v.newAdmin = x

def deposedIn (m : MaterializedMembership) (x : OwnerAddr) : Prop :=
  ∃ v ∈ m.recoveryProposals, v.phase = .executed ∧ v.lostAdmin = x

theorem promotedIn_iff : promotedIn (postPass env st) x ↔ promoted env st x :=
  executed_in_view (P := fun _ _ newAdmin _ => newAdmin = x)

theorem deposedIn_iff : deposedIn (postPass env st) x ↔ deposed env st x :=
  executed_in_view (P := fun _ lostAdmin _ _ => lostAdmin = x)

end PostPass

/-! ### A last event -/

section Last

variable {C : Crypto} {events : List SignedMembershipEvent} {adminAddr : OwnerAddr}
  {e : SignedMembershipEvent}

theorem eventsMaxWallMs_snoc :
    eventsMaxWallMs (events ++ [e]) = max (eventsMaxWallMs events) e.hlc.wallMs := by
  induction events with
  | nil => simp [eventsMaxWallMs]
  | cons a events ih =>
    simp only [eventsMaxWallMs, List.cons_append, List.map_cons, List.foldr_cons] at ih ⊢
    rw [ih, max_assoc]

theorem currentMaxWallMs_snoc (nowMs : Option ℕ) :
    currentMaxWallMs events (some (currentMaxWallMs (events ++ [e]) nowMs)) =
      currentMaxWallMs (events ++ [e]) nowMs := by
  have hle : eventsMaxWallMs events ≤ currentMaxWallMs (events ++ [e]) nowMs := by
    unfold currentMaxWallMs
    rw [eventsMaxWallMs_snoc]
    cases nowMs <;> simp
  exact max_eq_right hle

/-- An event that neither asks to join nor approves a request adds nothing to the
pre-passes but a proposal. -/
theorem prePass_snoc (hpending : ∀ tok, e.kind ≠ .pendingJoin tok)
    (hcountersign : ∀ target, e.kind ≠ .joinCountersign target) (nowMs : Option ℕ) :
    prePass C (events ++ [e]) adminAddr nowMs =
      { prePass C events adminAddr (some (currentMaxWallMs (events ++ [e]) nowMs)) with
        proposalsIndex := proposalsIndex (events ++ [e]) } := by
  have htarget : countersignTarget e = none := by
    unfold countersignTarget
    split
    · exact absurd (by assumption) (hcountersign _)
    · rfl
  have hpendingToken : pendingToken (events ++ [e]) = pendingToken events := by
    rw [pendingToken, BTreeMap.ofEntries_snoc]
    split
    · exact absurd (by assumption) (hpending _)
    · rfl
  have hcs : countersignedPendingIds (events ++ [e]) = countersignedPendingIds events := by
    simp [countersignedPendingIds, List.filterMap_append, htarget]
  have hbest : bestCountersigns (events ++ [e]) = bestCountersigns events := by
    simp [bestCountersigns, hpendingToken, List.foldl_append, bestStep, htarget]
  simp only [prePass, hcs, canonicalPendingIds, hbest, currentMaxWallMs_snoc]

theorem settle_congr {idx idx' : ProposalsIndex} {st : ReplayState}
    (hseen : ∀ id ∈ st.governance.seenProposals, idx[id]? = idx'[id]?)
    (he : ∀ kind, e.kind = .adminProposal kind → idx[e.id]? = idx'[e.id]?) :
    settle idx st e = settle idx' st e := by
  simp only [settle, govStep_congr hseen he, kickedBy_congr hseen he]

theorem step_index_congr {env : ReplayEnv} {idx' : ProposalsIndex} {st : ReplayState}
    (hseen : ∀ id ∈ st.governance.seenProposals, env.proposalsIndex[id]? = idx'[id]?)
    (he : ∀ kind, e.kind = .adminProposal kind → env.proposalsIndex[e.id]? = idx'[e.id]?) :
    step { env with proposalsIndex := idx' } st e = step env st e := by
  have happly : applyEvent { env with proposalsIndex := idx' } st e = applyEvent env st e := by
    cases hk : e.kind with
    | adminProposal kind =>
      simp only [applyEvent, hk, applyAdminProposal_eq hk]
      rw [settle_congr hseen he]
    | adminCountersign target =>
      simp only [applyEvent, hk, applyAdminCountersign_eq hk]
      rw [settle_congr hseen he]
    | _ => simp only [applyEvent, hk] <;> rfl
  rw [step, happly, step]

theorem replay_index_congr {env : ReplayEnv} {idx' : ProposalsIndex}
    (sorted : List SignedMembershipEvent)
    (hidx : ∀ a ∈ sorted, ∀ kind, a.kind = .adminProposal kind →
      env.proposalsIndex[a.id]? = idx'[a.id]?) :
    replay { env with proposalsIndex := idx' } sorted = replay env sorted := by
  induction sorted using List.reverseRecOn with
  | nil => rfl
  | append_singleton sorted a ih =>
    have hprev := ih fun b hb => hidx b (by simp [hb])
    obtain ⟨-, hseen⟩ := govRun_congr env.adminAddr sorted fun b hb => hidx b (by simp [hb])
    rw [replay_snoc, replay_snoc, hprev]
    refine step_index_congr ?_ (hidx a (by simp))
    rw [replay_governance]
    exact hseen

variable (C events adminAddr) in
def stateWithout (nowMs : Option ℕ) (e : SignedMembershipEvent) : ReplayState :=
  finalState C events adminAddr (some (currentMaxWallMs (events ++ [e]) nowMs))

variable (C events adminAddr) in
def viewWithout (nowMs : Option ℕ) (e : SignedMembershipEvent) : MaterializedMembership :=
  materializeWithNow C events adminAddr (some (currentMaxWallMs (events ++ [e]) nowMs))

variable (C events adminAddr) in
def envWithout (nowMs : Option ℕ) (e : SignedMembershipEvent) : ReplayEnv :=
  prePass C events adminAddr (some (currentMaxWallMs (events ++ [e]) nowMs))

theorem viewWithout_eq (nowMs : Option ℕ) :
    viewWithout C events adminAddr nowMs e =
      postPass (envWithout C events adminAddr nowMs e)
        (stateWithout C events adminAddr nowMs e) := rfl

theorem envWithout_time (nowMs : Option ℕ) :
    (envWithout C events adminAddr nowMs e).currentMaxWallMs =
      currentMaxWallMs (events ++ [e]) nowMs := currentMaxWallMs_snoc nowMs

def approvesNothing (e : SignedMembershipEvent) : Prop :=
  (∀ tok, e.kind ≠ .pendingJoin tok) ∧ ∀ target, e.kind ≠ .joinCountersign target

/-- The running state without `e` may be read with the pre-passes of the longer log. -/
theorem stateWithout_eq (hids : DistinctIds (events ++ [e])) (hk : approvesNothing e)
    (nowMs : Option ℕ) :
    stateWithout C events adminAddr nowMs e =
      replay (prePass C (events ++ [e]) adminAddr nowMs) (sortEvents events) := by
  have hsub : DistinctIds events := KeyNodup.of_append hids
  rw [prePass_snoc hk.1 hk.2]
  refine (replay_index_congr _ fun a ha kind hkind => ?_).symm
  have ha := mem_sortBy.mp ha
  simp only [prePass]
  rw [proposalsIndex_get hsub ha hkind, proposalsIndex_get hids (by simp [ha]) hkind]

theorem finalState_snoc (hids : DistinctIds (events ++ [e]))
    (hlast : ∀ a ∈ events, eventSortKey a < eventSortKey e) (hk : approvesNothing e)
    (nowMs : Option ℕ) :
    finalState C (events ++ [e]) adminAddr nowMs =
      step (prePass C (events ++ [e]) adminAddr nowMs)
        (stateWithout C events adminAddr nowMs e) e := by
  rw [stateWithout_eq hids hk, finalState, sortEvents,
    sortBy_snoc hids.keyNodup fun a ha => (hlast a ha).le, replay_snoc]
  rfl

theorem finalState_current (hlast : ∀ a ∈ events, eventSortKey a < eventSortKey e)
    (nowMs : Option ℕ) : Current (finalState C events adminAddr nowMs) e.hlc.wallMs := by
  exact replay_current (sorted_walls events)
    fun a ha => wall_le_of_sortKey_lt (hlast a (mem_sortBy.mp ha))

theorem not_applied_of_fresh (hids : DistinctIds (events ++ [e])) (nowMs : Option ℕ) :
    e.id ∉ (finalState C events adminAddr nowMs).governance.appliedProposals := by
  rw [finalState, replay_governance]
  intro happlied
  obtain ⟨hseen, hsub⟩ := govRun_proposals (prePass C events adminAddr nowMs).proposalsIndex
    (prePass C events adminAddr nowMs).adminAddr (sortEvents events)
  obtain ⟨p, hp, hid, -⟩ := hseen _ (hsub happlied)
  exact KeyNodup.ne_of_append hids (mem_sortBy.mp hp) (List.mem_singleton_self e) hid

theorem executed_congr {st st' : ReplayState} (hp : st'.recProposals = st.recProposals)
    (hv : st'.recVetoes = st.recVetoes) (hc : st'.recConfigChangeWalls = st.recConfigChangeWalls)
    {t : ℕ} {id : EventId} {work : RecoveryWork} {d : ℕ} :
    Executed st' t id work d ↔ Executed st t id work d := by
  simp only [Executed, recoveryOutcomesAt, hp, hv, hc]

/-- A last event that is no recovery event, no config change and moves nobody in or
out of Joined leaves the executed recoveries as they are. -/
theorem executed_snoc {nowMs : Option ℕ} (hids : DistinctIds (events ++ [e]))
    (hlast : ∀ a ∈ events, eventSortKey a < eventSortKey e) (happrove : approvesNothing e)
    (hk : isRecoveryEvent e = false)
    (hjoined : ∀ x, isJoinedMember (finalState C (events ++ [e]) adminAddr nowMs).m x =
      isJoinedMember (stateWithout C events adminAddr nowMs e).m x)
    (hconfig : (finalState C (events ++ [e]) adminAddr nowMs).recConfigChangeWalls =
      (stateWithout C events adminAddr nowMs e).recConfigChangeWalls)
    {id : EventId} {work : RecoveryWork} {d : ℕ} :
    Executed (finalState C (events ++ [e]) adminAddr nowMs)
        (prePass C (events ++ [e]) adminAddr nowMs).currentMaxWallMs id work d ↔
      Executed (stateWithout C events adminAddr nowMs e)
        (envWithout C events adminAddr nowMs e).currentMaxWallMs id work d := by
  rw [envWithout_time]
  refine executed_congr ?_ ?_ hconfig
  · rw [finalState_snoc hids hlast happrove] at hjoined ⊢
    exact step_recProposals_quiet (finalState_current hlast _) hk hjoined
  · rw [finalState_snoc hids hlast happrove, step_recVetoes]
    unfold isRecoveryEvent at hk
    split at hk <;> simp_all

end Last

/-! ### Governance after an execution -/

def setsPower (prior : MaterializedMembership) (e : SignedMembershipEvent) (target : OwnerAddr)
    (level : ℕ) : Prop :=
  e.kind = .setPower target level ∨
    e.kind = .adminProposal (.setPower target level) ∧ prior.adminQuorum = 1

/-- A field that executions do not write is the same in the view as in the replay. -/
theorem postPass_field {β : Type} {env : ReplayEnv} {st : ReplayState}
    (field : MaterializedMembership → β)
    (hexecute : ∀ m id work d, field (executeRecovery env st m id work d) = field m)
    (hviews : ∀ (m : MaterializedMembership) recoveryProposals resetProposals,
      field { m with
        recoveryProposals := recoveryProposals
        resetProposals := resetProposals } = field m) :
    field (postPass env st) = field st.m := by
  simp only [postPass, hviews, recoveryPostPass_eq]
  refine List.foldlRecOn (motive := fun m => field m = field st.m) _ _ rfl fun m hm p hp => ?_
  rcases postStep_cases m (mem_recProposals hp) with hsame | ⟨d, -, hrun⟩
  · rw [hsame, hm]
  · rw [hrun, hexecute, hm]

theorem postPass_adminQuorum (env : ReplayEnv) (st : ReplayState) :
    (postPass env st).adminQuorum = st.m.adminQuorum :=
  postPass_field (·.adminQuorum) (fun _ _ _ _ => rfl) fun _ _ _ => rfl

theorem postPass_powerThresholds (env : ReplayEnv) (st : ReplayState) :
    (postPass env st).powerThresholds = st.m.powerThresholds :=
  postPass_field (·.powerThresholds) (fun _ _ _ _ => rfl) fun _ _ _ => rfl

theorem view_powerThresholds (C : Crypto) (events : List SignedMembershipEvent)
    (adminAddr : OwnerAddr) (nowMs : Option ℕ) :
    (materializeWithNow C events adminAddr nowMs).powerThresholds =
      (govRun (proposalsIndex events) adminAddr (sortEvents events)).powerThresholds :=
  (postPass_powerThresholds _ _).trans (congrArg Governance.powerThresholds (replay_governance _ _))

section Governing

variable {C : Crypto} {events : List SignedMembershipEvent} {adminAddr : OwnerAddr}
  {e : SignedMembershipEvent} {nowMs : Option ℕ}

/-- The governance fields after an event that sets a power entry. -/
theorem govStep_setsPower {g : Governance} {idx : ProposalsIndex} {m : MaterializedMembership}
    {target : OwnerAddr} {level : ℕ} (hset : setsPower m e target level)
    (hq : m.adminQuorum = g.adminQuorum) (hfresh : e.id ∉ g.appliedProposals)
    (hidx : ∀ kind, e.kind = .adminProposal kind → idx[e.id]? = some (kind, e.actor, e.hlc.wallMs)) :
    (govStep idx g e).powerLevels = g.powerLevels.insert target level ∧
      (govStep idx g e).configChangeWalls = g.configChangeWalls ∧ kickedBy idx g e = none := by
  rcases hset with hk | ⟨hk, hone⟩
  · simp [govStep, hk, kickedBy, tipped]
  · have hcard : 1 ≤ (insert e.actor (g.signersSeen e.id)).card :=
      Finset.card_pos.mpr ⟨_, Finset.mem_insert_self _ _⟩
    have ht : tipped idx g e = some (e.id, .setPower target level) := by
      simp only [tipped, hk]
      rw [if_pos ⟨hfresh, by omega, by omega⟩, hidx _ hk]
      rfl
    rw [govStep_of_tipped ht]
    simp [enact, recordSigner, hk, Governance.sign, kickedBy, ht, kickTarget]

theorem setPower_after_recovery (hids : DistinctIds (events ++ [e]))
    (hlast : ∀ a ∈ events, eventSortKey a < eventSortKey e) {target : OwnerAddr} {level : ℕ}
    (hset : setsPower (viewWithout C events adminAddr nowMs e) e target level) :
    (finalState C (events ++ [e]) adminAddr nowMs).m.powerLevels[target]? = some level ∧
      ∀ x, promoted (prePass C (events ++ [e]) adminAddr nowMs)
          (finalState C (events ++ [e]) adminAddr nowMs) x ↔
        promoted (envWithout C events adminAddr nowMs e)
          (stateWithout C events adminAddr nowMs e) x := by
  have happrove : approvesNothing e := by
    constructor <;> rcases hset with hk | ⟨hk, -⟩ <;> simp [hk]
  have hrec : isRecoveryEvent e = false := by
    rcases hset with hk | ⟨hk, -⟩ <;> simp [isRecoveryEvent, hk]
  have hquorum : (viewWithout C events adminAddr nowMs e).adminQuorum =
      (stateWithout C events adminAddr nowMs e).governance.adminQuorum := by
    rw [viewWithout_eq, postPass_adminQuorum]
    rfl
  obtain ⟨hpower, hwalls, hkick⟩ := govStep_setsPower hset hquorum (not_applied_of_fresh hids _)
    (fun kind hk => proposalsIndex_get hids (by simp) hk)
  have hgov := step_governance (prePass C (events ++ [e]) adminAddr nowMs)
    (stateWithout C events adminAddr nowMs e) e
  have hjoined : ∀ x, isJoinedMember (finalState C (events ++ [e]) adminAddr nowMs).m x =
      isJoinedMember (stateWithout C events adminAddr nowMs e).m x := by
    intro x
    rw [finalState_snoc hids hlast happrove]
    have hstatus := step_status (prePass C (events ++ [e]) adminAddr nowMs)
      (stateWithout C events adminAddr nowMs e) e x
    rw [show kickedBy (prePass C (events ++ [e]) adminAddr nowMs).proposalsIndex
      (stateWithout C events adminAddr nowMs e).governance e = none from hkick] at hstatus
    have hsame : statusUpdate (prePass C (events ++ [e]) adminAddr nowMs) none e x
        ((stateWithout C events adminAddr nowMs e).m.status x) =
          (stateWithout C events adminAddr nowMs e).m.status x := by
      rcases hset with hk | ⟨hk, -⟩ <;> simp [statusUpdate, hk]
    simp only [isJoinedMember, hstatus, hsame]
  refine ⟨?_, fun x => ?_⟩
  · rw [finalState_snoc hids hlast happrove]
    have hget : (step (prePass C (events ++ [e]) adminAddr nowMs)
        (stateWithout C events adminAddr nowMs e) e).m.powerLevels =
          (stateWithout C events adminAddr nowMs e).m.powerLevels.insert target level :=
      (congrArg Governance.powerLevels hgov).trans hpower
    rw [hget, BTreeMap.get_insert, if_pos rfl]
  · have hconfig : (finalState C (events ++ [e]) adminAddr nowMs).recConfigChangeWalls =
        (stateWithout C events adminAddr nowMs e).recConfigChangeWalls := by
      rw [finalState_snoc hids hlast happrove]
      exact (congrArg Governance.configChangeWalls hgov).trans hwalls
    simp only [promoted, executed_snoc hids hlast happrove hrec hjoined hconfig]

theorem onDerivedKick_onUnban (b : Bool) (derivedAt : Hlc) (r : Option MemberState) :
    (onDerivedKick b derivedAt (onUnban r)).map (·.status) =
      (onDerivedKick b derivedAt r).map (·.status) := by
  cases r with
  | none => rfl
  | some s =>
    by_cases hs : s.status = .banned <;> simp [onUnban, onDerivedKick, hs]

theorem isJoinedMember_iff {m : MaterializedMembership} {x : OwnerAddr} :
    isJoinedMember m x = true ↔ m.members[x]?.map (·.status) = some .joined := decide_eq_true_iff

theorem onUnban_joined (r : Option MemberState) :
    (onUnban r).map (·.status) = some .joined ↔ r.map (·.status) = some .joined := by
  cases r with
  | none => rfl
  | some s => by_cases hs : s.status = .banned <;> simp [onUnban, hs]

theorem unban_after_recovery (hids : DistinctIds (events ++ [e]))
    (hlast : ∀ a ∈ events, eventSortKey a < eventSortKey e) {lostAdmin : OwnerAddr}
    {reason : Option String} (hk : e.kind = .unban lostAdmin reason)
    (hdeposed : deposedIn (viewWithout C events adminAddr nowMs e) lostAdmin) :
    (materializeWithNow C (events ++ [e]) adminAddr nowMs).status lostAdmin =
      (viewWithout C events adminAddr nowMs e).status lostAdmin := by
  have happrove : approvesNothing e := by constructor <;> simp [hk]
  have hmembers : ∀ x, (finalState C (events ++ [e]) adminAddr nowMs).m.members[x]? =
      if lostAdmin = x then onUnban (stateWithout C events adminAddr nowMs e).m.members[x]?
      else (stateWithout C events adminAddr nowMs e).m.members[x]? := by
    intro x
    rw [finalState_snoc hids hlast happrove, step_members]
    simp only [memberUpdate, hk]
  have hjoined : ∀ x, isJoinedMember (finalState C (events ++ [e]) adminAddr nowMs).m x =
      isJoinedMember (stateWithout C events adminAddr nowMs e).m x := by
    intro x
    rw [Bool.eq_iff_iff, isJoinedMember_iff, isJoinedMember_iff, hmembers]
    split_ifs
    · exact onUnban_joined _
    · rfl
  have hconfig : (finalState C (events ++ [e]) adminAddr nowMs).recConfigChangeWalls =
      (stateWithout C events adminAddr nowMs e).recConfigChangeWalls := by
    rw [finalState_snoc hids hlast happrove]
    have hgov := step_governance (prePass C (events ++ [e]) adminAddr nowMs)
      (stateWithout C events adminAddr nowMs e) e
    have hsame : govStep (prePass C (events ++ [e]) adminAddr nowMs).proposalsIndex
        (stateWithout C events adminAddr nowMs e).governance e =
          (stateWithout C events adminAddr nowMs e).governance := by
      simp [govStep, hk, tipped, recordSigner]
    exact congrArg Governance.configChangeWalls (hgov.trans hsame)
  rw [viewWithout_eq] at hdeposed ⊢
  obtain ⟨id, work, d, hex, hlost⟩ := deposedIn_iff.mp hdeposed
  have hex' := (executed_snoc hids hlast happrove (by simp [isRecoveryEvent, hk]) hjoined
    hconfig).mpr hex
  simp only [MaterializedMembership.status, materializeWithNow_eq]
  rw [(postPass_deposed hex' hlost).1, (postPass_deposed hex hlost).1, hmembers, if_pos rfl]
  exact onDerivedKick_onUnban _ _ _

/-- After an execution, a SetPower takes effect exactly when it keeps a promoted owner
at 100 or targets somebody else, and an Unban of a deposed owner changes nothing. -/
theorem governance_after_recovery_iff (C : Crypto) (events : List SignedMembershipEvent)
    (adminAddr : OwnerAddr) (e : SignedMembershipEvent) (nowMs : Option ℕ)
    (hids : DistinctIds (events ++ [e]))
    (hlast : ∀ a ∈ events, eventSortKey a < eventSortKey e) :
    (∀ target level, setsPower (viewWithout C events adminAddr nowMs e) e target level →
      ((materializeWithNow C (events ++ [e]) adminAddr nowMs).powerLevels[target]? = some level ↔
        level = 100 ∨ ¬promotedIn (viewWithout C events adminAddr nowMs e) target)) ∧
    ∀ lostAdmin reason, e.kind = .unban lostAdmin reason →
      deposedIn (viewWithout C events adminAddr nowMs e) lostAdmin →
      ((materializeWithNow C (events ++ [e]) adminAddr nowMs).status lostAdmin ≠ some .banned ↔
        (viewWithout C events adminAddr nowMs e).status lostAdmin ≠ some .banned) := by
  refine ⟨fun target level hset => ?_, fun lostAdmin reason hk hdeposed => ?_⟩
  · obtain ⟨hlevel, hpromoted⟩ := setPower_after_recovery hids hlast hset
    rw [viewWithout_eq, promotedIn_iff, ← hpromoted, materializeWithNow_eq]
    by_cases hp : promoted (prePass C (events ++ [e]) adminAddr nowMs)
        (finalState C (events ++ [e]) adminAddr nowMs) target
    · rw [postPass_promoted hp]
      simp [hp, eq_comm]
    · rw [postPass_not_promoted hp, hlevel]
      simp [hp]
  · rw [unban_after_recovery hids hlast hk hdeposed]

/-- Designate 2 recovers the community of the lost admin 1 for owner 3. -/
def recoveredLog : List SignedMembershipEvent :=
  [signed 1 1 1 .join, signed 2 2 2 .join, signed 3 3 3 .join,
    signed 4 4 1 (.adminProposal (.setRecoveryDesignates [2] 1 recoveryVetoWindowFloorMs)),
    signed 5 5 2 (.recoveryProposal 1 3 4)]

/-- Past the deadline the new admin resigns, or readmits the lost one. -/
def resignation : SignedMembershipEvent :=
  signed 6 (recoveryVetoWindowFloorMs + 10) 3 (.setPower 3 0)
def readmission : SignedMembershipEvent :=
  signed 6 (recoveryVetoWindowFloorMs + 10) 3 (.unban 1 none)

instance (m : MaterializedMembership) (x : OwnerAddr) : Decidable (promotedIn m x) :=
  inferInstanceAs (Decidable (∃ v ∈ m.recoveryProposals, _))

instance (m : MaterializedMembership) (x : OwnerAddr) : Decidable (deposedIn m x) :=
  inferInstanceAs (Decidable (∃ v ∈ m.recoveryProposals, _))

theorem governance_after_recovery_resignation :
    ((materializeWithNow symbolicCrypto (recoveredLog ++ [resignation]) 1 none).powerLevels[3]? =
        some 0 ↔
      0 = 100 ∨ ¬promotedIn (viewWithout symbolicCrypto recoveredLog 1 none resignation) 3) ∧
    ((materializeWithNow symbolicCrypto (recoveredLog ++ [readmission]) 1 none).status 1 ≠
        some .banned ↔
      (viewWithout symbolicCrypto recoveredLog 1 none readmission).status 1 ≠ some .banned) :=
  ⟨(governance_after_recovery_iff symbolicCrypto recoveredLog 1 resignation none (by decide)
      (by decide)).1 3 0 (Or.inl rfl),
    (governance_after_recovery_iff symbolicCrypto recoveredLog 1 readmission none (by decide)
      (by decide)).2 1 none rfl (by decide)⟩

/-- Both events are accepted past the deadline and neither takes effect. -/
theorem recoveredLog_overrides_governance :
    VerifiedLog symbolicCrypto openContext (recoveredLog ++ [resignation]) ∧
      VerifiedLog symbolicCrypto openContext (recoveredLog ++ [readmission]) ∧
      promotedIn (viewWithout symbolicCrypto recoveredLog 1 none resignation) 3 ∧
      deposedIn (viewWithout symbolicCrypto recoveredLog 1 none readmission) 1 ∧
      (∀ a ∈ recoveredLog, eventSortKey a < eventSortKey resignation ∧
        eventSortKey a < eventSortKey readmission) ∧
      (materializeWithNow symbolicCrypto (recoveredLog ++ [resignation]) 1 none).powerLevels[3]? =
        some 100 ∧
      (materializeWithNow symbolicCrypto (recoveredLog ++ [readmission]) 1 none).status 1 =
        some .banned := by
  decide

end Governing

end Harmony.Membership
