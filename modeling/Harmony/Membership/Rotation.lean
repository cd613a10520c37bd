import Harmony.Lib.Trace
import Harmony.Membership.Lifecycle

/-! Epoch rotations. A rotation is judged by its staleness, its trigger, its
recipients and its issuer; the link to the departures that need one is a ledger kept
beside the replay: which departures no applied rotation has served yet. -/

namespace Harmony.Membership

open Harmony.Lib

/-- The target of the rotation applied at `e`, with the promoted admin when the
trigger is a recovery. -/
def appliedRotation (env : ReplayEnv) (st : ReplayState) (e : SignedMembershipEvent) :
    Option (OwnerAddr × Option OwnerAddr) :=
  match e.kind with
  | .epochRotation priorEpoch triggeredBy recipients =>
    rotationVerdict env st e priorEpoch triggeredBy recipients
  | _ => none

/-- The owner a step marks as needing a rotation: a member kicked while not pending,
or one whose Leave moved a record. -/
def departure (env : ReplayEnv) (st : ReplayState) (e : SignedMembershipEvent) :
    Option OwnerAddr :=
  match e.kind with
  | .leave =>
    if st.m.status e.actor = none ∨ st.m.status e.actor = some .banned then none
    else some e.actor
  | _ => (kickedBy env.proposalsIndex st.governance e).filter fun x =>
    decide (st.m.status x ≠ some .pendingJoin)

def mayRotate (env : ReplayEnv) (st : ReplayState) (e : SignedMembershipEvent)
    (triggeredBy : EventId) (verdict : OwnerAddr × Option OwnerAddr) : Prop :=
  isEffectiveAdmin env.adminAddr st.m e.actor = true ∨
    (triggerIsLeave st triggeredBy = true ∧ e.actor = verdict.1 ∧
      (st.m.status e.actor).isSome = true) ∨
    (verdict.2 = some e.actor ∧ isJoinedMember st.m e.actor = true)

theorem mem_expectedRecipients {m : MaterializedMembership} {target y : OwnerAddr} :
    y ∈ expectedRecipients m target ↔ y ≠ target ∧ holdsKey m y = true := by
  simp only [expectedRecipients, List.mem_filter, Std.ExtTreeMap.mem_keys, Bool.and_eq_true,
    decide_eq_true_eq, and_iff_right_iff_imp, and_imp]
  intro _ h
  by_contra hmem
  have hnone : m.members[y]? = none := Std.ExtTreeMap.getElem?_eq_none hmem
  simp [holdsKey, MaterializedMembership.status, hnone] at h

theorem rotationVerdict_eq_some {env : ReplayEnv} {st : ReplayState} {e : SignedMembershipEvent}
    {priorEpoch : ℕ} {triggeredBy : EventId} {recipients : List RecipientCiphertext}
    {verdict : OwnerAddr × Option OwnerAddr} :
    rotationVerdict env st e priorEpoch triggeredBy recipients = some verdict ↔
      priorEpoch = st.m.currentEpoch.getD 0 ∧ rotationTrigger st e triggeredBy = some verdict ∧
      verdict.1 ∉ recipients.map (·.recipient) ∧
      (∀ y, y ≠ verdict.1 → holdsKey st.m y = true → y ∈ recipients.map (·.recipient)) ∧
      mayRotate env st e triggeredBy verdict := by
  unfold rotationVerdict
  by_cases hp : priorEpoch = st.m.currentEpoch.getD 0
  · cases ht : rotationTrigger st e triggeredBy with
    | none => simp [hp]
    | some v =>
      obtain ⟨target, issuer⟩ := v
      have hcover : (expectedRecipients st.m target).all
            (fun x => decide (x ∈ recipients.map (·.recipient))) = true ↔
          ∀ y, y ≠ target → holdsKey st.m y = true → y ∈ recipients.map (·.recipient) := by
        simp only [List.all_eq_true, mem_expectedRecipients, decide_eq_true_eq, and_imp]
      have hissuer : (isEffectiveAdmin env.adminAddr st.m e.actor ||
            (triggerIsLeave st triggeredBy && decide (e.actor = target) &&
              (st.m.status e.actor).isSome) ||
            (decide (issuer = some e.actor) && isJoinedMember st.m e.actor)) = true ↔
          mayRotate env st e triggeredBy (target, issuer) := by
        simp only [mayRotate, Bool.or_eq_true, Bool.and_eq_true, decide_eq_true_eq, or_assoc,
          and_assoc]
      simp only [hp, ne_eq, not_true_eq_false, if_false, true_and, Option.some.injEq]
      constructor
      · intro h
        split_ifs at h with hmem hall hiss
        obtain rfl := Option.some.inj h
        refine ⟨rfl, hmem, hcover.mp (by simpa using hall), hissuer.mp hiss⟩
      · rintro ⟨rfl, hmem, hall, hiss⟩
        rw [if_neg hmem, if_neg (by rw [hcover.mpr hall]; simp), if_pos (hissuer.mpr hiss)]
  · simp [hp]

/-! ### The rotation fields of a step -/

section Step

variable (env : ReplayEnv) (st : ReplayState) (e : SignedMembershipEvent)

theorem kickMember_pendingRotationFor (m : MaterializedMembership) (target : OwnerAddr)
    (leftAt : Hlc) :
    (kickMember m target leftAt).pendingRotationFor =
      if m.status target = some .pendingJoin then m.pendingRotationFor
      else insert target m.pendingRotationFor := rfl

theorem settle_pendingRotationFor (idx : ProposalsIndex) :
    (settle idx st e).m.pendingRotationFor =
      ((kickedBy idx st.governance e).filter fun x =>
        decide (st.m.status x ≠ some .pendingJoin)).elim st.m.pendingRotationFor
          fun x => insert x st.m.pendingRotationFor := by
  simp only [settle]
  cases kickedBy idx st.governance e with
  | none => rfl
  | some target =>
    simp only [Option.elim_some, kickMember_pendingRotationFor]
    by_cases hp : st.m.status target = some .pendingJoin
    · rw [if_pos (by exact hp), Option.filter_some, if_neg (by simp [hp])]
      rfl
    · rw [if_neg (by exact hp), Option.filter_some, if_pos (by simp [hp])]
      rfl

theorem step_pendingRotationFor :
    (step env st e).m.pendingRotationFor =
      (appliedRotation env st e).elim
        ((departure env st e).elim st.m.pendingRotationFor
          fun x => insert x st.m.pendingRotationFor)
        fun verdict => st.m.pendingRotationFor.erase verdict.1 := by
  rw [← core_m, step_core]
  cases hk : e.kind with
  | leave =>
    simp only [applyEvent, hk, appliedRotation, departure, Option.getD_some, Option.elim_none]
    split_ifs <;> rfl
  | kick target reason =>
    simp only [applyEvent, hk, appliedRotation, departure, kickedBy, Option.getD_some,
      Option.elim_none, core_m, kickMember_pendingRotationFor, Option.filter_some]
    by_cases hp : st.m.status target = some .pendingJoin <;> simp [hp]
  | adminProposal kind =>
    simp only [applyEvent, hk, appliedRotation, departure, Option.getD_some, Option.elim_none,
      applyAdminProposal_eq hk, core_m, settle_pendingRotationFor]
  | adminCountersign target =>
    simp only [applyEvent, hk, appliedRotation, departure, Option.getD_some, Option.elim_none,
      applyAdminCountersign_eq hk, core_m, settle_pendingRotationFor]
  | epochRotation priorEpoch triggeredBy recipients =>
    simp only [applyEvent, hk, applyEpochRotation_core, appliedRotation, departure, kickedBy,
      tipped]
    cases rotationVerdict env st e priorEpoch triggeredBy recipients <;> rfl
  | epochCatchup epoch triggeredBy recipients =>
    obtain ⟨catchup, hcore⟩ := applyEpochCatchup_core env st e epoch triggeredBy recipients
    simp [applyEvent, hk, hcore, appliedRotation, departure, kickedBy, tipped]
  | _ =>
    simp only [applyEvent, hk, applyRecoveryProposal_core]
    simp [appliedRotation, departure, kickedBy, tipped, hk]

theorem step_currentEpoch :
    (step env st e).m.currentEpoch =
      if (appliedRotation env st e).isSome then some (st.m.currentEpoch.getD 0 + 1)
      else st.m.currentEpoch := by
  rw [← core_m, step_core]
  cases hk : e.kind with
  | adminProposal kind =>
    simp only [applyEvent, hk, appliedRotation, Option.getD_some, applyAdminProposal_eq hk, settle]
    cases kickedBy env.proposalsIndex st.governance e <;> rfl
  | adminCountersign target =>
    simp only [applyEvent, hk, appliedRotation, Option.getD_some, applyAdminCountersign_eq hk,
      settle]
    cases kickedBy env.proposalsIndex st.governance e <;> rfl
  | epochRotation priorEpoch triggeredBy recipients =>
    simp only [applyEvent, hk, applyEpochRotation_core, appliedRotation]
    cases rotationVerdict env st e priorEpoch triggeredBy recipients <;> rfl
  | epochCatchup epoch triggeredBy recipients =>
    obtain ⟨catchup, hcore⟩ := applyEpochCatchup_core env st e epoch triggeredBy recipients
    simp [applyEvent, hk, hcore, appliedRotation]
  | kick target reason => simp [applyEvent, hk, appliedRotation, kickMember]
  | _ =>
    simp only [applyEvent, hk, applyRecoveryProposal_core]
    simp [appliedRotation, hk]

def cites (e : SignedMembershipEvent) : EventId :=
  match e.kind with
  | .epochRotation _ triggeredBy _ => triggeredBy
  | _ => 0

theorem step_recRotationApplied :
    (step env st e).recRotationApplied =
      if ((appliedRotation env st e).bind (·.2)).isSome then insert (cites e) st.recRotationApplied
      else st.recRotationApplied := by
  rw [← core_recRotationApplied, step_core]
  cases hk : e.kind with
  | adminProposal kind =>
    simp only [applyEvent, hk, appliedRotation, Option.getD_some, applyAdminProposal_eq hk]
    rfl
  | adminCountersign target =>
    simp only [applyEvent, hk, appliedRotation, Option.getD_some, applyAdminCountersign_eq hk]
    rfl
  | epochRotation priorEpoch triggeredBy recipients =>
    simp only [applyEvent, hk, applyEpochRotation_core, appliedRotation, cites]
    cases rotationVerdict env st e priorEpoch triggeredBy recipients <;> rfl
  | epochCatchup epoch triggeredBy recipients =>
    obtain ⟨catchup, hcore⟩ := applyEpochCatchup_core env st e epoch triggeredBy recipients
    simp [applyEvent, hk, hcore, appliedRotation]
  | _ =>
    simp only [applyEvent, hk, applyRecoveryProposal_core]
    simp [appliedRotation, hk]

theorem step_replayed : (step env st e).replayed = st.replayed ++ [e] := rfl

end Step

/-! ### Recipients -/

/-- An applied rotation reaches every Joined and Invited member exactly when the
address its trigger names is not one of them any more. -/
theorem rotation_reaches_members_iff (C : Crypto) (events : List SignedMembershipEvent)
    (adminAddr : OwnerAddr) (nowMs : Option ℕ) (e : SignedMembershipEvent) (priorEpoch : ℕ)
    (triggeredBy : EventId) (recipients : List RecipientCiphertext)
    (hkind : e.kind = .epochRotation priorEpoch triggeredBy recipients)
    (happlied : (stateAfter C events adminAddr nowMs e).m.currentEpoch ≠
      (stateBefore C events adminAddr nowMs e).m.currentEpoch)
    (target : OwnerAddr) (issuer : Option OwnerAddr)
    (htrigger : rotationTrigger (stateBefore C events adminAddr nowMs e) e triggeredBy =
      some (target, issuer)) :
    (∀ y, holdsKey (stateBefore C events adminAddr nowMs e).m y = true →
        y ∈ recipients.map (·.recipient)) ↔
      holdsKey (stateBefore C events adminAddr nowMs e).m target = false := by
  set st := stateBefore C events adminAddr nowMs e
  have hsome : (appliedRotation (prePass C events adminAddr nowMs) st e).isSome = true := by
    by_contra hnone
    refine happlied ?_
    rw [stateAfter, step_currentEpoch, if_neg hnone]
  obtain ⟨verdict, hv⟩ := Option.isSome_iff_exists.mp hsome
  rw [appliedRotation, hkind] at hv
  obtain ⟨-, htrig, hexcluded, hcovered, -⟩ := rotationVerdict_eq_some.mp hv
  obtain rfl : verdict = (target, issuer) := Option.some.inj (htrig.symm.trans htrigger)
  constructor
  · intro h
    by_contra hholds
    exact hexcluded (h target (by simpa using hholds))
  · intro htarget y hy
    refine hcovered y ?_ hy
    rintro rfl
    simp [htarget] at hy

def rejoinedBeforeRotation : List SignedMembershipEvent :=
  [signed 1 1 1 .join, signed 2 2 2 .join, signed 3 3 2 .leave, signed 4 4 2 .join,
    signed 5 5 1 (.epochRotation 0 3 [⟨1, []⟩])]

theorem rotation_reaches_members_plain_leave :
    (∀ y, holdsKey (stateBefore symbolicCrypto (rejoinedBeforeRotation.eraseIdx 3) 1 none
          (signed 5 5 1 (.epochRotation 0 3 [⟨1, []⟩]))).m y = true →
        y ∈ [(⟨1, []⟩ : RecipientCiphertext)].map (·.recipient)) ↔
      holdsKey (stateBefore symbolicCrypto (rejoinedBeforeRotation.eraseIdx 3) 1 none
          (signed 5 5 1 (.epochRotation 0 3 [⟨1, []⟩]))).m 2 = false :=
  rotation_reaches_members_iff symbolicCrypto (rejoinedBeforeRotation.eraseIdx 3) 1 none
    (signed 5 5 1 (.epochRotation 0 3 [⟨1, []⟩])) 0 3 [⟨1, []⟩] rfl (by decide) 2 none (by decide)

/-- The rotation is applied although the rejoined member is not a recipient. -/
theorem rejoinedBeforeRotation_cut_off :
    VerifiedLog symbolicCrypto openContext rejoinedBeforeRotation ∧
      (stateAfter symbolicCrypto rejoinedBeforeRotation 1 none
          (signed 5 5 1 (.epochRotation 0 3 [⟨1, []⟩]))).m.currentEpoch = some 1 ∧
      (stateBefore symbolicCrypto rejoinedBeforeRotation 1 none
          (signed 5 5 1 (.epochRotation 0 3 [⟨1, []⟩]))).m.currentEpoch = none ∧
      (stateBefore symbolicCrypto rejoinedBeforeRotation 1 none
          (signed 5 5 1 (.epochRotation 0 3 [⟨1, []⟩]))).m.status 2 = some .joined ∧
      2 ∉ [(⟨1, []⟩ : RecipientCiphertext)].map (·.recipient) := by
  decide

/-! ### The ledger of departures -/

/-- The departures still to be served after `e`: an applied rotation serves every
one of its target, a departure adds itself. -/
def openAfter (env : ReplayEnv) (st : ReplayState) (unserved : Finset (EventId × OwnerAddr))
    (e : SignedMembershipEvent) : Finset (EventId × OwnerAddr) :=
  match appliedRotation env st e with
  | some verdict => unserved.filter fun d => d.2 ≠ verdict.1
  | none => (departure env st e).elim unserved fun x => insert (e.id, x) unserved

def ledgerStep (env : ReplayEnv) (s : ReplayState × Finset (EventId × OwnerAddr))
    (e : SignedMembershipEvent) : ReplayState × Finset (EventId × OwnerAddr) :=
  (step env s.1 e, openAfter env s.1 s.2 e)

def ledger (env : ReplayEnv) (sorted : List SignedMembershipEvent) :
    ReplayState × Finset (EventId × OwnerAddr) :=
  sorted.foldl (ledgerStep env) (ReplayState.init env.adminAddr, ∅)

/-- A rotation that would be applied cites an unserved departure of its target, or a
recovery for which none has been applied. -/
def citesOpen (env : ReplayEnv) (s : ReplayState × Finset (EventId × OwnerAddr))
    (e : SignedMembershipEvent) : Bool :=
  (appliedRotation env s.1 e).all fun verdict =>
    if verdict.2.isSome then decide (cites e ∉ s.1.recRotationApplied)
    else decide ((cites e, verdict.1) ∈ s.2)

theorem cited_of_citesOpen {env : ReplayEnv} {s : ReplayState × Finset (EventId × OwnerAddr)}
    {e : SignedMembershipEvent} (h : citesOpen env s e = true)
    {verdict : OwnerAddr × Option OwnerAddr} (hrot : appliedRotation env s.1 e = some verdict) :
    if verdict.2.isSome then cites e ∉ s.1.recRotationApplied
    else (cites e, verdict.1) ∈ s.2 := by
  simp only [citesOpen, hrot, Option.all_some] at h
  split_ifs at h ⊢ <;> simpa using h

def departureCount (env : ReplayEnv) (sorted : List SignedMembershipEvent) : ℕ :=
  (trace (step env) (ReplayState.init env.adminAddr) sorted).countP fun p =>
    (departure env p.1 p.2).isSome

def hasGone (m : MaterializedMembership) (y : OwnerAddr) : Bool :=
  m.status y = some .left || m.status y = some .banned

def goneRotationCount (env : ReplayEnv) (sorted : List SignedMembershipEvent) (y : OwnerAddr) :
    ℕ :=
  (trace (step env) (ReplayState.init env.adminAddr) sorted).countP fun p =>
    decide (p.2.actor = y) && hasGone p.1.m y && (appliedRotation env p.1 p.2).isSome

def isLeaveOf (y : OwnerAddr) (e : SignedMembershipEvent) : Bool :=
  decide (e.kind = .leave) && decide (e.actor = y)

theorem ledger_snoc (env : ReplayEnv) (sorted : List SignedMembershipEvent)
    (e : SignedMembershipEvent) :
    ledger env (sorted ++ [e]) = ledgerStep env (ledger env sorted) e := by
  simp only [ledger, List.foldl_append, List.foldl_cons, List.foldl_nil]

theorem ledger_state (env : ReplayEnv) (sorted : List SignedMembershipEvent) :
    (ledger env sorted).1 = replay env sorted := by
  induction sorted using List.reverseRecOn with
  | nil => rfl
  | append_singleton sorted e ih => rw [ledger_snoc, replay_snoc, ledgerStep, ih]

theorem replay_replayed (env : ReplayEnv) (sorted : List SignedMembershipEvent) :
    (replay env sorted).replayed = sorted := by
  induction sorted using List.reverseRecOn with
  | nil => rfl
  | append_singleton sorted e ih => rw [replay_snoc, step_replayed, ih]

section Ledger

variable {env : ReplayEnv} {st : ReplayState} {e : SignedMembershipEvent}

theorem departure_eq_none {verdict : OwnerAddr × Option OwnerAddr}
    (h : appliedRotation env st e = some verdict) : departure env st e = none := by
  unfold appliedRotation at h
  split at h
  · rename_i hk
    simp [departure, hk, kickedBy, tipped]
  · simp at h

theorem leave_of_goneRotation {verdict : OwnerAddr × Option OwnerAddr}
    (h : appliedRotation env st e = some verdict) (hgone : hasGone st.m e.actor = true) :
    triggerIsLeave st (cites e) = true ∧ verdict = (e.actor, none) := by
  unfold appliedRotation at h
  split at h
  · rename_i priorEpoch triggeredBy recipients hk
    obtain ⟨-, htrig, -, -, hmay⟩ := rotationVerdict_eq_some.mp h
    have hjoined : isJoinedMember st.m e.actor = false := by
      simp only [hasGone, Bool.or_eq_true, decide_eq_true_eq] at hgone
      rcases hgone with hs | hs <;> simp [isJoinedMember, hs]
    have hstatus : st.m.status e.actor ≠ none := by
      simp only [hasGone, Bool.or_eq_true, decide_eq_true_eq] at hgone
      rcases hgone with hs | hs <;> simp [hs]
    rcases hmay with hadmin | ⟨hleave, hactor, -⟩ | ⟨-, hj⟩
    · simp [isEffectiveAdmin, hjoined, hstatus] at hadmin
    · have hcites : cites e = triggeredBy := by simp [cites, hk]
      rw [hcites]
      refine ⟨hleave, ?_⟩
      -- a Leave trigger names its author and carries no promoted admin
      unfold triggerIsLeave at hleave
      unfold rotationTrigger at htrig
      cases hf : st.replayed.find? (fun t => decide (t.id = triggeredBy)) with
      | none => simp [hf] at hleave
      | some t =>
        simp only [hf, Option.any_some, decide_eq_true_eq] at hleave
        simp only [hf, hleave, Option.some.injEq] at htrig
        rw [← htrig] at hactor ⊢
        rw [hactor]
    · simp [hj] at hjoined
  · simp at h

theorem triggerIsLeave_snoc {id : EventId} (h : ∃ t ∈ st.replayed, t.id = id) :
    triggerIsLeave (step env st e) id = triggerIsLeave st id := by
  obtain ⟨t, ht, hid⟩ := h
  have hsome : (st.replayed.find? fun t => decide (t.id = id)).isSome = true :=
    List.find?_isSome.mpr ⟨t, ht, by simpa using hid⟩
  simp only [triggerIsLeave, step_replayed, List.find?_append]
  obtain ⟨u, hu⟩ := Option.isSome_iff_exists.mp hsome
  simp [hu]

theorem triggerIsLeave_new (h : ∀ t ∈ st.replayed, t.id ≠ e.id) :
    triggerIsLeave (step env st e) e.id = decide (e.kind = .leave) := by
  have hnone : (st.replayed.find? fun t => decide (t.id = e.id)) = none :=
    List.find?_eq_none.mpr fun t ht => by simpa using h t ht
  simp [triggerIsLeave, step_replayed, List.find?_append, hnone]

def openLeaves (s : ReplayState × Finset (EventId × OwnerAddr)) (y : OwnerAddr) :
    Finset (EventId × OwnerAddr) :=
  s.2.filter fun d => d.2 = y ∧ triggerIsLeave s.1 d.1 = true

/-- What a run that only cites open departures keeps: unserved departures are
marked, and neither the epoch nor the rotations of someone who has gone outrun the
departures. -/
structure Accounted (env : ReplayEnv) (sorted : List SignedMembershipEvent) : Prop where
  marked : ∀ d ∈ (ledger env sorted).2, d.2 ∈ (replay env sorted).m.pendingRotationFor
  known : ∀ d ∈ (ledger env sorted).2, ∃ t ∈ sorted, t.id = d.1
  epoch : (replay env sorted).m.currentEpoch.getD 0 +
      (replay env sorted).m.pendingRotationFor.card ≤
    departureCount env sorted + (replay env sorted).recRotationApplied.card
  leaves : ∀ y, goneRotationCount env sorted y + (openLeaves (ledger env sorted) y).card ≤
    sorted.countP (isLeaveOf y)

theorem departureCount_snoc (env : ReplayEnv) (sorted : List SignedMembershipEvent)
    (e : SignedMembershipEvent) :
    departureCount env (sorted ++ [e]) =
      departureCount env sorted +
        if (departure env (replay env sorted) e).isSome then 1 else 0 := by
  simp only [departureCount, trace_snoc, List.countP_append, List.countP_singleton]
  rfl

theorem goneRotationCount_snoc (env : ReplayEnv) (sorted : List SignedMembershipEvent)
    (e : SignedMembershipEvent) (y : OwnerAddr) :
    goneRotationCount env (sorted ++ [e]) y =
      goneRotationCount env sorted y +
        if decide (e.actor = y) && hasGone (replay env sorted).m y &&
          (appliedRotation env (replay env sorted) e).isSome then 1 else 0 := by
  simp only [goneRotationCount, trace_snoc, List.countP_append, List.countP_singleton]
  rfl

theorem accounted_nil (env : ReplayEnv) : Accounted env [] where
  marked := by simp [ledger]
  known := by simp [ledger]
  epoch := by simp [replay, ReplayState.init, MaterializedMembership.default]
  leaves y := by
    have hnone : openLeaves (ledger env []) y = ∅ := Finset.filter_empty _
    simp [goneRotationCount, trace, hnone]

section Snoc

variable {sorted : List SignedMembershipEvent}

theorem Accounted.marked_snoc (h : Accounted env sorted) :
    ∀ d ∈ (ledger env (sorted ++ [e])).2,
      d.2 ∈ (replay env (sorted ++ [e])).m.pendingRotationFor := by
  intro d hd
  rw [ledger_snoc, ledgerStep, ledger_state] at hd
  rw [replay_snoc, step_pendingRotationFor]
  unfold openAfter at hd
  cases hrot : appliedRotation env (replay env sorted) e with
  | some verdict =>
    simp only [hrot, Finset.mem_filter] at hd
    exact Finset.mem_erase.mpr ⟨hd.2, h.marked d hd.1⟩
  | none =>
    simp only [hrot] at hd
    cases hdep : departure env (replay env sorted) e with
    | none =>
      rw [hdep] at hd
      exact h.marked d hd
    | some x =>
      rw [hdep, Option.elim_some, Finset.mem_insert] at hd
      rcases hd with rfl | hd
      · exact Finset.mem_insert_self _ _
      · exact Finset.mem_insert_of_mem (h.marked d hd)

theorem Accounted.known_snoc (h : Accounted env sorted) :
    ∀ d ∈ (ledger env (sorted ++ [e])).2, ∃ t ∈ sorted ++ [e], t.id = d.1 := by
  intro d hd
  rw [ledger_snoc, ledgerStep, ledger_state] at hd
  unfold openAfter at hd
  have hold : d ∈ (ledger env sorted).2 → ∃ t ∈ sorted ++ [e], t.id = d.1 := by
    intro hd
    obtain ⟨t, ht, hid⟩ := h.known d hd
    exact ⟨t, by simp [ht], hid⟩
  cases hrot : appliedRotation env (replay env sorted) e with
  | some verdict =>
    simp only [hrot, Finset.mem_filter] at hd
    exact hold hd.1
  | none =>
    simp only [hrot] at hd
    cases hdep : departure env (replay env sorted) e with
    | none =>
      rw [hdep] at hd
      exact hold hd
    | some x =>
      rw [hdep, Option.elim_some, Finset.mem_insert] at hd
      rcases hd with rfl | hd
      · exact ⟨e, by simp, rfl⟩
      · exact hold hd

theorem Accounted.epoch_snoc (h : Accounted env sorted)
    (hopen : citesOpen env (ledger env sorted) e = true) :
    (replay env (sorted ++ [e])).m.currentEpoch.getD 0 +
        (replay env (sorted ++ [e])).m.pendingRotationFor.card ≤
      departureCount env (sorted ++ [e]) + (replay env (sorted ++ [e])).recRotationApplied.card := by
  have hle := h.epoch
  rw [departureCount_snoc, replay_snoc, step_currentEpoch, step_pendingRotationFor,
    step_recRotationApplied]
  cases hrot : appliedRotation env (replay env sorted) e with
  | some verdict =>
    have hcite := cited_of_citesOpen hopen (by rw [ledger_state]; exact hrot)
    rw [ledger_state] at hcite
    simp only [departure_eq_none hrot, Option.isSome_some, if_true, Option.elim_some,
      Option.bind_some, Option.getD_some, Option.isSome_none, Bool.false_eq_true, if_false]
    split_ifs at hcite ⊢ with hrec
    · -- a recovery: the set of rotated recoveries grows
      have hcard := Finset.card_erase_le (s := (replay env sorted).m.pendingRotationFor)
        (a := verdict.1)
      rw [Finset.card_insert_of_notMem hcite]
      omega
    · -- a Kick or a Leave: its marker is used up
      have hcard := Finset.card_erase_of_mem (h.marked _ hcite)
      have hpos := Finset.card_pos.mpr ⟨_, h.marked _ hcite⟩
      simp only at hcard hpos
      omega
  | none =>
    cases hdep : departure env (replay env sorted) e with
    | none => simpa using hle
    | some x =>
      have hcard := Finset.card_insert_le x (replay env sorted).m.pendingRotationFor
      simp only [Option.isSome_none, Bool.false_eq_true, if_false, Option.elim_none,
        Option.elim_some, Option.bind_none, Option.isSome_some, if_true]
      omega

theorem Accounted.openLeaves_old (h : Accounted env sorted) {d : EventId × OwnerAddr}
    (hd : d ∈ (ledger env sorted).2) :
    triggerIsLeave (step env (replay env sorted) e) d.1 =
      triggerIsLeave (replay env sorted) d.1 :=
  triggerIsLeave_snoc (by rw [replay_replayed]; exact h.known d hd)

theorem Accounted.openLeaves_rotation (h : Accounted env sorted)
    {verdict : OwnerAddr × Option OwnerAddr}
    (hrot : appliedRotation env (replay env sorted) e = some verdict) (y : OwnerAddr) :
    openLeaves (ledger env (sorted ++ [e])) y =
      (openLeaves (ledger env sorted) y).filter fun d => d.2 ≠ verdict.1 := by
  ext d
  simp only [openLeaves, ledger_snoc, ledgerStep, ledger_state, openAfter, hrot, Finset.mem_filter]
  constructor
  · rintro ⟨⟨hd, hne⟩, hy, hl⟩
    rw [h.openLeaves_old hd] at hl
    exact ⟨⟨hd, hy, hl⟩, hne⟩
  · rintro ⟨⟨hd, hy, hl⟩, hne⟩
    rw [← h.openLeaves_old (e := e) hd] at hl
    exact ⟨⟨hd, hne⟩, hy, hl⟩

theorem Accounted.openLeaves_other (h : Accounted env sorted)
    (hfresh : ∀ t ∈ sorted, t.id ≠ e.id)
    (hrot : appliedRotation env (replay env sorted) e = none) (y : OwnerAddr) :
    (openLeaves (ledger env (sorted ++ [e])) y).card ≤
      (openLeaves (ledger env sorted) y).card + if isLeaveOf y e then 1 else 0 := by
  have hsub : openLeaves (ledger env (sorted ++ [e])) y ⊆
      if isLeaveOf y e then insert (e.id, y) (openLeaves (ledger env sorted) y)
      else openLeaves (ledger env sorted) y := by
    intro d hd
    simp only [openLeaves, ledger_snoc, ledgerStep, ledger_state, openAfter, hrot,
      Finset.mem_filter] at hd
    obtain ⟨hd, hy, hl⟩ := hd
    have hold : d ∈ (ledger env sorted).2 → d ∈ openLeaves (ledger env sorted) y := by
      intro hd
      rw [h.openLeaves_old hd] at hl
      rw [openLeaves, Finset.mem_filter, ledger_state]
      exact ⟨hd, hy, hl⟩
    cases hdep : departure env (replay env sorted) e with
    | none =>
      rw [hdep] at hd
      split_ifs
      · exact Finset.mem_insert_of_mem (hold hd)
      · exact hold hd
    | some x =>
      rw [hdep, Option.elim_some, Finset.mem_insert] at hd
      rcases hd with rfl | hd
      · -- the new entry counts only when `e` is a Leave of `y`
        rw [triggerIsLeave_new (by rw [replay_replayed]; exact hfresh), decide_eq_true_eq] at hl
        have hx : e.actor = x := by
          simp only [departure, hl] at hdep
          split_ifs at hdep
          exact Option.some.inj hdep
        simp only at hy
        subst hy
        simp [isLeaveOf, hl, hx]
      · split_ifs
        · exact Finset.mem_insert_of_mem (hold hd)
        · exact hold hd
  refine (Finset.card_le_card hsub).trans ?_
  split_ifs
  · exact Finset.card_insert_le _ _
  · exact le_rfl

theorem Accounted.leaves_snoc (h : Accounted env sorted) (hfresh : ∀ t ∈ sorted, t.id ≠ e.id)
    (hopen : citesOpen env (ledger env sorted) e = true) (y : OwnerAddr) :
    goneRotationCount env (sorted ++ [e]) y + (openLeaves (ledger env (sorted ++ [e])) y).card ≤
      (sorted ++ [e]).countP (isLeaveOf y) := by
  have hle := h.leaves y
  rw [goneRotationCount_snoc, List.countP_append, List.countP_singleton]
  cases hrot : appliedRotation env (replay env sorted) e with
  | none =>
    have hcard := h.openLeaves_other hfresh hrot y
    simp only [Option.isSome_none, Bool.and_false, Bool.false_eq_true, if_false]
    split_ifs at hcard ⊢ <;> omega
  | some verdict =>
    rw [h.openLeaves_rotation hrot]
    have hcard := Finset.card_filter_le (openLeaves (ledger env sorted) y)
      fun d => d.2 ≠ verdict.1
    by_cases hgone : e.actor = y ∧ hasGone (replay env sorted).m y = true
    · obtain ⟨rfl, hgone⟩ := hgone
      obtain ⟨hleave, rfl⟩ := leave_of_goneRotation hrot hgone
      have hcite := cited_of_citesOpen hopen (by rw [ledger_state]; exact hrot)
      simp only [Option.isSome_none, Bool.false_eq_true, if_false] at hcite
      have hmem : (cites e, e.actor) ∈ openLeaves (ledger env sorted) e.actor := by
        rw [openLeaves, Finset.mem_filter, ledger_state]
        exact ⟨hcite, rfl, hleave⟩
      have hlt : ((openLeaves (ledger env sorted) e.actor).filter
          fun d => d.2 ≠ e.actor).card < (openLeaves (ledger env sorted) e.actor).card :=
        Finset.card_lt_card (Finset.filter_ssubset.mpr ⟨_, hmem, by simp⟩)
      simp only [hgone, decide_true, Bool.and_self, Option.isSome_some, if_true]
      omega
    · have hzero : (decide (e.actor = y) && hasGone (replay env sorted).m y) = false := by
        simpa using hgone
      simp only [hzero, Bool.false_and, Bool.false_eq_true, if_false]
      omega

end Snoc

theorem accounted_run {sorted : List SignedMembershipEvent} (hids : (sorted.map (·.id)).Nodup)
    (hopen : ∀ pre e post, sorted = pre ++ e :: post →
      citesOpen env (ledger env pre) e = true) : Accounted env sorted := by
  induction sorted using List.reverseRecOn with
  | nil => exact accounted_nil env
  | append_singleton sorted e ih =>
    have hprev := ih (KeyNodup.of_append hids) fun pre a post hsplit =>
      hopen pre a (post ++ [e]) (by simp [hsplit])
    have hlast := hopen sorted e [] rfl
    have hfresh : ∀ t ∈ sorted, t.id ≠ e.id := fun t ht =>
      KeyNodup.ne_of_append hids ht (List.mem_singleton_self e)
    exact ⟨hprev.marked_snoc, hprev.known_snoc, hprev.epoch_snoc hlast,
      hprev.leaves_snoc hfresh hlast⟩

end Ledger

theorem postPass_currentEpoch (env : ReplayEnv) (st : ReplayState) :
    (postPass env st).currentEpoch = st.m.currentEpoch := by
  simp only [postPass, recoveryPostPass]
  refine List.foldlRecOn (motive := fun m : MaterializedMembership =>
    m.currentEpoch = st.m.currentEpoch) _ _ rfl fun m hm p _ => ?_
  split
  · split_ifs
    · rename_i outcome _ _
      cases outcome.deadlineMs <;> exact hm
    · exact hm
  · exact hm

/-- When every applied rotation cites a departure that no rotation has served yet,
the departed owner is marked at each of them, the epoch never outruns the departures,
and someone who has gone rotates at most once for each Leave of their own. -/
theorem one_rotation_per_departure (C : Crypto) (events : List SignedMembershipEvent)
    (adminAddr : OwnerAddr) (nowMs : Option ℕ) (hids : DistinctIds events)
    (hopen : ∀ e ∈ events, citesOpen (prePass C events adminAddr nowMs)
      (ledger (prePass C events adminAddr nowMs) (sortEvents (before eventSortKey events e))) e =
        true) :
    (∀ e ∈ events, ∀ verdict,
      appliedRotation (prePass C events adminAddr nowMs)
          (stateBefore C events adminAddr nowMs e) e = some verdict →
        verdict.1 ∈ (stateBefore C events adminAddr nowMs e).m.pendingRotationFor ∨
          verdict.2.isSome = true ∧
            cites e ∉ (stateBefore C events adminAddr nowMs e).recRotationApplied) ∧
    (materializeWithNow C events adminAddr nowMs).currentEpoch.getD 0 ≤
      departureCount (prePass C events adminAddr nowMs) (sortEvents events) +
        (finalState C events adminAddr nowMs).recRotationApplied.card ∧
    ∀ y, goneRotationCount (prePass C events adminAddr nowMs) (sortEvents events) y ≤
      events.countP (isLeaveOf y) := by
  set env := prePass C events adminAddr nowMs
  have hsplit : ∀ pre e post, sortEvents events = pre ++ e :: post →
      citesOpen env (ledger env pre) e = true := by
    intro pre e post hs
    have hmem : e ∈ events := mem_sortBy.mp (hs ▸ by simp : e ∈ sortEvents events)
    rw [← sortBy_before_eq hids.keyNodup hs]
    exact hopen e hmem
  have hsorted : ((sortEvents events).map (·.id)).Nodup :=
    ((sortBy_perm events).map _).nodup_iff.mpr hids
  have hall := accounted_run hsorted hsplit
  refine ⟨fun e he verdict hrot => ?_, ?_, fun y => ?_⟩
  · have hs := sortBy_split hids.keyNodup he
    have hpre : Accounted env (sortEvents (before eventSortKey events e)) := by
      refine accounted_run ((hsorted.sublist ?_)) fun pre a post h => ?_
      · rw [sortEvents, sortEvents, hs]
        exact (List.sublist_append_left _ _).map _
      · refine hsplit pre a (post ++ e :: sortEvents (after eventSortKey events e)) ?_
        rw [sortEvents, hs]
        rw [sortEvents] at h
        rw [h]
        simp [sortEvents]
    have hcite := cited_of_citesOpen (hopen e he) (by rw [ledger_state]; exact hrot)
    rw [ledger_state] at hcite
    split_ifs at hcite with hrec
    · exact Or.inr ⟨hrec, hcite⟩
    · exact Or.inl (hpre.marked _ hcite)
  · rw [materializeWithNow_eq, postPass_currentEpoch]
    have hepoch := hall.epoch
    rw [← finalState] at hepoch
    omega
  · have hleaves := hall.leaves y
    have hperm : (sortEvents events).Perm events := sortBy_perm events
    have hcount := hperm.countP_eq (isLeaveOf y)
    omega

def rotatedTwice : List SignedMembershipEvent :=
  [signed 1 1 1 .join, signed 2 2 2 .join, signed 3 3 2 .leave,
    signed 4 4 2 (.epochRotation 0 3 [⟨1, []⟩]), signed 5 5 2 (.epochRotation 1 3 [⟨1, []⟩])]

theorem one_rotation_per_departure_once :
    (materializeWithNow symbolicCrypto (rotatedTwice.take 4) 1 none).currentEpoch.getD 0 ≤
      departureCount (prePass symbolicCrypto (rotatedTwice.take 4) 1 none)
          (sortEvents (rotatedTwice.take 4)) +
        (finalState symbolicCrypto (rotatedTwice.take 4) 1 none).recRotationApplied.card ∧
    ∀ y, goneRotationCount (prePass symbolicCrypto (rotatedTwice.take 4) 1 none)
        (sortEvents (rotatedTwice.take 4)) y ≤ (rotatedTwice.take 4).countP (isLeaveOf y) :=
  (one_rotation_per_departure symbolicCrypto (rotatedTwice.take 4) 1 none (by decide)
    (by decide)).2

/-- The second rotation is applied although nobody is marked any more: two epochs
and two rotations of someone who has gone, for one Leave. -/
theorem rotatedTwice_outruns_departures :
    VerifiedLog symbolicCrypto openContext rotatedTwice ∧
      appliedRotation (prePass symbolicCrypto rotatedTwice 1 none)
          (stateBefore symbolicCrypto rotatedTwice 1 none
            (signed 5 5 2 (.epochRotation 1 3 [⟨1, []⟩])))
          (signed 5 5 2 (.epochRotation 1 3 [⟨1, []⟩])) = some (2, none) ∧
      2 ∉ (stateBefore symbolicCrypto rotatedTwice 1 none
        (signed 5 5 2 (.epochRotation 1 3 [⟨1, []⟩]))).m.pendingRotationFor ∧
      (materializeWithNow symbolicCrypto rotatedTwice 1 none).currentEpoch = some 2 ∧
      departureCount (prePass symbolicCrypto rotatedTwice 1 none) (sortEvents rotatedTwice) = 1 ∧
      (finalState symbolicCrypto rotatedTwice 1 none).recRotationApplied = ∅ ∧
      goneRotationCount (prePass symbolicCrypto rotatedTwice 1 none)
        (sortEvents rotatedTwice) 2 = 2 ∧
      rotatedTwice.countP (isLeaveOf 2) = 1 := by
  decide

end Harmony.Membership
