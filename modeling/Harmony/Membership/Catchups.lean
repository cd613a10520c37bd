import Harmony.Membership.InviteTokens
import Harmony.Membership.Outstanding
import Mathlib.Data.List.MinMax

/-! Outstanding catchups. A member who joins after a rotation is marked; an admin picks the
member's latest join as the trigger and hands over the current key. The gate judges the
admin's power in the view, the replay judges it before the executed recoveries are overlaid. -/

namespace Harmony.Membership

open Harmony.Lib

/-- A Join, or a PendingJoin that somebody countersigned, of `target`. -/
def isCatchupTrigger (events : List SignedMembershipEvent) (target : OwnerAddr)
    (e : SignedMembershipEvent) : Bool :=
  decide (e.actor = target) &&
    match e.kind with
    | .join => true
    | .pendingJoin _ => decide (e.id ∈ countersignedPendingIds events)
    | _ => false

def selectCatchupTriggerEvent (events : List SignedMembershipEvent) (target : OwnerAddr) :
    Option EventId :=
  ((events.filter (isCatchupTrigger events target)).argmax eventSortKey).map (·.id)

/-! ### The marker in the replay -/

def catchupUpdate (env : ReplayEnv) (st : ReplayState) (e : SignedMembershipEvent) :
    Finset OwnerAddr :=
  match e.kind with
  | .join =>
    if shadowed st.m.members[e.actor]? then st.m.pendingCatchupFor else markCatchup st.m e.actor
  | .pendingJoin _ =>
    if shadowed st.m.members[e.actor]? || !decide (e.id ∈ env.canonicalPendingIds) then
      st.m.pendingCatchupFor
    else markCatchup st.m e.actor
  | .epochCatchup epoch triggeredBy recipients =>
    if (applyEpochCatchup env st e epoch triggeredBy recipients).isSome then
      st.m.pendingCatchupFor \ (recipients.map (·.recipient)).toFinset
    else st.m.pendingCatchupFor
  | _ => st.m.pendingCatchupFor

section Step

variable {env : ReplayEnv} {st : ReplayState} {e : SignedMembershipEvent} {epoch : ℕ}
  {triggeredBy : EventId} {recipients : List RecipientCiphertext} {x : OwnerAddr}

theorem settle_pendingCatchupFor (idx : ProposalsIndex) :
    (settle idx st e).m.pendingCatchupFor = st.m.pendingCatchupFor := by
  simp only [settle]
  cases kickedBy idx st.governance e <;> rfl

theorem applyEpochCatchup_isSome :
    (applyEpochCatchup env st e epoch triggeredBy recipients).isSome = true ↔
      epoch = st.m.currentEpoch.getD 0 ∧
        (∃ target, catchupTrigger env st triggeredBy = some target ∧
          target ∈ recipients.map (·.recipient)) ∧
        isEffectiveAdmin env.adminAddr st.m e.actor = true := by
  unfold applyEpochCatchup
  by_cases hepoch : epoch = st.m.currentEpoch.getD 0
  · cases htrigger : catchupTrigger env st triggeredBy with
    | none => simp [hepoch]
    | some target =>
      simp only [hepoch, ne_eq, not_true_eq_false, if_false, true_and, Option.some.injEq,
        exists_eq_left']
      by_cases htarget : target ∈ recipients.map (·.recipient)
      · rw [if_neg (not_not.mpr htarget), and_iff_right htarget]
        cases isEffectiveAdmin env.adminAddr st.m e.actor <;> simp
      · rw [if_pos htarget]
        simp [htarget]
  · simp [hepoch]

theorem applyEpochCatchup_pendingCatchupFor :
    ((applyEpochCatchup env st e epoch triggeredBy recipients).getD st).m.pendingCatchupFor =
      if (applyEpochCatchup env st e epoch triggeredBy recipients).isSome then
        st.m.pendingCatchupFor \ (recipients.map (·.recipient)).toFinset
      else st.m.pendingCatchupFor := by
  unfold applyEpochCatchup
  by_cases hepoch : epoch = st.m.currentEpoch.getD 0
  · cases catchupTrigger env st triggeredBy with
    | none => simp [hepoch]
    | some target =>
      simp only [hepoch, ne_eq, not_true_eq_false, if_false]
      split_ifs <;> first | rfl | contradiction
  · simp [hepoch]

theorem step_pendingCatchupFor :
    (step env st e).m.pendingCatchupFor = catchupUpdate env st e := by
  rw [← core_m, step_core]
  cases hk : e.kind with
  | adminProposal kind =>
    simp [applyEvent, catchupUpdate, hk, applyAdminProposal_eq hk, settle_pendingCatchupFor]
  | adminCountersign target =>
    simp [applyEvent, catchupUpdate, hk, applyAdminCountersign_eq hk, settle_pendingCatchupFor]
  | epochRotation priorEpoch triggeredBy recipients =>
    simp only [applyEvent, hk, applyEpochRotation_core]
    cases rotationVerdict env st e priorEpoch triggeredBy recipients <;> simp [catchupUpdate, hk]
  | epochCatchup epoch triggeredBy recipients =>
    simp only [applyEvent, hk, core_m, catchupUpdate, applyEpochCatchup_pendingCatchupFor]
  | _ =>
    simp only [applyEvent, hk, applyRecoveryProposal_core]
    simp [catchupUpdate, hk, kickMember]

theorem pending_of_step (h : x ∈ (step env st e).m.pendingCatchupFor) :
    x ∈ st.m.pendingCatchupFor ∨
      e.actor = x ∧
        (e.kind = .join ∨ (∃ tok, e.kind = .pendingJoin tok) ∧ e.id ∈ env.canonicalPendingIds) := by
  have hmark : x ∈ markCatchup st.m e.actor → x ∈ st.m.pendingCatchupFor ∨ e.actor = x := by
    unfold markCatchup
    split_ifs
    · rw [Finset.mem_insert, or_comm, eq_comm]
      exact id
    · exact Or.inl
  rw [step_pendingCatchupFor, catchupUpdate] at h
  cases hk : e.kind with
  | join =>
    simp only [hk] at h
    split_ifs at h
    · exact Or.inl h
    · exact (hmark h).imp_right fun hx => ⟨hx, Or.inl rfl⟩
  | pendingJoin tok =>
    simp only [hk] at h
    split_ifs at h with hcond
    · exact Or.inl h
    · have hcanonical : e.id ∈ env.canonicalPendingIds := by
        by_contra hne
        simp [hne] at hcond
      exact (hmark h).imp_right fun hx => ⟨hx, Or.inr ⟨⟨tok, rfl⟩, hcanonical⟩⟩
  | epochCatchup epoch triggeredBy recipients =>
    simp only [hk] at h
    split_ifs at h
    · exact Or.inl (Finset.mem_sdiff.mp h).1
    · exact Or.inl h
  | _ =>
    simp only [hk] at h
    exact Or.inl h

theorem pending_of_replay {sorted : List SignedMembershipEvent}
    (h : x ∈ (replay env sorted).m.pendingCatchupFor) :
    ∃ e ∈ sorted, e.actor = x ∧
      (e.kind = .join ∨ (∃ tok, e.kind = .pendingJoin tok) ∧ e.id ∈ env.canonicalPendingIds) := by
  induction sorted using List.reverseRecOn with
  | nil => simp [replay, ReplayState.init, MaterializedMembership.default] at h
  | append_singleton sorted a ih =>
    rw [replay_snoc] at h
    rcases pending_of_step h with hbefore | hjoin
    · obtain ⟨e, he, hjoin⟩ := ih hbefore
      exact ⟨e, by simp [he], hjoin⟩
    · exact ⟨a, by simp, hjoin⟩

end Step

/-! ### The trigger -/

section Trigger

variable {C : Crypto} {events : List SignedMembershipEvent} {adminAddr x : OwnerAddr}
  {nowMs : Option ℕ} {e : SignedMembershipEvent} {id : EventId}

theorem canonical_countersigned (h : id ∈ canonicalPendingIds events) :
    id ∈ countersignedPendingIds events := by
  rw [canonicalPendingIds, List.mem_toFinset, List.mem_filterMap] at h
  obtain ⟨⟨tok, c⟩, hmem, htarget⟩ := h
  have hbest : (bestCountersigns events)[tok]? = some c :=
    Std.ExtTreeMap.mem_toList_iff_getElem?_eq_some.mp hmem
  obtain ⟨hc, -⟩ := foldl_bestStep.1 c hbest
  rw [countersignedPendingIds, List.mem_toFinset, List.mem_filterMap]
  exact ⟨c, hc, htarget⟩

theorem isCatchupTrigger_iff :
    isCatchupTrigger events x e = true ↔
      e.actor = x ∧
        (e.kind = .join ∨
          (∃ tok, e.kind = .pendingJoin tok) ∧ e.id ∈ countersignedPendingIds events) := by
  rw [isCatchupTrigger, Bool.and_eq_true, decide_eq_true_eq]
  refine and_congr_right fun _ => ?_
  cases e.kind <;> simp

theorem view_pendingCatchupFor :
    (materializeWithNow C events adminAddr nowMs).pendingCatchupFor =
      (finalState C events adminAddr nowMs).m.pendingCatchupFor := by
  rw [materializeWithNow_eq]
  exact postPass_field (·.pendingCatchupFor) (fun _ _ _ _ => rfl) fun _ _ _ => rfl

theorem exists_isCatchupTrigger
    (h : x ∈ (materializeWithNow C events adminAddr nowMs).pendingCatchupFor) :
    ∃ e ∈ events, isCatchupTrigger events x e = true := by
  rw [view_pendingCatchupFor, finalState] at h
  obtain ⟨e, he, hactor, hkind⟩ := pending_of_replay h
  refine ⟨e, mem_sortBy.mp he, isCatchupTrigger_iff.mpr ⟨hactor, ?_⟩⟩
  exact hkind.imp_right fun htok => ⟨htok.1, canonical_countersigned htok.2⟩

theorem select_isSome (h : ∃ e ∈ events, isCatchupTrigger events x e = true) :
    (selectCatchupTriggerEvent events x).isSome = true := by
  rw [selectCatchupTriggerEvent, Option.isSome_map]
  cases hmax : (events.filter (isCatchupTrigger events x)).argmax eventSortKey with
  | some e => rfl
  | none =>
    obtain ⟨e, he, htrigger⟩ := h
    have hmem : e ∈ events.filter (isCatchupTrigger events x) :=
      List.mem_filter.mpr ⟨he, htrigger⟩
    rw [List.argmax_eq_none.mp hmax] at hmem
    simp at hmem

theorem exists_of_select (h : selectCatchupTriggerEvent events x = some id) :
    ∃ e ∈ events, e.id = id ∧ isCatchupTrigger events x e = true := by
  obtain ⟨e, hmax, hid⟩ := Option.map_eq_some_iff.mp h
  obtain ⟨he, htrigger⟩ := List.mem_filter.mp (List.argmax_mem hmax)
  exact ⟨e, he, hid, htrigger⟩

theorem catchupTrigger_of_select {env : ReplayEnv} (hids : DistinctIds events)
    (hcs : env.countersignedPendingIds = countersignedPendingIds events)
    (h : selectCatchupTriggerEvent events x = some id) :
    catchupTrigger env (finalState C events adminAddr nowMs) id = some x := by
  obtain ⟨e, he, rfl, htrigger⟩ := exists_of_select h
  have hnd : ((finalState C events adminAddr nowMs).replayed.map (·.id)).Nodup :=
    finalState_replayed_nodup hids
  have hfind := find_trigger hnd (mem_finalState_replayed.mpr he)
  obtain ⟨rfl, hjoin | ⟨⟨tok, hpending⟩, hcountersigned⟩⟩ := isCatchupTrigger_iff.mp htrigger
  · simp only [catchupTrigger, hfind, hjoin]
  · simp only [catchupTrigger, hfind, hpending, hcs, hcountersigned, if_true]

end Trigger

/-! ### A catchup on top of the log -/

/-- An admin of the view hands the current key to `x` and the other recipients: the event
sorts after the whole log, cites the chosen trigger and is signed by an enrolled device. -/
structure AuthoredCatchup (C : Crypto) (ctx : VerifyContext) (log : List SignedMembershipEvent)
    (x : OwnerAddr) (recipients : List RecipientCiphertext) (e : SignedMembershipEvent) :
    Prop where
  distinct : DistinctIds (log ++ [e])
  last : ∀ a ∈ log, eventSortKey a < eventSortKey e
  community : e.communityId = ctx.expectedCommunityId
  clock : ctx.nowMs.all (fun now => !rejectFuture e.hlc.wallMs now maxForwardSkewMs) = true
  countersig : e.countersig = none
  kind : ∃ trigger, selectCatchupTriggerEvent log x = some trigger ∧
    e.kind = .epochCatchup ((materializeWithNow C log ctx.adminAddr
      (some e.hlc.wallMs)).currentEpoch.getD 0) trigger recipients
  reached : x ∈ recipients.map (·.recipient)
  joined : isJoinedMember (materializeWithNow C log ctx.adminAddr (some e.hlc.wallMs)) e.actor = true
  power : (materializeWithNow C log ctx.adminAddr (some e.hlc.wallMs)).powerThresholds.kick ≤
    (materializeWithNow C log ctx.adminAddr (some e.hlc.wallMs)).power e.actor
  signature : ∃ bytes member key, C.encodePayload e.payload = .ok bytes ∧
    (materializeWithNow C log ctx.adminAddr (some e.hlc.wallMs)).members[e.actor]? = some member ∧
    key ∈ member.enrolledDeviceKeys ∧ C.verifyStrict key bytes e.sig = true

section Catchup

variable {C : Crypto} {ctx : VerifyContext} {log : List SignedMembershipEvent} {x : OwnerAddr}
  {recipients : List RecipientCiphertext} {e : SignedMembershipEvent} {nowMs : Option ℕ}

theorem firstVerifyingKey_of_mem {keys : Finset PubKey} {key : PubKey} {bytes : Bytes} {sig : Sig}
    (hkey : key ∈ keys) (hsig : C.verifyStrict key bytes sig = true) :
    ∃ signer, firstVerifyingKey C keys bytes sig = some signer ∧
      C.verifyStrict signer bytes sig = true := by
  have hne : (keys.filter fun key => C.verifyStrict key bytes sig).Nonempty :=
    ⟨key, Finset.mem_filter.mpr ⟨hkey, hsig⟩⟩
  refine ⟨_, dif_pos hne, ?_⟩
  exact (Finset.mem_filter.mp (Finset.min'_mem _ hne)).2

theorem priorStateAtEvent_last (hlast : ∀ a ∈ log, eventSortKey a < eventSortKey e) :
    priorStateAtEvent C log e ctx.adminAddr =
      materializeWithNow C log ctx.adminAddr (some e.hlc.wallMs) := by
  have hbefore : before eventSortKey log e = log :=
    List.filter_eq_self.mpr fun a ha => decide_eq_true (hlast a ha)
  rw [priorStateAtEvent, hbefore]

theorem AuthoredCatchup.accepted (h : AuthoredCatchup C ctx log x recipients e) :
    verifyEvent C ctx (priorStateAtEvent C log e ctx.adminAddr) e = .ok () := by
  rw [priorStateAtEvent_last h.last]
  obtain ⟨trigger, -, hk⟩ := h.kind
  obtain ⟨bytes, member, key, hbytes, hmember, hkey, hsig⟩ := h.signature
  obtain ⟨signer, hsigner, hverifies⟩ := firstVerifyingKey_of_mem hkey hsig
  have hresolve : resolveSigner C (materializeWithNow C log ctx.adminAddr (some e.hlc.wallMs)) e =
      .ok signer := by
    simp only [resolveSigner, hk, resolveEnrolledSigner, hmember, bind_eq_ok]
    refine ⟨bytes, by simp only [encodedPayload, hbytes], ?_⟩
    simp only [hsigner, pure_eq_ok]
  have hadmin : isEffectiveAdmin ctx.adminAddr
      (materializeWithNow C log ctx.adminAddr (some e.hlc.wallMs)) e.actor = true := by
    simp [isEffectiveAdmin, h.power, h.joined]
  simp [verifyEvent, h.community, h.clock, h.countersig, hresolve, verifyMembershipSigner,
    encodedPayload, hbytes, hverifies, verifyNotBanned, verifyInviteOnlyJoin, countersigAllowed,
    verifyMembershipRules, verifyPowerRules, hk, hadmin, ensure]

theorem joined_of_view (h : isJoinedMember (materializeWithNow C log ctx.adminAddr nowMs) x = true) :
    isJoinedMember (finalState C log ctx.adminAddr nowMs).m x = true := by
  rw [materializeWithNow_eq] at h
  simp only [isJoinedMember, decide_eq_true_eq] at h ⊢
  exact status_of_view h (by decide)

/-- The running state is read with the pre-passes of the longer log at the wall of `e`. -/
theorem AuthoredCatchup.finalState_eq (h : AuthoredCatchup C ctx log x recipients e)
    (hw : currentMaxWallMs log nowMs ≤ e.hlc.wallMs) :
    finalState C (log ++ [e]) ctx.adminAddr nowMs =
      step (prePass C (log ++ [e]) ctx.adminAddr nowMs)
        (finalState C log ctx.adminAddr (some e.hlc.wallMs)) e := by
  obtain ⟨trigger, -, hk⟩ := h.kind
  have happrove : approvesNothing e := by constructor <;> simp [hk]
  rw [finalState_snoc h.distinct h.last happrove, stateWithout, currentMaxWallMs_rotation hw rfl]

/-- The replay applies the catchup exactly when its own power entry of the author suffices. -/
theorem AuthoredCatchup.applied_iff (h : AuthoredCatchup C ctx log x recipients e)
    (nowMs : Option ℕ) {trigger : EventId}
    (hselect : selectCatchupTriggerEvent log x = some trigger)
    (hk : e.kind = .epochCatchup ((materializeWithNow C log ctx.adminAddr
      (some e.hlc.wallMs)).currentEpoch.getD 0) trigger recipients) :
    (applyEpochCatchup (prePass C (log ++ [e]) ctx.adminAddr nowMs)
        (finalState C log ctx.adminAddr (some e.hlc.wallMs)) e
        ((materializeWithNow C log ctx.adminAddr (some e.hlc.wallMs)).currentEpoch.getD 0) trigger
        recipients).isSome = true ↔
      (finalState C log ctx.adminAddr (some e.hlc.wallMs)).m.powerThresholds.kick ≤
        (finalState C log ctx.adminAddr (some e.hlc.wallMs)).m.power e.actor := by
  have happrove : approvesNothing e := by constructor <;> simp [hk]
  have hcs : (prePass C (log ++ [e]) ctx.adminAddr nowMs).countersignedPendingIds =
      countersignedPendingIds log := by
    rw [prePass_snoc happrove.1 happrove.2]
    rfl
  have hepoch : (materializeWithNow C log ctx.adminAddr (some e.hlc.wallMs)).currentEpoch =
      (finalState C log ctx.adminAddr (some e.hlc.wallMs)).m.currentEpoch :=
    postPass_currentEpoch _ _
  have htrigger : catchupTrigger (prePass C (log ++ [e]) ctx.adminAddr nowMs)
      (finalState C log ctx.adminAddr (some e.hlc.wallMs)) trigger = some x :=
    catchupTrigger_of_select (KeyNodup.of_append h.distinct) hcs hselect
  have htarget : ∃ target, some x = some target ∧ target ∈ recipients.map (·.recipient) :=
    ⟨x, rfl, h.reached⟩
  rw [applyEpochCatchup_isSome, htrigger, hepoch, and_iff_right rfl, and_iff_right htarget,
    isEffectiveAdmin, joined_of_view h.joined]
  simp

/-- What a catchup leaves outstanding. -/
theorem AuthoredCatchup.pending_iff (h : AuthoredCatchup C ctx log x recipients e)
    (hx : x ∈ (materializeWithNow C log ctx.adminAddr (some e.hlc.wallMs)).pendingCatchupFor)
    (hw : currentMaxWallMs log nowMs ≤ e.hlc.wallMs) :
    (materializeWithNow C (log ++ [e]) ctx.adminAddr nowMs).pendingCatchupFor =
        (materializeWithNow C log ctx.adminAddr (some e.hlc.wallMs)).pendingCatchupFor \
          (recipients.map (·.recipient)).toFinset ↔
      (finalState C log ctx.adminAddr (some e.hlc.wallMs)).m.powerThresholds.kick ≤
        (finalState C log ctx.adminAddr (some e.hlc.wallMs)).m.power e.actor := by
  obtain ⟨trigger, hselect, hk⟩ := h.kind
  rw [← h.applied_iff nowMs hselect hk]
  rw [view_pendingCatchupFor] at hx
  rw [view_pendingCatchupFor, view_pendingCatchupFor, h.finalState_eq hw, step_pendingCatchupFor]
  simp only [catchupUpdate, hk]
  split_ifs with happly
  · simp only [happly]
  · -- a dropped catchup leaves `x` marked, who is among the recipients
    refine iff_of_false (fun heq => ?_) happly
    rw [heq, Finset.mem_sdiff, List.mem_toFinset] at hx
    exact hx.2 h.reached

/-- Every marked member has a trigger, and the catchup an admin authors with it is accepted
and hands the key over exactly when the author's power does not come from an executed
recovery alone. -/
theorem catchups_honoured_iff (C : Crypto) (ctx : VerifyContext) (log : List SignedMembershipEvent) :
    (∀ nowMs x, x ∈ (materializeWithNow C log ctx.adminAddr nowMs).pendingCatchupFor →
      (selectCatchupTriggerEvent log x).isSome = true) ∧
    ∀ x recipients e nowMs, AuthoredCatchup C ctx log x recipients e →
      x ∈ (materializeWithNow C log ctx.adminAddr (some e.hlc.wallMs)).pendingCatchupFor →
      currentMaxWallMs log nowMs ≤ e.hlc.wallMs →
      ((verifyEvent C ctx (priorStateAtEvent C log e ctx.adminAddr) e = .ok () ∧
        (materializeWithNow C (log ++ [e]) ctx.adminAddr nowMs).pendingCatchupFor =
          (materializeWithNow C log ctx.adminAddr (some e.hlc.wallMs)).pendingCatchupFor \
            (recipients.map (·.recipient)).toFinset) ↔
        (finalState C log ctx.adminAddr (some e.hlc.wallMs)).m.powerThresholds.kick ≤
          (finalState C log ctx.adminAddr (some e.hlc.wallMs)).m.power e.actor) := by
  refine ⟨fun nowMs x hx => select_isSome (exists_isCatchupTrigger hx), ?_⟩
  intro x recipients e nowMs h hx hw
  rw [and_iff_right h.accepted]
  exact h.pending_iff hx hw

/-- Owner 2 leaves, the group is rotated and owner 3 joins; the bootstrap admin catches
owner 3 up. -/
def joinedLate : List SignedMembershipEvent := rotatedTwice.take 4 ++ [signed 5 5 3 .join]
def lateCatchup : SignedMembershipEvent := signed 6 6 1 (.epochCatchup 1 5 [⟨3, []⟩])

theorem lateCatchup_authored :
    AuthoredCatchup symbolicCrypto openContext joinedLate 3 [⟨3, []⟩] lateCatchup where
  distinct := by decide
  last := by decide
  community := rfl
  clock := rfl
  countersig := rfl
  kind := ⟨5, by decide, by decide⟩
  reached := by decide
  joined := by decide
  power := by decide
  signature := ⟨[], admitted .joined (signed 1 1 1 .join) none, 100, rfl, by decide, by decide,
    by decide⟩

theorem catchups_honoured_late :
    (selectCatchupTriggerEvent joinedLate 3).isSome = true ∧
      ((verifyEvent symbolicCrypto openContext
            (priorStateAtEvent symbolicCrypto joinedLate lateCatchup 1) lateCatchup = .ok () ∧
          (materializeWithNow symbolicCrypto (joinedLate ++ [lateCatchup]) 1
              none).pendingCatchupFor =
            (materializeWithNow symbolicCrypto joinedLate 1 (some 6)).pendingCatchupFor \ {3}) ↔
        (finalState symbolicCrypto joinedLate 1 (some 6)).m.powerThresholds.kick ≤
          (finalState symbolicCrypto joinedLate 1 (some 6)).m.power 1) :=
  ⟨(catchups_honoured_iff symbolicCrypto openContext joinedLate).1 none 3 (by decide),
    (catchups_honoured_iff symbolicCrypto openContext joinedLate).2 3 [⟨3, []⟩] lateCatchup none
      lateCatchup_authored (by decide) (by decide)⟩

/-- Owner 3 is promoted by the recovery of `recoveredLog`, rotates the lost admin out and
catches up owner 4, who joins afterwards. -/
def promotedLog : List SignedMembershipEvent :=
  recoveredLog ++
    [signed 6 (recoveryVetoWindowFloorMs + recoveryRotationFinalityMs + 10) 3
        (.epochRotation 0 5 [⟨2, []⟩, ⟨3, []⟩]),
      signed 7 (recoveryVetoWindowFloorMs + recoveryRotationFinalityMs + 11) 4 .join]

def promotedCatchup : SignedMembershipEvent :=
  signed 8 (recoveryVetoWindowFloorMs + recoveryRotationFinalityMs + 12) 3
    (.epochCatchup 1 7 [⟨4, []⟩])

theorem promotedCatchup_authored :
    AuthoredCatchup symbolicCrypto openContext promotedLog 4 [⟨4, []⟩] promotedCatchup where
  distinct := by decide
  last := by decide
  community := rfl
  clock := rfl
  countersig := rfl
  kind := ⟨7, by decide, by decide⟩
  reached := by decide
  joined := by decide
  power := by decide
  signature := ⟨[], admitted .joined (signed 3 3 3 .join) none, 300, rfl, by decide, by decide,
    by decide⟩

/-- The promoted admin may rotate, and her catchup is accepted and ignored. -/
theorem promotedCatchup_ignored :
    VerifiedLog symbolicCrypto openContext (promotedLog ++ [promotedCatchup]) ∧
      AuthoredCatchup symbolicCrypto openContext promotedLog 4 [⟨4, []⟩] promotedCatchup ∧
      verifyEvent symbolicCrypto openContext
        (priorStateAtEvent symbolicCrypto promotedLog promotedCatchup 1) promotedCatchup =
          .ok () ∧
      (materializeWithNow symbolicCrypto promotedLog 1 none).currentEpoch = some 1 ∧
      4 ∈ (materializeWithNow symbolicCrypto promotedLog 1
        (some promotedCatchup.hlc.wallMs)).pendingCatchupFor ∧
      4 ∈ (materializeWithNow symbolicCrypto (promotedLog ++ [promotedCatchup]) 1
        none).pendingCatchupFor :=
  ⟨by decide, promotedCatchup_authored, promotedCatchup_authored.accepted, by decide, by decide,
    by decide⟩

end Catchup

end Harmony.Membership
