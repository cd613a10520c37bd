import Harmony.Membership.Execution

/-! Outstanding rotations. An owner is marked by a Kick, a Leave, a kick by proposal or
an executed recovery, but a rotation is accepted only for a trigger its arm can resolve:
a direct Kick, a Leave, or a recovery past its finality margin. -/

namespace Harmony.Membership

open Harmony.Lib

/-- The event `trigger` names the departure of `x` at wall `w`; a recovery brings its
new admin along. -/
def namesDeparture (st : ReplayState) (w : ℕ) (trigger : SignedMembershipEvent) (x : OwnerAddr)
    (promotee : Option OwnerAddr) : Prop :=
  ((∃ reason, trigger.kind = .kick x reason) ∧ promotee = none) ∨
    (trigger.kind = .leave ∧ trigger.actor = x ∧ promotee = none) ∨
    ∃ newAdmin configDigest work d, trigger.kind = .recoveryProposal x newAdmin configDigest ∧
      promotee = some newAdmin ∧ Executed st w trigger.id work d ∧
      ∃ eligible, checkedAdd d recoveryRotationFinalityMs = some eligible ∧ eligible < w

def owes (st : ReplayState) (t : ℕ) (x : OwnerAddr) (id : EventId) : Prop :=
  (∃ work d, Executed st t id work d ∧ work.lostAdmin = x) ∧
    st.m.status x ≠ some .pendingJoin ∧ id ∉ st.recRotationApplied

section Trigger

variable {st : ReplayState} {e trigger : SignedMembershipEvent} {x : OwnerAddr}
  {promotee : Option OwnerAddr}

theorem find_trigger (hnd : (st.replayed.map (·.id)).Nodup) (ht : trigger ∈ st.replayed) :
    st.replayed.find? (fun t => decide (t.id = trigger.id)) = some trigger := by
  cases hf : st.replayed.find? (fun t => decide (t.id = trigger.id)) with
  | none =>
    have := List.find?_eq_none.mp hf trigger ht
    simp at this
  | some t =>
    have hid : t.id = trigger.id := by simpa using List.find?_some hf
    rw [List.inj_on_of_nodup_map hnd (List.mem_of_find?_eq_some hf) ht hid]

/-- A recovery is a trigger once it is executed and past its finality margin. -/
theorem recoveryTrigger_iff (st : ReplayState) (w : ℕ) (id : EventId) :
    (∃ o, (recoveryOutcomesAt st w)[id]? = some o ∧ o.phase = .executed ∧
        (o.deadlineMs.bind fun d => checkedAdd d recoveryRotationFinalityMs).any
          (fun eligible => decide (eligible < w)) = true) ↔
      ∃ work d, Executed st w id work d ∧
        ∃ eligible, checkedAdd d recoveryRotationFinalityMs = some eligible ∧ eligible < w := by
  constructor
  · rintro ⟨o, ho, hphase, hmature⟩
    have hw := ho
    rw [outcomes_get] at hw
    obtain ⟨work, hwork, -⟩ := Option.map_eq_some_iff.mp hw
    obtain ⟨d, hd, hex⟩ := exists_executed hwork ho hphase
    rw [hd, Option.bind_some] at hmature
    cases hadd : checkedAdd d recoveryRotationFinalityMs with
    | none => simp [hadd] at hmature
    | some eligible =>
      rw [hadd, Option.any_some, decide_eq_true_eq] at hmature
      exact ⟨work, d, hex, eligible, hadd, hmature⟩
  · rintro ⟨work, d, ⟨-, o, ho, hphase, hd⟩, eligible, hadd, hlt⟩
    refine ⟨o, ho, hphase, ?_⟩
    rw [hd, Option.bind_some, hadd, Option.any_some]
    exact decide_eq_true hlt

theorem rotationTrigger_iff (hnd : (st.replayed.map (·.id)).Nodup) (ht : trigger ∈ st.replayed) :
    rotationTrigger st e trigger.id = some (x, promotee) ↔
      namesDeparture st e.hlc.wallMs trigger x promotee := by
  have hfind := find_trigger hnd ht
  unfold namesDeparture
  cases hk : trigger.kind with
  | kick target reason =>
    simp only [rotationTrigger, hfind, hk, Option.some.injEq, Prod.mk.injEq, reduceCtorEq,
      MembershipEventKind.kick.injEq, exists_and_left, exists_eq', and_true, false_and,
      exists_false, or_false]
    rw [eq_comm (a := none)]
  | leave =>
    simp only [rotationTrigger, hfind, hk, Option.some.injEq, Prod.mk.injEq, reduceCtorEq,
      exists_false, false_and, false_or, true_and, or_false]
    rw [eq_comm (a := none)]
  | recoveryProposal lostAdmin newAdmin configDigest =>
    simp only [rotationTrigger, hfind, hk, reduceCtorEq, exists_false, false_and, false_or,
      MembershipEventKind.recoveryProposal.injEq]
    have hiff := recoveryTrigger_iff st e.hlc.wallMs trigger.id
    simp only [recoveryOutcomesAt] at hiff
    constructor
    · intro h
      split at h
      · rename_i o ho
        split_ifs at h with hcond
        obtain ⟨rfl, rfl⟩ := Prod.mk.inj (Option.some.inj h)
        obtain ⟨work, d, hex⟩ := hiff.mp ⟨o, ho, hcond⟩
        exact ⟨newAdmin, configDigest, work, d, ⟨rfl, rfl, rfl⟩, rfl, hex⟩
      · simp at h
    · rintro ⟨newAdmin', configDigest', work, d, ⟨rfl, rfl, rfl⟩, rfl, hex⟩
      obtain ⟨o, ho, hcond⟩ := hiff.mpr ⟨work, d, hex⟩
      rw [ho]
      simp only [hcond, and_self, if_true]
  | _ => simp [rotationTrigger, hfind, hk]

theorem exists_trigger {verdict : OwnerAddr × Option OwnerAddr} {id : EventId}
    (h : rotationTrigger st e id = some verdict) : ∃ trigger ∈ st.replayed, trigger.id = id := by
  unfold rotationTrigger at h
  split at h
  · simp at h
  · rename_i t hf
    exact ⟨t, List.mem_of_find?_eq_some hf, by simpa using List.find?_some hf⟩

theorem triggerIsLeave_iff (hnd : (st.replayed.map (·.id)).Nodup) (ht : trigger ∈ st.replayed) :
    triggerIsLeave st trigger.id = true ↔ trigger.kind = .leave := by
  simp only [triggerIsLeave, find_trigger hnd ht, Option.any_some, decide_eq_true_eq]

end Trigger

/-! ### The view's marker -/

section Marker

variable {env : ReplayEnv} {st : ReplayState} {x : OwnerAddr}

theorem mem_pendingRotation_view :
    x ∈ (postPass env st).pendingRotationFor ↔
      x ∈ st.m.pendingRotationFor ∨ ∃ id, owes st env.currentMaxWallMs x id := by
  by_cases hd : deposed env st x
  · obtain ⟨id, work, d, hex, hx⟩ := hd
    rw [(postPass_deposed hex hx).2]
    refine or_congr_right ⟨fun h => ⟨id, ⟨work, d, hex, hx⟩, h⟩, ?_⟩
    rintro ⟨id', ⟨work', d', hex', hx'⟩, hstatus, hid'⟩
    obtain ⟨rfl, -⟩ := hex.unique hex' (hx.trans hx'.symm)
    exact ⟨hstatus, hid'⟩
  · rw [(postPass_not_deposed hd).2]
    refine (or_iff_left ?_).symm
    rintro ⟨id, ⟨work, d, hex, hx⟩, -⟩
    exact hd ⟨id, work, d, hex, hx⟩

end Marker

/-! ### Rotating an owner out -/

section Rotatable

variable (C : Crypto) (events : List SignedMembershipEvent) (adminAddr : OwnerAddr)

/-- The event `e` is a rotation for `x` on top of the log: it sorts after all of it at
wall `w`, builds on the current epoch and reaches everyone the view holds as Joined or
Invited, except `x`. -/
def rotationFor (w : ℕ) (x : OwnerAddr) (e : SignedMembershipEvent) : Prop :=
  DistinctIds (events ++ [e]) ∧ (∀ a ∈ events, eventSortKey a < eventSortKey e) ∧
    e.hlc.wallMs = w ∧
    ∃ triggeredBy recipients,
      e.kind = .epochRotation
        ((materializeWithNow C events adminAddr (some w)).currentEpoch.getD 0) triggeredBy
        recipients ∧
      ∀ y, y ∈ recipients.map (·.recipient) ↔
        y ≠ x ∧ holdsKey (materializeWithNow C events adminAddr (some w)) y = true

def hasIssuer (st : ReplayState) (trigger : SignedMembershipEvent) (x : OwnerAddr)
    (promotee : Option OwnerAddr) : Prop :=
  ∃ issuer, isEffectiveAdmin adminAddr st.m issuer = true ∨
    (trigger.kind = .leave ∧ issuer = x ∧ (st.m.status issuer).isSome = true) ∨
    (promotee = some issuer ∧ isJoinedMember st.m issuer = true)

/-- At wall `w` the log holds a trigger for `x` that serves everything `x` is owed,
somebody may cite it, and nobody but `x` is a member of the replay only. -/
def rotatable (w : ℕ) (x : OwnerAddr) : Prop :=
  ∃ trigger ∈ events, ∃ promotee,
    namesDeparture (finalState C events adminAddr (some w)) w trigger x promotee ∧
    (∀ id, owes (finalState C events adminAddr (some w)) w x id → trigger.id = id) ∧
    (∀ y, y ≠ x → holdsKey (finalState C events adminAddr (some w)).m y = true →
      holdsKey (materializeWithNow C events adminAddr (some w)) y = true) ∧
    hasIssuer adminAddr (finalState C events adminAddr (some w)) trigger x promotee

variable {C events adminAddr} {nowMs : Option ℕ} {w : ℕ} {x : OwnerAddr}
  {e : SignedMembershipEvent}

theorem currentMaxWallMs_rotation (hw : currentMaxWallMs events nowMs ≤ w)
    (he : e.hlc.wallMs = w) : currentMaxWallMs (events ++ [e]) nowMs = w := by
  unfold currentMaxWallMs at hw ⊢
  rw [eventsMaxWallMs_snoc, he]
  cases nowMs with
  | none => exact max_eq_right hw
  | some now =>
    simp only at hw ⊢
    omega

theorem finalState_replayed (C : Crypto) (events : List SignedMembershipEvent)
    (adminAddr : OwnerAddr) (nowMs : Option ℕ) :
    (finalState C events adminAddr nowMs).replayed = sortEvents events := replay_replayed _ _

theorem finalState_replayed_nodup (hids : DistinctIds events) :
    ((finalState C events adminAddr nowMs).replayed.map (·.id)).Nodup := by
  rw [finalState_replayed]
  exact ((sortBy_perm events).map _).nodup_iff.mpr hids

theorem mem_finalState_replayed {a : SignedMembershipEvent} :
    a ∈ (finalState C events adminAddr nowMs).replayed ↔ a ∈ events := by
  rw [finalState_replayed]
  exact mem_sortBy

section Step

variable {env : ReplayEnv} {st : ReplayState} {priorEpoch : ℕ} {triggeredBy : EventId}
  {recipients : List RecipientCiphertext}

theorem step_rotation_status (hk : e.kind = .epochRotation priorEpoch triggeredBy recipients)
    (y : OwnerAddr) : (step env st e).m.status y = st.m.status y := by
  rw [step_status]
  simp [statusUpdate, hk, kickedBy, tipped]

theorem step_rotation_governance
    (hk : e.kind = .epochRotation priorEpoch triggeredBy recipients) :
    (step env st e).governance = st.governance := by
  rw [step_governance]
  simp [govStep, hk, tipped, recordSigner]

end Step

/-- What an owner is still owed after a rotation on top of the log. -/
theorem owes_rotation (hw : currentMaxWallMs events nowMs ≤ w)
    (hrot : rotationFor C events adminAddr w x e) (id : EventId) :
    owes (finalState C (events ++ [e]) adminAddr nowMs)
        (prePass C (events ++ [e]) adminAddr nowMs).currentMaxWallMs x id ↔
      owes (finalState C events adminAddr (some w)) w x id ∧
        ¬(((appliedRotation (prePass C (events ++ [e]) adminAddr nowMs)
          (finalState C events adminAddr (some w)) e).bind (·.2)).isSome = true ∧ cites e = id) := by
  obtain ⟨hids, hlast, hwall, triggeredBy, recipients, hk, -⟩ := hrot
  have htime := currentMaxWallMs_rotation hw hwall
  have hwithout : stateWithout C events adminAddr nowMs e =
      finalState C events adminAddr (some w) := by rw [stateWithout, htime]
  have happrove : approvesNothing e := by constructor <;> simp [hk]
  have hsnoc : finalState C (events ++ [e]) adminAddr nowMs =
      step (prePass C (events ++ [e]) adminAddr nowMs)
        (finalState C events adminAddr (some w)) e := by
    rw [finalState_snoc hids hlast happrove, hwithout]
  have hjoined : ∀ y, isJoinedMember (finalState C (events ++ [e]) adminAddr nowMs).m y =
      isJoinedMember (stateWithout C events adminAddr nowMs e).m y := fun y => by
    simp only [isJoinedMember, hsnoc, step_rotation_status hk, hwithout]
  have hconfig : (finalState C (events ++ [e]) adminAddr nowMs).recConfigChangeWalls =
      (stateWithout C events adminAddr nowMs e).recConfigChangeWalls := by
    rw [hsnoc, hwithout]
    exact congrArg Governance.configChangeWalls (step_rotation_governance hk)
  have hexecuted : ∀ {work d}, Executed (finalState C (events ++ [e]) adminAddr nowMs)
      (prePass C (events ++ [e]) adminAddr nowMs).currentMaxWallMs id work d ↔
        Executed (finalState C events adminAddr (some w)) w id work d := by
    intro work d
    rw [executed_snoc hids hlast happrove (by simp [isRecoveryEvent, hk]) hjoined hconfig,
      hwithout, envWithout_time, htime]
  simp only [owes, hexecuted]
  rw [hsnoc, step_rotation_status hk, step_recRotationApplied]
  split_ifs with hsome
  · simp only [Finset.mem_insert, not_or, hsome, true_and]
    constructor
    · rintro ⟨hex, hstatus, hne, hid⟩
      exact ⟨⟨hex, hstatus, hid⟩, fun h => hne h.symm⟩
    · rintro ⟨⟨hex, hstatus, hid⟩, hne⟩
      exact ⟨hex, hstatus, fun h => hne h.symm, hid⟩
  · simp only [hsome, Bool.false_eq_true, false_and, not_false_eq_true, and_true]

/-- Who is marked after a rotation on top of the log. -/
theorem pending_after_rotation (hw : currentMaxWallMs events nowMs ≤ w)
    (hrot : rotationFor C events adminAddr w x e) :
    x ∈ (materializeWithNow C (events ++ [e]) adminAddr nowMs).pendingRotationFor ↔
      x ∈ (appliedRotation (prePass C (events ++ [e]) adminAddr nowMs)
          (finalState C events adminAddr (some w)) e).elim
            (finalState C events adminAddr (some w)).m.pendingRotationFor
            (fun verdict =>
              (finalState C events adminAddr (some w)).m.pendingRotationFor.erase verdict.1) ∨
        ∃ id, owes (finalState C events adminAddr (some w)) w x id ∧
          ¬(((appliedRotation (prePass C (events ++ [e]) adminAddr nowMs)
            (finalState C events adminAddr (some w)) e).bind (·.2)).isSome = true ∧
              cites e = id) := by
  rw [materializeWithNow_eq, mem_pendingRotation_view]
  refine or_congr ?_ (exists_congr fun id => owes_rotation hw hrot id)
  obtain ⟨hids, hlast, hwall, triggeredBy, recipients, hk, -⟩ := hrot
  have happrove : approvesNothing e := by constructor <;> simp [hk]
  rw [finalState_snoc hids hlast happrove, stateWithout, currentMaxWallMs_rotation hw hwall,
    step_pendingRotationFor]
  have hdep : departure (prePass C (events ++ [e]) adminAddr nowMs)
      (finalState C events adminAddr (some w)) e = none := by
    simp [departure, hk, kickedBy, tipped]
  rw [hdep, Option.elim_none]

theorem mem_pending_before (hw : currentMaxWallMs events nowMs ≤ w) :
    x ∈ (materializeWithNow C events adminAddr (some w)).pendingRotationFor ↔
      x ∈ (finalState C events adminAddr (some w)).m.pendingRotationFor ∨
        ∃ id, owes (finalState C events adminAddr (some w)) w x id := by
  have htime : (prePass C events adminAddr (some w)).currentMaxWallMs = w := by
    refine max_eq_right (le_trans ?_ hw)
    unfold currentMaxWallMs
    split
    · exact le_max_left _ _
    · exact le_rfl
  rw [materializeWithNow_eq, mem_pendingRotation_view, htime]

theorem origin_of_owes (hids : DistinctIds events) {trigger : SignedMembershipEvent}
    (ht : trigger ∈ events)
    (howes : owes (finalState C events adminAddr nowMs) w x trigger.id) :
    ∃ newAdmin configDigest, trigger.kind = .recoveryProposal x newAdmin configDigest := by
  obtain ⟨⟨work, d, hex, rfl⟩, -⟩ := howes
  obtain ⟨s, p, config, hp, hid, hkind, -⟩ := replay_openedBy (sorted_walls events) hex.1
  rw [← hids.inj (mem_sortBy.mp (mem_of_position hp)) ht hid]
  exact ⟨_, _, hkind⟩

/-- A rotation that serves `x` cites a trigger of the log that names `x`. -/
theorem rotatable_of_served (hids : DistinctIds events) (hw : currentMaxWallMs events nowMs ≤ w)
    (hx : x ∈ (materializeWithNow C events adminAddr (some w)).pendingRotationFor)
    (hrot : rotationFor C events adminAddr w x e)
    (hserved : x ∉ (materializeWithNow C (events ++ [e]) adminAddr nowMs).pendingRotationFor) :
    rotatable C events adminAddr w x := by
  rw [mem_pending_before hw] at hx
  rw [pending_after_rotation hw hrot, not_or] at hserved
  obtain ⟨hmarked, howed⟩ := hserved
  set st := finalState C events adminAddr (some w) with hst
  cases happ : appliedRotation (prePass C (events ++ [e]) adminAddr nowMs) st e with
  | none =>
    -- a dropped rotation serves nobody
    rw [happ] at hmarked howed
    rcases hx with hx | ⟨id, hid⟩
    · exact absurd hx hmarked
    · exact absurd ⟨id, hid, by simp⟩ howed
  | some verdict =>
    rw [happ] at hmarked howed
    simp only [Option.elim_some, Finset.mem_erase, not_and, Option.bind_some] at hmarked howed
    obtain ⟨-, -, hwall, triggeredBy, recipients, hk, hrecipients⟩ := hrot
    simp only [appliedRotation, hk] at happ
    obtain ⟨-, htrig, -, hcovered, hissuer⟩ := rotationVerdict_eq_some.mp happ
    have hcites : cites e = triggeredBy := by simp [cites, hk]
    obtain ⟨trigger, ht, hid⟩ := exists_trigger htrig
    have hnd : (st.replayed.map (·.id)).Nodup := finalState_replayed_nodup hids
    have hmem : trigger ∈ events := mem_finalState_replayed.mp ht
    subst hid
    obtain ⟨target, promotee⟩ := verdict
    have hnames := (rotationTrigger_iff hnd ht).mp htrig
    rw [hwall] at hnames
    have hcited : ∀ id, owes st w x id → promotee.isSome = true ∧ trigger.id = id := by
      intro id hid
      by_contra hne
      refine howed ⟨id, hid, fun hsome hc => hne ⟨hsome, ?_⟩⟩
      rw [← hcites, hc]
    have htarget : target = x := by
      rcases hx with hx | ⟨id, hid⟩
      · by_contra hne
        exact hmarked (Ne.symm hne) hx
      · obtain ⟨hsome, rfl⟩ := hcited id hid
        obtain ⟨newAdmin, configDigest, hkind⟩ := origin_of_owes hids hmem hid
        rcases hnames with ⟨⟨reason, hkick⟩, -⟩ | ⟨hleave, -⟩ | ⟨_, _, _, _, hrec, -⟩
        · simp [hkind] at hkick
        · simp [hkind] at hleave
        · rw [hkind, MembershipEventKind.recoveryProposal.injEq] at hrec
          exact hrec.1.symm
    subst htarget
    refine ⟨trigger, hmem, promotee, hnames, fun id hid => (hcited id hid).2, ?_, e.actor, ?_⟩
    · intro y hy hholds
      exact ((hrecipients y).mp (hcovered y hy hholds)).2
    · rcases hissuer with hadmin | ⟨hleave, hactor, hrecord⟩ | hpromotee
      · exact Or.inl hadmin
      · exact Or.inr (Or.inl ⟨(triggerIsLeave_iff hnd ht).mp hleave, hactor, hrecord⟩)
      · exact Or.inr (Or.inr hpromotee)

/-- An event of the given kind and author that sorts after the whole log at wall `w`. -/
theorem exists_last (hw : currentMaxWallMs events nowMs ≤ w) (hids : DistinctIds events)
    (kind : MembershipEventKind) (actor : OwnerAddr) :
    ∃ e : SignedMembershipEvent, DistinctIds (events ++ [e]) ∧
      (∀ a ∈ events, eventSortKey a < eventSortKey e) ∧ e.hlc.wallMs = w ∧ e.kind = kind ∧
      e.actor = actor := by
  obtain ⟨id, hid⟩ := Infinite.exists_notMem_finset (events.map (·.id)).toFinset
  obtain ⟨logical, hlogical⟩ :=
    Finset.exists_nat_subset_range (events.map (·.hlc.logical)).toFinset
  refine ⟨⟨id, 0, kind, actor, ⟨w, logical, ""⟩, 0, none, none, []⟩, ?_, fun a ha => ?_, rfl, rfl,
    rfl⟩
  · rw [List.mem_toFinset] at hid
    rw [DistinctIds, KeyNodup, List.map_append, List.nodup_append]
    refine ⟨hids, by simp, ?_⟩
    intro i hi j hj hij
    simp only [List.map_cons, List.map_nil, List.mem_singleton] at hj
    exact hid (hj ▸ hij ▸ hi)
  · have hwall : a.hlc.wallMs ≤ w := (le_currentMaxWallMs nowMs ha).trans hw
    have hlt : a.hlc.logical < logical := by
      have := hlogical (List.mem_toFinset.mpr (List.mem_map_of_mem ha))
      simpa using this
    rw [eventSortKey, eventSortKey, Prod.Lex.toLex_lt_toLex]
    rcases hwall.lt_or_eq with hw | hw
    · exact Or.inl hw
    · refine Or.inr ⟨hw, ?_⟩
      rw [Prod.Lex.toLex_lt_toLex]
      exact Or.inl hlt

theorem served_of_rotatable (hids : DistinctIds events) (hw : currentMaxWallMs events nowMs ≤ w)
    (h : rotatable C events adminAddr w x) :
    ∃ e, rotationFor C events adminAddr w x e ∧
      x ∉ (materializeWithNow C (events ++ [e]) adminAddr nowMs).pendingRotationFor := by
  obtain ⟨trigger, hmem, promotee, hnames, howed, hreach, issuer, hissuer⟩ := h
  set view := materializeWithNow C events adminAddr (some w) with hview
  set st := finalState C events adminAddr (some w) with hst
  have hnd : (st.replayed.map (·.id)).Nodup := finalState_replayed_nodup hids
  have ht : trigger ∈ st.replayed := mem_finalState_replayed.mpr hmem
  set recipients : List RecipientCiphertext :=
    (expectedRecipients view x).map fun y => ⟨y, []⟩ with hrec
  have hrecipients : ∀ y, y ∈ recipients.map (·.recipient) ↔ y ≠ x ∧ holdsKey view y = true := by
    intro y
    rw [hrec, List.map_map, ← mem_expectedRecipients]
    simp
  obtain ⟨e, hids', hlast, hwall, hk, hactor⟩ := exists_last hw hids
    (.epochRotation (view.currentEpoch.getD 0) trigger.id recipients) issuer
  have hrot : rotationFor C events adminAddr w x e :=
    ⟨hids', hlast, hwall, trigger.id, recipients, hk, hrecipients⟩
  have hepoch : view.currentEpoch = st.m.currentEpoch := postPass_currentEpoch _ _
  have hverdict : appliedRotation (prePass C (events ++ [e]) adminAddr nowMs) st e =
      some (x, promotee) := by
    simp only [appliedRotation, hk]
    refine rotationVerdict_eq_some.mpr ⟨by rw [hepoch], ?_, ?_, ?_, ?_⟩
    · rw [rotationTrigger_iff hnd ht, hwall]
      exact hnames
    · rw [hrecipients]
      simp
    · intro y hy hholds
      exact (hrecipients y).mpr ⟨hy, hreach y hy hholds⟩
    · rw [mayRotate, hactor, triggerIsLeave_iff hnd ht]
      exact hissuer
  refine ⟨e, hrot, ?_⟩
  rw [pending_after_rotation hw hrot, hverdict]
  simp only [Option.elim_some, Finset.mem_erase, ne_eq, not_true_eq_false, false_and, false_or,
    Option.bind_some, not_exists, not_and]
  intro id hid hne
  obtain rfl := howed id hid
  obtain ⟨newAdmin, configDigest, hkind⟩ := origin_of_owes hids hmem hid
  refine hne ?_ (by simp [cites, hk])
  rcases hnames with ⟨⟨reason, hkick⟩, -⟩ | ⟨hleave, -⟩ | ⟨_, _, _, _, -, rfl, -⟩
  · simp [hkind] at hkick
  · simp [hkind] at hleave
  · rfl

/-- An outstanding rotation can be served exactly when the log holds a trigger that
serves everything the owner is owed, somebody may cite it, and no other executed
recovery leaves a lost admin among the members of the replay. -/
theorem outstanding_rotation_iff (C : Crypto) (events : List SignedMembershipEvent)
    (adminAddr : OwnerAddr) (nowMs : Option ℕ) (w : ℕ) (x : OwnerAddr) (hids : DistinctIds events)
    (hw : currentMaxWallMs events nowMs ≤ w)
    (hx : x ∈ (materializeWithNow C events adminAddr (some w)).pendingRotationFor) :
    (∃ e, rotationFor C events adminAddr w x e ∧
        x ∉ (materializeWithNow C (events ++ [e]) adminAddr nowMs).pendingRotationFor) ↔
      rotatable C events adminAddr w x := by
  constructor
  · rintro ⟨e, hrot, hserved⟩
    exact rotatable_of_served hids hw hx hrot hserved
  · exact served_of_rotatable hids hw

def quorumKick : List SignedMembershipEvent :=
  [signed 1 1 1 .join, signed 2 2 2 .join, signed 3 3 3 .join, signed 4 4 1 (.setPower 2 100),
    signed 5 5 1 (.setPower 3 100), signed 6 6 1 (.adminProposal (.changeQuorum 2)),
    signed 7 7 1 (.adminProposal (.kick 3 none)), signed 8 8 2 (.adminCountersign 7)]

theorem outstanding_rotation_leave :
    2 ∈ (materializeWithNow symbolicCrypto (rotatedTwice.take 3) 1 (some 9)).pendingRotationFor ∧
      ((∃ e, rotationFor symbolicCrypto (rotatedTwice.take 3) 1 9 2 e ∧
          2 ∉ (materializeWithNow symbolicCrypto (rotatedTwice.take 3 ++ [e]) 1
            none).pendingRotationFor) ↔
        rotatable symbolicCrypto (rotatedTwice.take 3) 1 9 2) :=
  ⟨by decide, outstanding_rotation_iff symbolicCrypto (rotatedTwice.take 3) 1 none 9 2 (by decide)
    (by decide) (by decide)⟩

theorem quorumKick_marked (w : ℕ) :
    3 ∈ (finalState symbolicCrypto quorumKick 1 (some w)).m.pendingRotationFor :=
  of_decide_eq_true rfl

/-- The kicked admin is marked, and no rotation at any time removes the marker. -/
theorem quorumKick_stuck :
    VerifiedLog symbolicCrypto openContext quorumKick ∧
      3 ∈ (materializeWithNow symbolicCrypto quorumKick 1 none).pendingRotationFor ∧
      isJoinedMember (materializeWithNow symbolicCrypto quorumKick 1 none) 1 = true ∧
      (materializeWithNow symbolicCrypto quorumKick 1 none).powerThresholds.kick ≤
        (materializeWithNow symbolicCrypto quorumKick 1 none).power 1 ∧
      ∀ (nowMs : Option ℕ) (w : ℕ) (e : SignedMembershipEvent),
        currentMaxWallMs quorumKick nowMs ≤ w → rotationFor symbolicCrypto quorumKick 1 w 3 e →
          3 ∈ (materializeWithNow symbolicCrypto (quorumKick ++ [e]) 1 nowMs).pendingRotationFor := by
  refine ⟨by decide, by decide, by decide, by decide, fun nowMs w e hw hrot => ?_⟩
  by_contra hserved
  have hx := (mem_pending_before hw).mpr (Or.inl (quorumKick_marked w))
  obtain ⟨trigger, hmem, promotee, hnames, -⟩ :=
    rotatable_of_served (by decide) hw hx hrot hserved
  -- the log holds no direct Kick, no Leave and no recovery at all
  simp only [quorumKick, List.mem_cons, List.not_mem_nil, or_false] at hmem
  rcases hmem with rfl | rfl | rfl | rfl | rfl | rfl | rfl | rfl <;>
    simp [namesDeparture, signed, signedWith] at hnames

end Rotatable

end Harmony.Membership
