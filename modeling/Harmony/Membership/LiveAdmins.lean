import Harmony.Membership.Proposals
import Harmony.Membership.Terminal

/-! The admins who can sign. An event moves them by its effect on power and membership
only: no recovery is executed or undone at the wall of an event, so the Joined owners of
power 100 after it are computed from the state it meets. -/

namespace Harmony.Membership

open Harmony.Lib

/-! ### Executed recoveries at the wall of an event -/

section AtEvent

variable {env : ReplayEnv} {sorted sorted' : List SignedMembershipEvent}
  {e : SignedMembershipEvent} {id : EventId} {work : RecoveryWork} {t d : ℕ} {x : OwnerAddr}

theorem Settled.le {st : ReplayState} {b : Bound} {tr : ℕ} (h : Settled st id b tr d) : tr ≤ d := by
  have := le_of_checkedAdd h.deadline
  omega

/-- The entries that are settled before `t` decide what is executed at `t`. -/
theorem executed_of_settled (hs : sorted.Pairwise fun a b => a.hlc.wallMs ≤ b.hlc.wallMs)
    (hs' : sorted'.Pairwise fun a b => a.hlc.wallMs ≤ b.hlc.wallMs)
    (hsettled : ∀ id b tr d, tr ≤ d → d < t →
      (Settled (replay env sorted) id b tr d ↔ Settled (replay env sorted') id b tr d))
    (hex : Executed (replay env sorted) t id work d) :
    ∃ work', Executed (replay env sorted') t id work' d ∧ work'.bound = work.bound := by
  obtain ⟨hexec, hd, hleast⟩ := executed_iff_least.mp hex
  obtain ⟨tr, d', hset, -, hlate, hd', hkey⟩ := settled_of_executable hs hexec
  obtain rfl : d' = d := Option.some.inj (hd'.symm.trans hd)
  have hset' := (hsettled _ _ _ _ hset.le hlate).mp hset
  obtain ⟨work', hbound, hexec', hdeadline, hkey'⟩ := hset'.executable hlate
  refine ⟨work', executed_iff_least.mpr ⟨hexec', hdeadline, fun i rival' hrival' hlost => ?_⟩, hbound⟩
  -- a rival over there is a rival here, with the same key
  obtain ⟨tr₀, d₀, hset₀', -, hlate₀, -, hkey₀'⟩ := settled_of_executable hs' hrival'
  have hset₀ := (hsettled _ _ _ _ hset₀'.le hlate₀).mpr hset₀'
  obtain ⟨rival, hrbound, hrival, -, hkey₀⟩ := hset₀.executable hlate₀
  rw [hkey', hkey₀', ← hkey, ← hkey₀]
  refine hleast i rival hrival ?_
  have hlost' := congrArg Bound.lostAdmin hbound
  exact (congrArg Bound.lostAdmin hrbound).trans (hlost.trans hlost')

theorem executed_at_event (hs : (sorted ++ [e]).Pairwise fun a b => a.hlc.wallMs ≤ b.hlc.wallMs)
    (hids : KeyNodup (·.id) (sorted ++ [e])) (b : Bound) :
    (∃ work, Executed (replay env (sorted ++ [e])) e.hlc.wallMs id work d ∧ work.bound = b) ↔
      ∃ work, Executed (replay env sorted) e.hlc.wallMs id work d ∧ work.bound = b := by
  have hspre := (List.pairwise_append.mp hs).1
  have hsettled : ∀ id b tr d, tr ≤ d → d < e.hlc.wallMs →
      (Settled (replay env (sorted ++ [e])) id b tr d ↔ Settled (replay env sorted) id b tr d) := by
    intro id b tr d htr hlate
    rw [replay_snoc]
    refine ⟨settled_of_step htr hlate, fun h => h.step hlate ?_⟩
    obtain ⟨work, hget, -⟩ := h.frozen
    exact fresh_of_entry hspre hids hget e (by simp)
  constructor
  · rintro ⟨work, hex, rfl⟩
    exact executed_of_settled hs hspre hsettled hex
  · rintro ⟨work, hex, rfl⟩
    exact executed_of_settled hspre hs (fun i b tr d htr hlate => (hsettled i b tr d htr hlate).symm) hex

end AtEvent

/-! ### Live admins -/

/-- The owners whose power entry is 100 and who are Joined. -/
def liveAdmins (m : MaterializedMembership) : Finset OwnerAddr :=
  ((m.powerLevels.toList.filter fun p => decide (p.2 = 100) && isJoinedMember m p.1).map
    Prod.fst).toFinset

section Live

variable {m : MaterializedMembership} {x : OwnerAddr}

theorem mem_liveAdmins :
    x ∈ liveAdmins m ↔ m.powerLevels[x]? = some 100 ∧ isJoinedMember m x = true := by
  simp only [liveAdmins, List.mem_toFinset, List.mem_map, List.mem_filter, Bool.and_eq_true,
    decide_eq_true_eq]
  constructor
  · rintro ⟨⟨y, level⟩, ⟨hmem, hlevel, hjoined⟩, rfl⟩
    dsimp only at hlevel
    subst hlevel
    exact ⟨Std.ExtTreeMap.mem_toList_iff_getElem?_eq_some.mp hmem, hjoined⟩
  · rintro ⟨hget, hjoined⟩
    exact ⟨(x, 100), ⟨Std.ExtTreeMap.mem_toList_iff_getElem?_eq_some.mpr hget, rfl, hjoined⟩, rfl⟩

theorem liveAdmins_card (m : MaterializedMembership) : (liveAdmins m).card = liveAdminCount m := by
  rw [liveAdmins, liveAdminCount, List.toFinset_card_of_nodup, List.length_map]
  have hkeys : m.powerLevels.toList.Pairwise fun a b => a.1 ≠ b.1 :=
    m.powerLevels.distinct_keys_toList.imp fun hab heq => hab (by rw [heq]; exact Std.ReflCmp.compare_self)
  rw [List.Nodup, List.pairwise_map]
  exact hkeys.sublist List.filter_sublist

theorem joined_postPass {env : ReplayEnv} {st : ReplayState} :
    isJoinedMember (postPass env st) x = true ↔
      ¬deposed env st x ∧ isJoinedMember st.m x = true := by
  by_cases hd : deposed env st x
  · obtain ⟨id, work, d, hex, hx⟩ := hd
    have hbanned : ∀ r : Option MemberState,
        (onDerivedKick (decide (x = env.adminAddr)) ⟨d, 0, ""⟩ r).map (·.status) ≠
          some .joined := by
      intro r
      unfold onDerivedKick
      split
      · split_ifs with hs <;> simp [hs]
      · split_ifs <;> simp
    rw [isJoinedMember_iff, (postPass_deposed hex hx).1]
    exact iff_of_false (hbanned _) fun h => h.1 ⟨id, work, d, hex, hx⟩
  · rw [isJoinedMember_iff, isJoinedMember_iff, (postPass_not_deposed hd).1]
    exact ⟨fun h => ⟨hd, h⟩, And.right⟩

theorem mem_liveAdmins_postPass {env : ReplayEnv} {st : ReplayState} :
    x ∈ liveAdmins (postPass env st) ↔
      (promoted env st x ∨ st.m.powerLevels[x]? = some 100) ∧ ¬deposed env st x ∧
        isJoinedMember st.m x = true := by
  rw [mem_liveAdmins, joined_postPass]
  refine and_congr_left fun _ => ?_
  by_cases hp : promoted env st x
  · simp [postPass_promoted hp, hp]
  · simp [postPass_not_promoted hp, hp]

end Live

/-! ### What an event does to the admins -/

/-- The effect of an event on power, quorum and membership, as a proposal would have it:
a Leave takes its actor out as a Kick would. -/
def effectAt (idx : ProposalsIndex) (g : Governance) (e : SignedMembershipEvent) :
    Option ProposalKind :=
  match e.kind with
  | .leave => some (.kick e.actor none)
  | .kick target reason => some (.kick target reason)
  | .setPower target level => some (.setPower target level)
  | _ => (tipped idx g e).map (·.2)

section Effect

variable {env : ReplayEnv} {st : ReplayState} {e : SignedMembershipEvent} {kind : ProposalKind}

theorem isAdminVote_of_tipped {idx : ProposalsIndex} {g : Governance} {id : EventId}
    (ht : tipped idx g e = some (id, kind)) : isAdminVote e := by
  unfold tipped at ht
  split at ht
  · exact Or.inl ⟨_, by assumption⟩
  · exact Or.inr ⟨_, by assumption⟩
  · cases ht

theorem effectAt_cases {idx : ProposalsIndex} {g : Governance} (he : effectAt idx g e = some kind) :
    (e.kind = .leave ∧ kind = .kick e.actor none) ∨
      (∃ target reason, e.kind = .kick target reason ∧ kind = .kick target reason) ∨
      (∃ target level, e.kind = .setPower target level ∧ kind = .setPower target level) ∨
      ∃ id, tipped idx g e = some (id, kind) := by
  unfold effectAt at he
  split at he
  · rename_i hk
    exact Or.inl ⟨hk, (Option.some.inj he).symm⟩
  · rename_i target reason hk
    exact Or.inr (Or.inl ⟨target, reason, hk, (Option.some.inj he).symm⟩)
  · rename_i target level hk
    exact Or.inr (Or.inr (Or.inl ⟨target, level, hk, (Option.some.inj he).symm⟩))
  · obtain ⟨⟨id, k⟩, ht, rfl⟩ := Option.map_eq_some_iff.mp he
    exact Or.inr (Or.inr (Or.inr ⟨id, ht⟩))

theorem effectAt_of_tipped {idx : ProposalsIndex} {g : Governance} {id : EventId}
    (ht : tipped idx g e = some (id, kind)) : effectAt idx g e = some kind := by
  unfold effectAt
  cases hk : e.kind with
  | leave => simp [tipped, hk] at ht
  | kick target reason => simp [tipped, hk] at ht
  | setPower target level => simp [tipped, hk] at ht
  | _ => simp [ht]

theorem tipped_of_no_effect {idx : ProposalsIndex} {g : Governance}
    (he : effectAt idx g e = none) : tipped idx g e = none := by
  unfold effectAt at he
  split at he
  · simp at he
  · simp at he
  · simp at he
  · exact Option.map_eq_none_iff.mp he

theorem govStep_of_no_effect {idx : ProposalsIndex} {g : Governance}
    (he : effectAt idx g e = none) : govStep idx g e = recordSigner idx g e := by
  unfold govStep
  split
  · rename_i hk
    simp [effectAt, hk] at he
  · rw [tipped_of_no_effect he, Option.elim_none]

def powerUpdate (effect : Option ProposalKind) (power : BTreeMap OwnerAddr ℕ) :
    BTreeMap OwnerAddr ℕ :=
  match effect with
  | some (.setPower target level) => power.insert target level
  | _ => power

theorem govStep_powerLevels (idx : ProposalsIndex) (g : Governance) (e : SignedMembershipEvent) :
    (govStep idx g e).powerLevels = powerUpdate (effectAt idx g e) g.powerLevels := by
  cases he : effectAt idx g e with
  | none =>
    rw [govStep_of_no_effect he]
    exact recordSigner_powerLevels
  | some kind =>
    rcases effectAt_cases he with
      ⟨hk, rfl⟩ | ⟨target, reason, hk, rfl⟩ | ⟨target, level, hk, rfl⟩ | ⟨id, ht⟩
    · simp [govStep, hk, tipped, recordSigner, powerUpdate]
    · simp [govStep, hk, tipped, recordSigner, powerUpdate]
    · simp [govStep, hk, powerUpdate]
    · rw [govStep_of_tipped ht]
      cases kind <;> simp only [enact, recordSigner_powerLevels, powerUpdate]

theorem step_powerLevels (env : ReplayEnv) (st : ReplayState) (e : SignedMembershipEvent) :
    (step env st e).m.powerLevels =
      powerUpdate (effectAt env.proposalsIndex st.governance e) st.m.powerLevels :=
  (congrArg Governance.powerLevels (step_governance env st e)).trans (govStep_powerLevels _ _ _)

def quorumAfter (m : MaterializedMembership) (kind : ProposalKind) : ℕ :=
  match kind with
  | .changeQuorum newQuorum => newQuorum
  | _ => m.adminQuorum

theorem effect_quorum (he : effectAt env.proposalsIndex st.governance e = some kind) :
    (step env st e).m.adminQuorum = quorumAfter st.m kind := by
  have hgov : (step env st e).m.adminQuorum =
      (govStep env.proposalsIndex st.governance e).adminQuorum :=
    congrArg Governance.adminQuorum (step_governance env st e)
  have hrecord : (recordSigner env.proposalsIndex st.governance e).adminQuorum = st.m.adminQuorum :=
    recordSigner_adminQuorum
  rw [hgov]
  rcases effectAt_cases he with
    ⟨hk, rfl⟩ | ⟨target, reason, hk, rfl⟩ | ⟨target, level, hk, rfl⟩ | ⟨id, ht⟩
  · simp [govStep, hk, tipped, hrecord, quorumAfter]
  · simp [govStep, hk, tipped, hrecord, quorumAfter]
  · simp [govStep, hk, quorumAfter]
    rfl
  · rw [govStep_of_tipped ht]
    cases kind <;> simp only [enact, hrecord, quorumAfter]

theorem effect_joined (he : effectAt env.proposalsIndex st.governance e = some kind)
    (x : OwnerAddr) :
    isJoinedMember (step env st e).m x = true ↔
      isJoinedMember st.m x = true ∧ kickTarget kind ≠ some x := by
  simp only [isJoinedMember, decide_eq_true_eq, step_status]
  rcases effectAt_cases he with
    ⟨hk, rfl⟩ | ⟨target, reason, hk, rfl⟩ | ⟨target, level, hk, rfl⟩ | ⟨id, ht⟩
  · by_cases hx : e.actor = x <;> cases st.m.status x <;> simp [statusUpdate, hk, hx, kickTarget]
    split_ifs <;> simp_all
  · by_cases hx : target = x <;> cases st.m.status x <;>
      simp [statusUpdate, hk, hx, kickedBy, kickTarget]
  · simp [statusUpdate, hk, kickedBy, tipped, kickTarget]
  · have hkicked : kickedBy env.proposalsIndex st.governance e = kickTarget kind := by
      rcases isAdminVote_of_tipped ht with ⟨_, hk⟩ | ⟨_, hk⟩ <;> simp only [kickedBy, hk, ht] <;> rfl
    rw [hkicked]
    rcases isAdminVote_of_tipped ht with ⟨_, hk⟩ | ⟨_, hk⟩ <;>
      by_cases hx : kickTarget kind = some x <;> cases st.m.status x <;>
      simp [statusUpdate, hk, hx]

theorem no_effect (he : effectAt env.proposalsIndex st.governance e = none) (x : OwnerAddr) :
    (step env st e).m.powerLevels = st.m.powerLevels ∧
      (step env st e).m.adminQuorum = st.m.adminQuorum ∧
      (isJoinedMember st.m x = true → isJoinedMember (step env st e).m x = true) := by
  have hgov := step_governance env st e
  rw [govStep_of_no_effect he] at hgov
  refine ⟨(congrArg Governance.powerLevels hgov).trans recordSigner_powerLevels,
    (congrArg Governance.adminQuorum hgov).trans recordSigner_adminQuorum, fun hjoined => ?_⟩
  have ht := tipped_of_no_effect he
  simp only [isJoinedMember, decide_eq_true_eq, step_status] at hjoined ⊢
  rw [hjoined]
  cases hk : e.kind with
  | leave => simp [effectAt, hk] at he
  | kick target reason => simp [effectAt, hk] at he
  | setPower target level => simp [effectAt, hk] at he
  | pendingJoin token => simp [statusUpdate, hk, admits]
  | _ => simp [statusUpdate, hk, kickedBy, ht, admits]

end Effect

/-! ### The states of a run -/

def viewAt (env : ReplayEnv) (t : ℕ) (st : ReplayState) : MaterializedMembership :=
  postPass { env with currentMaxWallMs := t } st

def liveAfter (m : MaterializedMembership) (kind : ProposalKind) : Finset OwnerAddr :=
  match kind with
  | .setPower target level =>
    if isJoinedMember m target = true ∧ (level = 100 ∨ promotedIn m target) then
      insert target (liveAdmins m)
    else (liveAdmins m).erase target
  | .kick target _ => (liveAdmins m).erase target
  | _ => liveAdmins m

section AtWall

variable {env : ReplayEnv} {sorted : List SignedMembershipEvent} {e : SignedMembershipEvent}
  {kind : ProposalKind} {t : ℕ} {x : OwnerAddr}

theorem mem_liveAdmins_viewAt {st : ReplayState} :
    x ∈ liveAdmins (viewAt env t st) ↔
      (promotedIn (viewAt env t st) x ∨ st.m.powerLevels[x]? = some 100) ∧
        ¬deposedIn (viewAt env t st) x ∧ isJoinedMember st.m x = true := by
  simp only [viewAt, mem_liveAdmins_postPass, promotedIn_iff, deposedIn_iff]

theorem joined_viewAt {st : ReplayState} :
    isJoinedMember (viewAt env t st) x = true ↔
      ¬deposedIn (viewAt env t st) x ∧ isJoinedMember st.m x = true := by
  simp only [viewAt, joined_postPass, deposedIn_iff]

theorem promotedIn_later {t' : ℕ} (hs : sorted.Pairwise fun a b => a.hlc.wallMs ≤ b.hlc.wallMs)
    (hids : KeyNodup (·.id) sorted) (hle : t ≤ t')
    (h : promotedIn (viewAt env t (replay env sorted)) x) :
    promotedIn (viewAt env t' (replay env sorted)) x := by
  simp only [viewAt, promotedIn_iff] at h ⊢
  obtain ⟨id, work, d, hex, hx⟩ := h
  obtain ⟨work', hex'⟩ : ∃ work', Executed (replay env (sorted ++ [])) t' id work' d :=
    executed_persists (by simpa using hs) (by simpa using hids) hex (by simp) hle
  rw [List.append_nil] at hex'
  obtain rfl := Option.some.inj (hex'.1.symm.trans hex.1)
  exact ⟨id, work', d, hex', hx⟩

variable (hs : (sorted ++ [e]).Pairwise fun a b => a.hlc.wallMs ≤ b.hlc.wallMs)
  (hids : KeyNodup (·.id) (sorted ++ [e]))

include hs hids

/-- The same owners are promoted and deposed in the state an event meets and in the one
it leaves. -/
theorem executedIn_event (env : ReplayEnv) (x : OwnerAddr) :
    (promotedIn (viewAt env e.hlc.wallMs (replay env (sorted ++ [e]))) x ↔
        promotedIn (viewAt env e.hlc.wallMs (replay env sorted)) x) ∧
      (deposedIn (viewAt env e.hlc.wallMs (replay env (sorted ++ [e]))) x ↔
        deposedIn (viewAt env e.hlc.wallMs (replay env sorted)) x) := by
  have hat : ∀ {P : Bound → Prop},
      (∃ id work d, Executed (replay env (sorted ++ [e])) e.hlc.wallMs id work d ∧ P work.bound) ↔
        ∃ id work d, Executed (replay env sorted) e.hlc.wallMs id work d ∧ P work.bound := by
    intro P
    constructor
    · rintro ⟨id, work, d, hex, hP⟩
      obtain ⟨work', hex', hbound⟩ := (executed_at_event hs hids work.bound).mp ⟨work, hex, rfl⟩
      exact ⟨id, work', d, hex', hbound ▸ hP⟩
    · rintro ⟨id, work, d, hex, hP⟩
      obtain ⟨work', hex', hbound⟩ := (executed_at_event hs hids work.bound).mpr ⟨work, hex, rfl⟩
      exact ⟨id, work', d, hex', hbound ▸ hP⟩
  simp only [viewAt, promotedIn_iff, deposedIn_iff]
  exact ⟨hat (P := fun b => b.newAdmin = x), hat (P := fun b => b.lostAdmin = x)⟩

theorem liveAdmins_effect
    (he : effectAt env.proposalsIndex (replay env sorted).governance e = some kind) :
    liveAdmins (viewAt env e.hlc.wallMs (replay env (sorted ++ [e]))) =
      liveAfter (viewAt env e.hlc.wallMs (replay env sorted)) kind := by
  have hmem : ∀ x, x ∈ liveAdmins (viewAt env e.hlc.wallMs (replay env (sorted ++ [e]))) ↔
      (promotedIn (viewAt env e.hlc.wallMs (replay env sorted)) x ∨
        (powerUpdate (some kind) (replay env sorted).m.powerLevels)[x]? = some 100) ∧
      ¬deposedIn (viewAt env e.hlc.wallMs (replay env sorted)) x ∧
        isJoinedMember (replay env sorted).m x = true ∧ kickTarget kind ≠ some x := by
    intro x
    obtain ⟨hpromoted, hdeposed⟩ := executedIn_event hs hids env x
    rw [mem_liveAdmins_viewAt, hpromoted, hdeposed, replay_snoc, effect_joined he, step_powerLevels, he]
  ext x
  rw [hmem]
  cases kind with
  | setPower target level =>
    simp only [liveAfter, joined_viewAt, powerUpdate, BTreeMap.get_insert, kickTarget]
    by_cases hx : target = x
    · subst hx
      rw [if_pos rfl]
      split_ifs with hset
      · simpa [hset.1.1, hset.1.2] using hset.2.symm
      · simp only [Option.some.injEq, Finset.notMem_erase, iff_false]
        exact fun h => hset ⟨⟨h.2.1, h.2.2.1⟩, h.1.symm⟩
    · split_ifs <;> simp [Ne.symm hx, mem_liveAdmins_viewAt]
  | kick target reason =>
    simp only [liveAfter, powerUpdate, Finset.mem_erase, mem_liveAdmins_viewAt, kickTarget, ne_eq,
      Option.some.injEq]
    tauto
  | _ => simp [liveAfter, powerUpdate, mem_liveAdmins_viewAt, kickTarget]

theorem liveAdmins_no_effect
    (he : effectAt env.proposalsIndex (replay env sorted).governance e = none) :
    liveAdmins (viewAt env e.hlc.wallMs (replay env sorted)) ⊆
      liveAdmins (viewAt env e.hlc.wallMs (replay env (sorted ++ [e]))) := by
  intro x hx
  obtain ⟨hpromoted, hdeposed⟩ := executedIn_event hs hids env x
  obtain ⟨hpower, -, hjoined⟩ := no_effect he x
  rw [mem_liveAdmins_viewAt] at hx
  rw [mem_liveAdmins_viewAt, hpromoted, hdeposed, replay_snoc, hpower]
  exact ⟨hx.1, hx.2.1, hjoined hx.2.2⟩

end AtWall

end Harmony.Membership
