import Harmony.Membership.Countersigned

/-! The planner that routes a power change through the admins' quorum. It waits on the
proposal with the smallest id among those young enough, whatever the replay has made of
it; the proposal can still succeed exactly when it is unapplied, short of signatures, and
every completion of it finds the quorum of the log where it is signed. -/

namespace Harmony.Membership

open Harmony.Lib

inductive AdminProposalPlan where
  | mintProposal
  | countersign (id : EventId)
  | alreadyApplied
  | pending
  deriving DecidableEq, Repr

/-- A proposal of this change, not expired and not stamped too far ahead. -/
def isLiveProposal (target : OwnerAddr) (level nowMs : ℕ) (e : SignedMembershipEvent) : Bool :=
  (match e.kind with
    | .adminProposal (.setPower t l) => t = target && l = level
    | _ => false) &&
  nowMs - e.hlc.wallMs ≤ adminProposalExpiryMs && e.hlc.wallMs - nowMs ≤ maxForwardSkewMs

def canonicalProposal (events : List SignedMembershipEvent) (target : OwnerAddr)
    (level nowMs : ℕ) : Option SignedMembershipEvent :=
  (events.filter (isLiveProposal target level nowMs)).argmin (·.id)

def alreadySigned (events : List SignedMembershipEvent) (canonical : SignedMembershipEvent)
    (selfOwner : OwnerAddr) : Bool :=
  events.any fun e => match e.kind with
    | .adminProposal _ => e.id = canonical.id && e.actor = selfOwner
    | .adminCountersign target => target = canonical.id && e.actor = selfOwner
    | _ => false

def planAdminProposalAutoExec (mat : MaterializedMembership) (events : List SignedMembershipEvent)
    (target : OwnerAddr) (level : ℕ) (selfOwner : OwnerAddr) (nowMs : ℕ) : AdminProposalPlan :=
  if mat.powerLevels[target]? = some level then .alreadyApplied
  else match canonicalProposal events target level nowMs with
    | none => .mintProposal
    | some canonical =>
      if alreadySigned events canonical selfOwner then .pending else .countersign canonical.id

section Plan

variable {events : List SignedMembershipEvent} {p : SignedMembershipEvent} {target : OwnerAddr}
  {level nowMs : ℕ}

theorem canonical_mem (h : canonicalProposal events target level nowMs = some p) :
    p ∈ events ∧ p.kind = .adminProposal (.setPower target level) := by
  have hmem := List.mem_filter.mp (List.argmin_mem h)
  refine ⟨hmem.1, ?_⟩
  have hlive := hmem.2
  simp only [isLiveProposal, Bool.and_eq_true] at hlive
  obtain ⟨⟨hkind, -⟩, -⟩ := hlive
  split at hkind
  · rename_i t l hk
    simp only [Bool.and_eq_true, decide_eq_true_eq] at hkind
    rw [hk, hkind.1, hkind.2]
  · cases hkind

end Plan

/-! ### Signatures on a waiting proposal -/

/-- Seen, not applied, and short of the quorum `q`. -/
structure Awaiting (id : EventId) (q : ℕ) (g : Governance) : Prop where
  seen : id ∈ g.seenProposals
  unapplied : id ∉ g.appliedProposals
  quorum : g.adminQuorum = q
  short : (g.signersSeen id).card < q

def Landed (id : EventId) (target : OwnerAddr) (level : ℕ) (g : Governance) : Prop :=
  id ∈ g.appliedProposals ∧ g.powerLevels[target]? = some level

section Wait

variable {idx : ProposalsIndex} {g : Governance} {e : SignedMembershipEvent} {id : EventId}
  {target proposer : OwnerAddr} {level wallMs q : ℕ}

theorem tipped_countersign (hentry : idx[id]? = some (.setPower target level, proposer, wallMs))
    (hk : e.kind = .adminCountersign id) (htime : e.hlc.wallMs - wallMs ≤ adminProposalExpiryMs)
    (h : Awaiting id q g) :
    tipped idx g e = if (insert e.actor (g.signersSeen id)).card = q
      then some (id, .setPower target level) else none := by
  have hpos : 0 < q := h.short.pos
  simp only [tipped, hk, h.seen, h.unapplied, h.quorum, hpos, hentry, htime, Option.bind_some,
    not_false_eq_true, true_and, and_true, if_true]

/-- One countersign brings an awaiting proposal a signer nearer, or through. -/
theorem Awaiting.step (h : Awaiting id q g)
    (hentry : idx[id]? = some (.setPower target level, proposer, wallMs))
    (hk : e.kind = .adminCountersign id)
    (htime : e.hlc.wallMs - wallMs ≤ adminProposalExpiryMs) :
    Awaiting id q (govStep idx g e) ∨ Landed id target level (govStep idx g e) := by
  have ht := tipped_countersign hentry hk htime h
  by_cases hcard : (insert e.actor (g.signersSeen id)).card = q
  · rw [if_pos hcard] at ht
    refine Or.inr ⟨applied_of_tipped ht, ?_⟩
    rw [govStep_of_tipped ht]
    simp only [enact, BTreeMap.get_insert, if_true]
  · rw [if_neg hcard] at ht
    have hrec : govStep idx g e = g.sign id e.actor := by
      simp only [govStep, hk, ht, Option.elim_none, recordSigner, h.seen, h.unapplied, hentry,
        not_true_eq_false, if_false, Option.isSome_some, if_true]
    have hle : (insert e.actor (g.signersSeen id)).card ≤ (g.signersSeen id).card + 1 :=
      Finset.card_insert_le _ _
    have hshort := h.short
    rw [hrec]
    refine Or.inl ⟨h.seen, h.unapplied, h.quorum, ?_⟩
    simp only [Governance.sign, Function.update_self]
    omega

theorem Landed.step (h : Landed id target level g) (hk : e.kind = .adminCountersign id) :
    Landed id target level (govStep idx g e) := by
  have ht : tipped idx g e = none := by simp [tipped, hk, h.1]
  have hrec : govStep idx g e = recordSigner idx g e := by
    simp only [govStep, hk, ht, Option.elim_none]
  rw [hrec]
  exact ⟨recordSigner_appliedProposals.symm ▸ h.1, recordSigner_powerLevels.symm ▸ h.2⟩

/-- However many countersigns follow, the proposal is through or still short. -/
theorem awaiting_run (h : Awaiting id q g)
    (hentry : idx[id]? = some (.setPower target level, proposer, wallMs))
    {added : List SignedMembershipEvent} (hadded : ∀ f ∈ added, f.kind = .adminCountersign id ∧
      f.hlc.wallMs - wallMs ≤ adminProposalExpiryMs) :
    Awaiting id q (added.foldl (govStep idx) g) ∨
      Landed id target level (added.foldl (govStep idx) g) := by
  refine List.foldlRecOn (motive := fun g => Awaiting id q g ∨ Landed id target level g) _ _
    (Or.inl h) fun g hg f hf => ?_
  obtain ⟨hk, htime⟩ := hadded f hf
  rcases hg with hg | hg
  · exact hg.step hentry hk htime
  · exact Or.inr (hg.step hk)

end Wait

/-! ### Further countersigns -/

section Further

variable {C : Crypto} {log added : List SignedMembershipEvent} {adminAddr : OwnerAddr}
  {p : SignedMembershipEvent} {target : OwnerAddr} {level : ℕ}

theorem sortEvents_later (hids : DistinctIds (log ++ added))
    (hlater : ∀ a ∈ log, ∀ f ∈ added, eventSortKey a < eventSortKey f) :
    sortEvents (log ++ added) = sortEvents log ++ sortEvents added :=
  sortBy_append hids.keyNodup fun a ha f hf => (hlater a ha f hf).le

theorem currentMaxWallMs_append (clock : Option ℕ) :
    currentMaxWallMs log (some (currentMaxWallMs (log ++ added) clock)) =
      currentMaxWallMs (log ++ added) clock := by
  have hle : eventsMaxWallMs log ≤ eventsMaxWallMs (log ++ added) := by
    induction log with
    | nil => exact Nat.zero_le _
    | cons a log ih => exact max_le_max le_rfl ih
  refine max_eq_right (hle.trans ?_)
  cases clock with
  | none => exact le_rfl
  | some now => exact le_max_left _ _

theorem governance_final (C : Crypto) (events : List SignedMembershipEvent)
    (adminAddr : OwnerAddr) (clock : Option ℕ) :
    (finalState C events adminAddr clock).governance =
      govRun (proposalsIndex events) adminAddr (sortEvents events) := replay_governance _ _

/-- Countersigns of a power change move neither members nor recoveries. -/
theorem executed_countersigned (hids : DistinctIds (log ++ added))
    (hlater : ∀ a ∈ log, ∀ f ∈ added, eventSortKey a < eventSortKey f)
    (hsorted : added.Pairwise fun a b => eventSortKey a < eventSortKey b) (hp : p ∈ log)
    (hpk : p.kind = .adminProposal (.setPower target level))
    (hadded : ∀ f ∈ added, f.kind = .adminCountersign p.id) (clock : Option ℕ) {id : EventId}
    {work : RecoveryWork} {d : ℕ} :
    Executed (finalState C (log ++ added) adminAddr clock) (currentMaxWallMs (log ++ added) clock)
        id work d ↔
      Executed (finalState C log adminAddr (some (currentMaxWallMs (log ++ added) clock)))
        (currentMaxWallMs (log ++ added) clock) id work d := by
  induction added using List.reverseRecOn generalizing clock with
  | nil =>
    have htime : currentMaxWallMs log (some (currentMaxWallMs log clock)) =
        currentMaxWallMs log clock := by
      cases clock <;> simp [currentMaxWallMs]
    have hpre : prePass C log adminAddr (some (currentMaxWallMs log clock)) =
        prePass C log adminAddr clock := by simp only [prePass, htime]
    rw [List.append_nil, finalState, finalState, hpre]
  | append_singleton added e ih =>
    rw [← List.append_assoc] at hids ⊢
    have hek : e.kind = .adminCountersign p.id := hadded e (by simp)
    have hlast : ∀ a ∈ log ++ added, eventSortKey a < eventSortKey e := by
      intro a ha
      rcases List.mem_append.mp ha with ha | ha
      · exact hlater a ha e (by simp)
      · exact (List.pairwise_append.mp hsorted).2.2 a ha e (by simp)
    have happrove : approvesNothing e := by constructor <;> simp [hek]
    have hkind : ∀ {id : EventId} {kind : ProposalKind},
        tipped (proposalsIndex (log ++ added ++ [e]))
          (stateWithout C (log ++ added) adminAddr clock e).governance e = some (id, kind) →
          kind = .setPower target level := by
      intro id kind ht
      obtain ⟨hs, -, entry, hentry, rfl⟩ := tipped_signed ht
      rcases hs with ⟨⟨k, hk⟩, -⟩ | hk
      · cases hek.symm.trans hk
      · obtain rfl : p.id = id := by
          have := hek.symm.trans hk
          injection this
        rw [proposalsIndex_get hids (by simp [hp]) hpk] at hentry
        rw [← Option.some.inj hentry]
    have hstep : finalState C (log ++ added ++ [e]) adminAddr clock = _ :=
      finalState_snoc hids hlast happrove clock
    have hjoined : ∀ x, isJoinedMember (finalState C (log ++ added ++ [e]) adminAddr clock).m x =
        isJoinedMember (stateWithout C (log ++ added) adminAddr clock e).m x := by
      intro x
      have hkicked : kickedBy (proposalsIndex (log ++ added ++ [e]))
          (stateWithout C (log ++ added) adminAddr clock e).governance e = none := by
        cases ht : tipped (proposalsIndex (log ++ added ++ [e]))
            (stateWithout C (log ++ added) adminAddr clock e).governance e with
        | none => simp only [kickedBy, hek, ht, Option.bind_none]
        | some q => simp only [kickedBy, hek, ht, Option.bind_some, hkind ht, kickTarget]
      have hstatus : (finalState C (log ++ added ++ [e]) adminAddr clock).m.status x =
          (stateWithout C (log ++ added) adminAddr clock e).m.status x := by
        rw [hstep, step_status]
        simp only [prePass, hkicked, statusUpdate, hek]
        simp
      simp only [isJoinedMember, hstatus]
    have hconfig : (finalState C (log ++ added ++ [e]) adminAddr clock).recConfigChangeWalls =
        (stateWithout C (log ++ added) adminAddr clock e).recConfigChangeWalls := by
      rw [hstep, step_configChangeWalls]
      refine List.append_right_eq_self.mpr ?_
      unfold configChange
      split
      · rename_i ht
        cases hkind ht
      · rfl
    have htime : currentMaxWallMs (log ++ added)
        (some (currentMaxWallMs (log ++ added ++ [e]) clock)) =
          currentMaxWallMs (log ++ added ++ [e]) clock := currentMaxWallMs_snoc clock
    have hquiet : isRecoveryEvent e = false := by rw [isRecoveryEvent, hek]
    have hsnoc : Executed _ _ id work d ↔ Executed _ _ id work d :=
      executed_snoc hids hlast happrove hquiet hjoined hconfig
    have hprev := ih (hids.of_append) (fun a ha f hf => hlater a ha f (by simp [hf]))
      (List.pairwise_append.mp hsorted).1 (fun f hf => hadded f (by simp [hf]))
      (some (currentMaxWallMs (log ++ added ++ [e]) clock))
    rw [htime] at hprev
    rw [envWithout_time] at hsnoc
    exact hsnoc.trans hprev

theorem finalState_signers (hids : DistinctIds log) {id : EventId} {clock : Option ℕ}
    (hopen : id ∉ (finalState C log adminAddr clock).governance.appliedProposals) :
    (finalState C log adminAddr clock).governance.signersSeen id = signersOf log id := by
  rw [governance_final] at hopen ⊢
  have hsub : sortEvents log ⊆ log := fun a ha => mem_sortBy.mp ha
  ext s
  rw [mem_govRun_signers hids hsub hopen, mem_signersOf]
  simp only [sortEvents, mem_sortBy]

theorem view_quorum (C : Crypto) (events : List SignedMembershipEvent) (adminAddr : OwnerAddr)
    (clock : Option ℕ) : (materializeWithNow C events adminAddr clock).adminQuorum =
      (finalState C events adminAddr clock).governance.adminQuorum := by
  rw [materializeWithNow_eq, postPass_adminQuorum]
  rfl

end Further

section Plan

variable (C : Crypto) (ctx : VerifyContext) (log : List SignedMembershipEvent)
  (clock : Option ℕ) (p : SignedMembershipEvent) (nowMs : ℕ)

/-- Admins countersign `p` in time, one after the other and each accepted as it comes, and
as many owners as the quorum have then signed it. Where the countersigns sort in the log is
left open. -/
structure Completes (further : List SignedMembershipEvent) : Prop where
  distinct : DistinctIds (log ++ further)
  accepted : ∀ pre f post, further = pre ++ f :: post →
    verifyEvent C ctx (priorStateAtEvent C (log ++ pre) f ctx.adminAddr) f = .ok ()
  countersigns : ∀ f ∈ further, f.kind = .adminCountersign p.id
  in_time : ∀ f ∈ further, nowMs ≤ f.hlc.wallMs ∧
    f.hlc.wallMs ≤ p.hlc.wallMs + adminProposalExpiryMs
  quorum : (materializeWithNow C log ctx.adminAddr clock).adminQuorum ≤
    (signersOf (log ++ further) p.id).card

/-- Not yet applied, and every completion brings the change about. -/
structure CanSucceed (target : OwnerAddr) (level : ℕ) : Prop where
  unapplied : p.id ∉ (finalState C log ctx.adminAddr clock).appliedAdminProposals
  succeeds : ∀ further, Completes C ctx log clock p nowMs further →
    (materializeWithNow C (log ++ further) ctx.adminAddr clock).powerLevels[target]? = some level

/-- Not yet applied and short of the quorum; and with every completion no recovery overrides
the change, some signature finds the quorum that the log has at its place and no event of
the log behind it sets the power again, unless the log has set it already. -/
structure StillOpen (target : OwnerAddr) (level : ℕ) : Prop where
  unapplied : p.id ∉ (finalState C log ctx.adminAddr clock).appliedAdminProposals
  short : (signersOf log p.id).card < (materializeWithNow C log ctx.adminAddr clock).adminQuorum
  unrecovered : ∀ further, Completes C ctx log clock p nowMs further →
    promotedIn (materializeWithNow C (log ++ further) ctx.adminAddr clock) target → level = 100
  through : ∀ further, Completes C ctx log clock p nowMs further →
    ¬promotedIn (materializeWithNow C (log ++ further) ctx.adminAddr clock) target →
      Through C log further ctx.adminAddr clock p target ∨
        (finalState C log ctx.adminAddr clock).m.powerLevels[target]? = some level

variable {C ctx log clock p nowMs} {further : List SignedMembershipEvent} {target : OwnerAddr}
  {level : ℕ}

theorem promoted_further (h : Completes C ctx log clock p nowMs further)
    (hafter : ∀ a ∈ log, ∀ f ∈ further, eventSortKey a < eventSortKey f) (hp : p ∈ log)
    (hpk : p.kind = .adminProposal (.setPower target level)) (x : OwnerAddr) :
    promotedIn (materializeWithNow C (log ++ further) ctx.adminAddr clock) x ↔
      promotedIn (materializeWithNow C log ctx.adminAddr
        (some (currentMaxWallMs (log ++ further) clock))) x := by
  have hids := h.distinct
  have hperm : (log ++ sortEvents further).Perm (log ++ further) :=
    (sortBy_perm further).append_left log
  have hids' : DistinctIds (log ++ sortEvents further) := hids.perm hperm
  have hsorted : (sortEvents further).Pairwise fun a b => eventSortKey a < eventSortKey b := by
    have hnd : KeyNodup eventSortKey (sortEvents further) := by
      have := hids'.keyNodup
      rw [KeyNodup, List.map_append] at this
      exact List.Nodup.of_append_right this
    refine ((sortBy_sorted further).and (List.pairwise_map.mp hnd)).imp ?_
    exact fun hab => lt_of_le_of_ne hab.1 hab.2
  have htime : currentMaxWallMs (log ++ sortEvents further) clock =
      currentMaxWallMs (log ++ further) clock := currentMaxWallMs_perm hperm clock
  have hlast : currentMaxWallMs log (some (currentMaxWallMs (log ++ further) clock)) =
      currentMaxWallMs (log ++ further) clock := currentMaxWallMs_append clock
  rw [← materializeWithNow_perm hids hperm, materializeWithNow_eq, materializeWithNow_eq,
    promotedIn_iff, promotedIn_iff]
  refine exists_congr fun id => exists_congr fun work => exists_congr fun d => ?_
  refine and_congr_left fun _ => ?_
  have hlater : ∀ a ∈ log, ∀ f ∈ sortEvents further, eventSortKey a < eventSortKey f :=
    fun a ha f hf => hafter a ha f (mem_sortBy.mp hf)
  have hexecuted : Executed (finalState C (log ++ sortEvents further) ctx.adminAddr clock)
      (currentMaxWallMs (log ++ sortEvents further) clock) id work d ↔ _ :=
    executed_countersigned hids' hlater hsorted hp hpk
      (fun f hf => h.countersigns f (mem_sortBy.mp hf)) clock
  rw [htime] at hexecuted
  simp only [prePass, htime, hlast]
  exact hexecuted

theorem mem_proposals_seen (hp : p ∈ log)
    (hpk : p.kind = .adminProposal (.setPower target level)) (idx : ProposalsIndex)
    (adminAddr : OwnerAddr) : p.id ∈ (govRun idx adminAddr (sortEvents log)).seenProposals := by
  obtain ⟨pre, post, hsplit⟩ := List.append_of_mem (mem_sortBy.mpr hp : p ∈ sortBy eventSortKey log)
  rw [sortEvents, hsplit]
  exact seen_of_split hpk

/-- A completion behind the log puts a proposal that awaits its quorum through. -/
theorem landed_of_completes (h : Completes C ctx log clock p nowMs further)
    (hafter : ∀ a ∈ log, ∀ f ∈ further, eventSortKey a < eventSortKey f) (hp : p ∈ log)
    (hpk : p.kind = .adminProposal (.setPower target level))
    (hopen : p.id ∉ (finalState C log ctx.adminAddr clock).appliedAdminProposals)
    (hshort : (signersOf log p.id).card <
      (materializeWithNow C log ctx.adminAddr clock).adminQuorum) :
    Landed p.id target level (finalState C (log ++ further) ctx.adminAddr clock).governance := by
  have hids := h.distinct
  have hlog : DistinctIds log := hids.of_append
  have hentry := proposalsIndex_get hids (List.mem_append_left further hp) hpk
  have hrun : govRun (proposalsIndex (log ++ further)) ctx.adminAddr (sortEvents log) =
      (finalState C log ctx.adminAddr clock).governance := by
    rw [governance_final]
    exact (govRun_sublog ctx.adminAddr hids hlog
      (fun a ha => List.mem_append_left _ (mem_sortBy.mp ha)) fun a ha => mem_sortBy.mp ha).1
  have hawait : Awaiting p.id (materializeWithNow C log ctx.adminAddr clock).adminQuorum
      (finalState C log ctx.adminAddr clock).governance := by
    refine ⟨?_, hopen, (view_quorum _ _ _ _).symm, ?_⟩
    · rw [← hrun]
      exact mem_proposals_seen hp hpk _ _
    · rw [finalState_signers hlog hopen]
      exact hshort
  have hadded : ∀ f ∈ sortEvents further, f.kind = .adminCountersign p.id ∧
      f.hlc.wallMs - p.hlc.wallMs ≤ adminProposalExpiryMs := by
    intro f hf
    have hf := mem_sortBy.mp hf
    have htime := (h.in_time f hf).2
    exact ⟨h.countersigns f hf, by omega⟩
  have hfinal : (finalState C (log ++ further) ctx.adminAddr clock).governance =
      (sortEvents further).foldl (govStep (proposalsIndex (log ++ further)))
        (finalState C log ctx.adminAddr clock).governance := by
    rw [governance_final, sortEvents_later hids hafter, govRun, List.foldl_append, ← govRun, hrun]
  rw [hfinal]
  refine (awaiting_run hawait hentry hadded).resolve_left fun hstill => ?_
  rw [← hfinal] at hstill
  have hshort := hstill.short
  rw [finalState_signers hids hstill.unapplied] at hshort
  exact absurd h.quorum (by omega)

theorem completes_nil (hids : DistinctIds log) : Completes C ctx log clock p nowMs [] ↔
    (materializeWithNow C log ctx.adminAddr clock).adminQuorum ≤ (signersOf log p.id).card := by
  constructor
  · intro h
    have hquorum := h.quorum
    rwa [List.append_nil] at hquorum
  · intro hquorum
    exact ⟨by rwa [List.append_nil], fun pre f post h => by simp at h, by simp, by simp,
      by rwa [List.append_nil]⟩

/-- The view once a completion is in. -/
theorem completed_iff (h : Completes C ctx log clock p nowMs further) (hp : p ∈ log)
    (hpk : p.kind = .adminProposal (.setPower target level))
    (hopen : p.id ∉ (finalState C log ctx.adminAddr clock).appliedAdminProposals) :
    (materializeWithNow C (log ++ further) ctx.adminAddr clock).powerLevels[target]? = some level ↔
      (promotedIn (materializeWithNow C (log ++ further) ctx.adminAddr clock) target → level = 100) ∧
        (¬promotedIn (materializeWithNow C (log ++ further) ctx.adminAddr clock) target →
          Through C log further ctx.adminAddr clock p target ∨
            (finalState C log ctx.adminAddr clock).m.powerLevels[target]? = some level) := by
  rw [materializeWithNow_eq, promotedIn_iff]
  by_cases hpromoted : promoted (prePass C (log ++ further) ctx.adminAddr clock)
      (finalState C (log ++ further) ctx.adminAddr clock) target
  · rw [postPass_promoted hpromoted]
    simp [hpromoted, eq_comm]
  · rw [postPass_not_promoted hpromoted,
      power_countersigned_iff h.distinct hp hpk h.countersigns hopen]
    simp [hpromoted]

/-- Where the whole log is of the past, a completion fails only if it is too late or a
recovery overrides it. -/
theorem stillOpen_iff_of_past (hp : p ∈ log) (hpk : p.kind = .adminProposal (.setPower target level))
    (hpast : ∀ a ∈ log, a.hlc.wallMs < nowMs) :
    StillOpen C ctx log clock p nowMs target level ↔
      p.id ∉ (finalState C log ctx.adminAddr clock).appliedAdminProposals ∧
        (signersOf log p.id).card < (materializeWithNow C log ctx.adminAddr clock).adminQuorum ∧
        (level ≠ 100 → ∀ further, Completes C ctx log clock p nowMs further →
          ¬promotedIn (materializeWithNow C log ctx.adminAddr
            (some (currentMaxWallMs (log ++ further) clock))) target) := by
  have hafter : ∀ {further}, Completes C ctx log clock p nowMs further →
      ∀ a ∈ log, ∀ f ∈ further, eventSortKey a < eventSortKey f := fun h a ha f hf =>
    Prod.Lex.lt_iff.mpr (Or.inl ((hpast a ha).trans_le (h.in_time f hf).1))
  constructor
  · intro h
    refine ⟨h.unapplied, h.short, fun hlevel further hc hpromoted => hlevel ?_⟩
    exact h.unrecovered further hc ((promoted_further hc (hafter hc) hp hpk target).mpr hpromoted)
  · rintro ⟨hopen, hshort, hunrecovered⟩
    refine ⟨hopen, hshort, fun further hc hpromoted => ?_, fun further hc _ => ?_⟩
    · by_contra hlevel
      exact hunrecovered hlevel further hc
        ((promoted_further hc (hafter hc) hp hpk target).mp hpromoted)
    · have hlanded := landed_of_completes hc (hafter hc) hp hpk hopen hshort
      exact (power_countersigned_iff hc.distinct hp hpk hc.countersigns hopen).mp hlanded.2

end Plan

/-- A proposal the planner waits on can still succeed if and only if it has not been
applied, lacks signatures for the quorum, and every completion, wherever it sorts, carries
it through and is not undone by what the log holds behind. -/
theorem plan_waits_iff (C : Crypto) (ctx : VerifyContext) (log : List SignedMembershipEvent)
    (hlog : VerifiedLog C ctx log) (clock : Option ℕ) (target selfOwner : OwnerAddr)
    (level nowMs : ℕ) {p : SignedMembershipEvent}
    (hcanonical : canonicalProposal log target level nowMs = some p)
    (hplan : planAdminProposalAutoExec (materializeWithNow C log ctx.adminAddr clock) log target
        level selfOwner nowMs = .countersign p.id ∨
      planAdminProposalAutoExec (materializeWithNow C log ctx.adminAddr clock) log target
        level selfOwner nowMs = .pending) :
    CanSucceed C ctx log clock p nowMs target level ↔
      StillOpen C ctx log clock p nowMs target level := by
  obtain ⟨hp, hpk⟩ := canonical_mem hcanonical
  have hne : (materializeWithNow C log ctx.adminAddr clock).powerLevels[target]? ≠ some level := by
    intro heq
    have hdone : planAdminProposalAutoExec (materializeWithNow C log ctx.adminAddr clock) log target
        level selfOwner nowMs = .alreadyApplied := if_pos heq
    rw [hdone] at hplan
    rcases hplan with h | h <;> cases h
  constructor
  · intro h
    have hcompleted := fun further hc =>
      (completed_iff hc hp hpk h.unapplied).mp (h.succeeds further hc)
    refine ⟨h.unapplied, ?_, fun further hc => (hcompleted further hc).1,
      fun further hc => (hcompleted further hc).2⟩
    by_contra hle
    have hnil := h.succeeds [] ((completes_nil hlog.distinct).mpr (not_lt.mp hle))
    rw [List.append_nil] at hnil
    exact hne hnil
  · intro h
    exact ⟨h.unapplied, fun further hc => (completed_iff hc hp hpk h.unapplied).mpr
      ⟨h.unrecovered further hc, h.through further hc⟩⟩

def undonePromotion : List SignedMembershipEvent :=
  agreedPromotion ++
    [signed 8 8 1 (.adminProposal (.setPower 3 0)), signed 9 9 2 (.adminCountersign 8)]

/-- An admin told to wait, once on a proposal applied and undone, once on one that three
signatures under a quorum of two have not applied. -/
theorem planner_waits_in_vain :
    (VerifiedLog symbolicCrypto openContext (twoAdmins ++ undonePromotion) ∧
      planAdminProposalAutoExec (materializeWithNow symbolicCrypto (twoAdmins ++ undonePromotion) 1
        (some 10)) (twoAdmins ++ undonePromotion) 3 100 1 10 = .pending ∧
      canonicalProposal (twoAdmins ++ undonePromotion) 3 100 10 =
        some (signed 6 6 1 (.adminProposal (.setPower 3 100))) ∧
      ¬CanSucceed symbolicCrypto openContext (twoAdmins ++ undonePromotion) (some 10)
        (signed 6 6 1 (.adminProposal (.setPower 3 100))) 10 3 100) ∧
    VerifiedLog symbolicCrypto openContext loweredQuorum ∧
      planAdminProposalAutoExec (materializeWithNow symbolicCrypto loweredQuorum 1 (some 14))
        loweredQuorum 4 100 1 14 = .pending ∧
      canonicalProposal loweredQuorum 4 100 14 =
        some (signed 8 8 1 (.adminProposal (.setPower 4 100))) ∧
      8 ∉ (finalState symbolicCrypto loweredQuorum 1 (some 14)).appliedAdminProposals ∧
      ¬CanSucceed symbolicCrypto openContext loweredQuorum (some 14)
        (signed 8 8 1 (.adminProposal (.setPower 4 100))) 14 4 100 := by
  have hlowered : VerifiedLog symbolicCrypto openContext loweredQuorum := by decide
  refine ⟨⟨by decide, by decide, by decide, fun h => absurd h.unapplied (by decide)⟩,
    hlowered, by decide, by decide, by decide, fun h => ?_⟩
  have hnow := h.succeeds [] ((completes_nil hlowered.distinct).mpr (by decide))
  have hnot : (materializeWithNow symbolicCrypto (loweredQuorum ++ []) openContext.adminAddr
      (some 14)).powerLevels[4]? ≠ some 100 := by decide
  exact hnot hnow

theorem plan_waits_iff_promotion :
    CanSucceed symbolicCrypto openContext
      (twoAdmins ++ [signed 6 6 1 (.adminProposal (.setPower 3 100))]) (some 7)
      (signed 6 6 1 (.adminProposal (.setPower 3 100))) 7 3 100 := by
  refine (plan_waits_iff symbolicCrypto openContext
    (twoAdmins ++ [signed 6 6 1 (.adminProposal (.setPower 3 100))]) (by decide) (some 7) 3 2 100 7
    (by decide) (Or.inl (by decide))).mpr ?_
  refine (stillOpen_iff_of_past (by decide) rfl (by decide)).mpr ⟨by decide, by decide, ?_⟩
  exact fun hlevel => absurd rfl hlevel

end Harmony.Membership
