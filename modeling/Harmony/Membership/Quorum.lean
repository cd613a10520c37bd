import Harmony.Lib.Trace
import Harmony.Membership.Execution

/-! With a quorum, a power entry rises to 100 only by a proposal that the quorum signed
or by an executed recovery. Standing while Joined is another matter: power entries are
kept when a member leaves or is kicked, so an owner with an old entry is an admin again
on coming back. -/

namespace Harmony.Membership

open Harmony.Lib

section Tipped

variable {idx : ProposalsIndex} {g : Governance} {e : SignedMembershipEvent} {id : EventId}
  {kind : ProposalKind}

theorem tipped_signed (ht : tipped idx g e = some (id, kind)) :
    signs e id ∧ g.adminQuorum ≤ (insert e.actor (g.signersSeen id)).card ∧
      ∃ entry, idx[id]? = some entry ∧ entry.1 = kind := by
  unfold tipped at ht
  split at ht
  · rename_i proposalKind hk
    split_ifs at ht with hcond
    obtain ⟨entry, hentry, hp⟩ := Option.map_eq_some_iff.mp ht
    obtain ⟨rfl, rfl⟩ := Prod.mk.inj hp
    exact ⟨Or.inl ⟨⟨_, hk⟩, rfl⟩, hcond.2.1, entry, hentry, rfl⟩
  · rename_i target hk
    split_ifs at ht with hcond
    obtain ⟨entry, hentry, hp⟩ := Option.bind_eq_some_iff.mp ht
    split_ifs at hp
    obtain ⟨rfl, rfl⟩ := Prod.mk.inj (Option.some.inj hp)
    exact ⟨Or.inr hk, hcond.2.2.1.ge, entry, hentry, rfl⟩
  · simp at ht

theorem exists_of_tipped {events : List SignedMembershipEvent}
    (ht : tipped (proposalsIndex events) g e = some (id, kind)) :
    ∃ p ∈ events, p.id = id ∧ p.kind = .adminProposal kind := by
  obtain ⟨-, -, entry, hentry, rfl⟩ := tipped_signed ht
  exact exists_proposal hentry

theorem recordSigner_powerLevels : (recordSigner idx g e).powerLevels = g.powerLevels := by
  unfold recordSigner
  split
  · rfl
  · split_ifs <;> rfl
  · rfl

theorem recordSigner_powerThresholds :
    (recordSigner idx g e).powerThresholds = g.powerThresholds := by
  unfold recordSigner
  split
  · rfl
  · split_ifs <;> rfl
  · rfl

/-- A power entry is old, set by the event, or set by the proposal it completes. -/
theorem govStep_power_cases {x : OwnerAddr} {level : ℕ}
    (h : (govStep idx g e).powerLevels[x]? = some level) :
    g.powerLevels[x]? = some level ∨ e.kind = .setPower x level ∨
      ∃ id, tipped idx g e = some (id, .setPower x level) := by
  cases ht : tipped idx g e with
  | some p =>
    obtain ⟨id, kind⟩ := p
    rw [govStep_of_tipped ht] at h
    cases kind with
    | setPower target level' =>
      simp only [enact, BTreeMap.get_insert, recordSigner_powerLevels] at h
      split_ifs at h with hx
      · exact Or.inr (Or.inr ⟨id, by rw [hx, Option.some.inj h]⟩)
      · exact Or.inl h
    | _ =>
      simp only [enact, recordSigner_powerLevels] at h
      exact Or.inl h
  | none =>
    unfold govStep at h
    split at h
    · rename_i target level' hk
      simp only [BTreeMap.get_insert] at h
      split_ifs at h with hx
      · exact Or.inr (Or.inl (by rw [hk, hx, Option.some.inj h]))
      · exact Or.inl h
    · rw [ht, Option.elim_none, recordSigner_powerLevels] at h
      exact Or.inl h

theorem govStep_thresholds_cases (idx : ProposalsIndex) (g : Governance)
    (e : SignedMembershipEvent) :
    (govStep idx g e).powerThresholds = g.powerThresholds ∨
      ∃ id t, tipped idx g e = some (id, .changeThresholds t) ∧
        (govStep idx g e).powerThresholds = t := by
  cases ht : tipped idx g e with
  | some p =>
    obtain ⟨id, kind⟩ := p
    rw [govStep_of_tipped ht]
    cases kind with
    | changeThresholds t => exact Or.inr ⟨id, t, rfl, rfl⟩
    | _ => exact Or.inl recordSigner_powerThresholds
  | none =>
    refine Or.inl ?_
    unfold govStep
    split
    · rfl
    · rw [ht, Option.elim_none, recordSigner_powerThresholds]

end Tipped

/-! ### Levels -/

/-- What `verify_event` ensures of the levels an event carries. -/
def levelsOk (e : SignedMembershipEvent) : Prop :=
  (∀ x level, e.kind = .setPower x level ∨ e.kind = .adminProposal (.setPower x level) →
      level ≤ 100) ∧
    ∀ t, e.kind = .adminProposal (.changeThresholds t) → t.max = 100

theorem govRun_thresholds {P : PowerThresholds → Prop} {events sorted : List SignedMembershipEvent}
    (adminAddr : OwnerAddr) (h0 : P powerThresholds)
    (hevents : ∀ e ∈ events, ∀ t, e.kind = .adminProposal (.changeThresholds t) → P t) :
    P (govRun (proposalsIndex events) adminAddr sorted).powerThresholds := by
  induction sorted using List.reverseRecOn with
  | nil => exact h0
  | append_singleton sorted e ih =>
    rw [govRun_snoc]
    rcases govStep_thresholds_cases (proposalsIndex events)
      (govRun (proposalsIndex events) adminAddr sorted) e with hsame | ⟨id, t, ht, hset⟩
    · rw [hsame]
      exact ih
    · obtain ⟨p, hp, -, hpk⟩ := exists_of_tipped ht
      rw [hset]
      exact hevents p hp t hpk

theorem govRun_power_le {events sorted : List SignedMembershipEvent} {adminAddr : OwnerAddr}
    (hsub : sorted ⊆ events) (hevents : ∀ e ∈ events, levelsOk e) {x : OwnerAddr} {level : ℕ}
    (h : (govRun (proposalsIndex events) adminAddr sorted).powerLevels[x]? = some level) :
    level ≤ 100 := by
  induction sorted using List.reverseRecOn with
  | nil =>
    have hinit : (govRun (proposalsIndex events) adminAddr []).powerLevels =
      (∅ : BTreeMap OwnerAddr ℕ).insert adminAddr 100 := rfl
    rw [hinit, BTreeMap.get_insert] at h
    split_ifs at h
    · exact (Option.some.inj h).ge
    · simp at h
  | append_singleton sorted e ih =>
    rw [govRun_snoc] at h
    have he : e ∈ events := hsub (by simp)
    rcases govStep_power_cases h with hold | hk | ⟨id, ht⟩
    · exact ih (fun a ha => hsub (by simp [ha])) hold
    · exact (hevents e he).1 x level (Or.inl hk)
    · obtain ⟨p, hp, -, hpk⟩ := exists_of_tipped ht
      exact (hevents p hp).1 x level (Or.inr hpk)

theorem view_max {C : Crypto} {events : List SignedMembershipEvent} {adminAddr : OwnerAddr}
    {nowMs : Option ℕ}
    (hevents : ∀ e ∈ events, ∀ t, e.kind = .adminProposal (.changeThresholds t) → t.max = 100) :
    (materializeWithNow C events adminAddr nowMs).powerThresholds.max = 100 := by
  rw [view_powerThresholds]
  exact govRun_thresholds (P := fun t => t.max = 100) adminAddr rfl hevents

theorem postPass_power_le {env env' : ReplayEnv} {events sorted : List SignedMembershipEvent}
    (hidx : env.proposalsIndex = proposalsIndex events) (hsub : sorted ⊆ events)
    (hevents : ∀ e ∈ events, levelsOk e) (x : OwnerAddr) :
    (postPass env' (replay env sorted)).power x ≤ 100 := by
  rw [MaterializedMembership.power]
  by_cases hp : promoted env' (replay env sorted) x
  · rw [postPass_promoted hp]
    exact le_rfl
  · rw [postPass_not_promoted hp]
    have hgov := congrArg Governance.powerLevels (replay_governance env sorted)
    cases hget : (replay env sorted).m.powerLevels[x]? with
    | none => exact Nat.zero_le _
    | some level =>
      have hrun : (govRun (proposalsIndex events) env.adminAddr sorted).powerLevels[x]? =
          some level := by
        rw [← hget, ← hidx]
        exact congrArg (·[x]?) hgov.symm
      exact govRun_power_le hsub hevents hrun

theorem view_power_le {C : Crypto} {events : List SignedMembershipEvent} {adminAddr : OwnerAddr}
    {nowMs : Option ℕ} (hevents : ∀ e ∈ events, levelsOk e) (x : OwnerAddr) :
    (materializeWithNow C events adminAddr nowMs).power x ≤ 100 :=
  postPass_power_le rfl (fun _ ha => mem_sortBy.mp ha) hevents x

/-! ### What admission ensures -/

section Admission

variable {C : Crypto} {ctx : VerifyContext} {prior : MaterializedMembership}
  {f : SignedMembershipEvent}

theorem accepted_thresholds (h : verifyEvent C ctx prior f = .ok ()) {t : PowerThresholds}
    (hk : f.kind = .adminProposal (.changeThresholds t)) : t.max = 100 := by
  obtain ⟨-, hrules, -⟩ := verifyEvent_rules h
  simp only [verifyMembershipRules, hk, verifyAdminProposal, verifyProposalKind, bind_eq_ok,
    ensure_eq_ok, Bool.and_eq_true, decide_eq_true_eq] at hrules
  obtain ⟨_, -, _, -, -, hmax⟩ := hrules
  exact hmax

theorem accepted_level (h : verifyEvent C ctx prior f = .ok ())
    (hmax : prior.powerThresholds.max = 100) {x : OwnerAddr} {level : ℕ}
    (hk : f.kind = .setPower x level ∨ f.kind = .adminProposal (.setPower x level)) :
    level ≤ 100 := by
  obtain ⟨-, hrules, signer, hpower⟩ := verifyEvent_rules h
  rcases hk with hk | hk
  · simp only [verifyPowerRules, hk, bind_eq_ok, ensure_eq_ok, decide_eq_true_eq] at hpower
    obtain ⟨_, -, _, hlevel, -⟩ := hpower
    exact hmax ▸ hlevel
  · simp only [verifyMembershipRules, hk, verifyAdminProposal, verifyProposalKind, bind_eq_ok,
      ensure_eq_ok, decide_eq_true_eq] at hrules
    obtain ⟨_, -, _, -, _, -, _, hlevel, -⟩ := hrules
    exact hmax ▸ hlevel

theorem accepted_promotion (h : verifyEvent C ctx prior f = .ok ()) {x : OwnerAddr}
    (hk : f.kind = .setPower x 100) : prior.adminQuorum ≤ 1 := by
  obtain ⟨-, -, signer, hpower⟩ := verifyEvent_rules h
  simp only [verifyPowerRules, hk, bind_eq_ok, ensure_eq_ok] at hpower
  obtain ⟨_, -, _, -, _, -, hquorum⟩ := hpower
  have haffects : isAdminAffectingSetPower prior x 100 = true := by
    simp [isAdminAffectingSetPower, powerThresholds]
  simpa [haffects] using hquorum

theorem accepted_signature (h : verifyEvent C ctx prior f = .ok ()) {id : EventId}
    (hs : signs f id) : isJoinedMember prior f.actor = true ∧ 100 ≤ prior.power f.actor := by
  obtain ⟨-, hrules, -⟩ := verifyEvent_rules h
  rcases hs with ⟨⟨kind, hk⟩, -⟩ | hk
  · simp only [verifyMembershipRules, hk, verifyAdminProposal, bind_eq_ok, ensure_eq_ok,
      decide_eq_true_eq] at hrules
    obtain ⟨_, hjoined, _, hpower, -⟩ := hrules
    exact ⟨hjoined, hpower⟩
  · simp only [verifyMembershipRules, hk, bind_eq_ok, ensure_eq_ok, decide_eq_true_eq] at hrules
    obtain ⟨_, hjoined, _, hpower, -⟩ := hrules
    exact ⟨hjoined, hpower⟩

end Admission

/-! ### Extensions -/

section Extension

variable (events added : List SignedMembershipEvent)

def arrivals : List (List SignedMembershipEvent × SignedMembershipEvent) :=
  trace (fun known e => known ++ [e]) events added

/-- `f` was admitted against `known`: as an event of the log, or on its arrival. -/
def judgedAgainst (f : SignedMembershipEvent) (known : List SignedMembershipEvent) : Prop :=
  (f ∈ events ∧ known = events) ∨ (known, f) ∈ arrivals events added

/-- The added events sort after the log, each is accepted on its arrival, and the admin
quorum is `q` in the state each is judged against and at its place in the longer log. -/
structure Extension (C : Crypto) (ctx : VerifyContext) (q : ℕ) (nowMs : Option ℕ) : Prop where
  verified : VerifiedLog C ctx events
  distinct : DistinctIds (events ++ added)
  later : ∀ a ∈ events, ∀ b ∈ added, eventSortKey a < eventSortKey b
  accepted : ∀ p ∈ arrivals events added,
    accepted C ctx (priorStateAtEvent C p.1 p.2 ctx.adminAddr) p.2 = true
  quorum_judged : ∀ p ∈ arrivals events added,
    (priorStateAtEvent C p.1 p.2 ctx.adminAddr).adminQuorum = q
  quorum_replayed : ∀ e ∈ added,
    (stateBefore C (events ++ added) ctx.adminAddr nowMs e).m.adminQuorum = q

variable {events added} {C : Crypto} {ctx : VerifyContext} {q : ℕ} {nowMs : Option ℕ}

theorem mem_arrivals {f : SignedMembershipEvent} {known : List SignedMembershipEvent} :
    (known, f) ∈ arrivals events added ↔
      ∃ pre post, added = pre ++ f :: post ∧ known = events ++ pre := by
  have hfold : ∀ pre : List SignedMembershipEvent,
      pre.foldl (fun known e => known ++ [e]) events = events ++ pre := by
    intro pre
    induction pre using List.reverseRecOn with
    | nil => simp
    | append_singleton pre e ih => simp [List.foldl_append, ih]
  simp only [arrivals, mem_trace, hfold]

theorem judgedAgainst_subset {f : SignedMembershipEvent} {known : List SignedMembershipEvent}
    (h : judgedAgainst events added f known) : known ⊆ events ++ added := by
  rcases h with ⟨-, rfl⟩ | h
  · exact List.subset_append_left _ _
  · obtain ⟨pre, post, rfl, rfl⟩ := mem_arrivals.mp h
    rw [← List.append_assoc]
    exact List.subset_append_left _ _

theorem exists_arrival (events : List SignedMembershipEvent) {f : SignedMembershipEvent}
    (hf : f ∈ added) :
    ∃ known, (known, f) ∈ arrivals events added := by
  obtain ⟨pre, post, hsplit⟩ := List.append_of_mem hf
  exact ⟨events ++ pre, mem_arrivals.mpr ⟨pre, post, hsplit, rfl⟩⟩

theorem exists_judgedAgainst {f : SignedMembershipEvent} (hf : f ∈ events ++ added) :
    ∃ known, judgedAgainst events added f known := by
  rcases List.mem_append.mp hf with hf | hf
  · exact ⟨events, Or.inl ⟨hf, rfl⟩⟩
  · obtain ⟨known, hj⟩ := exists_arrival events hf
    exact ⟨known, Or.inr hj⟩

namespace Extension

theorem judged (h : Extension events added C ctx q nowMs) {f : SignedMembershipEvent}
    {known : List SignedMembershipEvent} (hj : judgedAgainst events added f known) :
    verifyEvent C ctx (priorStateAtEvent C known f ctx.adminAddr) f = .ok () := by
  rcases hj with ⟨hf, rfl⟩ | hj
  · exact h.verified.accepted hf
  · exact accepted_iff.mp (h.accepted (known, f) hj)

theorem levelsOk (h : Extension events added C ctx q nowMs) :
    ∀ f ∈ events ++ added, levelsOk f := by
  have hthresholds : ∀ f ∈ events ++ added, ∀ t,
      f.kind = .adminProposal (.changeThresholds t) → t.max = 100 := by
    intro f hf t hk
    obtain ⟨known, hj⟩ := exists_judgedAgainst hf
    exact accepted_thresholds (h.judged hj) hk
  intro f hf
  refine ⟨fun x level hk => ?_, hthresholds f hf⟩
  obtain ⟨known, hj⟩ := exists_judgedAgainst hf
  refine accepted_level (h.judged hj) (view_max fun e he t ht => ?_) hk
  exact hthresholds e (judgedAgainst_subset hj (List.mem_filter.mp he).1) t ht

/-- Whoever signed a proposal was a Joined admin with power 100 at the time. -/
theorem signer_standing (h : Extension events added C ctx q nowMs) {f : SignedMembershipEvent}
    {known : List SignedMembershipEvent} (hj : judgedAgainst events added f known) {id : EventId}
    (hs : signs f id) :
    isJoinedMember (priorStateAtEvent C known f ctx.adminAddr) f.actor = true ∧
      (priorStateAtEvent C known f ctx.adminAddr).power f.actor = 100 := by
  obtain ⟨hjoined, hpower⟩ := accepted_signature (h.judged hj) hs
  refine ⟨hjoined, le_antisymm (view_power_le (fun e he => ?_) _) hpower⟩
  exact h.levelsOk e (judgedAgainst_subset hj (List.mem_filter.mp he).1)

end Extension

/-- The power entries of a view are those of the replay unless a recovery promotes. -/
theorem view_power_of_not_promoted {log : List SignedMembershipEvent} {adminAddr owner : OwnerAddr}
    (h : ¬promotedIn (materializeWithNow C log adminAddr nowMs) owner) :
    (materializeWithNow C log adminAddr nowMs).powerLevels[owner]? =
      (govRun (proposalsIndex log) adminAddr (sortEvents log)).powerLevels[owner]? := by
  have hgov := congrArg Governance.powerLevels
    (replay_governance (prePass C log adminAddr nowMs) (sortEvents log))
  rw [materializeWithNow_eq, promotedIn_iff] at h
  rw [materializeWithNow_eq, postPass_not_promoted h]
  exact congrArg (·[owner]?) hgov

/-- The governance of the longer log at an added event. -/
theorem Extension.governance_at (h : Extension events added C ctx q nowMs)
    {pre post : List SignedMembershipEvent} {e : SignedMembershipEvent}
    (hsplit : sortEvents added = pre ++ e :: post) :
    (stateBefore C (events ++ added) ctx.adminAddr nowMs e).governance =
      pre.foldl (govStep (proposalsIndex (events ++ added)))
        (govRun (proposalsIndex (events ++ added)) ctx.adminAddr (sortEvents events)) := by
  have hsorted : sortEvents (events ++ added) = (sortEvents events ++ pre) ++ e :: post := by
    rw [sortEvents, sortBy_append h.distinct.keyNodup fun a ha b hb => (h.later a ha b hb).le]
    rw [sortEvents] at hsplit
    rw [hsplit, List.append_assoc]
    rfl
  have hbefore : sortEvents (before eventSortKey (events ++ added) e) = sortEvents events ++ pre :=
    sortBy_before_eq h.distinct.keyNodup hsorted
  rw [stateBefore, replay_governance, hbefore, govRun, List.foldl_append]
  rfl

/-- Under a quorum, a power entry comes to be 100 only by a proposal that the quorum,
Joined admins each when signing, has signed, or by an execution. -/
theorem quorum_guards_promotion (C : Crypto) (ctx : VerifyContext)
    (events added : List SignedMembershipEvent) (q : ℕ) (nowMs : Option ℕ) (owner : OwnerAddr)
    (hext : Extension events added C ctx q nowMs) (hq : 2 ≤ q)
    (hafter : (materializeWithNow C (events ++ added) ctx.adminAddr nowMs).powerLevels[owner]? =
      some 100)
    (hbefore : (materializeWithNow C events ctx.adminAddr nowMs).powerLevels[owner]? ≠ some 100) :
    (∃ proposal ∈ events ++ added, ∃ e ∈ added, ∃ signers : Finset OwnerAddr,
      proposal.kind = .adminProposal (.setPower owner 100) ∧
      tipped (proposalsIndex (events ++ added))
        (stateBefore C (events ++ added) ctx.adminAddr nowMs e).governance e =
          some (proposal.id, .setPower owner 100) ∧
      q ≤ signers.card ∧
      ∀ s ∈ signers, ∃ f known, judgedAgainst events added f known ∧ f.actor = s ∧
        signs f proposal.id ∧ eventSortKey f ≤ eventSortKey e ∧
        isJoinedMember (priorStateAtEvent C known f ctx.adminAddr) s = true ∧
        (priorStateAtEvent C known f ctx.adminAddr).power s = 100) ∨
    promotedIn (materializeWithNow C (events ++ added) ctx.adminAddr nowMs) owner ∧
      ¬promotedIn (materializeWithNow C events ctx.adminAddr nowMs) owner := by
  have hnot : ¬promotedIn (materializeWithNow C events ctx.adminAddr nowMs) owner := by
    intro hp
    rw [materializeWithNow_eq, promotedIn_iff] at hp
    exact hbefore (by rw [materializeWithNow_eq, postPass_promoted hp])
  by_cases hp : promotedIn (materializeWithNow C (events ++ added) ctx.adminAddr nowMs) owner
  · exact Or.inr ⟨hp, hnot⟩
  · refine Or.inl ?_
    set idx := proposalsIndex (events ++ added) with hidx
    rw [view_power_of_not_promoted hp] at hafter
    have hsub : sortEvents events ⊆ events := fun a ha => mem_sortBy.mp ha
    have hsub' : sortEvents events ⊆ events ++ added :=
      fun a ha => List.mem_append_left _ (mem_sortBy.mp ha)
    rw [view_power_of_not_promoted hnot,
      (govRun_sublog ctx.adminAddr hext.verified.distinct hext.distinct hsub hsub').1] at hbefore
    have hrun : govRun idx ctx.adminAddr (sortEvents (events ++ added)) =
        (sortEvents added).foldl (govStep idx) (govRun idx ctx.adminAddr (sortEvents events)) := by
      rw [sortEvents,
        sortBy_append hext.distinct.keyNodup fun a ha b hb => (hext.later a ha b hb).le, govRun,
        List.foldl_append]
      rfl
    rw [hrun] at hafter
    obtain ⟨pre, e, post, hsplit, hpre, hpost⟩ := exists_crossing
      (P := fun g : Governance => g.powerLevels[owner]? = some 100) hbefore hafter
    have hgov := hext.governance_at hsplit
    have he : e ∈ added := mem_sortBy.mp (by rw [← sortEvents, hsplit]; simp)
    rw [← hgov] at hpre hpost
    rcases govStep_power_cases hpost with hold | hk | ⟨id, ht⟩
    · exact absurd hold hpre
    · -- a direct promotion would have been refused on arrival
      obtain ⟨known, hj⟩ := exists_arrival events he
      have hle := accepted_promotion (hext.judged (Or.inr hj)) hk
      have hquorum := hext.quorum_judged (known, e) hj
      simp only at hquorum
      omega
    · obtain ⟨hsigns, hcard, -⟩ := tipped_signed ht
      obtain ⟨proposal, hproposal, rfl, hpk⟩ := exists_of_tipped ht
      refine ⟨proposal, hproposal, e, he, insert e.actor ((stateBefore C (events ++ added)
        ctx.adminAddr nowMs e).governance.signersSeen proposal.id), hpk, ht, ?_, fun s hs => ?_⟩
      · exact (hext.quorum_replayed e he).symm.le.trans hcard
      · have hsigned : ∃ f ∈ events ++ added, f.actor = s ∧ signs f proposal.id ∧
            eventSortKey f ≤ eventSortKey e := by
          rcases Finset.mem_insert.mp hs with rfl | hs
          · exact ⟨e, List.mem_append_right _ he, rfl, hsigns, le_rfl⟩
          · rw [stateBefore, replay_governance] at hs
            obtain ⟨f, hf, hactor, hfs⟩ := govRun_signers hs
            have hmem := List.mem_filter.mp (mem_sortBy.mp hf)
            exact ⟨f, hmem.1, hactor, hfs, le_of_lt (by simpa using hmem.2)⟩
        obtain ⟨f, hf, rfl, hfs, hle⟩ := hsigned
        obtain ⟨known, hj⟩ := exists_judgedAgainst hf
        exact ⟨f, known, hj, rfl, hfs, hle, hext.signer_standing hj hfs⟩

def twoAdmins : List SignedMembershipEvent :=
  [signed 1 1 1 .join, signed 2 2 2 .join, signed 3 3 3 .join, signed 4 4 1 (.setPower 2 100),
    signed 5 5 1 (.adminProposal (.changeQuorum 2))]

def agreedPromotion : List SignedMembershipEvent :=
  [signed 6 6 1 (.adminProposal (.setPower 3 100)), signed 7 7 2 (.adminCountersign 6)]

theorem quorum_guards_promotion_agreed :
    (∃ proposal ∈ twoAdmins ++ agreedPromotion, ∃ e ∈ agreedPromotion,
      ∃ signers : Finset OwnerAddr,
      proposal.kind = .adminProposal (.setPower 3 100) ∧
      tipped (proposalsIndex (twoAdmins ++ agreedPromotion))
        (stateBefore symbolicCrypto (twoAdmins ++ agreedPromotion) 1 none e).governance e =
          some (proposal.id, .setPower 3 100) ∧
      2 ≤ signers.card ∧
      ∀ s ∈ signers, ∃ f known, judgedAgainst twoAdmins agreedPromotion f known ∧ f.actor = s ∧
        signs f proposal.id ∧ eventSortKey f ≤ eventSortKey e ∧
        isJoinedMember (priorStateAtEvent symbolicCrypto known f 1) s = true ∧
        (priorStateAtEvent symbolicCrypto known f 1).power s = 100) ∨
    promotedIn (materializeWithNow symbolicCrypto (twoAdmins ++ agreedPromotion) 1 none) 3 ∧
      ¬promotedIn (materializeWithNow symbolicCrypto twoAdmins 1 none) 3 :=
  quorum_guards_promotion symbolicCrypto openContext twoAdmins agreedPromotion 2 none 3
    ⟨by decide, by decide, by decide, by decide, by decide, by decide⟩ (by decide) (by decide)
    (by decide)

def adminLeft : List SignedMembershipEvent := twoAdmins ++ [signed 6 6 2 .leave]

/-- Three admins under a quorum of two promote owner 3 again at 21 and demote at 30 by a
proposal that has been open since 10. -/
def promotedThenDemoted : List SignedMembershipEvent :=
  [signed 1 1 1 .join, signed 2 2 2 .join, signed 3 3 3 .join, signed 4 4 4 .join,
    signed 5 5 1 (.setPower 2 100), signed 6 6 1 (.setPower 3 100), signed 7 7 1 (.setPower 4 100),
    signed 8 8 1 (.adminProposal (.changeQuorum 2)),
    signed 10 10 1 (.adminProposal (.setPower 3 0)),
    signed 20 20 1 (.adminProposal (.setPower 3 100)), signed 21 21 2 (.adminCountersign 20),
    signed 30 30 2 (.adminCountersign 10)]

def earlyCountersign : SignedMembershipEvent := signed 15 15 4 (.adminCountersign 10)

/-- An admin who comes back is an admin without any proposal, and a countersign that
sorts into the past makes a demotion precede the promotion that was applied before it. -/
theorem standing_without_quorum :
    (VerifiedLog symbolicCrypto openContext (adminLeft ++ [signed 7 7 2 .join]) ∧
      (materializeWithNow symbolicCrypto adminLeft 1 none).adminQuorum = 2 ∧
      (materializeWithNow symbolicCrypto (adminLeft ++ [signed 7 7 2 .join]) 1 none).adminQuorum =
        2 ∧
      isJoinedMember (materializeWithNow symbolicCrypto adminLeft 1 none) 2 = false ∧
      isJoinedMember (materializeWithNow symbolicCrypto (adminLeft ++ [signed 7 7 2 .join]) 1
        none) 2 = true ∧
      (materializeWithNow symbolicCrypto (adminLeft ++ [signed 7 7 2 .join]) 1 none).power 2 =
        100 ∧
      (∀ p ∈ adminLeft ++ [signed 7 7 2 .join],
        p.kind ≠ .adminProposal (.setPower 2 100)) ∧
      (materializeWithNow symbolicCrypto (adminLeft ++ [signed 7 7 2 .join]) 1
        none).recoveryProposals = []) ∧
    VerifiedLog symbolicCrypto openContext promotedThenDemoted ∧
      accepted symbolicCrypto openContext
        (priorStateAtEvent symbolicCrypto promotedThenDemoted earlyCountersign 1)
        earlyCountersign = true ∧
      (priorStateAtEvent symbolicCrypto promotedThenDemoted earlyCountersign 1).adminQuorum = 2 ∧
      (materializeWithNow symbolicCrypto promotedThenDemoted 1 none).adminQuorum = 2 ∧
      (materializeWithNow symbolicCrypto (promotedThenDemoted ++ [earlyCountersign]) 1
        none).adminQuorum = 2 ∧
      (materializeWithNow symbolicCrypto promotedThenDemoted 1 none).power 3 = 0 ∧
      isJoinedMember (materializeWithNow symbolicCrypto
        (promotedThenDemoted ++ [earlyCountersign]) 1 none) 3 = true ∧
      (materializeWithNow symbolicCrypto (promotedThenDemoted ++ [earlyCountersign]) 1
        none).power 3 = 100 ∧
      tipped (proposalsIndex (promotedThenDemoted ++ [earlyCountersign]))
        (stateBefore symbolicCrypto (promotedThenDemoted ++ [earlyCountersign]) 1 none
          earlyCountersign).governance earlyCountersign = some (10, .setPower 3 0) ∧
      (materializeWithNow symbolicCrypto (promotedThenDemoted ++ [earlyCountersign]) 1
        none).recoveryProposals = [] := by
  decide

end Extension

end Harmony.Membership
