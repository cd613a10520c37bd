import Harmony.Membership.CommunityState
import Harmony.Membership.Step

/-! Governance is a machine of its own inside the replay: power entries, the admin
quorum, thresholds, recovery designates and the proposals' signatures are moved by
SetPower, AdminProposal and AdminCountersign only, whatever the clock and the member
statuses are. So the state an event was verified against and the running state at
its position have the same governance. -/

namespace Harmony.Membership

open Harmony.Lib

def Governance.init (adminAddr : OwnerAddr) : Governance :=
  (ReplayState.init adminAddr).governance

def govRun (idx : ProposalsIndex) (adminAddr : OwnerAddr) (sorted : List SignedMembershipEvent) :
    Governance :=
  sorted.foldl (govStep idx) (Governance.init adminAddr)

theorem govRun_append_cons (idx : ProposalsIndex) (adminAddr : OwnerAddr)
    (pre post : List SignedMembershipEvent) (e : SignedMembershipEvent) :
    govRun idx adminAddr (pre ++ e :: post) =
      post.foldl (govStep idx) (govStep idx (govRun idx adminAddr pre) e) := by
  rw [govRun, List.foldl_append, List.foldl_cons, govRun]

theorem govRun_snoc (idx : ProposalsIndex) (adminAddr : OwnerAddr)
    (sorted : List SignedMembershipEvent) (e : SignedMembershipEvent) :
    govRun idx adminAddr (sorted ++ [e]) = govStep idx (govRun idx adminAddr sorted) e :=
  govRun_append_cons idx adminAddr sorted [] e

theorem replay_governance (env : ReplayEnv) (sorted : List SignedMembershipEvent) :
    (replay env sorted).governance = govRun env.proposalsIndex env.adminAddr sorted := by
  induction sorted using List.reverseRecOn with
  | nil => rfl
  | append_singleton sorted e ih =>
    rw [replay_snoc, step_governance, govRun_snoc, ih]

section Congr

variable {idx idx' : ProposalsIndex} {g : Governance} {e : SignedMembershipEvent}

theorem tipped_congr (hseen : ∀ id ∈ g.seenProposals, idx[id]? = idx'[id]?)
    (he : ∀ kind, e.kind = .adminProposal kind → idx[e.id]? = idx'[e.id]?) :
    tipped idx g e = tipped idx' g e := by
  unfold tipped
  cases hk : e.kind with
  | adminProposal kind => simp only [he kind hk]
  | adminCountersign target =>
    by_cases hs : target ∈ g.seenProposals
    · simp only [hseen target hs]
    · simp [hs]
  | _ => rfl

theorem recordSigner_congr (hseen : ∀ id ∈ g.seenProposals, idx[id]? = idx'[id]?) :
    recordSigner idx g e = recordSigner idx' g e := by
  unfold recordSigner
  cases e.kind with
  | adminCountersign target =>
    by_cases hs : target ∈ g.seenProposals
    · simp only [hseen target hs]
    · simp [hs]
  | _ => rfl

theorem govStep_congr (hseen : ∀ id ∈ g.seenProposals, idx[id]? = idx'[id]?)
    (he : ∀ kind, e.kind = .adminProposal kind → idx[e.id]? = idx'[e.id]?) :
    govStep idx g e = govStep idx' g e := by
  simp only [govStep, tipped_congr hseen he, recordSigner_congr hseen]

theorem kickedBy_congr (hseen : ∀ id ∈ g.seenProposals, idx[id]? = idx'[id]?)
    (he : ∀ kind, e.kind = .adminProposal kind → idx[e.id]? = idx'[e.id]?) :
    kickedBy idx g e = kickedBy idx' g e := by
  simp only [kickedBy, tipped_congr hseen he]

theorem enact_seenProposals (g : Governance) (id : EventId) (kind : ProposalKind)
    (e : SignedMembershipEvent) : (enact g id kind e).seenProposals = g.seenProposals := by
  cases kind <;> rfl

theorem recordSigner_seenProposals {id : EventId}
    (h : id ∈ (recordSigner idx g e).seenProposals) :
    id ∈ g.seenProposals ∨ (∃ kind, e.kind = .adminProposal kind) ∧ id = e.id := by
  unfold recordSigner at h
  cases hk : e.kind with
  | adminProposal kind =>
    simp only [hk, Governance.sign, Finset.mem_insert] at h
    rcases h with rfl | h
    · exact Or.inr ⟨⟨kind, rfl⟩, rfl⟩
    · exact Or.inl h
  | adminCountersign target =>
    simp only [hk] at h
    split_ifs at h <;> exact Or.inl h
  | _ => simp only [hk] at h; exact Or.inl h

theorem govStep_seenProposals {id : EventId} (h : id ∈ (govStep idx g e).seenProposals) :
    id ∈ g.seenProposals ∨ (∃ kind, e.kind = .adminProposal kind) ∧ id = e.id := by
  unfold govStep at h
  split at h
  · exact Or.inl h
  · cases ht : tipped idx g e with
    | none => rw [ht] at h; exact recordSigner_seenProposals h
    | some p =>
      rw [ht, Option.elim_some, enact_seenProposals] at h
      exact recordSigner_seenProposals h

theorem enact_appliedProposals (g : Governance) (id : EventId) (kind : ProposalKind)
    (e : SignedMembershipEvent) :
    (enact g id kind e).appliedProposals = insert id g.appliedProposals := by
  cases kind <;> rfl

theorem recordSigner_appliedProposals :
    (recordSigner idx g e).appliedProposals = g.appliedProposals := by
  unfold recordSigner
  split
  · rfl
  · split_ifs <;> rfl
  · rfl

theorem recordSigner_seen_mono {id : EventId} (h : id ∈ g.seenProposals) :
    id ∈ (recordSigner idx g e).seenProposals := by
  unfold recordSigner
  split
  · exact Finset.mem_insert_of_mem h
  · split_ifs <;> exact h
  · exact h

theorem govStep_of_tipped {p : EventId × ProposalKind} (ht : tipped idx g e = some p) :
    govStep idx g e = enact (recordSigner idx g e) p.1 p.2 e := by
  unfold govStep
  split
  · rename_i hk
    simp [tipped, hk] at ht
  · rw [ht, Option.elim_some]

theorem govStep_seen_mono {id : EventId} (h : id ∈ g.seenProposals) :
    id ∈ (govStep idx g e).seenProposals := by
  cases ht : tipped idx g e with
  | some p =>
    rw [govStep_of_tipped ht, enact_seenProposals]
    exact recordSigner_seen_mono h
  | none =>
    unfold govStep
    split
    · exact h
    · rw [ht, Option.elim_none]
      exact recordSigner_seen_mono h

theorem govStep_appliedProposals {id : EventId} (h : id ∈ (govStep idx g e).appliedProposals) :
    id ∈ g.appliedProposals ∨ ∃ kind, tipped idx g e = some (id, kind) := by
  cases ht : tipped idx g e with
  | some p =>
    rw [govStep_of_tipped ht, enact_appliedProposals, recordSigner_appliedProposals,
      Finset.mem_insert] at h
    rcases h with rfl | h
    · exact Or.inr ⟨p.2, rfl⟩
    · exact Or.inl h
  | none =>
    refine Or.inl ?_
    unfold govStep at h
    split at h
    · exact h
    · rwa [ht, Option.elim_none, recordSigner_appliedProposals] at h

theorem tipped_seen {id : EventId} {kind : ProposalKind} (ht : tipped idx g e = some (id, kind)) :
    id ∈ (govStep idx g e).seenProposals := by
  have ht' := ht
  unfold tipped at ht
  split at ht
  · rename_i proposalKind hk
    split_ifs at ht
    obtain ⟨p, -, hp⟩ := Option.map_eq_some_iff.mp ht
    obtain ⟨rfl, -⟩ := Prod.mk.inj hp
    rw [govStep_of_tipped ht', enact_seenProposals]
    simp only [recordSigner, hk]
    exact Finset.mem_insert_self _ _
  · rename_i target hk
    split_ifs at ht with hcond
    obtain ⟨p, -, hp⟩ := Option.bind_eq_some_iff.mp ht
    split_ifs at hp
    obtain ⟨rfl, -⟩ := Prod.mk.inj (Option.some.inj hp)
    exact govStep_seen_mono hcond.1
  · simp at ht

end Congr

/-- Two indexes that agree on the proposals of a list drive it alike, and a seen
proposal is one of the list's. -/
theorem govRun_congr {idx idx' : ProposalsIndex} (adminAddr : OwnerAddr)
    (sorted : List SignedMembershipEvent)
    (hidx : ∀ e ∈ sorted, ∀ kind, e.kind = .adminProposal kind → idx[e.id]? = idx'[e.id]?) :
    govRun idx adminAddr sorted = govRun idx' adminAddr sorted ∧
      ∀ id ∈ (govRun idx adminAddr sorted).seenProposals, idx[id]? = idx'[id]? := by
  induction sorted using List.reverseRecOn with
  | nil => exact ⟨rfl, by simp [govRun, Governance.init, ReplayState.governance, ReplayState.init]⟩
  | append_singleton sorted e ih =>
    obtain ⟨hrun, hseen⟩ := ih fun a ha => hidx a (by simp [ha])
    have he := hidx e (by simp)
    rw [govRun_snoc, govRun_snoc, ← hrun]
    refine ⟨govStep_congr hseen he, fun id hid => ?_⟩
    rcases govStep_seenProposals hid with hid | ⟨⟨kind, hk⟩, rfl⟩
    · exact hseen id hid
    · exact he kind hk

/-- Seen proposals are proposals of the run, and only seen ones are applied. -/
theorem govRun_proposals (idx : ProposalsIndex) (adminAddr : OwnerAddr)
    (sorted : List SignedMembershipEvent) :
    (∀ id ∈ (govRun idx adminAddr sorted).seenProposals,
        ∃ p ∈ sorted, p.id = id ∧ ∃ kind, p.kind = .adminProposal kind) ∧
      (govRun idx adminAddr sorted).appliedProposals ⊆
        (govRun idx adminAddr sorted).seenProposals := by
  induction sorted using List.reverseRecOn with
  | nil => simp [govRun, Governance.init, ReplayState.governance, ReplayState.init]
  | append_singleton sorted e ih =>
    obtain ⟨hseen, happlied⟩ := ih
    rw [govRun_snoc]
    refine ⟨fun id hid => ?_, fun id hid => ?_⟩
    · rcases govStep_seenProposals hid with hid | ⟨hk, rfl⟩
      · obtain ⟨p, hp, hpid⟩ := hseen id hid
        exact ⟨p, by simp [hp], hpid⟩
      · exact ⟨e, by simp, rfl, hk⟩
    · rcases govStep_appliedProposals hid with hid | ⟨kind, ht⟩
      · exact govStep_seen_mono (happlied hid)
      · exact tipped_seen ht

theorem proposalsIndex_get {events : List SignedMembershipEvent} (hids : DistinctIds events)
    {e : SignedMembershipEvent} (he : e ∈ events) {kind : ProposalKind}
    (hk : e.kind = .adminProposal kind) :
    (proposalsIndex events)[e.id]? = some (kind, e.actor, e.hlc.wallMs) := by
  rw [proposalsIndex, BTreeMap.get_ofEntries _ _ hids he, hk]

theorem exists_proposal {events : List SignedMembershipEvent} {id : EventId}
    {entry : ProposalKind × OwnerAddr × ℕ} (h : (proposalsIndex events)[id]? = some entry) :
    ∃ p ∈ events, p.id = id ∧ p.kind = .adminProposal entry.1 := by
  obtain ⟨p, hp, hid, hentry⟩ := BTreeMap.exists_of_get_ofEntries h
  refine ⟨p, hp, hid, ?_⟩
  split at hentry
  · rename_i kind hk
    rw [hk, ← Option.some.inj hentry]
  · simp at hentry

/-- `f` signs the proposal `id`: it is the proposal, or a countersign of it. -/
def signs (f : SignedMembershipEvent) (id : EventId) : Prop :=
  (∃ kind, f.kind = .adminProposal kind) ∧ f.id = id ∨ f.kind = .adminCountersign id

theorem recordSigner_signers {idx : ProposalsIndex} {g : Governance} {e : SignedMembershipEvent}
    {id : EventId} {s : OwnerAddr} (h : s ∈ (recordSigner idx g e).signersSeen id) :
    s ∈ g.signersSeen id ∨ s = e.actor ∧ signs e id := by
  have hsign : ∀ {g : Governance} {id' : EventId}, s ∈ (g.sign id' e.actor).signersSeen id →
      s ∈ g.signersSeen id ∨ s = e.actor ∧ id' = id := by
    intro g id' hs
    by_cases hid : id = id'
    · subst hid
      simp only [Governance.sign, Function.update_self, Finset.mem_insert] at hs
      rcases hs with rfl | hs
      · exact Or.inr ⟨rfl, rfl⟩
      · exact Or.inl hs
    · simp only [Governance.sign, Function.update_of_ne hid] at hs
      exact Or.inl hs
  unfold recordSigner at h
  cases hk : e.kind with
  | adminProposal kind =>
    simp only [hk] at h
    rcases hsign h with hs | ⟨rfl, hid⟩
    · exact Or.inl hs
    · exact Or.inr ⟨rfl, Or.inl ⟨⟨kind, hk⟩, hid⟩⟩
  | adminCountersign target =>
    simp only [hk] at h
    have hcase : s ∈ (g.sign target e.actor).signersSeen id →
        s ∈ g.signersSeen id ∨ s = e.actor ∧ signs e id := by
      intro hs
      rcases hsign hs with hs | ⟨rfl, rfl⟩
      · exact Or.inl hs
      · exact Or.inr ⟨rfl, Or.inr hk⟩
    split_ifs at h
    · exact Or.inl h
    · exact hcase h
    · exact Or.inl h
    · exact hcase h
  | _ =>
    simp only [hk] at h
    exact Or.inl h

theorem enact_signersSeen (g : Governance) (id : EventId) (kind : ProposalKind)
    (e : SignedMembershipEvent) : (enact g id kind e).signersSeen = g.signersSeen := by
  cases kind <;> rfl

theorem govRun_signers {idx : ProposalsIndex} {adminAddr : OwnerAddr}
    {sorted : List SignedMembershipEvent} {id : EventId} {s : OwnerAddr}
    (h : s ∈ (govRun idx adminAddr sorted).signersSeen id) :
    ∃ f ∈ sorted, f.actor = s ∧ signs f id := by
  induction sorted using List.reverseRecOn with
  | nil => simp [govRun, Governance.init, ReplayState.governance, ReplayState.init] at h
  | append_singleton sorted e ih =>
    have hrec : s ∈ (recordSigner idx (govRun idx adminAddr sorted) e).signersSeen id →
        ∃ f ∈ sorted ++ [e], f.actor = s ∧ signs f id := by
      intro hs
      rcases recordSigner_signers hs with hs | ⟨rfl, hsig⟩
      · obtain ⟨f, hf, hfs⟩ := ih hs
        exact ⟨f, by simp [hf], hfs⟩
      · exact ⟨e, by simp, rfl, hsig⟩
    rw [govRun_snoc] at h
    cases ht : tipped idx (govRun idx adminAddr sorted) e with
    | some p =>
      rw [govStep_of_tipped ht, enact_signersSeen] at h
      exact hrec h
    | none =>
      unfold govStep at h
      split at h
      · obtain ⟨f, hf, hfs⟩ := ih h
        exact ⟨f, by simp [hf], hfs⟩
      · rw [ht, Option.elim_none] at h
        exact hrec h

/-- Two replays of one list whose indexes agree on it kick alike at its next event. -/
theorem replay_kickedBy_congr {env env' : ReplayEnv} (hadmin : env.adminAddr = env'.adminAddr)
    {sorted : List SignedMembershipEvent} {e : SignedMembershipEvent}
    (hidx : ∀ a ∈ sorted ++ [e], ∀ kind, a.kind = .adminProposal kind →
      env.proposalsIndex[a.id]? = env'.proposalsIndex[a.id]?) :
    kickedBy env.proposalsIndex (replay env sorted).governance e =
      kickedBy env'.proposalsIndex (replay env' sorted).governance e := by
  obtain ⟨hrun, hseen⟩ := govRun_congr env.adminAddr sorted fun a ha => hidx a (by simp [ha])
  rw [replay_governance, replay_governance, ← hadmin, ← hrun]
  exact kickedBy_congr hseen (hidx e (by simp))

/-- A log and a larger one drive the events they share alike. -/
theorem govRun_sublog {events events' sorted : List SignedMembershipEvent} (adminAddr : OwnerAddr)
    (hids : DistinctIds events) (hids' : DistinctIds events') (hs : sorted ⊆ events)
    (hs' : sorted ⊆ events') :
    govRun (proposalsIndex events) adminAddr sorted =
      govRun (proposalsIndex events') adminAddr sorted ∧
      ∀ id ∈ (govRun (proposalsIndex events) adminAddr sorted).seenProposals,
        (proposalsIndex events)[id]? = (proposalsIndex events')[id]? :=
  govRun_congr adminAddr sorted fun e he kind hk => by
    rw [proposalsIndex_get hids (hs he) hk, proposalsIndex_get hids' (hs' he) hk]

end Harmony.Membership
