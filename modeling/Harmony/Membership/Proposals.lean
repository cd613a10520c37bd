import Harmony.Lib.Trace
import Harmony.Membership.Quorum

/-! When the effect of a proposal is applied. A proposal waits for its quorum with >=, a
countersign with ==, so a proposal that a lower quorum finds with more signers than
needed is never applied. -/

namespace Harmony.Membership

open Harmony.Lib

instance (f : SignedMembershipEvent) (id : EventId) : Decidable (signs f id) :=
  decidable_of_iff ((match f.kind with | .adminProposal _ => true | _ => false) = true ∧ f.id = id ∨
      f.kind = .adminCountersign id) <| by
    unfold signs
    cases f.kind <;> simp

/-! ### Along a run -/

section Run

variable {events sorted : List SignedMembershipEvent} {adminAddr : OwnerAddr}

theorem recordSigner_adminQuorum {idx : ProposalsIndex} {g : Governance} {e : SignedMembershipEvent} :
    (recordSigner idx g e).adminQuorum = g.adminQuorum := by
  unfold recordSigner
  split
  · rfl
  · split_ifs <;> rfl
  · rfl

theorem govStep_quorum_cases (idx : ProposalsIndex) (g : Governance) (e : SignedMembershipEvent) :
    (govStep idx g e).adminQuorum = g.adminQuorum ∨
      ∃ id q, tipped idx g e = some (id, .changeQuorum q) ∧ (govStep idx g e).adminQuorum = q := by
  cases ht : tipped idx g e with
  | some p =>
    obtain ⟨id, kind⟩ := p
    rw [govStep_of_tipped ht]
    cases kind with
    | changeQuorum q => exact Or.inr ⟨id, q, rfl, rfl⟩
    | _ => exact Or.inl recordSigner_adminQuorum
  | none =>
    refine Or.inl ?_
    unfold govStep
    split
    · rfl
    · rw [ht, Option.elim_none, recordSigner_adminQuorum]

theorem govRun_quorum_pos
    (hevents : ∀ e ∈ events, ∀ q, e.kind = .adminProposal (.changeQuorum q) → 0 < q) :
    0 < (govRun (proposalsIndex events) adminAddr sorted).adminQuorum := by
  induction sorted using List.reverseRecOn with
  | nil => exact Nat.one_pos
  | append_singleton sorted e ih =>
    rw [govRun_snoc]
    rcases govStep_quorum_cases (proposalsIndex events)
      (govRun (proposalsIndex events) adminAddr sorted) e with hsame | ⟨id, q, ht, hset⟩
    · rw [hsame]
      exact ih
    · obtain ⟨p, hp, -, hpk⟩ := exists_of_tipped ht
      rw [hset]
      exact hevents p hp q hpk

theorem govStep_applied_mono {idx : ProposalsIndex} {g : Governance} {e : SignedMembershipEvent}
    {id : EventId} (h : id ∈ g.appliedProposals) : id ∈ (govStep idx g e).appliedProposals := by
  cases ht : tipped idx g e with
  | some p =>
    rw [govStep_of_tipped ht, enact_appliedProposals, recordSigner_appliedProposals]
    exact Finset.mem_insert_of_mem h
  | none =>
    unfold govStep
    split
    · exact h
    · rwa [ht, Option.elim_none, recordSigner_appliedProposals]

theorem applied_of_tipped {idx : ProposalsIndex} {g : Governance} {e : SignedMembershipEvent}
    {id : EventId} {kind : ProposalKind} (ht : tipped idx g e = some (id, kind)) :
    id ∈ (govStep idx g e).appliedProposals := by
  rw [govStep_of_tipped ht, enact_appliedProposals]
  exact Finset.mem_insert_self _ _

theorem not_applied_of_tipped {idx : ProposalsIndex} {g : Governance} {e : SignedMembershipEvent}
    {id : EventId} {kind : ProposalKind} (ht : tipped idx g e = some (id, kind)) :
    id ∉ g.appliedProposals := by
  unfold tipped at ht
  split at ht
  · split_ifs at ht with hcond
    obtain ⟨entry, -, hp⟩ := Option.map_eq_some_iff.mp ht
    rw [← (Prod.mk.inj hp).1]
    exact hcond.1
  · split_ifs at ht with hcond
    obtain ⟨entry, -, hp⟩ := Option.bind_eq_some_iff.mp ht
    split_ifs at hp
    rw [← (Prod.mk.inj (Option.some.inj hp)).1]
    exact hcond.2.1
  · simp at ht

theorem proposal_seen {idx : ProposalsIndex} {g : Governance} {p : SignedMembershipEvent}
    {kind : ProposalKind} (hpk : p.kind = .adminProposal kind) :
    p.id ∈ (govStep idx g p).seenProposals := by
  have hrec : p.id ∈ (recordSigner idx g p).seenProposals := by
    simp only [recordSigner, hpk, Governance.sign]
    exact Finset.mem_insert_self _ _
  cases ht : tipped idx g p with
  | some q =>
    rw [govStep_of_tipped ht, enact_seenProposals]
    exact hrec
  | none =>
    simp only [govStep, hpk, ht, Option.elim_none]
    exact hrec

theorem seen_of_split {idx : ProposalsIndex} {adminAddr : OwnerAddr}
    {pre post : List SignedMembershipEvent} {p : SignedMembershipEvent} {kind : ProposalKind}
    (hpk : p.kind = .adminProposal kind) :
    p.id ∈ (govRun idx adminAddr (pre ++ p :: post)).seenProposals := by
  rw [govRun_append_cons]
  exact List.foldlRecOn (motive := fun g : Governance => p.id ∈ g.seenProposals) _ _
    (proposal_seen hpk) fun g hg f _ => govStep_seen_mono hg

theorem govStep_signersSeen (idx : ProposalsIndex) (g : Governance) (e : SignedMembershipEvent) :
    (govStep idx g e).signersSeen = (recordSigner idx g e).signersSeen := by
  cases ht : tipped idx g e with
  | some p => rw [govStep_of_tipped ht, enact_signersSeen]
  | none =>
    unfold govStep
    split
    · rename_i hk
      simp only [recordSigner, hk]
    · rw [ht, Option.elim_none]

theorem signersSeen_mono {idx : ProposalsIndex} {g : Governance} {e : SignedMembershipEvent}
    {id : EventId} : g.signersSeen id ⊆ (govStep idx g e).signersSeen id := by
  have hsign : ∀ {g : Governance} (id' : EventId),
      g.signersSeen id ⊆ (g.sign id' e.actor).signersSeen id := by
    intro g id' s hs
    by_cases hid : id = id'
    · subst hid
      simp only [Governance.sign, Function.update_self]
      exact Finset.mem_insert_of_mem hs
    · simpa only [Governance.sign, Function.update_of_ne hid] using hs
  rw [govStep_signersSeen]
  unfold recordSigner
  split
  · exact @hsign { g with seenProposals := insert e.id g.seenProposals } e.id
  · rename_i target _
    split_ifs
    · exact Finset.Subset.refl _
    · exact hsign target
    · exact Finset.Subset.refl _
    · exact hsign target
  · exact Finset.Subset.refl _

theorem signer_recorded {idx : ProposalsIndex} {g : Governance} {e : SignedMembershipEvent}
    {id : EventId} (hs : signs e id) (hopen : id ∉ g.appliedProposals)
    (hidx : id ∈ g.seenProposals → idx[id]?.isSome) :
    e.actor ∈ (govStep idx g e).signersSeen id := by
  rw [govStep_signersSeen]
  unfold recordSigner
  rcases hs with ⟨⟨kind, hk⟩, rfl⟩ | hk
  · simp only [hk, Governance.sign, Function.update_self]
    exact Finset.mem_insert_self _ _
  · have hmem : e.actor ∈ (g.sign id e.actor).signersSeen id := by
      simp only [Governance.sign, Function.update_self]
      exact Finset.mem_insert_self _ _
    simp only [hk]
    split_ifs with hseen hentry
    · exact hmem
    · exact absurd (hidx hseen) hentry
    · exact hmem

theorem seen_indexed (hids : DistinctIds events) (hsub : sorted ⊆ events) {id : EventId}
    (h : id ∈ (govRun (proposalsIndex events) adminAddr sorted).seenProposals) :
    (proposalsIndex events)[id]?.isSome := by
  obtain ⟨p, hp, rfl, kind, hk⟩ := (govRun_proposals _ adminAddr sorted).1 id h
  rw [proposalsIndex_get hids (hsub hp) hk]
  rfl

/-- The signers recorded for an open proposal are those who have signed it. -/
theorem mem_govRun_signers (hids : DistinctIds events) (hsub : sorted ⊆ events) {id : EventId}
    (hopen : id ∉ (govRun (proposalsIndex events) adminAddr sorted).appliedProposals)
    {s : OwnerAddr} :
    s ∈ (govRun (proposalsIndex events) adminAddr sorted).signersSeen id ↔
      ∃ f ∈ sorted, f.actor = s ∧ signs f id := by
  refine ⟨govRun_signers, ?_⟩
  induction sorted using List.reverseRecOn with
  | nil => simp
  | append_singleton sorted e ih =>
    rintro ⟨f, hf, rfl, hs⟩
    have hsub' : sorted ⊆ events := fun a ha => hsub (by simp [ha])
    rw [govRun_snoc] at hopen ⊢
    have hopen' := fun h => hopen (govStep_applied_mono h)
    rcases List.mem_append.mp hf with hf | hf
    · exact signersSeen_mono (ih hsub' hopen' ⟨f, hf, rfl, hs⟩)
    · rw [List.mem_singleton] at hf
      subst hf
      exact signer_recorded hs hopen' (seen_indexed hids hsub')

/-- What has been applied was applied at one of the events. -/
theorem exists_tipped {id : EventId}
    (h : id ∈ (govRun (proposalsIndex events) adminAddr sorted).appliedProposals) :
    ∃ pre e post kind, sorted = pre ++ e :: post ∧
      tipped (proposalsIndex events) (govRun (proposalsIndex events) adminAddr pre) e =
        some (id, kind) := by
  obtain ⟨pre, e, post, hsplit, hpre, hpost⟩ := exists_crossing
    (P := fun g : Governance => id ∈ g.appliedProposals) (by exact Finset.notMem_empty _) h
  rcases govStep_appliedProposals hpost with hold | ⟨kind, ht⟩
  · exact absurd hold hpre
  · exact ⟨pre, e, post, kind, hsplit, ht⟩

end Run

/-! ### In a log -/

section Log

variable (C : Crypto) (events : List SignedMembershipEvent) (adminAddr : OwnerAddr)
  (nowMs : Option ℕ)

def appliedAt (e : SignedMembershipEvent) (id : EventId) (kind : ProposalKind) : Prop :=
  tipped (proposalsIndex events) (stateBefore C events adminAddr nowMs e).governance e =
    some (id, kind)

def signersBefore (e : SignedMembershipEvent) (id : EventId) : Finset OwnerAddr :=
  (((before eventSortKey events e).filter fun f => signs f id).map (·.actor)).toFinset

def signersUpTo (e : SignedMembershipEvent) (id : EventId) : Finset OwnerAddr :=
  ((events.filter fun f => eventSortKey f ≤ eventSortKey e ∧ signs f id).map (·.actor)).toFinset

/-- Effects are applied once, not before the quorum has signed, and no later than at the
signature that finds the quorum. -/
structure TakesEffectOnce : Prop where
  once : ∀ e ∈ events, ∀ e' ∈ events, ∀ id kind kind',
    appliedAt C events adminAddr nowMs e id kind → appliedAt C events adminAddr nowMs e' id kind' →
      e = e'
  at_quorum : ∀ e ∈ events, ∀ id kind, appliedAt C events adminAddr nowMs e id kind →
    ∃ p ∈ events, p.id = id ∧ p.kind = .adminProposal kind ∧ eventSortKey p ≤ eventSortKey e ∧
      (stateBefore C events adminAddr nowMs e).m.adminQuorum ≤ (signersUpTo events e id).card
  tips : ∀ p ∈ events, ∀ kind, p.kind = .adminProposal kind → ∀ e ∈ events, signs e p.id →
    eventSortKey p ≤ eventSortKey e → e.hlc.wallMs - p.hlc.wallMs ≤ adminProposalExpiryMs →
      (stateAfter C events adminAddr nowMs e).m.adminQuorum ≤ (signersUpTo events e p.id).card →
        ∃ e' ∈ events, eventSortKey e' ≤ eventSortKey e ∧
          appliedAt C events adminAddr nowMs e' p.id kind

/-- A countersign in time meets an open proposal that has the signers of the running quorum
already, and is not a repeated signature on one that has just as many. -/
def overtaken (p e : SignedMembershipEvent) : Prop :=
  e.kind = .adminCountersign p.id ∧ eventSortKey p < eventSortKey e ∧
    e.hlc.wallMs - p.hlc.wallMs ≤ adminProposalExpiryMs ∧
    p.id ∉ (stateBefore C events adminAddr nowMs e).appliedAdminProposals ∧
    (stateBefore C events adminAddr nowMs e).m.adminQuorum ≤ (signersBefore events e p.id).card ∧
    ¬(e.actor ∈ signersBefore events e p.id ∧
      (signersBefore events e p.id).card = (stateBefore C events adminAddr nowMs e).m.adminQuorum)

variable {C events adminAddr nowMs} {p e : SignedMembershipEvent} {id : EventId}
  {kind : ProposalKind}

theorem mem_signersBefore {s : OwnerAddr} :
    s ∈ signersBefore events e id ↔
      ∃ f ∈ sortEvents (before eventSortKey events e), f.actor = s ∧ signs f id := by
  simp only [signersBefore, sortEvents, mem_sortBy, List.mem_toFinset, List.mem_map,
    List.mem_filter, decide_eq_true_eq]
  exact ⟨fun ⟨f, hf, hs⟩ => ⟨f, hf.1, hs, hf.2⟩, fun ⟨f, hf, hs, hsig⟩ => ⟨f, ⟨hf, hsig⟩, hs⟩⟩

theorem signersUpTo_eq (hids : DistinctIds events) (he : e ∈ events) (hs : signs e id) :
    signersUpTo events e id = insert e.actor (signersBefore events e id) := by
  ext s
  simp only [signersUpTo, signersBefore, before, Finset.mem_insert, List.mem_toFinset, List.mem_map,
    List.mem_filter, decide_eq_true_eq]
  constructor
  · rintro ⟨f, ⟨hf, hle, hsig⟩, rfl⟩
    rcases hle.eq_or_lt with heq | hlt
    · exact Or.inl (by rw [hids.keyNodup.inj hf he heq])
    · exact Or.inr ⟨f, ⟨⟨hf, hlt⟩, hsig⟩, rfl⟩
  · rintro (rfl | ⟨f, ⟨⟨hf, hlt⟩, hsig⟩, rfl⟩)
    · exact ⟨e, ⟨he, le_rfl, hs⟩, rfl⟩
    · exact ⟨f, ⟨hf, hlt.le, hsig⟩, rfl⟩

theorem governance_before (C : Crypto) (events : List SignedMembershipEvent)
    (adminAddr : OwnerAddr) (nowMs : Option ℕ) (e : SignedMembershipEvent) :
    (stateBefore C events adminAddr nowMs e).governance =
      govRun (proposalsIndex events) adminAddr (sortEvents (before eventSortKey events e)) :=
  replay_governance _ _

theorem governance_after (C : Crypto) (events : List SignedMembershipEvent)
    (adminAddr : OwnerAddr) (nowMs : Option ℕ) (e : SignedMembershipEvent) :
    (stateAfter C events adminAddr nowMs e).governance =
      govStep (proposalsIndex events) (stateBefore C events adminAddr nowMs e).governance e :=
  step_governance _ _ _

theorem before_subset (e : SignedMembershipEvent) :
    sortEvents (before eventSortKey events e) ⊆ events :=
  fun _ ha => (List.mem_filter.mp (mem_sortBy.mp ha)).1

theorem signersSeen_before (hids : DistinctIds events)
    (hopen : id ∉ (stateBefore C events adminAddr nowMs e).governance.appliedProposals) :
    (stateBefore C events adminAddr nowMs e).governance.signersSeen id =
      signersBefore events e id := by
  rw [governance_before] at hopen ⊢
  ext s
  rw [mem_govRun_signers hids (before_subset e) hopen, mem_signersBefore]

theorem before_prefix (hids : DistinctIds events) {pre post : List SignedMembershipEvent}
    (hlt : eventSortKey e < eventSortKey p)
    (hsplit : sortEvents (before eventSortKey events p) = pre ++ e :: post) :
    pre = sortEvents (before eventSortKey events e) := by
  have hnd : KeyNodup eventSortKey (before eventSortKey events p) := hids.keyNodup.filter _
  rw [← sortBy_before_eq hnd hsplit, before_before hlt]
  rfl

theorem before_split (hids : DistinctIds events) (he : e ∈ events)
    (hlt : eventSortKey e < eventSortKey p) :
    ∃ post, sortEvents (before eventSortKey events p) =
      sortEvents (before eventSortKey events e) ++ e :: post := by
  have hmem : e ∈ sortEvents (before eventSortKey events p) :=
    mem_sortBy.mpr (List.mem_filter.mpr ⟨he, by simpa using hlt⟩)
  obtain ⟨pre, post, hsplit⟩ := List.append_of_mem hmem
  exact ⟨post, by rw [hsplit, before_prefix hids hlt hsplit]⟩

theorem foldl_applied_mono (idx : ProposalsIndex) (g : Governance)
    (l : List SignedMembershipEvent) (h : id ∈ g.appliedProposals) :
    id ∈ (l.foldl (govStep idx) g).appliedProposals := by
  refine List.foldlRecOn (motive := fun g : Governance => id ∈ g.appliedProposals) _ _ h ?_
  exact fun g hg e _ => govStep_applied_mono hg

theorem applied_later (hids : DistinctIds events) (he : e ∈ events)
    (hlt : eventSortKey e < eventSortKey p) (ha : appliedAt C events adminAddr nowMs e id kind) :
    id ∈ (stateBefore C events adminAddr nowMs p).governance.appliedProposals := by
  obtain ⟨post, hsplit⟩ := before_split hids he hlt
  rw [governance_before, hsplit, govRun_append_cons]
  refine foldl_applied_mono _ _ _ ?_
  rw [appliedAt, governance_before] at ha
  exact applied_of_tipped ha

theorem applied_earlier (hids : DistinctIds events)
    (h : id ∈ (stateBefore C events adminAddr nowMs p).governance.appliedProposals) :
    ∃ e ∈ events, eventSortKey e < eventSortKey p ∧
      ∃ kind, appliedAt C events adminAddr nowMs e id kind := by
  rw [governance_before] at h
  obtain ⟨pre, e, post, kind, hsplit, ht⟩ := exists_tipped h
  have hmem : e ∈ sortEvents (before eventSortKey events p) := by rw [hsplit]; simp
  have hlt : eventSortKey e < eventSortKey p := by
    simpa using (List.mem_filter.mp (mem_sortBy.mp hmem)).2
  refine ⟨e, before_subset p hmem, hlt, kind, ?_⟩
  rw [appliedAt, governance_before, ← before_prefix hids hlt hsplit]
  exact ht

theorem appliedAt_kind (hids : DistinctIds events) (hp : p ∈ events)
    (hpk : p.kind = .adminProposal kind) {kind' : ProposalKind}
    (ha : appliedAt C events adminAddr nowMs e p.id kind') : kind' = kind := by
  obtain ⟨-, -, entry, hentry, rfl⟩ := tipped_signed ha
  rw [proposalsIndex_get hids hp hpk] at hentry
  rw [← Option.some.inj hentry]

theorem once_of_distinct (hids : DistinctIds events) {e' : SignedMembershipEvent}
    {kind' : ProposalKind} (he : e ∈ events) (he' : e' ∈ events)
    (ha : appliedAt C events adminAddr nowMs e id kind)
    (ha' : appliedAt C events adminAddr nowMs e' id kind') : e = e' := by
  rcases lt_trichotomy (eventSortKey e) (eventSortKey e') with hlt | heq | hlt
  · exact absurd (applied_later hids he hlt ha) (not_applied_of_tipped ha')
  · exact hids.keyNodup.inj he he' heq
  · exact absurd (applied_later hids he' hlt ha') (not_applied_of_tipped ha)

theorem applied_at_quorum (hids : DistinctIds events) (he : e ∈ events)
    (ha : appliedAt C events adminAddr nowMs e id kind) :
    ∃ p ∈ events, p.id = id ∧ p.kind = .adminProposal kind ∧ eventSortKey p ≤ eventSortKey e ∧
      (stateBefore C events adminAddr nowMs e).m.adminQuorum ≤ (signersUpTo events e id).card := by
  obtain ⟨hs, hquorum, entry, hentry, rfl⟩ := tipped_signed ha
  have hcard : (stateBefore C events adminAddr nowMs e).m.adminQuorum ≤
      (signersUpTo events e id).card := by
    rw [signersUpTo_eq hids he hs, ← signersSeen_before hids (not_applied_of_tipped ha)]
    exact hquorum
  have hseen := tipped_seen ha
  rw [governance_before] at hseen
  rcases govStep_seenProposals hseen with hseen | ⟨⟨kind', hk⟩, rfl⟩
  · obtain ⟨p, hp, rfl, kind', hpk⟩ := (govRun_proposals _ adminAddr _).1 _ hseen
    have hlt : eventSortKey p < eventSortKey e := by
      simpa using (List.mem_filter.mp (mem_sortBy.mp hp)).2
    have hkind := appliedAt_kind hids (before_subset e hp) hpk ha
    exact ⟨p, before_subset e hp, rfl, by rw [hpk, hkind], hlt.le, hcard⟩
  · have hkind := appliedAt_kind hids he hk ha
    exact ⟨e, he, rfl, by rw [hk, hkind], le_rfl, hcard⟩

theorem quorum_after (h : ∀ id kind, ¬appliedAt C events adminAddr nowMs e id kind) :
    (stateAfter C events adminAddr nowMs e).m.adminQuorum =
      (stateBefore C events adminAddr nowMs e).m.adminQuorum := by
  have hgov := congrArg Governance.adminQuorum (governance_after C events adminAddr nowMs e)
  rcases govStep_quorum_cases (proposalsIndex events)
    (stateBefore C events adminAddr nowMs e).governance e with hsame | ⟨id, q, ht, -⟩
  · exact hgov.trans hsame
  · exact absurd ht (h id _)

theorem signed_of_applied {id' : EventId} (hs : signs e id)
    (ha : appliedAt C events adminAddr nowMs e id' kind) : id' = id := by
  obtain ⟨hs', -⟩ := tipped_signed ha
  rcases hs with ⟨⟨k, hk⟩, rfl⟩ | hk <;> rcases hs' with ⟨⟨k', hk'⟩, hid⟩ | hk'
  · exact hid.symm
  · rw [hk] at hk'
    cases hk'
  · rw [hk] at hk'
    cases hk'
  · rw [hk] at hk'
    cases hk'
    rfl

theorem proposal_tips (hids : DistinctIds events) (hp : p ∈ events)
    (hpk : p.kind = .adminProposal kind)
    (hopen : p.id ∉ (stateBefore C events adminAddr nowMs p).governance.appliedProposals)
    (hpos : 0 < (stateBefore C events adminAddr nowMs p).m.adminQuorum)
    (hle : (stateBefore C events adminAddr nowMs p).m.adminQuorum ≤
      (insert p.actor (signersBefore events p p.id)).card) :
    appliedAt C events adminAddr nowMs p p.id kind := by
  rw [← signersSeen_before hids hopen] at hle
  simp only [appliedAt, tipped, hpk]
  rw [if_pos ⟨hopen, hle, hpos⟩, proposalsIndex_get hids hp hpk]
  rfl

theorem countersign_tips (hids : DistinctIds events) (hp : p ∈ events)
    (hpk : p.kind = .adminProposal kind) (hlt : eventSortKey p < eventSortKey e)
    (hek : e.kind = .adminCountersign p.id)
    (htime : e.hlc.wallMs - p.hlc.wallMs ≤ adminProposalExpiryMs)
    (hopen : p.id ∉ (stateBefore C events adminAddr nowMs e).governance.appliedProposals)
    (hpos : 0 < (stateBefore C events adminAddr nowMs e).m.adminQuorum)
    (heq : (insert e.actor (signersBefore events e p.id)).card =
      (stateBefore C events adminAddr nowMs e).m.adminQuorum) :
    appliedAt C events adminAddr nowMs e p.id kind := by
  have hseen : p.id ∈ (stateBefore C events adminAddr nowMs e).governance.seenProposals := by
    obtain ⟨post, hsplit⟩ := before_split hids hp hlt
    rw [governance_before, hsplit]
    exact seen_of_split hpk
  rw [← signersSeen_before hids hopen] at heq
  simp only [appliedAt, tipped, hek]
  rw [if_pos ⟨hseen, hopen, heq, hpos⟩, proposalsIndex_get hids hp hpk]
  exact if_pos htime

/-- A proposal whose signature finds the quorum has been applied by then, unless its
countersign comes when the quorum is behind the signers. -/
theorem tips_iff_not_overtaken (hids : DistinctIds events)
    (hpos : ∀ e, 0 < (stateBefore C events adminAddr nowMs e).m.adminQuorum) (hp : p ∈ events)
    (hpk : p.kind = .adminProposal kind) (he : e ∈ events) (hs : signs e p.id)
    (hle : eventSortKey p ≤ eventSortKey e)
    (htime : e.hlc.wallMs - p.hlc.wallMs ≤ adminProposalExpiryMs) :
    ((stateAfter C events adminAddr nowMs e).m.adminQuorum ≤ (signersUpTo events e p.id).card →
      ∃ e' ∈ events, eventSortKey e' ≤ eventSortKey e ∧
        appliedAt C events adminAddr nowMs e' p.id kind) ↔
      ¬overtaken C events adminAddr nowMs p e := by
  rw [signersUpTo_eq hids he hs]
  constructor
  · rintro htips ⟨hek, hlt, -, hopen, hquorum, hnot⟩
    have hcard : (signersBefore events e p.id).card ≤
        (insert e.actor (signersBefore events e p.id)).card :=
      Finset.card_le_card (Finset.subset_insert _ _)
    have hexact : (insert e.actor (signersBefore events e p.id)).card ≠
        (stateBefore C events adminAddr nowMs e).m.adminQuorum := by
      intro heq
      by_cases hmem : e.actor ∈ signersBefore events e p.id
      · rw [Finset.insert_eq_of_mem hmem] at heq
        exact hnot ⟨hmem, heq⟩
      · rw [Finset.card_insert_of_notMem hmem] at heq
        omega
    have hnone : ∀ id kind, ¬appliedAt C events adminAddr nowMs e id kind := by
      intro id kind ha
      rw [signed_of_applied hs ha] at ha
      unfold appliedAt tipped at ha
      simp only [hek] at ha
      split_ifs at ha with hcond
      rw [signersSeen_before hids hopen] at hcond
      exact hexact hcond.2.2.1
    obtain ⟨e', he', hle', ha⟩ := htips (by rw [quorum_after hnone]; omega)
    rcases hle'.eq_or_lt with heq | hlt'
    · rw [hids.keyNodup.inj he' he heq] at ha
      exact hnone _ _ ha
    · exact hopen (applied_later hids he' hlt' ha)
  · intro hover hquorum
    by_cases hopen : p.id ∈ (stateBefore C events adminAddr nowMs e).governance.appliedProposals
    · obtain ⟨e', he', hlt', kind', ha⟩ := applied_earlier hids hopen
      exact ⟨e', he', hlt'.le, appliedAt_kind hids hp hpk ha ▸ ha⟩
    · refine ⟨e, he, le_rfl, ?_⟩
      by_contra hnot
      have hnone : ∀ id kind, ¬appliedAt C events adminAddr nowMs e id kind := by
        intro id kind' ha
        rw [signed_of_applied hs ha] at ha
        exact hnot (appliedAt_kind hids hp hpk ha ▸ ha)
      rw [quorum_after hnone] at hquorum
      rcases hle.eq_or_lt with heq | hlt
      · obtain rfl := hids.keyNodup.inj hp he heq
        exact hnot (proposal_tips hids hp hpk hopen (hpos p) hquorum)
      · have hek : e.kind = .adminCountersign p.id := by
          rcases hs with ⟨-, hid⟩ | hek
          · rw [hids.inj he hp hid] at hlt
            exact absurd hlt (lt_irrefl _)
          · exact hek
        refine hnot (countersign_tips hids hp hpk hlt hek htime hopen (hpos e) ?_)
        by_contra hne
        refine hover ⟨hek, hlt, htime, hopen, ?_, ?_⟩
        · have := Finset.card_insert_le e.actor (signersBefore events e p.id)
          omega
        · rintro ⟨hmem, heq⟩
          exact hne (by rw [Finset.insert_eq_of_mem hmem, heq])

end Log

theorem accepted_quorum {C : Crypto} {ctx : VerifyContext} {prior : MaterializedMembership}
    {f : SignedMembershipEvent} (h : verifyEvent C ctx prior f = .ok ()) {q : ℕ}
    (hk : f.kind = .adminProposal (.changeQuorum q)) : 0 < q := by
  obtain ⟨-, hrules, -⟩ := verifyEvent_rules h
  simp only [verifyMembershipRules, hk, verifyAdminProposal, verifyProposalKind, bind_eq_ok,
    ensure_eq_ok, decide_eq_true_eq] at hrules
  obtain ⟨_, -, _, -, _, hq, -⟩ := hrules
  exact hq

/-- In a verified log every effect is applied once, with its quorum, and as soon as a
signature finds the quorum, if and only if no countersign comes when the running quorum
has fallen to the signers that its open proposal has. -/
theorem takesEffectOnce_iff (C : Crypto) (ctx : VerifyContext)
    (events : List SignedMembershipEvent) (nowMs : Option ℕ) (hlog : VerifiedLog C ctx events) :
    TakesEffectOnce C events ctx.adminAddr nowMs ↔
      ∀ p ∈ events, ∀ e ∈ events, ∀ kind, p.kind = .adminProposal kind →
        ¬overtaken C events ctx.adminAddr nowMs p e := by
  have hids := hlog.distinct
  have hpos : ∀ e, 0 < (stateBefore C events ctx.adminAddr nowMs e).m.adminQuorum := by
    intro e
    have hgov := congrArg Governance.adminQuorum (governance_before C events ctx.adminAddr nowMs e)
    have hrun : 0 < (govRun (proposalsIndex events) ctx.adminAddr
        (sortEvents (before eventSortKey events e))).adminQuorum :=
      govRun_quorum_pos fun f hf q hk => accepted_quorum (hlog.accepted hf) hk
    exact hrun.trans_le hgov.ge
  constructor
  · intro h p hp e he kind hpk hover
    have hs : signs e p.id := Or.inr hover.1
    exact (tips_iff_not_overtaken hids hpos hp hpk he hs hover.2.1.le hover.2.2.1).mp
      (h.tips p hp kind hpk e he hs hover.2.1.le hover.2.2.1) hover
  · intro h
    refine ⟨fun e he e' he' id kind kind' ha ha' => once_of_distinct hids he he' ha ha',
      fun e he id kind ha => applied_at_quorum hids he ha, ?_⟩
    intro p hp kind hpk e he hs hle htime
    exact (tips_iff_not_overtaken hids hpos hp hpk he hs hle htime).mpr (h p hp e he kind hpk)

theorem takesEffectOnce_iff_agreed :
    TakesEffectOnce symbolicCrypto (twoAdmins ++ agreedPromotion) 1 none ↔
      ∀ p ∈ twoAdmins ++ agreedPromotion, ∀ e ∈ twoAdmins ++ agreedPromotion, ∀ kind,
        p.kind = .adminProposal kind →
          ¬overtaken symbolicCrypto (twoAdmins ++ agreedPromotion) 1 none p e :=
  takesEffectOnce_iff symbolicCrypto openContext (twoAdmins ++ agreedPromotion) none (by decide)

/-- Three admins under a quorum of three. Two have signed the proposal 8 when all of them
lower the quorum to two; the third signs it afterwards. -/
def loweredQuorum : List SignedMembershipEvent :=
  [signed 1 1 1 .join, signed 2 2 2 .join, signed 3 3 3 .join, signed 4 4 4 .join,
    signed 5 5 1 (.setPower 2 100), signed 6 6 1 (.setPower 3 100),
    signed 7 7 1 (.adminProposal (.changeQuorum 3)),
    signed 8 8 1 (.adminProposal (.setPower 4 100)), signed 9 9 2 (.adminCountersign 8),
    signed 10 10 1 (.adminProposal (.changeQuorum 2)), signed 11 11 2 (.adminCountersign 10),
    signed 12 12 3 (.adminCountersign 10), signed 13 13 3 (.adminCountersign 8)]

/-- All three admins have signed under a quorum of two, and nothing happens. -/
theorem proposal_frozen :
    VerifiedLog symbolicCrypto openContext loweredQuorum ∧
      (materializeWithNow symbolicCrypto loweredQuorum 1 none).adminQuorum = 2 ∧
      signersUpTo loweredQuorum (signed 13 13 3 (.adminCountersign 8)) 8 = {1, 2, 3} ∧
      (materializeWithNow symbolicCrypto loweredQuorum 1 none).power 4 = 0 ∧
      ¬TakesEffectOnce symbolicCrypto loweredQuorum 1 none := by
  refine ⟨by decide, by decide, by decide, by decide, fun h => ?_⟩
  obtain ⟨e, he, -, ha⟩ := h.tips (signed 8 8 1 (.adminProposal (.setPower 4 100))) (by decide)
    (.setPower 4 100) rfl (signed 13 13 3 (.adminCountersign 8)) (by decide) (Or.inr rfl) (by decide)
    (by decide) (by decide)
  have hnone : ∀ e ∈ loweredQuorum, tipped (proposalsIndex loweredQuorum)
      (stateBefore symbolicCrypto loweredQuorum 1 none e).governance e ≠
        some (8, .setPower 4 100) := by decide
  exact hnone e he ha

end Harmony.Membership
