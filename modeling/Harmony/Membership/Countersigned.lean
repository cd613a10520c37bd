import Harmony.Membership.LiveAdmins

/-! A log with countersigns of one open proposal added at any place. The log's own run and
the longer one go through the same states but for the signers of that proposal, until a
signature finds the quorum of the log at its place; from then on they differ in the effect
of the proposal, as long as no later event of the log sets the same power. -/

namespace Harmony.Membership

open Harmony.Lib

def signersOf (events : List SignedMembershipEvent) (id : EventId) : Finset OwnerAddr :=
  ((events.filter fun f => signs f id).map (·.actor)).toFinset

theorem mem_signersOf {events : List SignedMembershipEvent} {id : EventId} {s : OwnerAddr} :
    s ∈ signersOf events id ↔ ∃ f ∈ events, f.actor = s ∧ signs f id := by
  simp only [signersOf, List.mem_toFinset, List.mem_map, List.mem_filter, decide_eq_true_eq]
  exact ⟨fun ⟨f, ⟨hf, hs⟩, ha⟩ => ⟨f, hf, ha, hs⟩, fun ⟨f, hf, ha, hs⟩ => ⟨f, ⟨hf, hs⟩, ha⟩⟩

def withSigners (g : Governance) (id : EventId) (s : Finset OwnerAddr) : Governance :=
  { g with signersSeen := Function.update g.signersSeen id s }

def overlay (g : Governance) (id : EventId) (s : Finset OwnerAddr)
    (power : BTreeMap OwnerAddr ℕ) : Governance :=
  { withSigners g id s with
    appliedProposals := insert id g.appliedProposals
    powerLevels := power }

@[simp] theorem powerUpdate_sets (power : BTreeMap OwnerAddr ℕ) (target : OwnerAddr) (level : ℕ) :
    (powerUpdate (some (.setPower target level)) power)[target]? = some level := by
  simp only [powerUpdate, BTreeMap.get_insert, if_true]

theorem powerUpdate_other {effect : Option ProposalKind} {power : BTreeMap OwnerAddr ℕ}
    {target : OwnerAddr} (h : ∀ level, effect ≠ some (.setPower target level)) :
    (powerUpdate effect power)[target]? = power[target]? := by
  unfold powerUpdate
  split
  · rename_i target' level
    have hne : target' ≠ target := fun ht => h level (by rw [ht])
    rw [BTreeMap.get_insert, if_neg hne]
  · rfl

section Steps

variable {idx : ProposalsIndex} {g : Governance} {e : SignedMembershipEvent} {id : EventId}
  {s : Finset OwnerAddr} {power : BTreeMap OwnerAddr ℕ}

theorem sign_withSigners {id' : EventId} (hne : id' ≠ id) (actor : OwnerAddr) :
    (withSigners g id s).sign id' actor = withSigners (g.sign id' actor) id s := by
  simp only [withSigners, Governance.sign, Function.update_of_ne hne]
  rw [Function.update_comm hne]

theorem recordSigner_withSigners (hs : ¬signs e id) :
    recordSigner idx (withSigners g id s) e = withSigners (recordSigner idx g e) id s := by
  unfold recordSigner
  cases hk : e.kind with
  | adminProposal kind =>
    have hne : e.id ≠ id := fun h => hs (Or.inl ⟨⟨kind, hk⟩, h⟩)
    exact sign_withSigners (g := { g with seenProposals := insert e.id g.seenProposals }) hne e.actor
  | adminCountersign target =>
    have hne : target ≠ id := fun h => hs (Or.inr (h ▸ hk))
    have hsign := sign_withSigners (g := g) (s := s) hne e.actor
    simp only [hsign]
    rw [show (withSigners g id s).seenProposals = g.seenProposals from rfl,
      show (withSigners g id s).appliedProposals = g.appliedProposals from rfl]
    split_ifs <;> rfl
  | _ => rfl

theorem tipped_withSigners (hs : ¬signs e id) :
    tipped idx (withSigners g id s) e = tipped idx g e := by
  unfold tipped
  cases hk : e.kind with
  | adminProposal kind =>
    have hne : e.id ≠ id := fun h => hs (Or.inl ⟨⟨kind, hk⟩, h⟩)
    simp only [withSigners, Function.update_of_ne hne]
  | adminCountersign target =>
    have hne : target ≠ id := fun h => hs (Or.inr (h ▸ hk))
    simp only [withSigners, Function.update_of_ne hne]
  | _ => rfl

theorem govStep_withSigners (hs : ¬signs e id) :
    govStep idx (withSigners g id s) e = withSigners (govStep idx g e) id s := by
  unfold govStep
  rw [tipped_withSigners hs, recordSigner_withSigners hs]
  cases e.kind <;> first
    | rfl
    | (cases tipped idx g e with
       | none => rfl
       | some p => obtain ⟨i, kind⟩ := p; cases kind <;> rfl)

theorem mem_insert_ne {i : EventId} (hne : i ≠ id) {applied : Finset EventId} :
    i ∈ insert id applied ↔ i ∈ applied := by
  rw [Finset.mem_insert, or_iff_right hne]

theorem tipped_overlay (hs : ¬signs e id) :
    tipped idx (overlay g id s power) e = tipped idx g e := by
  unfold tipped
  cases hk : e.kind with
  | adminProposal kind =>
    have hne : e.id ≠ id := fun h => hs (Or.inl ⟨⟨kind, hk⟩, h⟩)
    simp only [overlay, withSigners, mem_insert_ne hne, Function.update_of_ne hne]
  | adminCountersign target =>
    have hne : target ≠ id := fun h => hs (Or.inr (h ▸ hk))
    simp only [overlay, withSigners, mem_insert_ne hne, Function.update_of_ne hne]
  | _ => rfl

theorem recordSigner_overlay (hs : ¬signs e id) :
    recordSigner idx (overlay g id s power) e = overlay (recordSigner idx g e) id s power := by
  have hplain : recordSigner idx (withSigners g id s) e = withSigners (recordSigner idx g e) id s :=
    recordSigner_withSigners hs
  unfold recordSigner at hplain ⊢
  cases hk : e.kind with
  | adminProposal kind =>
    simp only [hk] at hplain ⊢
    exact congrArg (fun g' : Governance => { g' with
      appliedProposals := insert id g.appliedProposals, powerLevels := power }) hplain
  | adminCountersign target =>
    have hne : target ≠ id := fun h => hs (Or.inr (h ▸ hk))
    have hsign := congrArg (fun g' : Governance => { g' with
      appliedProposals := insert id g.appliedProposals, powerLevels := power })
      (sign_withSigners (g := g) (s := s) hne e.actor)
    simp only [overlay, withSigners, mem_insert_ne hne]
    split_ifs <;> first | rfl | exact hsign
  | _ => rfl

theorem govStep_overlay (hs : ¬signs e id) :
    govStep idx (overlay g id s power) e =
      overlay (govStep idx g e) id s (powerUpdate (effectAt idx g e) power) := by
  have hrec : recordSigner idx (overlay g id s power) e =
      overlay (recordSigner idx g e) id s power := recordSigner_overlay hs
  have ht : tipped idx (overlay g id s power) e = tipped idx g e := tipped_overlay hs
  cases htip : tipped idx g e with
  | some p =>
    obtain ⟨i, kind⟩ := p
    rw [htip] at ht
    rw [govStep_of_tipped ht, govStep_of_tipped htip, hrec, effectAt_of_tipped htip]
    cases kind <;> simp only [enact, overlay, withSigners, powerUpdate] <;>
      rw [Finset.insert_comm]
  | none =>
    rw [htip] at ht
    unfold govStep effectAt
    rw [ht, htip, hrec]
    cases e.kind <;> rfl

/-! ### A signature on the proposal -/

/-- What a signature changes besides the signers. -/
def sighted (g : Governance) (e : SignedMembershipEvent) : Governance :=
  match e.kind with
  | .adminProposal _ => { g with seenProposals := insert e.id g.seenProposals }
  | _ => g

theorem withSigners_idem (t : Finset OwnerAddr) :
    withSigners (withSigners g id s) id t = withSigners g id t := by
  simp only [withSigners, Function.update_idem]

theorem recordSigner_signs (hs : signs e id) :
    ∃ t, recordSigner idx g e = withSigners (sighted g e) id t := by
  have hkeep : g = withSigners g id (g.signersSeen id) := by
    simp only [withSigners, Function.update_eq_self]
  rcases hs with ⟨⟨kind, hk⟩, rfl⟩ | hk
  · exact ⟨insert e.actor (g.signersSeen e.id), by simp only [recordSigner, sighted, hk]; rfl⟩
  · simp only [recordSigner, sighted, hk]
    -- the signer is recorded or nothing changes
    split_ifs <;> first | exact ⟨g.signersSeen id, hkeep⟩ | exact ⟨_, rfl⟩

theorem recordSigner_open (hs : signs e id) (hopen : id ∉ g.appliedProposals)
    (hentry : idx[id]?.isSome) :
    recordSigner idx (withSigners g id s) e = withSigners (sighted g e) id (insert e.actor s) := by
  rcases hs with ⟨⟨kind, hk⟩, rfl⟩ | hk
  · simp only [recordSigner, sighted, hk, Governance.sign, withSigners, Function.update_self,
      Function.update_idem]
  · simp only [recordSigner, sighted, hk, hentry, if_true, Governance.sign, withSigners,
      Function.update_self, Function.update_idem, hopen, if_false, ite_self]

theorem withSigners_of_untipped (hs : signs e id) (ht : tipped idx g e = none)
    (t : Finset OwnerAddr) : withSigners (govStep idx g e) id t = withSigners (sighted g e) id t := by
  have hrec : govStep idx g e = recordSigner idx g e := by
    rcases hs with ⟨⟨kind, hk⟩, -⟩ | hk <;> simp only [govStep, hk, ht, Option.elim_none]
  obtain ⟨u, hu⟩ : ∃ u, recordSigner idx g e = withSigners (sighted g e) id u :=
    recordSigner_signs hs
  rw [hrec, hu, withSigners_idem]

theorem sighted_of_countersign (hk : e.kind = .adminCountersign id) : sighted g e = g := by
  simp only [sighted, hk]

theorem overlay_congr {g' : Governance} (h : ∀ t, withSigners g id t = withSigners g' id t) :
    overlay g id s power = overlay g' id s power := by
  have happlied := congrArg Governance.appliedProposals (h s)
  have happlied' : g.appliedProposals = g'.appliedProposals := happlied
  simp only [overlay, h s, happlied']

theorem govStep_overlay_signs (hs : signs e id) :
    ∃ t, govStep idx (overlay g id s power) e = overlay (sighted g e) id t power := by
  have happlied : id ∈ (overlay g id s power).appliedProposals := Finset.mem_insert_self _ _
  have ht : tipped idx (overlay g id s power) e = none := by
    rcases hs with ⟨⟨kind, hk⟩, rfl⟩ | hk <;> simp [tipped, hk, happlied]
  have hrec : govStep idx (overlay g id s power) e = recordSigner idx (overlay g id s power) e := by
    rcases hs with ⟨⟨kind, hk⟩, -⟩ | hk <;> simp only [govStep, hk, ht, Option.elim_none]
  obtain ⟨t, hrecord⟩ : ∃ t, recordSigner idx (overlay g id s power) e =
      withSigners (sighted (overlay g id s power) e) id t := recordSigner_signs hs
  refine ⟨t, ?_⟩
  rw [hrec, hrecord]
  rcases hs with ⟨⟨kind, hk⟩, -⟩ | hk <;>
    simp only [sighted, hk, overlay, withSigners, Function.update_idem]

theorem id_of_tipped (hs : signs e id) {i : EventId} {kind : ProposalKind}
    (ht : tipped idx g e = some (i, kind)) : i = id := by
  obtain ⟨hsigned, -⟩ := tipped_signed ht
  rcases hs with ⟨⟨k, hk⟩, rfl⟩ | hk
  · rcases hsigned with ⟨-, rfl⟩ | hk'
    · rfl
    · cases hk.symm.trans hk'
  · rcases hsigned with ⟨⟨k, hk'⟩, -⟩ | hk'
    · cases hk.symm.trans hk'
    · have hkind := hk'.symm.trans hk
      injection hkind

end Steps

/-! ### The two runs -/

section Runs

variable {idx : ProposalsIndex} {adminAddr : OwnerAddr} {id : EventId}
  {target proposer : OwnerAddr} {level wallMs : ℕ} {inLog : SignedMembershipEvent → Bool}
  {sorted done : List SignedMembershipEvent} {e : SignedMembershipEvent}

theorem signersOf_snoc (hs : signs e id) :
    signersOf (done ++ [e]) id = insert e.actor (signersOf done id) := by
  ext s
  simp only [mem_signersOf, List.mem_append, List.mem_singleton, Finset.mem_insert]
  grind

theorem signersOf_snoc_of_not (hs : ¬signs e id) :
    signersOf (done ++ [e]) id = signersOf done id := by
  ext s
  simp only [mem_signersOf, List.mem_append, List.mem_singleton]
  grind

def ownRun (idx : ProposalsIndex) (adminAddr : OwnerAddr) (inLog : SignedMembershipEvent → Bool)
    (sorted : List SignedMembershipEvent) : Governance :=
  govRun idx adminAddr (sorted.filter inLog)

theorem ownRun_snoc (e : SignedMembershipEvent) :
    ownRun idx adminAddr inLog (done ++ [e]) =
      if inLog e then govStep idx (ownRun idx adminAddr inLog done) e
      else ownRun idx adminAddr inLog done := by
  unfold ownRun
  rw [List.filter_append]
  split_ifs with hin
  · rw [List.filter_cons_of_pos hin, List.filter_nil, govRun_snoc]
  · rw [List.filter_cons_of_neg hin, List.filter_nil, List.append_nil]

/-- `e` puts the proposal through in the longer run, if it is still open there. -/
def carriesIn (idx : ProposalsIndex) (adminAddr : OwnerAddr) (id : EventId)
    (inLog : SignedMembershipEvent → Bool) (done : List SignedMembershipEvent)
    (e : SignedMembershipEvent) : Prop :=
  ∃ kind, tipped idx (withSigners (ownRun idx adminAddr inLog done) id (signersOf done id)) e =
    some (id, kind)

/-- The event of the log sets the power of `target`. -/
def setsIn (idx : ProposalsIndex) (adminAddr target : OwnerAddr)
    (inLog : SignedMembershipEvent → Bool) (done : List SignedMembershipEvent)
    (e : SignedMembershipEvent) : Prop :=
  inLog e = true ∧
    ∃ level, effectAt idx (ownRun idx adminAddr inLog done) e = some (.setPower target level)

/-- No signature so far found the quorum, and the runs differ in the signers only. -/
structure StillApart (idx : ProposalsIndex) (adminAddr : OwnerAddr) (id : EventId)
    (inLog : SignedMembershipEvent → Bool) (carries : SignedMembershipEvent → Prop)
    (done : List SignedMembershipEvent) : Prop where
  none_carries : ∀ h ∈ done, ¬carries h
  alike : govRun idx adminAddr done =
    withSigners (ownRun idx adminAddr inLog done) id (signersOf done id)

/-- The signature `h` was the first to find the quorum. Where no later event of the log set
the power of the target it is at the level of the proposal, elsewhere it is what the log
made it. -/
structure CarriedAt (idx : ProposalsIndex) (adminAddr : OwnerAddr) (id : EventId)
    (target : OwnerAddr) (level : ℕ) (inLog : SignedMembershipEvent → Bool)
    (carries sets : SignedMembershipEvent → Prop) (done pre : List SignedMembershipEvent)
    (h : SignedMembershipEvent) (post : List SignedMembershipEvent) : Prop where
  split : done = pre ++ h :: post
  found : carries h
  first : ∀ g ∈ pre, ¬carries g
  overlaid : ∃ s power, govRun idx adminAddr done =
      overlay (ownRun idx adminAddr inLog done) id s power ∧
    ((∀ a ∈ post, ¬sets a) → power[target]? = some level) ∧
    ((∃ a ∈ post, sets a) →
      power[target]? = (ownRun idx adminAddr inLog done).powerLevels[target]?)

section Step

variable {carries sets : SignedMembershipEvent → Prop}
  (hentry : idx[id]? = some (.setPower target level, proposer, wallMs))
  (hstray : inLog e = false → e.kind = .adminCountersign id)
  (hopen : id ∉ (ownRun idx adminAddr inLog (done ++ [e])).appliedProposals)
  (hcarries : carries e ↔ carriesIn idx adminAddr id inLog done e)
  (hsets : sets e ↔ setsIn idx adminAddr target inLog done e)

include hopen in
theorem own_untipped (hs : signs e id) (hin : inLog e = true) :
    tipped idx (ownRun idx adminAddr inLog done) e = none := by
  rw [ownRun_snoc, if_pos hin] at hopen
  cases ht : tipped idx (ownRun idx adminAddr inLog done) e with
  | none => rfl
  | some p =>
    obtain ⟨i, kind⟩ := p
    obtain rfl := id_of_tipped hs ht
    exact absurd (applied_of_tipped ht) hopen

include hopen in
theorem own_still_open : id ∉ (ownRun idx adminAddr inLog done).appliedProposals := by
  intro h
  refine hopen ?_
  rw [ownRun_snoc]
  split_ifs
  · exact govStep_applied_mono h
  · exact h

include hstray hopen in
/-- A signature changes nothing in the log's own run but the signers. -/
theorem own_signs (target : OwnerAddr) (hs : signs e id) :
    (∀ t, withSigners (ownRun idx adminAddr inLog (done ++ [e])) id t =
        withSigners (sighted (ownRun idx adminAddr inLog done) e) id t) ∧
      (ownRun idx adminAddr inLog (done ++ [e])).powerLevels =
        (ownRun idx adminAddr inLog done).powerLevels ∧
      ¬setsIn idx adminAddr target inLog done e := by
  cases hin : inLog e with
  | true =>
    have ht := own_untipped hopen hs hin
    have hnone : effectAt idx (ownRun idx adminAddr inLog done) e = none := by
      rcases hs with ⟨⟨kind, hk⟩, -⟩ | hk <;> simp [effectAt, hk, ht]
    rw [ownRun_snoc, if_pos hin]
    refine ⟨withSigners_of_untipped hs ht, ?_, ?_⟩
    · rw [govStep_powerLevels, hnone]
      rfl
    · rintro ⟨-, l, hl⟩
      rw [hnone] at hl
      cases hl
  | false =>
    rw [ownRun_snoc, if_neg (by simp [hin]), sighted_of_countersign (hstray hin)]
    exact ⟨fun _ => rfl, rfl, fun h => by simp [setsIn, hin] at h⟩

include hentry hstray hopen hcarries in
theorem StillApart.step (h : StillApart idx adminAddr id inLog carries done) :
    StillApart idx adminAddr id inLog carries (done ++ [e]) ∨
      CarriedAt idx adminAddr id target level inLog carries sets (done ++ [e]) done e [] := by
  have hopen' := own_still_open hopen
  by_cases hs : signs e id
  · obtain ⟨hown, hpower, -⟩ := own_signs hstray hopen target hs
    have hrec : recordSigner idx (govRun idx adminAddr done) e =
        withSigners (ownRun idx adminAddr inLog (done ++ [e])) id (signersOf (done ++ [e]) id) := by
      rw [h.alike, recordSigner_open hs hopen' (by rw [hentry]; rfl), hown, signersOf_snoc hs]
    by_cases hc : carries e
    · obtain ⟨kind, ht⟩ := hcarries.mp hc
      obtain ⟨-, -, entry, hidx, rfl⟩ := tipped_signed ht
      obtain rfl := Option.some.inj (hentry.symm.trans hidx)
      refine Or.inr ⟨rfl, hc, h.none_carries, signersOf (done ++ [e]) id,
        (ownRun idx adminAddr inLog (done ++ [e])).powerLevels.insert target level, ?_,
        fun _ => ?_, by simp⟩
      · rw [← h.alike] at ht
        rw [govRun_snoc, govStep_of_tipped ht, hrec]
        rfl
      · rw [BTreeMap.get_insert, if_pos rfl]
    · have ht : tipped idx (govRun idx adminAddr done) e = none := by
        cases ht : tipped idx (govRun idx adminAddr done) e with
        | none => rfl
        | some p =>
          obtain ⟨i, kind⟩ := p
          obtain rfl := id_of_tipped hs ht
          rw [h.alike] at ht
          exact absurd (hcarries.mpr ⟨kind, ht⟩) hc
      refine Or.inl ⟨?_, ?_⟩
      · simpa [or_imp, forall_and] using ⟨h.none_carries, hc⟩
      · rw [govRun_snoc, ← hrec]
        rcases hs with ⟨⟨kind, hk⟩, -⟩ | hk <;> simp only [govStep, hk, ht, Option.elim_none]
  · have hin : inLog e = true := by
      by_contra hin
      exact hs (Or.inr (hstray (by simpa using hin)))
    have hc : ¬carries e := by
      intro hc
      obtain ⟨kind, ht⟩ := hcarries.mp hc
      exact hs (tipped_signed ht).1
    refine Or.inl ⟨?_, ?_⟩
    · simpa [or_imp, forall_and] using ⟨h.none_carries, hc⟩
    · rw [govRun_snoc, h.alike, govStep_withSigners hs, ownRun_snoc, if_pos hin,
        signersOf_snoc_of_not hs]

include hstray hopen hsets in
theorem CarriedAt.step {pre post : List SignedMembershipEvent} {h : SignedMembershipEvent}
    (hat : CarriedAt idx adminAddr id target level inLog carries sets done pre h post) :
    CarriedAt idx adminAddr id target level inLog carries sets (done ++ [e]) pre h (post ++ [e]) := by
  obtain ⟨s, power, hrun, hquiet, hset⟩ := hat.overlaid
  refine ⟨by rw [hat.split]; simp, hat.found, hat.first, ?_⟩
  by_cases hs : signs e id
  · obtain ⟨hown, hpower, hno⟩ := own_signs hstray hopen target hs
    obtain ⟨t, ht⟩ : ∃ t, govStep idx (overlay (ownRun idx adminAddr inLog done) id s power) e =
        overlay (sighted (ownRun idx adminAddr inLog done) e) id t power :=
      govStep_overlay_signs hs
    have hnot : ¬sets e := fun hse => hno (hsets.mp hse)
    refine ⟨t, power, ?_, fun hq => hquiet fun a ha => hq a (List.mem_append_left _ ha), ?_⟩
    · rw [govRun_snoc, hrun, ht]
      exact (overlay_congr hown).symm
    · rintro ⟨a, ha, hsa⟩
      rw [hpower]
      rcases List.mem_append.mp ha with ha | ha
      · exact hset ⟨a, ha, hsa⟩
      · exact absurd (List.mem_singleton.mp ha ▸ hsa) hnot
  · have hin : inLog e = true := by
      by_contra hin
      exact hs (Or.inr (hstray (by simpa using hin)))
    refine ⟨s, powerUpdate (effectAt idx (ownRun idx adminAddr inLog done) e) power, ?_, ?_, ?_⟩
    · rw [govRun_snoc, hrun, govStep_overlay hs, ownRun_snoc, if_pos hin]
    · intro hq
      have hnot : ∀ l, effectAt idx (ownRun idx adminAddr inLog done) e ≠
          some (.setPower target l) := fun l hl => hq e (by simp) (hsets.mpr ⟨hin, l, hl⟩)
      rw [powerUpdate_other hnot]
      exact hquiet fun a ha => hq a (List.mem_append_left _ ha)
    · rintro ⟨a, ha, hsa⟩
      rw [ownRun_snoc, if_pos hin, govStep_powerLevels]
      by_cases hse : sets e
      · obtain ⟨-, l, hl⟩ := hsets.mp hse
        rw [hl, powerUpdate_sets, powerUpdate_sets]
      · have hnot : ∀ l, effectAt idx (ownRun idx adminAddr inLog done) e ≠
            some (.setPower target l) := fun l hl => hse (hsets.mpr ⟨hin, l, hl⟩)
        rw [powerUpdate_other hnot, powerUpdate_other hnot]
        rcases List.mem_append.mp ha with ha | ha
        · exact hset ⟨a, ha, hsa⟩
        · exact absurd (List.mem_singleton.mp ha ▸ hsa) hse

end Step

/-- The two runs over a whole list. -/
theorem stillApart_or_carried {carries sets : SignedMembershipEvent → Prop}
    (hentry : idx[id]? = some (.setPower target level, proposer, wallMs))
    (hstray : ∀ e ∈ sorted, inLog e = false → e.kind = .adminCountersign id)
    (hopen : id ∉ (ownRun idx adminAddr inLog sorted).appliedProposals)
    (hcarries : ∀ done e post, sorted = done ++ e :: post →
      (carries e ↔ carriesIn idx adminAddr id inLog done e))
    (hsets : ∀ done e post, sorted = done ++ e :: post →
      (sets e ↔ setsIn idx adminAddr target inLog done e)) :
    StillApart idx adminAddr id inLog carries sorted ∨
      ∃ pre h post, CarriedAt idx adminAddr id target level inLog carries sets sorted pre h post := by
  suffices hprefix : ∀ done rest, sorted = done ++ rest →
      StillApart idx adminAddr id inLog carries done ∨ ∃ pre h post,
        CarriedAt idx adminAddr id target level inLog carries sets done pre h post from
    hprefix sorted [] (by simp)
  intro done
  induction done using List.reverseRecOn with
  | nil =>
    intro _ _
    refine Or.inl ⟨by simp, ?_⟩
    have hinit : Function.update (Governance.init adminAddr).signersSeen id ∅ =
        (Governance.init adminAddr).signersSeen := Function.update_eq_self_iff.mpr rfl
    simp only [govRun, ownRun, List.filter_nil, List.foldl_nil, withSigners, signersOf, List.map_nil,
      List.toFinset_nil, hinit]
  | append_singleton done e ih =>
    intro rest hsplit
    have hsplit' : sorted = done ++ e :: rest := by simp [hsplit]
    have hopen' : id ∉ (ownRun idx adminAddr inLog (done ++ [e])).appliedProposals := by
      intro h
      refine hopen ?_
      rw [hsplit, ownRun, List.filter_append, govRun, List.foldl_append, ← govRun]
      exact List.foldlRecOn (motive := fun g : Governance => id ∈ g.appliedProposals) _ _ h
        fun _ hg _ _ => govStep_applied_mono hg
    have hstray' := hstray e (by simp [hsplit])
    rcases ih _ hsplit' with h | ⟨pre, h, post, hat⟩
    · have hstep : StillApart idx adminAddr id inLog carries (done ++ [e]) ∨
          CarriedAt idx adminAddr id target level inLog carries sets (done ++ [e]) done e [] :=
        h.step hentry hstray' hopen' (hcarries _ _ _ hsplit')
      rcases hstep with h | hat
      · exact Or.inl h
      · exact Or.inr ⟨done, e, [], hat⟩
    · exact Or.inr ⟨pre, h, post ++ [e], hat.step hstray' hopen' (hsets _ _ _ hsplit')⟩

end Runs

/-! ### Countersigns added to a log -/

section Added

variable (C : Crypto) (log further : List SignedMembershipEvent) (adminAddr : OwnerAddr)
  (clock : Option ℕ)

/-- With the signers that the log and the countersigns give it, the proposal finds at `h`
the quorum that the log has there. -/
def carries (p h : SignedMembershipEvent) : Prop :=
  ∃ kind, tipped (proposalsIndex log)
    (withSigners (stateBefore C log adminAddr clock h).governance p.id
      (signersOf (before eventSortKey (log ++ further) h) p.id)) h = some (p.id, kind)

/-- The event of the log sets the power of `target` in the log. -/
def setsPowerOf (target : OwnerAddr) (a : SignedMembershipEvent) : Prop :=
  ∃ level, effectAt (proposalsIndex log) (stateBefore C log adminAddr clock a).governance a =
    some (.setPower target level)

/-- Some signature finds the quorum, and no event of the log behind it sets the power again. -/
structure Through (p : SignedMembershipEvent) (target : OwnerAddr) : Prop where
  found : ∃ h ∈ log ++ further, carries C log further adminAddr clock p h
  lasting : ∀ h ∈ log ++ further, carries C log further adminAddr clock p h →
    ∀ a ∈ log, eventSortKey h < eventSortKey a → ¬setsPowerOf C log adminAddr clock target a

variable {C log further adminAddr clock} {p e : SignedMembershipEvent} {target : OwnerAddr}
  {level : ℕ}

theorem proposalsIndex_countersigned {id : EventId}
    (hfurther : ∀ f ∈ further, f.kind = .adminCountersign id) :
    proposalsIndex (log ++ further) = proposalsIndex log := by
  induction further using List.reverseRecOn with
  | nil => rw [List.append_nil]
  | append_singleton further f ih =>
    have hk := hfurther f (by simp)
    rw [← List.append_assoc, proposalsIndex, BTreeMap.ofEntries_snoc]
    simp only [hk, Option.elim_none]
    exact ih fun a ha => hfurther a (by simp [ha])

theorem filter_own (hids : DistinctIds (log ++ further)) :
    (log ++ further).filter (fun e => decide (e ∈ log)) = log := by
  rw [List.filter_append, List.filter_eq_self.mpr (by simp), List.filter_eq_nil_iff.mpr,
    List.append_nil]
  intro f hf hin
  exact hids.ne_of_append (of_decide_eq_true hin) hf rfl

/-- At an event of the longer run the log's own run is where the log has it. -/
theorem ownRun_eq (hids : DistinctIds (log ++ further)) {done post : List SignedMembershipEvent}
    (hs : sortEvents (log ++ further) = done ++ e :: post) (adminAddr : OwnerAddr)
    (clock : Option ℕ) :
    ownRun (proposalsIndex log) adminAddr (fun e => decide (e ∈ log)) done =
        (stateBefore C log adminAddr clock e).governance ∧
      ∀ id, signersOf done id = signersOf (before eventSortKey (log ++ further) e) id := by
  have hdone : sortBy eventSortKey (before eventSortKey (log ++ further) e) = done :=
    sortBy_before_eq hids.keyNodup hs
  constructor
  · have hown : (before eventSortKey (log ++ further) e).filter (fun e => decide (e ∈ log)) =
        before eventSortKey log e := by
      conv_rhs => rw [← filter_own hids]
      simp only [before, List.filter_filter, Bool.and_comm]
    have hnd : KeyNodup eventSortKey (before eventSortKey (log ++ further) e) :=
      hids.keyNodup.filter _
    rw [governance_before, ownRun, ← hdone, ← sortBy_filter hnd, hown]
    rfl
  · intro id
    rw [← hdone]
    ext s
    simp only [mem_signersOf, mem_sortBy]

/-- The power entry with the countersigns added. -/
theorem power_countersigned_iff (hids : DistinctIds (log ++ further)) (hp : p ∈ log)
    (hpk : p.kind = .adminProposal (.setPower target level))
    (hfurther : ∀ f ∈ further, f.kind = .adminCountersign p.id)
    (hopen : p.id ∉ (finalState C log adminAddr clock).appliedAdminProposals) :
    (finalState C (log ++ further) adminAddr clock).m.powerLevels[target]? = some level ↔
      Through C log further adminAddr clock p target ∨
        (finalState C log adminAddr clock).m.powerLevels[target]? = some level := by
  let inLog : SignedMembershipEvent → Bool := fun e => decide (e ∈ log)
  have hlogids : DistinctIds log := KeyNodup.of_append hids
  have hentry := proposalsIndex_get hlogids hp hpk
  have hlong := replay_governance (prePass C (log ++ further) adminAddr clock)
    (sortEvents (log ++ further))
  have hown : ownRun (proposalsIndex log) adminAddr inLog (sortEvents (log ++ further)) =
      (finalState C log adminAddr clock).governance := by
    rw [ownRun, sortEvents, ← sortBy_filter hids.keyNodup, filter_own hids]
    exact (replay_governance (prePass C log adminAddr clock) _).symm
  have hmem : ∀ a, a ∈ sortEvents (log ++ further) ↔ a ∈ log ++ further := fun a => mem_sortBy
  have hpower : (finalState C (log ++ further) adminAddr clock).m.powerLevels =
      (govRun (proposalsIndex log) adminAddr (sortEvents (log ++ further))).powerLevels := by
    rw [← proposalsIndex_countersigned hfurther]
    exact congrArg Governance.powerLevels hlong
  have hruns : StillApart (proposalsIndex log) adminAddr p.id inLog
        (carries C log further adminAddr clock p) (sortEvents (log ++ further)) ∨
      ∃ pre h post, CarriedAt (proposalsIndex log) adminAddr p.id target level inLog
        (carries C log further adminAddr clock p)
        (fun a => a ∈ log ∧ setsPowerOf C log adminAddr clock target a)
        (sortEvents (log ++ further)) pre h post := by
    refine stillApart_or_carried hentry (fun e he hin => ?_) (by rw [hown]; exact hopen) ?_ ?_
    · have hne : e ∉ log := of_decide_eq_false hin
      exact hfurther e (((List.mem_append.mp ((hmem e).mp he)).resolve_left hne))
    · intro done e post hs
      obtain ⟨hrun, hsigners⟩ := ownRun_eq (C := C) hids hs adminAddr clock
      simp only [carries, carriesIn, inLog, hrun, hsigners]
    · intro done e post hs
      obtain ⟨hrun, -⟩ := ownRun_eq (C := C) hids hs adminAddr clock
      simp only [setsPowerOf, setsIn, inLog, hrun, decide_eq_true_eq]
  rcases hruns with hapart | ⟨pre, h, post, hat⟩
  · have hnot : ¬Through C log further adminAddr clock p target := by
      rintro ⟨⟨h, hh, hc⟩, -⟩
      exact hapart.none_carries h ((hmem h).mpr hh) hc
    rw [hpower, hapart.alike, hown]
    simp only [hnot, false_or]
    rfl
  · obtain ⟨s, power, hrun, hquiet, hset⟩ := hat.overlaid
    obtain ⟨hpre, hpost⟩ := sortBy_split_lt hids.keyNodup hat.split
    have hraw : (finalState C (log ++ further) adminAddr clock).m.powerLevels = power := by
      rw [hpower, hrun]
      rfl
    rw [hraw]
    have hh : h ∈ log ++ further := (hmem h).mp (by rw [hat.split]; simp)
    by_cases hlater : ∃ a ∈ post, a ∈ log ∧ setsPowerOf C log adminAddr clock target a
    · -- the log sets the power again, and wins
      have hnot : ¬Through C log further adminAddr clock p target := by
        intro hthrough
        obtain ⟨a, ha, halog, hsets⟩ := hlater
        exact hthrough.lasting h hh hat.found a halog (hpost a ha) hsets
      rw [hset hlater, hown]
      simp only [hnot, false_or]
      rfl
    · have hthrough : Through C log further adminAddr clock p target := by
        refine ⟨⟨h, hh, hat.found⟩, fun g hg hc a ha hlt hsets => ?_⟩
        -- `g` is `h` or comes later, so `a` is behind `h`
        have hgpre : g ∉ pre := fun hin => hat.first g hin hc
        have hapre : a ∉ h :: post → a ∈ pre := fun hout =>
          (List.mem_append.mp (hat.split ▸ (hmem a).mpr (List.mem_append_left _ ha))).resolve_right
            hout
        have hgle : eventSortKey h ≤ eventSortKey g := by
          rcases List.mem_append.mp (hat.split ▸ (hmem g).mpr hg) with hin | hin
          · exact absurd hin hgpre
          · rcases List.mem_cons.mp hin with rfl | hin
            · exact le_rfl
            · exact (hpost g hin).le
        have hlt' : eventSortKey h < eventSortKey a := hgle.trans_lt hlt
        have ha' : a ∈ post := by
          by_contra hout
          have hne : a ≠ h := fun heq => lt_irrefl _ (heq ▸ hlt')
          exact lt_asymm hlt' (hpre a (hapre (by simp [hne, hout])))
        exact hlater ⟨a, ha', ha, hsets⟩
      refine iff_of_true (hquiet fun a ha hsets => hlater ⟨a, ha, hsets⟩) (Or.inl hthrough)

end Added

end Harmony.Membership
