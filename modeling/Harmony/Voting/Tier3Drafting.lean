import Harmony.Voting.Tier3InPlace

/-! Candidates, approvals and ballots that arrive behind recorded events. -/

namespace Harmony.Voting.Tier3PollState

open Harmony.Lib
open Harmony.Membership (OwnerAddr Digest Hlc)

variable {cx : Codec} {cv : Curve} {r x y : Tier3PollState} {e f : SignedVotingEvent}
  {A B pre post events : List SignedVotingEvent}

theorem candidate_decodes (ha : x.admits cx e = true) (hk : e.kind = .draftCandidate) :
    ∃ payload, cx.draftCandidate e.payload = .ok payload := by
  have hd : decodes cx e = true := (admits_eq_true_iff.mp ha).2.2.2
  simpa only [decodes, hk, isOk_iff] using hd

theorem candidateOf_of_admits (ha : x.admits cx e = true) (hk : e.kind = .draftCandidate)
    {payload : TextPayload} (hp : cx.draftCandidate e.payload = .ok payload) :
    x.candidateOf cx e =
      if countOf x.candidatesPerActor e.actor < maxDraftCandidatesPerActor then
        some ⟨sha256OfSigningBytes cx e, payload.text, some e.actor, {e.actor}⟩
      else none := by
  simp only [candidateOf, ha, hk, hp, Except.toOption, true_and, Option.map_some]

theorem candidateOf_hash {c : DraftCandidateState} (h : x.candidateOf cx e = some c) :
    c.eventHash = sha256OfSigningBytes cx e := by
  rw [candidateOf] at h
  split_ifs at h
  obtain ⟨payload, -, rfl⟩ := Option.map_eq_some_iff.mp h
  rfl

theorem approveFirst_of_mem {hash : Digest} {a : OwnerAddr} {l : List DraftCandidateState}
    (h : ∀ c, l.find? (·.eventHash = hash) = some c → a ∈ c.approvals) :
    approveFirst hash a l = l := by
  induction l with
  | nil => rfl
  | cons c cs ih =>
    rw [approveFirst]
    split_ifs with hc
    · rw [Finset.insert_eq_of_mem (h c (by simp [hc]))]
    · rw [ih fun c' hc' => h c' (by simpa [hc] using hc')]

theorem sameParts_of_approval (hk : e.kind = .draftApproval) {hash : Digest}
    (happ : x.approvalOf cx e = some hash)
    (hmem : ∀ c, x.firstWith hash = some c → e.actor ∈ c.approvals) :
    SameParts (x.applyEvent cx cv e).1 x := by
  have h : Stepped cx cv x e (x.applyEvent cx cv e).1 := stepped cx cv x e
  refine h.quiet (by simp [hk]) (by simp [hk]) (by simp [hk]) (by simp [h.votes, hk]) (by simp [hk])
    (fun hash' happ' => ?_) (by simp [hk]) (by simp [hk]) (by simp [hk])
  obtain rfl : hash = hash' := Option.some.inj (happ.symm.trans happ')
  exact approveFirst_of_mem hmem

theorem ballotSize_put_approval {hash : Digest} (hsub : Grows x y)
    (hmeta : x.meta = y.meta) (hnames : names cx e = some hash) (hlifts : y.lifts cx e = false) :
    (put (.approval hash) e x).ballotSize cx = x.ballotSize cx := by
  have hpassing : (put (.approval hash) e x).passing cx = x.passing cx := by
    simp only [passing, put_meta]
    refine filter_approveFirst fun c hc => ?_
    obtain ⟨c', hc', happrovals⟩ := hsub.candidates hash c hc
    have hlt : (insert e.actor c'.approvals).card < (x.meta.config.sortitionSize + 1) / 2 := by
      simpa [lifts, hnames, hc', hmeta] using hlifts
    have hcard : (insert e.actor c.approvals).card ≤ (insert e.actor c'.approvals).card :=
      Finset.card_le_card (Finset.insert_subset_insert _ happrovals)
    have hcard' : c.approvals.card ≤ (insert e.actor c.approvals).card :=
      Finset.card_le_card (Finset.subset_insert _ _)
    constructor
    · simp only [Bool.decide_and, Bool.and_eq_false_iff, decide_eq_false_iff_not, not_le]
      exact .inr (by omega)
    · simp only [Bool.decide_and, Bool.and_eq_false_iff, decide_eq_false_iff_not, not_le]
      exact .inr (by omega)
  rw [ballotSize_eq, ballotSize_eq, hpassing]

theorem ballotSize_congr (hmeta : x.meta = y.meta) (hcandidates : x.candidates = y.candidates) :
    x.ballotSize cx = y.ballotSize cx := by
  simp only [ballotSize, ratificationOrdering, hmeta, hcandidates]

namespace Arrival

theorem hash_ne (h : Arrival cx cv r A B e) (hf : f ∈ B) :
    sha256OfSigningBytes cx f ≠ sha256OfSigningBytes cx e := by
  intro heq
  have hinput : f.toSigInput = e.toSigInput := h.free f (by simp [hf]) e (by simp) heq
  have hlt : canonicalKey cx e < canonicalKey cx f := h.lt f hf
  have hkey : canonicalKey cx e = canonicalKey cx f := by
    simp only [canonicalKey, heq, hinput]
  exact hlt.ne hkey

/-- A candidate that no later event drafted was there in the event's place. -/
theorem firstWith_of_not_drafted (h : Arrival cx cv r A B e) {hash : Digest}
    (hnew : ∀ f ∈ B, f.kind = .draftCandidate → (r.replay cx cv (A ++ B)).counted cx f = true →
      sha256OfSigningBytes cx f ≠ hash)
    (hlast : ((r.replay cx cv (A ++ B)).firstWith hash).isSome = true) :
    ((r.replay cx cv A).firstWith hash).isSome = true := by
  have hcongr : ∀ {x y : Tier3PollState}, SameParts x y → (x.firstWith hash).isSome = true →
      (y.firstWith hash).isSome = true := by
    intro x y hxy hx
    rw [firstWith, ← List.head?_filter] at hx ⊢
    rwa [← hxy.candidates hash]
  by_contra hfirst
  obtain ⟨pre, f, post, hB, hx, hy, hcounted⟩ := h.exists_counted hcongr hfirst hlast
  rw [firstWith, (stepped cx cv _ f).candidates] at hy
  rw [Bool.not_eq_true, Option.isSome_eq_false_iff, Option.isNone_iff_eq_none, firstWith] at hx
  cases happ : (r.replay cx cv (A ++ pre)).approvalOf cx f with
  | some hash' => simp [happ, find_approveFirst, hx] at hy
  | none =>
    cases hcand : (r.replay cx cv (A ++ pre)).candidateOf cx f with
    | none => simp [happ, hcand, hx] at hy
    | some c =>
      have hk : f.kind = .draftCandidate := by
        by_contra hne
        rw [candidateOf_of_ne hne] at hcand
        cases hcand
      have hhash : c.eventHash = sha256OfSigningBytes cx f := candidateOf_hash hcand
      simp only [happ, hcand, Option.elim_none, Option.toList_some, List.find?_append, hx,
        Option.none_or, List.isSome_find?, List.any_cons, List.any_nil, Bool.or_false,
        decide_eq_true_eq] at hy
      exact hnew f (by simp [hB]) hk hcounted (hhash.symm.trans hy)

theorem ballotSize_put_candidate (h : Arrival cx cv r A B e) {c : DraftCandidateState}
    (hc : c.approvals.card < 2) (f : SignedVotingEvent) (pre : List SignedVotingEvent) :
    (put (.candidate c) f (r.replay cx cv pre)).ballotSize cx =
      (r.replay cx cv pre).ballotSize cx := by
  have hthreshold : 2 ≤ ((r.replay cx cv pre).meta.config.sortitionSize + 1) / 2 := by
    rw [meta_at]
    exact h.threshold
  have hpassing : (put (.candidate c) f (r.replay cx cv pre)).passing cx =
      (r.replay cx cv pre).passing cx := by
    change ((r.replay cx cv pre).candidates ++ [c]).filter _ = _
    rw [List.filter_append, List.filter_cons_of_neg (by simp; omega)]
    exact List.append_nil _
  rw [ballotSize_eq, ballotSize_eq, hpassing]

theorem exchanges_candidate (h : Arrival cx cv r A B e) {c : DraftCandidateState}
    (hk : e.kind = .draftCandidate) (hhash : c.eventHash = sha256OfSigningBytes cx e)
    (happrovals : c.approvals = {e.actor})
    (hcap : countOf (r.replay cx cv (A ++ B)).candidatesPerActor e.actor <
      maxDraftCandidatesPerActor)
    (hc : ∀ f ∈ B, (r.replay cx cv (A ++ B)).conflicts cx cv events e f = false)
    (hB : B = pre ++ f :: post) (hd : Tier3PollState.decodes cx f = true) :
    Exchanges cx cv (.candidate c) e f (r.replay cx cv (A ++ pre)) where
  order := h.order hB
  kind := h.kind_ne_result hB hd
  vote := nofun
  candidate c₁ c' hw hcand := by
    cases hw
    rw [candidateOf_hash hcand, hhash]
    exact h.hash_ne (by simp [hB])
  candidateCap c₁ _ hkf hactor := by
    have hadmits : (r.replay cx cv (A ++ pre)).admits cx f = true := h.admits_at (split_at hB) hd
    obtain ⟨payload, hp⟩ := candidate_decodes hadmits hkf
    have hbefore : countOf (r.replay cx cv (A ++ pre)).candidatesPerActor f.actor <
        maxDraftCandidatesPerActor :=
      ((grows_at hB).candidatesPerActor f.actor).trans_lt (hactor ▸ hcap)
    have hgrows : Grows ((r.replay cx cv (A ++ pre)).applyEvent cx cv f).1
        (r.replay cx cv (A ++ B)) := grows_after hB
    have hafter := hgrows.candidatesPerActor f.actor
    rw [(stepped cx cv _ f).candidatesPerActor, candidateOf_of_admits hadmits hkf hp,
      if_pos hbefore, bumpBy_some, countOf_bumpCount, if_pos rfl] at hafter
    exact hafter.trans_lt (hactor ▸ hcap)
  approved c₁ hash hw happ hceq := by
    cases hw
    obtain ⟨hkf, hnames⟩ := approvalOf_eq_some happ
    rw [← hceq, hhash] at hnames
    by_cases hactor : f.actor = e.actor
    · left
      rw [happrovals, hactor]
      exact Finset.mem_singleton_self _
    · right
      by_cases hcounted : (r.replay cx cv (A ++ B)).counted cx e = true
      · rw [← hceq, hhash, ← firstWith_isSome]
        simp only [counted, hk] at hcounted
        have hfirst := h.firstWith_of_not_drafted (fun g hg _ _ => h.hash_ne hg) hcounted
        obtain ⟨c', hc'⟩ := Option.isSome_iff_exists.mp hfirst
        have hgrows : Grows (r.replay cx cv A) (r.replay cx cv (A ++ pre)) := grows_from pre
        obtain ⟨c'', hc'', -⟩ := hgrows.candidates _ c' hc'
        rw [hc'']
        rfl
      · have hconflict := hc f (by simp [hB])
        simp [conflicts, hk, hkf, hnames, capReached, not_le.mpr hcap, hactor, hcounted] at hconflict
  approval := nofun
  ballotCap := nofun
  size _ _ := h.ballotSize_put_candidate (by rw [happrovals]; simp) e _

theorem same_of_candidate (h : Arrival cx cv r A B e) (hk : e.kind = .draftCandidate)
    (hc : ∀ f ∈ B, (r.replay cx cv (A ++ B)).conflicts cx cv events e f = false) :
    Same (r.replay cx cv (A ++ e :: B)) ((r.replay cx cv (A ++ B)).applyEvent cx cv e).1 := by
  obtain ⟨payload, hp⟩ := candidate_decodes h.admitted hk
  have hfirst := candidateOf_of_admits h.admits_first hk hp
  have hlast := candidateOf_of_admits h.admitted hk hp
  have hput : ∀ {x : Tier3PollState}, x.admits cx e = true →
      Same (x.applyEvent cx cv e).1 (put (lateWrite cx cv x e) e x) := fun ha =>
    same_put_lateWrite ha (by simp [hk]) (by simp [hk]) (by simp [hk]) (by simp [hk]) (by simp [hk])
  by_cases hcap : countOf (r.replay cx cv (A ++ B)).candidatesPerActor e.actor <
      maxDraftCandidatesPerActor
  · have hgrows : Grows (r.replay cx cv A) (r.replay cx cv (A ++ B)) := grows_from B
    rw [if_pos ((hgrows.candidatesPerActor e.actor).trans_lt hcap)] at hfirst
    rw [if_pos hcap] at hlast
    have hwrite : ∀ {x : Tier3PollState} {c}, x.candidateOf cx e = some c →
        lateWrite cx cv x e = .candidate c := fun hw => by simp [lateWrite, hk, hw]
    refine h.same_of_put (fun pre f post hB hd => ?_) (hwrite hfirst ▸ hput h.admits_first)
      (hwrite hlast ▸ hput h.admitted)
    exact h.exchanges_candidate hk rfl rfl hcap hc hB hd
  · have hnone : (r.replay cx cv A).candidateOf cx e = none := by
      by_contra hsome
      rw [hfirst] at hsome
      split_ifs at hsome with hlt
      · obtain ⟨f, hf, x, hactor, hwrite, hcounted⟩ := h.exists_counted_of_cap
          SameParts.candidatesPerActor (fun x f => (stepped cx cv x f).candidatesPerActor) hlt
          (not_lt.mp hcap)
        have hkf : f.kind = .draftCandidate := by
          by_contra hne
          rw [candidateOf_of_ne hne] at hwrite
          cases hwrite
        have hconflict := hc f hf
        simp [conflicts, hk, hkf, hactor, capReached, not_lt.mp hcap, hcounted] at hconflict
      · exact hsome rfl
    rw [if_neg hcap] at hlast
    have hquiet : ∀ {x : Tier3PollState}, x.admits cx e = true → x.candidateOf cx e = none →
        SameParts (x.applyEvent cx cv e).1 x := fun ha hw =>
      sameParts_of_nothing ha (by simp [hk]) (by simp [hk]) (by simp [hk]) (by simp [hk])
        (by simp [hk]) (by simp [lateWrite, hk, hw])
    exact h.same_of_quiet (hquiet h.admits_first hnone) (hquiet h.admitted hlast)

/-! ### Approvals -/

theorem approvalOf_of_admits (ha : x.admits cx e = true) (hk : e.kind = .draftApproval) :
    ∃ hash, names cx e = some hash ∧ x.approvalOf cx e = some hash := by
  have hd : Tier3PollState.decodes cx e = true := (admits_eq_true_iff.mp ha).2.2.2
  simp only [Tier3PollState.decodes, hk, isOk_iff] at hd
  obtain ⟨payload, hp⟩ := hd
  exact ⟨payload.candidateEventHash, by simp [names, hp, Except.toOption],
    by simp [approvalOf, ha, hk, hp, Except.toOption]⟩

theorem same_of_approval (h : Arrival cx cv r A B e) (hk : e.kind = .draftApproval)
    (hc : ∀ f ∈ B, (r.replay cx cv (A ++ B)).conflicts cx cv events e f = false) :
    Same (r.replay cx cv (A ++ e :: B)) ((r.replay cx cv (A ++ B)).applyEvent cx cv e).1 := by
  obtain ⟨hash, hnames, hfirst⟩ := approvalOf_of_admits h.admits_first hk
  obtain ⟨hash', hnames', hlast⟩ := approvalOf_of_admits h.admitted hk
  obtain rfl : hash = hash' := Option.some.inj (hnames.symm.trans hnames')
  have hput : ∀ {x : Tier3PollState}, x.admits cx e = true → x.approvalOf cx e = some hash →
      Same (x.applyEvent cx cv e).1 (put (.approval hash) e x) := by
    intro x ha hw
    have hwrite : lateWrite cx cv x e = .approval hash := by simp [lateWrite, hk, hw]
    rw [← hwrite]
    exact same_put_lateWrite ha (by simp [hk]) (by simp [hk]) (by simp [hk]) (by simp [hk])
      (by simp [hk])
  by_cases hthere : ((r.replay cx cv A).firstWith hash).isSome = true
  · -- the first candidate with the hash is the same one all along
    refine h.same_of_put (fun pre f post hB hd => ?_) (hput h.admits_first hfirst)
      (hput h.admitted hlast)
    exact {
      order := h.order hB
      kind := h.kind_ne_result hB hd
      vote := nofun
      candidate := nofun
      candidateCap := nofun
      approved := nofun
      approval := by
        intro hash₁ c' hw _ _
        cases hw
        obtain ⟨c, hcand⟩ := Option.isSome_iff_exists.mp hthere
        have hgrows : Grows (r.replay cx cv A) (r.replay cx cv (A ++ pre)) := grows_from pre
        obtain ⟨c'', hc'', -⟩ := hgrows.candidates _ c hcand
        rw [← firstWith_isSome, hc'']
        rfl
      ballotCap := nofun
      size := by
        intro hkf hmode
        have hconflict := hc f (by simp [hB])
        rw [meta_at] at hmode
        simp only [conflicts, hk, hkf, meta_at, hmode, Bool.or_eq_false_iff] at hconflict
        refine ballotSize_put_approval (grows_at hB) (by rw [meta_at, meta_at]) hnames ?_
        simpa using hconflict.2 }
  · -- it is drafted behind the event, or nowhere
    refine h.same_of_quiet (sameParts_of_approval hk hfirst fun c hcand => ?_)
      (sameParts_of_approval hk hlast fun c hcand => ?_)
    · rw [hcand] at hthere
      exact absurd rfl hthere
    · have hsome : ((r.replay cx cv (A ++ B)).firstWith hash).isSome = true := by
        rw [hcand]
        rfl
      by_contra hmem
      have hnot : (r.replay cx cv (A ++ B)).counted cx e = false := by
        simp [counted, hk, hnames, hcand, hmem]
      refine hthere (h.firstWith_of_not_drafted (fun f hf hkf hcounted hhash => ?_) hsome)
      have hconflict := hc f hf
      simp [conflicts, hk, hkf, hnames, hhash, hcounted, hnot] at hconflict

/-! ### Ballots -/

/-- The ballot has one size in the place of a secret ballot and from there on. -/
theorem ballotSize_at (h : Arrival cx cv r A B e) (hk : e.kind = .ratificationBallot)
    (hmode : r.meta.config.privacyMode = "se")
    (hc : ∀ f ∈ B, (r.replay cx cv (A ++ B)).conflicts cx cv events e f = false) :
    ∀ post, B = pre ++ post →
      (r.replay cx cv (A ++ pre)).ballotSize cx = (r.replay cx cv A).ballotSize cx := by
  induction pre using List.reverseRecOn with
  | nil =>
    intro post _
    rw [List.append_nil]
  | append_singleton pre f ih =>
    intro post hB
    rw [List.append_assoc, List.singleton_append] at hB
    rw [← ih _ hB, ← List.append_assoc, replay_snoc]
    have hstep : Stepped cx cv (r.replay cx cv (A ++ pre)) f
        ((r.replay cx cv (A ++ pre)).applyEvent cx cv f).1 := stepped cx cv _ f
    cases hcounted : (r.replay cx cv (A ++ B)).counted cx f with
    | false => rw [ballotSize, (h.sameParts_at hB hcounted).ordering, ballotSize]
    | true =>
      cases happ : (r.replay cx cv (A ++ pre)).approvalOf cx f with
      | some hash =>
        obtain ⟨hkf, hnames⟩ := approvalOf_eq_some happ
        have hlifts : (r.replay cx cv (A ++ B)).lifts cx f = false := by
          have hconflict := hc f (by simp [hB])
          simpa [conflicts, hk, hkf, meta_at, hmode, hcounted] using hconflict
        have hput := ballotSize_put_approval (grows_at hB) (by rw [meta_at, meta_at]) hnames hlifts
        refine (ballotSize_congr ?_ ?_).trans hput
        · rw [hstep.meta, put_meta]
        · rw [hstep.candidates, happ]
          rfl
      | none =>
        cases hcand : (r.replay cx cv (A ++ pre)).candidateOf cx f with
        | none =>
          refine ballotSize_congr hstep.meta ?_
          rw [hstep.candidates, happ, hcand]
          exact List.append_nil _
        | some c =>
          have hcard : c.approvals.card < 2 := by
            rw [candidateOf] at hcand
            split_ifs at hcand
            obtain ⟨payload, -, rfl⟩ := Option.map_eq_some_iff.mp hcand
            simp
          refine (ballotSize_congr ?_ ?_).trans (h.ballotSize_put_candidate hcard f _)
          · rw [hstep.meta, put_meta]
          · rw [hstep.candidates, happ, hcand]
            rfl

theorem wellFormedBallot_at (h : Arrival cx cv r A B e) (hk : e.kind = .ratificationBallot)
    (hc : ∀ f ∈ B, (r.replay cx cv (A ++ B)).conflicts cx cv events e f = false) :
    (r.replay cx cv A).wellFormedBallot cx cv e =
      (r.replay cx cv (A ++ B)).wellFormedBallot cx cv e := by
  refine wellFormedBallot_congr (h.admits_first.trans h.admitted.symm) ?_ ?_ fun hmode => ?_
  · rw [meta_at, meta_at]
  · exact (h.sameVerdict (fun g hg => by simp [hg]) (by simp)).trans
      (h.sameVerdict (fun g hg => by simp at hg ⊢; grind) (by simp)).symm
  · rw [meta_at] at hmode
    exact (h.ballotSize_at hk hmode hc [] (List.append_nil B).symm).symm

theorem exchanges_ballot (h : Arrival cx cv r A B e) {payload : RatificationBallotPayload}
    (hcap : countOf (r.replay cx cv (A ++ B)).ballotsPerActor e.actor <
      maxRatificationBallotsPerActor) (hB : B = pre ++ f :: post)
    (hd : Tier3PollState.decodes cx f = true) :
    Exchanges cx cv (.ballot payload) e f (r.replay cx cv (A ++ pre)) where
  order := h.order hB
  kind := h.kind_ne_result hB hd
  vote := nofun
  candidate := nofun
  candidateCap := nofun
  approved := nofun
  approval := nofun
  ballotCap payload' _ hform hactor := by
    have hbefore : countOf (r.replay cx cv (A ++ pre)).ballotsPerActor f.actor <
        maxRatificationBallotsPerActor :=
      ((grows_at hB).ballotsPerActor f.actor).trans_lt (hactor ▸ hcap)
    obtain ⟨ballot, hballot⟩ := Option.isSome_iff_exists.mp hform
    have hgrows : Grows ((r.replay cx cv (A ++ pre)).applyEvent cx cv f).1
        (r.replay cx cv (A ++ B)) := grows_after hB
    have hafter := hgrows.ballotsPerActor f.actor
    rw [(stepped cx cv _ f).ballotsPerActor, ballotOf, if_pos hbefore, hballot, bumpBy_some,
      countOf_bumpCount, if_pos rfl] at hafter
    exact hafter.trans_lt (hactor ▸ hcap)
  size _ _ := rfl

theorem same_of_ballot (h : Arrival cx cv r A B e) (hk : e.kind = .ratificationBallot)
    (hc : ∀ f ∈ B, (r.replay cx cv (A ++ B)).conflicts cx cv events e f = false) :
    Same (r.replay cx cv (A ++ e :: B)) ((r.replay cx cv (A ++ B)).applyEvent cx cv e).1 := by
  have hput : ∀ {x : Tier3PollState}, x.admits cx e = true →
      Same (x.applyEvent cx cv e).1 (put (lateWrite cx cv x e) e x) := fun ha =>
    same_put_lateWrite ha (by simp [hk]) (by simp [hk]) (by simp [hk]) (by simp [hk]) (by simp [hk])
  have hquiet : ∀ {x : Tier3PollState}, x.admits cx e = true → x.ballotOf cx cv e = none →
      SameParts (x.applyEvent cx cv e).1 x := fun ha hw =>
    sameParts_of_nothing ha (by simp [hk]) (by simp [hk]) (by simp [hk]) (by simp [hk])
      (by simp [hk]) (by simp [lateWrite, hk, hw])
  have hform := h.wellFormedBallot_at hk hc
  cases hlast : (r.replay cx cv (A ++ B)).wellFormedBallot cx cv e with
  | none =>
    rw [hlast] at hform
    exact h.same_of_quiet (hquiet h.admits_first (by simp [ballotOf, hform]))
      (hquiet h.admitted (by simp [ballotOf, hlast]))
  | some payload =>
    rw [hlast] at hform
    by_cases hcap : countOf (r.replay cx cv (A ++ B)).ballotsPerActor e.actor <
        maxRatificationBallotsPerActor
    · have hgrows : Grows (r.replay cx cv A) (r.replay cx cv (A ++ B)) := grows_from B
      have hcap' : countOf (r.replay cx cv A).ballotsPerActor e.actor <
          maxRatificationBallotsPerActor := (hgrows.ballotsPerActor e.actor).trans_lt hcap
      have hwrite : ∀ {x : Tier3PollState} {p}, x.ballotOf cx cv e = some p →
          lateWrite cx cv x e = .ballot p := fun hw => by simp [lateWrite, hk, hw]
      have hw : (r.replay cx cv A).ballotOf cx cv e = some payload := by
        rw [ballotOf, if_pos hcap', hform]
      have hw' : (r.replay cx cv (A ++ B)).ballotOf cx cv e = some payload := by
        rw [ballotOf, if_pos hcap, hlast]
      exact h.same_of_put (fun pre f post hB hd => h.exchanges_ballot hcap hB hd)
        (hwrite hw ▸ hput h.admits_first) (hwrite hw' ▸ hput h.admitted)
    · have hnone : (r.replay cx cv A).ballotOf cx cv e = none := by
        by_contra hsome
        rw [ballotOf] at hsome
        split_ifs at hsome with hlt
        · obtain ⟨f, hf, x, hactor, hwrite, hcounted⟩ := h.exists_counted_of_cap
            SameParts.ballotsPerActor (fun x f => (stepped cx cv x f).ballotsPerActor) hlt
            (not_lt.mp hcap)
          have hkf : f.kind = .ratificationBallot := by
            by_contra hne
            rw [ballotOf_of_ne hne] at hwrite
            cases hwrite
          have hconflict := hc f hf
          simp [conflicts, hk, hkf, hactor, capReached, eligible, hlast, not_lt.mp hcap,
            hcounted] at hconflict
        · exact hsome rfl
      exact h.same_of_quiet (hquiet h.admits_first hnone)
        (hquiet h.admitted (by rw [ballotOf, if_neg hcap]))

end Arrival

end Harmony.Voting.Tier3PollState
