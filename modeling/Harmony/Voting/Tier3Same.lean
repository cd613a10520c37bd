import Harmony.Voting.Rebuild

/-! States of a Tier-3 poll that no later event tells apart. Declines and ballots may
differ in order, candidates in the order between different hashes, and a poll that has ended
no longer looks at its lanes. The verdicts of the ballot proofs are left out: as long as
no two events share a hash, a remembered verdict is what verification gives. -/

namespace Harmony.Voting.Tier3PollState

open Harmony.Lib
open Harmony.Membership (OwnerAddr Digest Hlc)

/-- All that later events read, up to order, the lanes apart. -/
structure SameParts (x y : Tier3PollState) : Prop where
  «meta» : x.meta = y.meta
  committeeOracle : x.committeeOracle = y.committeeOracle
  voided : x.voided = y.voided
  stage : x.stage = y.stage
  sortitionResult : x.sortitionResult = y.sortitionResult
  declines : x.declines.Perm y.declines
  declinesPerActor : x.declinesPerActor = y.declinesPerActor
  statements : x.deliberation.statements = y.deliberation.statements
  statementsPerAuthor : x.deliberation.statementsPerAuthor = y.deliberation.statementsPerAuthor
  votes : x.deliberation.votes = y.deliberation.votes
  candidates : ∀ hash, x.candidates.filter (·.eventHash = hash) =
    y.candidates.filter (·.eventHash = hash)
  candidatesPerActor : x.candidatesPerActor = y.candidatesPerActor
  ratificationBallots : x.ratificationBallots.Perm y.ratificationBallots
  ballotsPerActor : x.ballotsPerActor = y.ballotsPerActor
  result : x.result = y.result

/-- The lanes as well, as long as the poll looks at them. -/
structure Same (x y : Tier3PollState) : Prop extends SameParts x y where
  lastReceivedHlc : ¬x.Terminal → x.lastReceivedHlc = y.lastReceivedHlc
  maxApplied : ¬x.Terminal → x.maxApplied = y.maxApplied

variable {x y z : Tier3PollState}

theorem SameParts.terminal (h : SameParts x y) : x.Terminal ↔ y.Terminal := by
  simp only [Terminal, h.stage]

@[refl] theorem SameParts.refl (x : Tier3PollState) : SameParts x x := by
  constructor <;> first | rfl | exact fun _ => rfl

@[symm] theorem SameParts.symm (h : SameParts x y) : SameParts y x where
  «meta» := h.meta.symm
  committeeOracle := h.committeeOracle.symm
  voided := h.voided.symm
  stage := h.stage.symm
  sortitionResult := h.sortitionResult.symm
  declines := h.declines.symm
  declinesPerActor := h.declinesPerActor.symm
  statements := h.statements.symm
  statementsPerAuthor := h.statementsPerAuthor.symm
  votes := h.votes.symm
  candidates hash := (h.candidates hash).symm
  candidatesPerActor := h.candidatesPerActor.symm
  ratificationBallots := h.ratificationBallots.symm
  ballotsPerActor := h.ballotsPerActor.symm
  result := h.result.symm

@[trans] theorem SameParts.trans (h : SameParts x y) (h' : SameParts y z) : SameParts x z where
  «meta» := h.meta.trans h'.meta
  committeeOracle := h.committeeOracle.trans h'.committeeOracle
  voided := h.voided.trans h'.voided
  stage := h.stage.trans h'.stage
  sortitionResult := h.sortitionResult.trans h'.sortitionResult
  declines := h.declines.trans h'.declines
  declinesPerActor := h.declinesPerActor.trans h'.declinesPerActor
  statements := h.statements.trans h'.statements
  statementsPerAuthor := h.statementsPerAuthor.trans h'.statementsPerAuthor
  votes := h.votes.trans h'.votes
  candidates hash := (h.candidates hash).trans (h'.candidates hash)
  candidatesPerActor := h.candidatesPerActor.trans h'.candidatesPerActor
  ratificationBallots := h.ratificationBallots.trans h'.ratificationBallots
  ballotsPerActor := h.ballotsPerActor.trans h'.ballotsPerActor
  result := h.result.trans h'.result

@[refl] theorem Same.refl (x : Tier3PollState) : Same x x := ⟨.refl x, fun _ => rfl, fun _ => rfl⟩

@[symm] theorem Same.symm (h : Same x y) : Same y x :=
  ⟨h.toSameParts.symm, fun ht => (h.lastReceivedHlc (mt h.terminal.mp ht)).symm,
    fun ht => (h.maxApplied (mt h.terminal.mp ht)).symm⟩

@[trans] theorem Same.trans (h : Same x y) (h' : Same y z) : Same x z :=
  ⟨h.toSameParts.trans h'.toSameParts,
    fun ht => (h.lastReceivedHlc ht).trans (h'.lastReceivedHlc (mt h.terminal.mpr ht)),
    fun ht => (h.maxApplied ht).trans (h'.maxApplied (mt h.terminal.mpr ht))⟩

/-! ### Readings of the candidates -/

section Candidates

variable {l l' : List DraftCandidateState}

theorem perm_of_filter_eq (h : ∀ hash, l.filter (·.eventHash = hash) =
    l'.filter (·.eventHash = hash)) : l.Perm l' := by
  rw [List.perm_iff_count]
  intro c
  have hcount : ∀ m : List DraftCandidateState,
      (m.filter (·.eventHash = c.eventHash)).count c = m.count c :=
    fun m => List.count_filter (by simp)
  rw [← hcount l, ← hcount l', h]

theorem insertionSort_approvalOrder_perm {r r' : List CandidateRef} (h : r.Perm r') :
    r.insertionSort approvalOrder = r'.insertionSort approvalOrder := by
  have htotal : Std.Total approvalOrder := ⟨fun a b => by
    rcases lt_trichotomy a.approvalCount b.approvalCount with hc | hc | hc
    · exact .inr (.inl hc)
    · rcases le_total a.eventHash b.eventHash with hh | hh
      · exact .inl (.inr ⟨hc, hh⟩)
      · exact .inr (.inr ⟨hc.symm, hh⟩)
    · exact .inl (.inl hc)⟩
  have htrans : IsTrans CandidateRef approvalOrder := ⟨fun a b c hab hbc => by
    rcases hab with hab | ⟨hab, hab'⟩ <;> rcases hbc with hbc | ⟨hbc, hbc'⟩
    · exact .inl (hbc.trans hab)
    · exact .inl (hbc ▸ hab)
    · exact .inl (hab ▸ hbc)
    · exact .inr ⟨hab.trans hbc, hab'.trans hbc'⟩⟩
  refine List.Perm.eq_of_pairwise (fun a b _ _ hab hba => ?_) (List.pairwise_insertionSort _ r)
    (List.pairwise_insertionSort _ r')
    ((List.perm_insertionSort _ r).trans (h.trans (List.perm_insertionSort _ r').symm))
  rcases hab with hab | ⟨hcount, hab⟩ <;> rcases hba with hba | ⟨hcount', hba⟩
  · exact absurd hab hba.asymm
  · exact absurd hcount' hab.ne
  · exact absurd hcount hba.ne
  · cases a
    cases b
    simp only [CandidateRef.mk.injEq]
    exact ⟨le_antisymm hab hba, hcount⟩

theorem draftingAdvancers_congr (size : ℕ) (hash : Digest)
    (h : ∀ hash, l.filter (·.eventHash = hash) = l'.filter (·.eventHash = hash)) :
    draftingAdvancers l size hash = draftingAdvancers l' size hash := by
  have hperm : l.Perm l' := perm_of_filter_eq h
  have hfind : l.find? (·.eventHash = hash) = l'.find? (·.eventHash = hash) := by
    rw [← List.head?_filter, ← List.head?_filter, h]
  simp only [draftingAdvancers, hfind,
    insertionSort_approvalOrder_perm ((hperm.filter _).map DraftCandidateState.toRef)]

theorem ratificationOrdering_congr {cx : Codec} (hmeta : x.meta = y.meta)
    (h : ∀ hash, x.candidates.filter (·.eventHash = hash) =
      y.candidates.filter (·.eventHash = hash)) :
    ratificationOrdering cx x = ratificationOrdering cx y := by
  have hlist : ∀ hash, (x.candidates ++ [synthesizeStatusQuo cx y.meta.pollId]).filter
      (·.eventHash = hash) = (y.candidates ++ [synthesizeStatusQuo cx y.meta.pollId]).filter
      (·.eventHash = hash) := by
    intro hash
    rw [List.filter_append, List.filter_append, h]
  simp only [ratificationOrdering, hmeta, draftingAdvancers_congr _ _ hlist]

end Candidates

/-! ### What same states make of an event -/

variable {cx : Codec} {cv : Curve} {ev : SignedVotingEvent}

/-- Two states from which an event writes the same. -/
structure SameWrites (cx : Codec) (cv : Curve) (x y : Tier3PollState) (ev : SignedVotingEvent) :
    Prop where
  admits : x.admits cx ev = y.admits cx ev
  selection : x.selectionOf cx ev = y.selectionOf cx ev
  decline : x.declineOf cx ev = y.declineOf cx ev
  statement : x.statementOf cx ev = y.statementOf cx ev
  vote : x.voteOf cx ev = y.voteOf cx ev
  candidate : x.candidateOf cx ev = y.candidateOf cx ev
  approval : x.approvalOf cx ev = y.approvalOf cx ev
  ballot : x.ballotOf cx cv ev = y.ballotOf cx cv ev
  result : x.resultOf cx cv ev = y.resultOf cx cv ev
  fails : x.failsBy cx ev = y.failsBy cx ev

theorem Same.admits (h : Same x y) : x.admits cx ev = y.admits cx ev := by
  have hguard : (x.guard ev).isNone = (y.guard ev).isNone := by
    by_cases ht : x.Terminal
    · have hne : ∀ {s : Tier3PollState}, s.Terminal → (s.guard ev).isNone = false := by
        rintro s (hs | hs) <;> simp [Tier3PollState.guard, hs]
      rw [hne ht, hne (h.terminal.mp ht)]
    · simp only [Tier3PollState.guard, h.stage, h.voided, h.lastReceivedHlc ht]
  rw [Tier3PollState.admits, Tier3PollState.admits, hguard]

theorem mayDeliberate_congr (hstage : x.stage = y.stage) (hmeta : x.meta = y.meta)
    (hselection : x.sortitionResult = y.sortitionResult)
    (hdeclined : x.declinedAt ev.hlc = y.declinedAt ev.hlc) :
    x.mayDeliberate ev = y.mayDeliberate ev := by
  have hat : x.currentStageAt ev.hlc = y.currentStageAt ev.hlc := by
    simp only [currentStageAt, hstage, hselection, hmeta]
  have hpublic : x.currentMiniPublic ev.hlc = y.currentMiniPublic ev.hlc := by
    simp only [currentMiniPublic, hselection, hdeclined]
  simp only [mayDeliberate, hat, hpublic]

namespace SameParts

theorem mayDeliberate (h : SameParts x y) : x.mayDeliberate ev = y.mayDeliberate ev :=
  mayDeliberate_congr h.stage h.meta h.sortitionResult
    (List.toFinset_eq_of_perm _ _ ((h.declines.filter _).map _))

theorem ordering (h : SameParts x y) : ratificationOrdering cx x = ratificationOrdering cx y :=
  ratificationOrdering_congr h.meta h.candidates

theorem ballotOk (h : SameParts x y) {hash : Digest} {payload : RatificationBallotPayload}
    (hv : x.nizkOk cv hash payload = y.nizkOk cv hash payload) :
    x.ballotOk cx cv hash payload = y.ballotOk cx cv hash payload := by
  simp only [Tier3PollState.ballotOk, ballotSize, h.ordering, h.meta, hv]

theorem writes (h : SameParts x y) (ha : x.admits cx ev = y.admits cx ev)
    (hv : SameVerdict cx cv x y ev) : SameWrites cx cv x y ev where
  admits := ha
  selection := by simp only [selectionOf, ha]
  decline := by simp only [declineOf, ha, h.declinesPerActor]
  statement := by simp only [statementOf, ha, h.mayDeliberate, h.statementsPerAuthor]
  vote := by simp only [voteOf, ha, h.mayDeliberate, h.statements]
  candidate := by simp only [candidateOf, ha, h.candidatesPerActor]
  approval := by simp only [approvalOf, ha]
  ballot := by
    have hw : x.wellFormedBallot cx cv ev = y.wellFormedBallot cx cv ev := by
      unfold wellFormedBallot
      rw [ha]
      split_ifs
      · cases hp : cx.ratificationBallot ev.payload with
        | error reason => rfl
        | ok payload =>
          simp only [Except.toOption, Option.filter_some, h.ballotOk (hv payload hp)]
      · rfl
    rw [ballotOf, ballotOf, h.ballotsPerActor, hw]
  result := by
    unfold resultOf
    rw [ha, h.meta]
    split_ifs with _ hmode
    · have hexpected : expectedResultFromState cx cv x = expectedResultFromState cx cv y := by
        have hmode' : x.meta.config.privacyMode = "pu" := by rw [h.meta]; exact hmode
        have hse : ¬"pu" = "se" := by decide
        simp only [expectedResultFromState, h.ordering, recomputeExpectedResult, hmode, hmode',
          if_neg hse, tallyStar_perm _ h.ratificationBallots]
      rw [hexpected]
    · rfl
    · rfl
  fails := by simp only [failsBy, ha]

end SameParts

theorem approveFirst_filter (hash hash' : Digest) (actor : OwnerAddr) (l : List DraftCandidateState) :
    (approveFirst hash actor l).filter (·.eventHash = hash') =
      if hash = hash' then approveFirst hash actor (l.filter (·.eventHash = hash'))
      else l.filter (·.eventHash = hash') := by
  induction l with
  | nil => simp [approveFirst]
  | cons c cs ih =>
    rw [approveFirst]
    by_cases hc : c.eventHash = hash
    · by_cases hh : hash = hash'
      · simp [hc, hh, approveFirst]
      · simp [hc, hh]
    · rw [if_neg hc]
      by_cases hh : hash = hash'
      · subst hh
        simp only [List.filter_cons, hc, decide_false, Bool.false_eq_true, if_false, ih, if_true]
      · rw [if_neg hh] at ih
        simp only [List.filter_cons, ih, if_neg hh]

theorem Stepped.terminal_of {s' : Tier3PollState} (h : Stepped cx cv x ev s') (hx : x.Terminal) :
    s'.Terminal := by
  have ha : x.admits cx ev = false := by
    rcases hx with hs | hs <;> simp [Tier3PollState.admits, Tier3PollState.guard, hs]
  have hstage : s'.stage = x.stage := by
    rw [h.stage]
    simp [failsBy, resultOf, ha]
  rwa [Terminal, hstage]

section Stepped

variable {x' y' : Tier3PollState}

theorem Stepped.sameParts (hx : Stepped cx cv x ev x') (hy : Stepped cx cv y ev y')
    (h : SameParts x y) (hw : SameWrites cx cv x y ev) : SameParts x' y' where
  «meta» := by rw [hx.meta, hy.meta, h.meta]
  committeeOracle := by rw [hx.committeeOracle, hy.committeeOracle, h.committeeOracle]
  voided := by rw [hx.voided, hy.voided, h.voided]
  stage := by rw [hx.stage, hy.stage, hw.fails, hw.result, h.stage]
  sortitionResult := by rw [hx.sortitionResult, hy.sortitionResult, hw.selection, h.sortitionResult]
  declines := by
    rw [hx.declines, hy.declines, hw.decline]
    exact h.declines.append_right _
  declinesPerActor := by
    rw [hx.declinesPerActor, hy.declinesPerActor, hw.decline, h.declinesPerActor]
  statements := by rw [hx.statements, hy.statements, hw.statement, h.statements]
  statementsPerAuthor := by
    rw [hx.statementsPerAuthor, hy.statementsPerAuthor, hw.statement, h.statements,
      h.statementsPerAuthor]
  votes := by rw [hx.votes, hy.votes, hw.vote, h.votes]
  candidates hash := by
    rw [hx.candidates, hy.candidates, hw.approval, hw.candidate]
    cases y.approvalOf cx ev with
    | none => simp only [Option.elim_none, List.filter_append, h.candidates]
    | some hash' => simp only [Option.elim_some, approveFirst_filter, h.candidates]
  candidatesPerActor := by
    rw [hx.candidatesPerActor, hy.candidatesPerActor, hw.candidate, h.candidatesPerActor]
  ratificationBallots := by
    rw [hx.ratificationBallots, hy.ratificationBallots, hw.ballot]
    exact h.ratificationBallots.append_right _
  ballotsPerActor := by rw [hx.ballotsPerActor, hy.ballotsPerActor, hw.ballot, h.ballotsPerActor]
  result := by rw [hx.result, hy.result, hw.result, h.result]

theorem Stepped.same (hx : Stepped cx cv x ev x') (hy : Stepped cx cv y ev y') (h : Same x y)
    (hw : SameWrites cx cv x y ev) : Same x' y' where
  toSameParts := hx.sameParts hy h.toSameParts hw
  lastReceivedHlc ht := by
    rw [hx.lastReceivedHlc, hy.lastReceivedHlc, hw.admits,
      h.lastReceivedHlc (mt hx.terminal_of ht)]
  maxApplied ht := by
    rw [hx.maxApplied, hy.maxApplied, hw.admits, h.maxApplied (mt hx.terminal_of ht)]

end Stepped

theorem Same.applyEvent (h : Same x y) (hv : SameVerdict cx cv x y ev) :
    Same (x.applyEvent cx cv ev).1 (y.applyEvent cx cv ev).1 :=
  (stepped cx cv x ev).same (stepped cx cv y ev) h (h.writes h.admits hv)

end Harmony.Voting.Tier3PollState
