import Harmony.Voting.Ballots
import Harmony.Voting.Tier3Same

/-! An event that arrives behind later ones. Its write can be put in after them, as long as
none of them reads it. -/

namespace Harmony.Voting

open Harmony.Lib
open Harmony.Membership (OwnerAddr Digest Hlc)

def DeliberationVoteEntry.stamp (entry : DeliberationVoteEntry) : HlcKey ×ₗ Digest :=
  Tier3PollState.stamp entry.lastUpdateHlc entry.lastUpdateEventHash

namespace Tier3PollState

/-- What an event writes that starts no rebuild and does not end the poll. -/
inductive LateWrite where
  | nothing
  | vote (entry : DeliberationVoteEntry)
  | candidate (c : DraftCandidateState)
  | approval (hash : Digest)
  | ballot (payload : RatificationBallotPayload)

/-- The event among the received ones. -/
def receive (ev : SignedVotingEvent) (s : Tier3PollState) : Tier3PollState :=
  { s with
    lastReceivedHlc := raiseLane s.lastReceivedHlc ev
    maxApplied := some (s.maxApplied.elim ev.key (max ev.key)) }

/-- The write put in, whatever the state makes of the event. -/
def put (w : LateWrite) (ev : SignedVotingEvent) (s : Tier3PollState) : Tier3PollState :=
  match w with
  | .nothing => receive ev s
  | .vote entry => { receive ev s with deliberation :=
      { s.deliberation with votes := castVote s.deliberation.votes entry } }
  | .candidate c => { receive ev s with
      candidates := s.candidates ++ [c]
      candidatesPerActor := bumpCount s.candidatesPerActor ev.actor }
  | .approval hash => { receive ev s with
      candidates := approveFirst hash ev.actor s.candidates }
  | .ballot payload => { receive ev s with
      ratificationBallots := s.ratificationBallots ++ [payload]
      ballotsPerActor := bumpCount s.ballotsPerActor ev.actor }

/-! ### Writes of one kind commute -/

section Maps

theorem get_bumpCount (counts : BTreeMap OwnerAddr ℕ) (a k : OwnerAddr) :
    (bumpCount counts a)[k]? = if a = k then some (countOf counts k + 1) else counts[k]? := by
  rw [bumpCount, BTreeMap.get_insert]
  split_ifs with h
  · rw [h]
  · rfl

theorem bumpCount_comm (counts : BTreeMap OwnerAddr ℕ) (a b : OwnerAddr) :
    bumpCount (bumpCount counts a) b = bumpCount (bumpCount counts b) a := by
  refine Std.ExtTreeMap.ext_getElem? fun k => ?_
  simp only [get_bumpCount, countOf_bumpCount]
  by_cases ha : a = k <;> by_cases hb : b = k <;> simp [ha, hb]

theorem get_raiseLane (lanes : BTreeMap (OwnerAddr ×ₗ String) (ℕ ×ₗ ℕ)) (e : SignedVotingEvent)
    (k : OwnerAddr ×ₗ String) : (raiseLane lanes e)[k]? =
      if e.lane = k then some (lanes[k]?.elim e.ordinal (max e.ordinal)) else lanes[k]? := by
  rw [raiseLane, BTreeMap.get_insert]
  split_ifs with h
  · rw [h]
  · rfl

theorem raiseLane_comm (lanes : BTreeMap (OwnerAddr ×ₗ String) (ℕ ×ₗ ℕ))
    (e f : SignedVotingEvent) :
    raiseLane (raiseLane lanes e) f = raiseLane (raiseLane lanes f) e := by
  refine Std.ExtTreeMap.ext_getElem? fun k => ?_
  simp only [get_raiseLane]
  by_cases he : e.lane = k <;> by_cases hf : f.lane = k <;> simp only [he, hf, if_true, if_false]
  cases lanes[k]? with
  | none => simp [max_comm]
  | some old => simp [max_left_comm]

theorem get_castVote (votes : BTreeMap (OwnerAddr ×ₗ Digest) DeliberationVoteEntry)
    (entry : DeliberationVoteEntry) (k : OwnerAddr ×ₗ Digest) : (castVote votes entry)[k]? =
      if (toLex (entry.voter, entry.statementEventHash) : OwnerAddr ×ₗ Digest) = k then
        some (votes[k]?.elim entry fun old => if old.stamp < entry.stamp then entry else old)
      else votes[k]? := by
  have hcast : castVote votes entry =
      if votes[(toLex (entry.voter, entry.statementEventHash) : OwnerAddr ×ₗ Digest)]?.all
        (·.stamp < entry.stamp) then votes.insert (toLex (entry.voter, entry.statementEventHash)) entry
      else votes := rfl
  rw [hcast]
  by_cases hk : (toLex (entry.voter, entry.statementEventHash) : OwnerAddr ×ₗ Digest) = k
  · rw [hk, if_pos rfl]
    cases hold : votes[k]? with
    | none => rw [Option.all_none, if_pos rfl, BTreeMap.get_insert, if_pos rfl, Option.elim_none]
    | some old =>
      rw [Option.all_some, Option.elim_some]
      by_cases hlt : old.stamp < entry.stamp
      · rw [if_pos (by simpa using hlt), if_pos hlt, BTreeMap.get_insert, if_pos rfl]
      · rw [if_neg (by simpa using hlt), if_neg hlt, hold]
  · rw [if_neg hk]
    split_ifs
    · rw [BTreeMap.get_insert, if_neg hk]
    · rfl

theorem castVote_comm (votes : BTreeMap (OwnerAddr ×ₗ Digest) DeliberationVoteEntry)
    {a b : DeliberationVoteEntry} (h : a.stamp < b.stamp) :
    castVote (castVote votes a) b = castVote (castVote votes b) a := by
  refine Std.ExtTreeMap.ext_getElem? fun k => ?_
  simp only [get_castVote]
  split_ifs with hb ha ha
  · cases votes[k]? with
    | none => simp [h, h.asymm]
    | some old =>
      simp only [Option.elim_some]
      split_ifs <;> grind
  · rfl
  · rfl
  · rfl

end Maps

section Candidates

variable {l r : List DraftCandidateState}

theorem approveFirst_comm (hash hash' : Digest) (a b : OwnerAddr) (l : List DraftCandidateState) :
    approveFirst hash a (approveFirst hash' b l) = approveFirst hash' b (approveFirst hash a l) := by
  induction l with
  | nil => rfl
  | cons c cs ih =>
    rw [approveFirst, approveFirst]
    split_ifs with h' h h
    · rw [approveFirst, approveFirst, if_pos h, if_pos h', Finset.insert_comm]
    · rw [approveFirst, approveFirst, if_neg h, if_pos h']
    · rw [approveFirst, approveFirst, if_pos h, if_neg h']
    · rw [approveFirst, approveFirst, if_neg h, if_neg h', ih]

theorem approveFirst_append (hash : Digest) (a : OwnerAddr) (l r : List DraftCandidateState) :
    approveFirst hash a (l ++ r) = if l.any (·.eventHash = hash) then approveFirst hash a l ++ r
      else l ++ approveFirst hash a r := by
  induction l with
  | nil => simp
  | cons c cs ih =>
    by_cases h : c.eventHash = hash
    · simp [approveFirst, h]
    · rw [List.cons_append, approveFirst, if_neg h, ih, List.any_cons, decide_eq_false h,
        Bool.false_or, approveFirst, if_neg h]
      split_ifs <;> rfl

end Candidates

/-! ### Parts a write leaves alone -/

section Put

variable {w : LateWrite} {e f : SignedVotingEvent} {s x y : Tier3PollState}

@[simp] theorem put_meta : (put w e s).meta = s.meta := by cases w <;> rfl

@[simp] theorem put_stage : (put w e s).stage = s.stage := by cases w <;> rfl

@[simp] theorem put_voided : (put w e s).voided = s.voided := by cases w <;> rfl

@[simp] theorem put_committeeOracle : (put w e s).committeeOracle = s.committeeOracle := by
  cases w <;> rfl

@[simp] theorem put_sortitionResult : (put w e s).sortitionResult = s.sortitionResult := by
  cases w <;> rfl

@[simp] theorem put_declines : (put w e s).declines = s.declines := by cases w <;> rfl

@[simp] theorem put_declinesPerActor : (put w e s).declinesPerActor = s.declinesPerActor := by
  cases w <;> rfl

@[simp] theorem put_statements :
    (put w e s).deliberation.statements = s.deliberation.statements := by
  cases w <;> rfl

@[simp] theorem put_statementsPerAuthor :
    (put w e s).deliberation.statementsPerAuthor = s.deliberation.statementsPerAuthor := by
  cases w <;> rfl

@[simp] theorem put_result : (put w e s).result = s.result := by cases w <;> rfl

@[simp] theorem put_rbNizkVerdicts : (put w e s).rbNizkVerdicts = s.rbNizkVerdicts := by
  cases w <;> rfl

@[simp] theorem put_lastReceivedHlc :
    (put w e s).lastReceivedHlc = raiseLane s.lastReceivedHlc e := by
  cases w <;> rfl

@[simp] theorem put_maxApplied :
    (put w e s).maxApplied = some (s.maxApplied.elim e.key (max e.key)) := by
  cases w <;> rfl

theorem put_terminal : (put w e s).Terminal ↔ s.Terminal := by simp only [Terminal, put_stage]

theorem Same.put (h : Same x y) (w : LateWrite) (e : SignedVotingEvent) :
    Same (put w e x) (put w e y) where
  «meta» := by simp only [put_meta, h.meta]
  committeeOracle := by simp only [put_committeeOracle, h.committeeOracle]
  voided := by simp only [put_voided, h.voided]
  stage := by simp only [put_stage, h.stage]
  sortitionResult := by simp only [put_sortitionResult, h.sortitionResult]
  declines := by simpa only [put_declines] using h.declines
  declinesPerActor := by simp only [put_declinesPerActor, h.declinesPerActor]
  statements := by simp only [put_statements, h.statements]
  statementsPerAuthor := by simp only [put_statementsPerAuthor, h.statementsPerAuthor]
  votes := by cases w <;> simp only [Tier3PollState.put, receive, h.votes]
  candidates hash := by
    cases w <;>
      simp only [Tier3PollState.put, receive, List.filter_append, approveFirst_filter, h.candidates]
  candidatesPerActor := by cases w <;> simp only [Tier3PollState.put, receive, h.candidatesPerActor]
  ratificationBallots := by
    cases w <;> first | exact h.ratificationBallots | exact h.ratificationBallots.append_right _
  ballotsPerActor := by cases w <;> simp only [Tier3PollState.put, receive, h.ballotsPerActor]
  result := by simp only [put_result, h.result]
  lastReceivedHlc ht := by
    simp only [put_lastReceivedHlc, h.lastReceivedHlc (mt put_terminal.mpr ht)]
  maxApplied ht := by simp only [put_maxApplied, h.maxApplied (mt put_terminal.mpr ht)]

theorem put_admits {cx : Codec} (h : e.ordinal ≤ f.ordinal) :
    (put w e s).admits cx f = s.admits cx f := by
  have hlane : (raiseLane s.lastReceivedHlc e)[f.lane]?.any (f.ordinal < ·) =
      s.lastReceivedHlc[f.lane]?.any (f.ordinal < ·) := by
    rw [get_raiseLane]
    split_ifs
    · cases s.lastReceivedHlc[f.lane]? with
      | none => simpa using h
      | some old => simp [h.not_gt]
    · rfl
  simp only [admits, guard, put_stage, put_voided, put_lastReceivedHlc, hlane]

end Put

/-! ### The size of the ballot -/

/-- The candidates that enough of the mini-public approved. -/
def passing (cx : Codec) (s : Tier3PollState) : List DraftCandidateState :=
  s.candidates.filter fun c => c.eventHash ≠ (synthesizeStatusQuo cx s.meta.pollId).eventHash ∧
    (s.meta.config.sortitionSize + 1) / 2 ≤ c.approvals.card

theorem ballotSize_eq (cx : Codec) (s : Tier3PollState) :
    s.ballotSize cx = min (maxRatificationCandidates - 1) (s.passing cx).length + 1 := by
  obtain ⟨sq, hfind⟩ : ∃ sq, (s.candidates ++ [synthesizeStatusQuo cx s.meta.pollId]).find?
      (·.eventHash = (synthesizeStatusQuo cx s.meta.pollId).eventHash) = some sq := by
    rw [← Option.isSome_iff_exists]
    simp
  simp [ballotSize, ratificationOrdering, draftingAdvancers, hfind, passing,
    ratificationCandidatesOrdering, List.filter_append, List.length_insertionSort]

theorem filter_approveFirst {p : DraftCandidateState → Bool} {hash : Digest} {a : OwnerAddr}
    {l : List DraftCandidateState} (h : ∀ c, l.find? (·.eventHash = hash) = some c →
      p c = false ∧ p { c with approvals := insert a c.approvals } = false) :
    (approveFirst hash a l).filter p = l.filter p := by
  induction l with
  | nil => rfl
  | cons c cs ih =>
    rw [approveFirst]
    split_ifs with hc
    · obtain ⟨hold, hnew⟩ := h c (by simp [hc])
      rw [List.filter_cons_of_neg (by simp [hnew]), List.filter_cons_of_neg (by simp [hold])]
    · rw [List.filter_cons, List.filter_cons, ih fun c' hc' => h c' (by simpa [hc] using hc')]

theorem ballotShapeOk_congr {mode : String} {n n' : ℕ} (h : mode = "se" → n = n')
    (payload : RatificationBallotPayload) :
    ballotShapeOk mode n payload = ballotShapeOk mode n' payload := by
  unfold ballotShapeOk
  split_ifs with _ hse
  · rfl
  · rw [h hse]
  · rfl

/-! ### Exchanging a write with a later event -/

/-- The later event finds the same with the write put in as without, and the write may go
behind what the event writes. -/
structure Exchanges (cx : Codec) (cv : Curve) (w : LateWrite) (e f : SignedVotingEvent)
    (s : Tier3PollState) : Prop where
  order : e.ordinal ≤ f.ordinal
  kind : f.kind ≠ .pollResult
  vote : ∀ entry entry', w = .vote entry → s.voteOf cx f = some entry' → entry.stamp < entry'.stamp
  candidate : ∀ c c', w = .candidate c → s.candidateOf cx f = some c' →
    c'.eventHash ≠ c.eventHash
  candidateCap : ∀ c, w = .candidate c → f.kind = .draftCandidate → e.actor = f.actor →
    countOf s.candidatesPerActor f.actor + 1 < maxDraftCandidatesPerActor
  approved : ∀ c hash, w = .candidate c → s.approvalOf cx f = some hash → c.eventHash = hash →
    f.actor ∈ c.approvals ∨ s.candidates.any (·.eventHash = hash) = true
  approval : ∀ hash c', w = .approval hash → s.candidateOf cx f = some c' → c'.eventHash = hash →
    s.candidates.any (·.eventHash = hash) = true
  ballotCap : ∀ payload, w = .ballot payload → (s.wellFormedBallot cx cv f).isSome →
    e.actor = f.actor → countOf s.ballotsPerActor f.actor + 1 < maxRatificationBallotsPerActor
  size : f.kind = .ratificationBallot → s.meta.config.privacyMode = "se" →
    (put w e s).ballotSize cx = s.ballotSize cx

section Exchange

variable {cx : Codec} {cv : Curve} {w : LateWrite} {e f : SignedVotingEvent}
  {s : Tier3PollState}

theorem put_mayDeliberate : (put w e s).mayDeliberate f = s.mayDeliberate f :=
  mayDeliberate_congr put_stage put_meta put_sortitionResult (by simp only [declinedAt, put_declines])

theorem Exchanges.candidateOf_put (h : Exchanges cx cv w e f s) :
    (put w e s).candidateOf cx f = s.candidateOf cx f := by
  by_cases hk : f.kind = .draftCandidate
  · have hcap : countOf (put w e s).candidatesPerActor f.actor < maxDraftCandidatesPerActor ↔
        countOf s.candidatesPerActor f.actor < maxDraftCandidatesPerActor := by
      cases hw : w with
      | candidate c =>
        subst hw
        change countOf (bumpCount _ _) _ < _ ↔ _
        rw [countOf_bumpCount]
        split_ifs with hactor
        · have hbound : countOf s.candidatesPerActor f.actor + 1 < maxDraftCandidatesPerActor :=
            h.candidateCap c rfl hk hactor
          omega
        · rfl
      | _ =>
        subst hw
        rfl
    simp only [candidateOf, put_admits h.order, hcap]
  · rw [candidateOf_of_ne hk, candidateOf_of_ne hk]

theorem wellFormedBallot_congr {x y : Tier3PollState} (ha : x.admits cx f = y.admits cx f)
    (hmeta : x.meta = y.meta) (hv : SameVerdict cx cv x y f)
    (hsize : y.meta.config.privacyMode = "se" → x.ballotSize cx = y.ballotSize cx) :
    x.wellFormedBallot cx cv f = y.wellFormedBallot cx cv f := by
  unfold wellFormedBallot
  rw [ha]
  split_ifs
  · cases hp : cx.ratificationBallot f.payload with
    | error reason => rfl
    | ok payload =>
      have hok : x.ballotOk cx cv (sha256OfSigningBytes cx f) payload =
          y.ballotOk cx cv (sha256OfSigningBytes cx f) payload := by
        simp only [ballotOk, hmeta, ballotShapeOk_congr hsize, hv payload hp]
      simp only [Except.toOption, Option.filter_some, hok]
  · rfl

theorem sameVerdict_put : SameVerdict cx cv (put w e s) s f := by
  intro payload _
  simp only [nizkOk, put_committeeOracle, put_rbNizkVerdicts]

theorem Exchanges.wellFormedBallot_put (h : Exchanges cx cv w e f s) :
    (put w e s).wellFormedBallot cx cv f = s.wellFormedBallot cx cv f := by
  by_cases hk : f.kind = .ratificationBallot
  · exact wellFormedBallot_congr (put_admits h.order) put_meta sameVerdict_put (h.size hk)
  · rw [wellFormedBallot_of_ne hk, wellFormedBallot_of_ne hk]

theorem Exchanges.ballotOf_put (h : Exchanges cx cv w e f s) :
    (put w e s).ballotOf cx cv f = s.ballotOf cx cv f := by
  rw [ballotOf, ballotOf, h.wellFormedBallot_put]
  cases hform : s.wellFormedBallot cx cv f with
  | none => rw [ite_self, ite_self]
  | some ballot =>
    have hcap : countOf (put w e s).ballotsPerActor f.actor < maxRatificationBallotsPerActor ↔
        countOf s.ballotsPerActor f.actor < maxRatificationBallotsPerActor := by
      cases hw : w with
      | ballot payload =>
        subst hw
        change countOf (bumpCount _ _) _ < _ ↔ _
        rw [countOf_bumpCount]
        split_ifs with hactor
        · have hbound : countOf s.ballotsPerActor f.actor + 1 < maxRatificationBallotsPerActor :=
            h.ballotCap payload rfl (by rw [hform]; rfl) hactor
          omega
        · rfl
      | _ =>
        subst hw
        rfl
    simp only [hcap]

theorem Exchanges.writes (h : Exchanges cx cv w e f s) : SameWrites cx cv (put w e s) s f where
  admits := put_admits h.order
  selection := by simp only [selectionOf, put_admits h.order]
  decline := by simp only [declineOf, put_admits h.order, put_declinesPerActor]
  statement := by
    simp only [statementOf, put_admits h.order, put_mayDeliberate, put_statementsPerAuthor]
  vote := by simp only [voteOf, put_admits h.order, put_mayDeliberate, put_statements]
  candidate := h.candidateOf_put
  approval := by simp only [approvalOf, put_admits h.order]
  ballot := h.ballotOf_put
  result := by rw [resultOf_of_ne h.kind, resultOf_of_ne h.kind]
  fails := by simp only [failsBy, put_admits h.order]

theorem bumpBy_comm {α : Type} (counts : BTreeMap OwnerAddr ℕ) (a b : OwnerAddr)
    (write : Option α) :
    bumpBy (bumpCount counts a) b write = bumpCount (bumpBy counts b write) a := by
  cases write with
  | none => rfl
  | some _ => exact bumpCount_comm counts a b

theorem Exchanges.votes (h : Exchanges cx cv w e f s) {z y : Tier3PollState}
    (hz : Stepped cx cv (put w e s) f z) (hy : Stepped cx cv s f y) :
    z.deliberation.votes = (put w e y).deliberation.votes := by
  rw [hz.votes, h.writes.vote]
  cases hw : w with
  | vote entry =>
    subst hw
    change _ = castVote y.deliberation.votes entry
    rw [hy.votes]
    cases hvote : s.voteOf cx f with
    | none => rfl
    | some entry' => exact castVote_comm _ (h.vote entry entry' rfl hvote)
  | _ =>
    subst hw
    exact hy.votes.symm

theorem Exchanges.candidates (h : Exchanges cx cv w e f s) {z y : Tier3PollState}
    (hz : Stepped cx cv (put w e s) f z) (hy : Stepped cx cv s f y) (hash : Digest) :
    z.candidates.filter (·.eventHash = hash) = (put w e y).candidates.filter (·.eventHash = hash) := by
  rw [hz.candidates, h.writes.candidate, h.writes.approval]
  cases hw : w with
  | candidate c =>
    subst hw
    change _ = (y.candidates ++ [c]).filter _
    rw [hy.candidates]
    cases happ : s.approvalOf cx f with
    | none =>
      change ((s.candidates ++ [c]) ++ _).filter _ = _
      cases hcand : s.candidateOf cx f with
      | none => simp
      | some c' =>
        have hne : c'.eventHash ≠ c.eventHash := h.candidate c c' rfl hcand
        by_cases hc : c.eventHash = hash
        · have hc' : ¬c'.eventHash = hash := fun hc' => hne (hc'.trans hc.symm)
          simp [hc, hc']
        · simp [List.filter_cons, hc]
    | some hash' =>
      change (approveFirst hash' f.actor (s.candidates ++ [c])).filter _ = _
      rw [approveFirst_append]
      split_ifs with hany
      · rfl
      · have hself : approveFirst hash' f.actor [c] = [c] := by
          rw [approveFirst]
          split_ifs with hc
          · have hin : f.actor ∈ c.approvals := (h.approved c hash' rfl happ hc).resolve_right hany
            rw [Finset.insert_eq_of_mem hin]
          · rfl
        rw [hself, Option.elim_some, approveFirst_of_not_any (Bool.eq_false_iff.mpr hany)]
  | approval hash' =>
    subst hw
    change _ = (approveFirst hash' e.actor y.candidates).filter _
    rw [hy.candidates]
    cases happ : s.approvalOf cx f with
    | none =>
      change (approveFirst hash' e.actor s.candidates ++ _).filter _ = _
      rw [Option.elim_none, approveFirst_append]
      split_ifs with hany
      · rfl
      · have hself : approveFirst hash' e.actor (s.candidateOf cx f).toList =
            (s.candidateOf cx f).toList := by
          cases hcand : s.candidateOf cx f with
          | none => rfl
          | some c' =>
            have hne : ¬c'.eventHash = hash' := fun hc =>
              hany (h.approval hash' c' rfl hcand hc)
            rw [Option.toList_some, approveFirst, if_neg hne]
            rfl
        rw [hself, approveFirst_of_not_any (Bool.eq_false_iff.mpr hany)]
    | some hash'' =>
      exact congrArg _ (approveFirst_comm _ _ _ _ _)
  | _ =>
    subst hw
    exact congrArg _ hy.candidates.symm

theorem Exchanges.same (h : Exchanges cx cv w e f s) {z y : Tier3PollState}
    (hz : Stepped cx cv (put w e s) f z) (hy : Stepped cx cv s f y) : Same z (put w e y) where
  «meta» := by rw [hz.meta, put_meta, put_meta, hy.meta]
  committeeOracle := by
    rw [hz.committeeOracle, put_committeeOracle, put_committeeOracle, hy.committeeOracle]
  voided := by rw [hz.voided, put_voided, put_voided, hy.voided]
  stage := by rw [hz.stage, h.writes.fails, h.writes.result, put_stage, put_stage, hy.stage]
  sortitionResult := by
    rw [hz.sortitionResult, h.writes.selection, put_sortitionResult, put_sortitionResult,
      hy.sortitionResult]
  declines := by rw [hz.declines, h.writes.decline, put_declines, put_declines, hy.declines]
  declinesPerActor := by
    rw [hz.declinesPerActor, h.writes.decline, put_declinesPerActor, put_declinesPerActor,
      hy.declinesPerActor]
  statements := by
    rw [hz.statements, h.writes.statement, put_statements, put_statements, hy.statements]
  statementsPerAuthor := by
    rw [hz.statementsPerAuthor, h.writes.statement, put_statements, put_statementsPerAuthor,
      put_statementsPerAuthor, hy.statementsPerAuthor]
  votes := h.votes hz hy
  candidates hash := h.candidates hz hy hash
  candidatesPerActor := by
    rw [hz.candidatesPerActor, h.writes.candidate]
    cases w with
    | candidate c =>
      exact (bumpBy_comm _ _ _ _).trans (congrArg (bumpCount · e.actor) hy.candidatesPerActor.symm)
    | _ => exact hy.candidatesPerActor.symm
  ratificationBallots := by
    rw [hz.ratificationBallots, h.writes.ballot]
    cases w with
    | ballot payload =>
      change ((s.ratificationBallots ++ [payload]) ++ _).Perm (y.ratificationBallots ++ [payload])
      rw [hy.ratificationBallots, List.append_assoc, List.append_assoc]
      exact List.perm_append_comm.append_left _
    | _ => exact .of_eq hy.ratificationBallots.symm
  ballotsPerActor := by
    rw [hz.ballotsPerActor, h.writes.ballot]
    cases w with
    | ballot payload =>
      exact (bumpBy_comm _ _ _ _).trans (congrArg (bumpCount · e.actor) hy.ballotsPerActor.symm)
    | _ => exact hy.ballotsPerActor.symm
  result := by rw [hz.result, h.writes.result, put_result, put_result, hy.result]
  lastReceivedHlc _ := by
    rw [hz.lastReceivedHlc, h.writes.admits, put_lastReceivedHlc, put_lastReceivedHlc,
      hy.lastReceivedHlc]
    split_ifs
    · exact raiseLane_comm _ _ _
    · rfl
  maxApplied _ := by
    rw [hz.maxApplied, h.writes.admits, put_maxApplied, put_maxApplied, hy.maxApplied]
    split_ifs
    · cases s.maxApplied with
      | none => simp [max_comm]
      | some old => simp [max_left_comm]
    · rfl

end Exchange

end Tier3PollState
end Harmony.Voting
