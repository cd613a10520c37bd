import Harmony.Voting.Tier3Late

/-! Which recorded events an arriving one conflicts with: those behind it in the canonical
order that wrote what it would have changed, or that would have read what it writes. -/

namespace Harmony.Voting.Tier3PollState

open Harmony.Lib
open Harmony.Membership (OwnerAddr Digest Hlc)

variable (cx : Codec) (cv : Curve)

/-- The candidate an approval names. -/
def names (f : SignedVotingEvent) : Option Digest :=
  (cx.draftApproval f.payload).toOption.map DraftApprovalPayload.candidateEventHash

def firstWith (s : Tier3PollState) (hash : Digest) : Option DraftCandidateState :=
  s.candidates.find? (·.eventHash = hash)

/-- What the event writes is in the state. -/
def counted (s : Tier3PollState) (f : SignedVotingEvent) : Bool :=
  match f.kind with
  | .sortitionSelection => true
  | .miniPublicDecline => (f.actor, f.hlc) ∈ s.declines
  | .deliberationStatement => s.deliberation.statements[sha256OfSigningBytes cx f]?.isSome
  | .deliberationVote => (cx.deliberationVote f.payload).toOption.any fun payload =>
      let key : OwnerAddr ×ₗ Digest := toLex (f.actor, payload.statementEventHash)
      s.deliberation.votes[key]?.any fun entry => canonicalKey cx f ≤ entry.stamp
  | .draftCandidate => (s.firstWith (sha256OfSigningBytes cx f)).isSome
  | .draftApproval => (names cx f).any fun hash => (s.firstWith hash).any (f.actor ∈ ·.approvals)
  | .ratificationBallot => (cx.ratificationBallot f.payload).toOption.any (· ∈ s.ratificationBallots)
  | _ => false

/-- The actor has used up what the kind allows. -/
def capReached (s : Tier3PollState) (e : SignedVotingEvent) : Bool :=
  match e.kind with
  | .miniPublicDecline => maxDeclinesPerActor ≤ countOf s.declinesPerActor e.actor
  | .deliberationStatement =>
    maxStatementsPerAuthor ≤ countOf s.deliberation.statementsPerAuthor e.actor
  | .draftCandidate => maxDraftCandidatesPerActor ≤ countOf s.candidatesPerActor e.actor
  | .ratificationBallot => maxRatificationBallotsPerActor ≤ countOf s.ballotsPerActor e.actor
  | _ => false

/-- The event passes every check but the cap. -/
def eligible (s : Tier3PollState) (e : SignedVotingEvent) : Bool :=
  match e.kind with
  | .deliberationStatement => s.mayDeliberate e &&
      (cx.deliberationStatement e.payload).toOption.any fun payload => textOk payload.text
  | .deliberationVote => (s.voteOf cx e).isSome
  | .ratificationBallot => (s.wellFormedBallot cx cv e).isSome
  | _ => true

def selectionIn (g : SignedVotingEvent) : Option SortitionResult :=
  if g.kind = .sortitionSelection then
    (cx.sortitionSelection g.payload).toOption.map fun payload => ⟨payload.primary, payload.backup⟩
  else none

/-- The last selection recorded up to the event. -/
def selectionBefore (events : List SignedVotingEvent) (e : SignedVotingEvent) :
    Option SortitionResult :=
  (((sortBy (canonicalKey cx) events).filter fun g => canonicalKey cx g ≤ canonicalKey cx e).filterMap
    (selectionIn cx)).getLast?

/-- With the approval the candidate has enough of them to be on the ballot. -/
def lifts (s : Tier3PollState) (e : SignedVotingEvent) : Bool :=
  (names cx e).any fun hash => (s.firstWith hash).any fun c =>
    (s.meta.config.sortitionSize + 1) / 2 ≤ (insert e.actor c.approvals).card

/-- A later selection or decline took the event's actor off the mini-public. -/
def outranks (s : Tier3PollState) (events : List SignedVotingEvent) (e f : SignedVotingEvent) :
    Bool :=
  (f.kind = .sortitionSelection &&
    eligible cx cv { s with sortitionResult := selectionBefore cx events e } e) ||
  (f.kind = .miniPublicDecline && f.key = e.key)

/-- The event `e`, arriving at `s`, conflicts with the recorded `f` of a later key. -/
def conflicts (s : Tier3PollState) (events : List SignedVotingEvent) (e f : SignedVotingEvent) :
    Bool :=
  match e.kind with
  | .miniPublicDecline => f.kind = e.kind && f.actor = e.actor && s.capReached e && s.counted cx f
  | .deliberationStatement =>
    (f.kind = e.kind && f.actor = e.actor && s.eligible cx cv e && s.capReached e && s.counted cx f) ||
    (!s.mayDeliberate e && s.outranks cx cv events e f)
  | .deliberationVote => !s.mayDeliberate e && s.outranks cx cv events e f
  | .draftCandidate =>
    (f.kind = e.kind && f.actor = e.actor && s.capReached e && s.counted cx f) ||
    -- the approval of a candidate that was not there yet
    (f.kind = .draftApproval && names cx f = some (sha256OfSigningBytes cx e) &&
      f.actor ≠ e.actor && !s.capReached e && !s.counted cx e)
  | .draftApproval =>
    (f.kind = .draftCandidate && names cx e = some (sha256OfSigningBytes cx f) &&
      s.counted cx f && !s.counted cx e) ||
    (f.kind = .ratificationBallot && s.meta.config.privacyMode = "se" && s.lifts cx e)
  | .ratificationBallot =>
    (f.kind = e.kind && f.actor = e.actor && s.eligible cx cv e && s.capReached e && s.counted cx f) ||
    (f.kind = .draftApproval && s.meta.config.privacyMode = "se" && s.counted cx f && s.lifts cx f)
  | .sortitionFailed => s.counted cx f
  | .pollResult => s.counted cx f
  | _ => false

variable {cx cv} {s x y z : Tier3PollState} {e f : SignedVotingEvent}

/-! ### States only grow -/

structure Grows (x y : Tier3PollState) : Prop where
  declines : ∀ d ∈ x.declines, d ∈ y.declines
  declinesPerActor : ∀ a, countOf x.declinesPerActor a ≤ countOf y.declinesPerActor a
  statements : ∀ hash : Digest, x.deliberation.statements[hash]?.isSome →
    y.deliberation.statements[hash]?.isSome
  statementsPerAuthor : ∀ a, countOf x.deliberation.statementsPerAuthor a ≤
    countOf y.deliberation.statementsPerAuthor a
  votes : ∀ (k : OwnerAddr ×ₗ Digest) (v : DeliberationVoteEntry), x.deliberation.votes[k]? = some v →
    ∃ v', y.deliberation.votes[k]? = some v' ∧ v.stamp ≤ v'.stamp
  candidates : ∀ hash c, x.firstWith hash = some c →
    ∃ c', y.firstWith hash = some c' ∧ c.approvals ⊆ c'.approvals
  candidatesPerActor : ∀ a, countOf x.candidatesPerActor a ≤ countOf y.candidatesPerActor a
  ballots : ∀ b ∈ x.ratificationBallots, b ∈ y.ratificationBallots
  ballotsPerActor : ∀ a, countOf x.ballotsPerActor a ≤ countOf y.ballotsPerActor a

theorem Grows.refl (x : Tier3PollState) : Grows x x := by
  constructor <;> first | exact fun _ => le_rfl | exact fun _ h => h | skip
  · exact fun _ v h => ⟨v, h, le_rfl⟩
  · exact fun _ c h => ⟨c, h, subset_rfl⟩

theorem Grows.trans (h : Grows x y) (h' : Grows y z) : Grows x z where
  declines d hd := h'.declines d (h.declines d hd)
  declinesPerActor a := (h.declinesPerActor a).trans (h'.declinesPerActor a)
  statements hash hs := h'.statements hash (h.statements hash hs)
  statementsPerAuthor a := (h.statementsPerAuthor a).trans (h'.statementsPerAuthor a)
  votes k v hv := by
    obtain ⟨v', hv', hle⟩ := h.votes k v hv
    obtain ⟨v'', hv'', hle'⟩ := h'.votes k v' hv'
    exact ⟨v'', hv'', hle.trans hle'⟩
  candidates hash c hc := by
    obtain ⟨c', hc', hsub⟩ := h.candidates hash c hc
    obtain ⟨c'', hc'', hsub'⟩ := h'.candidates hash c' hc'
    exact ⟨c'', hc'', hsub.trans hsub'⟩
  candidatesPerActor a := (h.candidatesPerActor a).trans (h'.candidatesPerActor a)
  ballots b hb := h'.ballots b (h.ballots b hb)
  ballotsPerActor a := (h.ballotsPerActor a).trans (h'.ballotsPerActor a)

theorem le_countOf_bumpBy {α : Type} (counts : BTreeMap OwnerAddr ℕ) (a k : OwnerAddr)
    (write : Option α) : countOf counts k ≤ countOf (bumpBy counts a write) k := by
  cases write with
  | none => exact le_rfl
  | some _ =>
    rw [bumpBy_some, countOf_bumpCount]
    exact Nat.le_add_right _ _

theorem get_castVote_le {votes : BTreeMap (OwnerAddr ×ₗ Digest) DeliberationVoteEntry}
    (entry : DeliberationVoteEntry) {k : OwnerAddr ×ₗ Digest} {v : DeliberationVoteEntry}
    (h : votes[k]? = some v) : ∃ v', (castVote votes entry)[k]? = some v' ∧ v.stamp ≤ v'.stamp := by
  rw [get_castVote, h, Option.elim_some]
  split_ifs with hk hlt
  · exact ⟨entry, rfl, hlt.le⟩
  · exact ⟨v, rfl, le_rfl⟩
  · exact ⟨v, rfl, le_rfl⟩

theorem find_approveFirst (hash hash' : Digest) (a : OwnerAddr) (l : List DraftCandidateState) :
    (approveFirst hash a l).find? (·.eventHash = hash') =
      (l.find? (·.eventHash = hash')).map fun c =>
        if hash = hash' then { c with approvals := insert a c.approvals } else c := by
  induction l with
  | nil => rfl
  | cons c cs ih =>
    rw [approveFirst]
    split_ifs with hc hh hh
    · have hc' : c.eventHash = hash' := hc.trans hh
      rw [List.find?_cons_of_pos (by simpa using hc'), List.find?_cons_of_pos (by simpa using hc')]
      rfl
    · have hc' : c.eventHash ≠ hash' := fun hc' => hh (hc.symm.trans hc')
      rw [List.find?_cons_of_neg (by simpa using hc'), List.find?_cons_of_neg (by simpa using hc')]
      exact Option.map_id'.symm
    · have hc' : c.eventHash ≠ hash' := fun hc' => hc (hc'.trans hh.symm)
      rw [List.find?_cons_of_neg (by simpa using hc'), List.find?_cons_of_neg (by simpa using hc'),
        ih]
      simp only [if_pos hh]
    · by_cases hc' : c.eventHash = hash'
      · rw [List.find?_cons_of_pos (by simpa using hc'), List.find?_cons_of_pos (by simpa using hc')]
        rfl
      · rw [List.find?_cons_of_neg (by simpa using hc'), List.find?_cons_of_neg (by simpa using hc'),
          ih]
        simp only [if_neg hh]

theorem Grows.of_stepped (h : Stepped cx cv x f y) : Grows x y where
  declines d hd := by
    rw [h.declines]
    exact List.mem_append_left _ hd
  declinesPerActor a := by
    rw [h.declinesPerActor]
    exact le_countOf_bumpBy _ _ _ _
  statements hash hs := by
    rw [h.statements]
    cases x.statementOf cx f with
    | none => exact hs
    | some statement =>
      rw [Option.elim_some, BTreeMap.get_insert]
      split_ifs
      · rfl
      · exact hs
  statementsPerAuthor a := by
    rw [h.statementsPerAuthor]
    exact le_countOf_bumpBy _ _ _ _
  votes k v hv := by
    rw [h.votes]
    cases x.voteOf cx f with
    | none => exact ⟨v, hv, le_rfl⟩
    | some entry => exact get_castVote_le entry hv
  candidates hash c hc := by
    rw [firstWith, h.candidates]
    cases x.approvalOf cx f with
    | none =>
      refine ⟨c, ?_, subset_rfl⟩
      rw [firstWith] at hc
      rw [Option.elim_none, List.find?_append, hc, Option.some_or]
    | some hash' =>
      rw [Option.elim_some, find_approveFirst]
      refine ⟨_, congrArg (Option.map _) hc, ?_⟩
      split_ifs
      · exact Finset.subset_insert _ _
      · exact subset_rfl
  candidatesPerActor a := by
    rw [h.candidatesPerActor]
    exact le_countOf_bumpBy _ _ _ _
  ballots b hb := by
    rw [h.ratificationBallots]
    exact List.mem_append_left _ hb
  ballotsPerActor a := by
    rw [h.ballotsPerActor]
    exact le_countOf_bumpBy _ _ _ _

theorem Grows.replay (x : Tier3PollState) (l : List SignedVotingEvent) :
    Grows x (x.replay cx cv l) := by
  induction l generalizing x with
  | nil => exact .refl x
  | cons f l ih => exact (Grows.of_stepped (stepped cx cv x f)).trans (ih _)

theorem counted_mono (h : Grows x y) (hx : x.counted cx f = true) : y.counted cx f = true := by
  unfold counted at hx ⊢
  cases hk : f.kind with
  | sortitionSelection => rfl
  | miniPublicDecline =>
    simp only [hk, decide_eq_true_eq] at hx ⊢
    exact h.declines _ hx
  | deliberationStatement =>
    simp only [hk] at hx ⊢
    exact h.statements _ hx
  | deliberationVote =>
    simp only [hk, Option.any_eq_true, decide_eq_true_eq] at hx ⊢
    obtain ⟨payload, hp, entry, hentry, hle⟩ := hx
    obtain ⟨entry', hentry', hle'⟩ := h.votes _ entry hentry
    exact ⟨payload, hp, entry', hentry', hle.trans hle'⟩
  | draftCandidate =>
    simp only [hk] at hx ⊢
    obtain ⟨c, hc⟩ := Option.isSome_iff_exists.mp hx
    obtain ⟨c', hc', -⟩ := h.candidates _ c hc
    rw [hc']
    rfl
  | draftApproval =>
    simp only [hk, Option.any_eq_true, decide_eq_true_eq] at hx ⊢
    obtain ⟨hash, hhash, c, hc, hin⟩ := hx
    obtain ⟨c', hc', hsub⟩ := h.candidates _ c hc
    exact ⟨hash, hhash, c', hc', hsub hin⟩
  | ratificationBallot =>
    simp only [hk, Option.any_eq_true, decide_eq_true_eq] at hx ⊢
    obtain ⟨payload, hp, hin⟩ := hx
    exact ⟨payload, hp, h.ballots _ hin⟩
  | _ => simp [hk] at hx

/-- An event that writes nothing new leaves the parts as they were. -/
theorem Stepped.quiet (h : Stepped cx cv x f y) (hselection : x.selectionOf cx f = none)
    (hdecline : x.declineOf cx f = none) (hstatement : x.statementOf cx f = none)
    (hvotes : y.deliberation.votes = x.deliberation.votes)
    (hcandidate : x.candidateOf cx f = none) (happroval : ∀ hash, x.approvalOf cx f = some hash →
      approveFirst hash f.actor x.candidates = x.candidates)
    (hballot : x.ballotOf cx cv f = none) (hresult : x.resultOf cx cv f = none)
    (hfails : x.failsBy cx f = false) : SameParts y x where
  «meta» := h.meta
  committeeOracle := h.committeeOracle
  voided := h.voided
  stage := by rw [h.stage, hfails, hresult]; rfl
  sortitionResult := by rw [h.sortitionResult, hselection, Option.none_or]
  declines := by rw [h.declines, hdecline, Option.toList_none, List.append_nil]
  declinesPerActor := by rw [h.declinesPerActor, hdecline, bumpBy_none]
  statements := by rw [h.statements, hstatement, Option.elim_none]
  statementsPerAuthor := by rw [h.statementsPerAuthor, hstatement, Option.filter_none, bumpBy_none]
  votes := hvotes
  candidates hash := by
    rw [h.candidates, hcandidate, Option.toList_none, List.append_nil]
    cases happ : x.approvalOf cx f with
    | none => rfl
    | some hash' => rw [Option.elim_some, happroval hash' happ]
  candidatesPerActor := by rw [h.candidatesPerActor, hcandidate, bumpBy_none]
  ratificationBallots := by rw [h.ratificationBallots, hballot, Option.toList_none, List.append_nil]
  ballotsPerActor := by rw [h.ballotsPerActor, hballot, bumpBy_none]
  result := by rw [h.result, hresult, Option.none_or]

theorem voteOf_eq_some {entry : DeliberationVoteEntry} (h : x.voteOf cx f = some entry) :
    ∃ payload, cx.deliberationVote f.payload = .ok payload ∧ entry.voter = f.actor ∧
      entry.statementEventHash = payload.statementEventHash ∧ entry.stamp = canonicalKey cx f := by
  rw [voteOf] at h
  split_ifs at h
  cases hp : cx.deliberationVote f.payload with
  | error reason => simp [hp, Except.toOption] at h
  | ok payload =>
    simp only [hp, Except.toOption, Option.bind_eq_bind, Option.bind_some,
      Option.bind_eq_some_iff] at h
    obtain ⟨target, -, h⟩ := h
    split_ifs at h
    obtain ⟨code, -, h⟩ := Option.bind_eq_some_iff.mp h
    cases h
    exact ⟨payload, rfl, rfl, rfl, rfl⟩

theorem firstWith_isSome {hash : Digest} :
    (x.firstWith hash).isSome = x.candidates.any (·.eventHash = hash) := by
  rw [firstWith, List.isSome_find?]

theorem approvalOf_eq_some {hash : Digest} (h : x.approvalOf cx f = some hash) :
    f.kind = .draftApproval ∧ names cx f = some hash := by
  rw [approvalOf] at h
  split_ifs at h with hc
  exact ⟨hc.2, h⟩

section NotCounted

variable (h : Stepped cx cv x f y) (hy : y.counted cx f = false)
include h hy

theorem declineOf_of_not_counted (hk : f.kind = .miniPublicDecline) : x.declineOf cx f = none := by
  simp only [counted, hk, decide_eq_false_iff_not] at hy
  cases hw : x.declineOf cx f with
  | none => rfl
  | some d =>
    have hd : d = (f.actor, f.hlc) := by
      rw [declineOf] at hw
      split_ifs at hw
      exact (Option.some.inj hw).symm
    rw [h.declines, hw, hd] at hy
    simp at hy

theorem statementOf_of_not_counted (hk : f.kind = .deliberationStatement) :
    x.statementOf cx f = none := by
  simp only [counted, hk] at hy
  cases hw : x.statementOf cx f with
  | none => rfl
  | some statement =>
    have hhash : statement.eventHash = sha256OfSigningBytes cx f := by
      rw [statementOf] at hw
      split_ifs at hw
      obtain ⟨payload, -, rfl⟩ := Option.map_eq_some_iff.mp hw
      rfl
    rw [h.statements, hw, Option.elim_some, hhash, BTreeMap.get_insert, if_pos rfl] at hy
    cases hy

/-- A vote that changed something stands behind it, with a stamp no older than its own. -/
theorem votes_of_not_counted (hk : f.kind = .deliberationVote) :
    y.deliberation.votes = x.deliberation.votes := by
  simp only [counted, hk] at hy
  cases hw : x.voteOf cx f with
  | none => rw [h.votes, hw, Option.elim_none]
  | some entry =>
    obtain ⟨payload, hp, hvoter, hstatement, hstamp⟩ := voteOf_eq_some hw
    rw [hp, h.votes, hw, Option.elim_some] at hy
    simp only [Except.toOption, Option.any_some, get_castVote, hvoter, hstatement, if_true,
      decide_eq_false_iff_not] at hy
    refine absurd ?_ hy
    rw [← hstamp]
    cases x.deliberation.votes[(toLex (f.actor, payload.statementEventHash) :
      OwnerAddr ×ₗ Digest)]? with
    | none => exact le_rfl
    | some old =>
      rw [Option.elim_some]
      split_ifs with hlt
      · exact le_rfl
      · exact not_lt.mp hlt

theorem candidateOf_of_not_counted (hk : f.kind = .draftCandidate) : x.candidateOf cx f = none := by
  simp only [counted, hk] at hy
  cases hw : x.candidateOf cx f with
  | none => rfl
  | some c =>
    have hhash : c.eventHash = sha256OfSigningBytes cx f := by
      rw [candidateOf] at hw
      split_ifs at hw
      obtain ⟨payload, -, rfl⟩ := Option.map_eq_some_iff.mp hw
      rfl
    rw [firstWith_isSome, h.candidates, approvalOf_of_ne (by simp [hk]), hw] at hy
    simp [hhash] at hy

theorem approveFirst_of_not_counted (hk : f.kind = .draftApproval) {hash : Digest}
    (happ : x.approvalOf cx f = some hash) :
    approveFirst hash f.actor x.candidates = x.candidates := by
  simp only [counted, hk] at hy
  rw [(approvalOf_eq_some happ).2, Option.any_some, firstWith, h.candidates, happ,
    Option.elim_some, find_approveFirst, Option.any_map] at hy
  refine approveFirst_of_not_any ?_
  rw [← firstWith_isSome, firstWith]
  cases hc : x.candidates.find? (·.eventHash = hash) with
  | none => rfl
  | some c => simp [hc] at hy

theorem ballotOf_of_not_counted (hk : f.kind = .ratificationBallot) :
    x.ballotOf cx cv f = none := by
  simp only [counted, hk] at hy
  cases hw : x.ballotOf cx cv f with
  | none => rfl
  | some payload =>
    have hp : cx.ratificationBallot f.payload = .ok payload := by
      rw [ballotOf] at hw
      split_ifs at hw
      exact (wellFormedBallot_ok hw).1
    rw [hp, h.ratificationBallots, hw] at hy
    simp [Except.toOption] at hy

omit h in
theorem kind_ne_selection_of_not_counted : f.kind ≠ .sortitionSelection := by
  intro hk
  simp [counted, hk] at hy

/-- What an event writes is counted right after it. -/
theorem sameParts_of_not_counted (hf : f.kind ≠ .sortitionFailed) (hr : f.kind ≠ .pollResult) :
    SameParts y x := by
  refine h.quiet (selectionOf_of_ne (kind_ne_selection_of_not_counted hy)) ?_ ?_ ?_ ?_
    (fun hash happ => approveFirst_of_not_counted h hy (approvalOf_eq_some happ).1 happ) ?_
    (resultOf_of_ne hr) (failsBy_of_ne hf)
  · by_cases hk : f.kind = .miniPublicDecline
    · exact declineOf_of_not_counted h hy hk
    · exact declineOf_of_ne hk
  · by_cases hk : f.kind = .deliberationStatement
    · exact statementOf_of_not_counted h hy hk
    · exact statementOf_of_ne hk
  · by_cases hk : f.kind = .deliberationVote
    · exact votes_of_not_counted h hy hk
    · rw [h.votes, voteOf_of_ne hk, Option.elim_none]
  · by_cases hk : f.kind = .draftCandidate
    · exact candidateOf_of_not_counted h hy hk
    · exact candidateOf_of_ne hk
  · by_cases hk : f.kind = .ratificationBallot
    · exact ballotOf_of_not_counted h hy hk
    · exact ballotOf_of_ne hk

end NotCounted

end Harmony.Voting.Tier3PollState
