import Harmony.Voting.Tier3Arrival

/-! What each kind of event does when it arrives behind recorded ones, by what it writes in
its place. -/

namespace Harmony.Voting.Tier3PollState

open Harmony.Lib
open Harmony.Membership (OwnerAddr Digest Hlc)

variable {cx : Codec} {cv : Curve} {r x y : Tier3PollState} {e f : SignedVotingEvent}
  {A B pre post events : List SignedVotingEvent}

/-! ### The write of an event -/

theorem receive_sameParts : SameParts (receive e x) x := by
  constructor <;> first | rfl | exact fun _ => rfl

theorem Stepped.same_put (h : Stepped cx cv x e y) (ha : x.admits cx e = true) {w : LateWrite}
    (hparts : SameParts y (put w e x)) : Same y (put w e x) where
  toSameParts := hparts
  lastReceivedHlc _ := by rw [h.lastReceivedHlc, if_pos ha, put_lastReceivedHlc]
  maxApplied _ := by rw [h.maxApplied, if_pos ha, put_maxApplied]

theorem same_put_nothing (ha : x.admits cx e = true)
    (hquiet : SameParts (x.applyEvent cx cv e).1 x) :
    Same (x.applyEvent cx cv e).1 (put .nothing e x) :=
  (stepped cx cv x e).same_put ha (hquiet.trans receive_sameParts.symm)

/-- What an event writes that cannot start a rebuild, and a vote. -/
def lateWrite (cx : Codec) (cv : Curve) (x : Tier3PollState) (e : SignedVotingEvent) : LateWrite :=
  match e.kind with
  | .deliberationVote => (x.voteOf cx e).elim .nothing .vote
  | .draftCandidate => (x.candidateOf cx e).elim .nothing .candidate
  | .draftApproval => (x.approvalOf cx e).elim .nothing .approval
  | .ratificationBallot => (x.ballotOf cx cv e).elim .nothing .ballot
  | _ => .nothing

theorem same_put_lateWrite (ha : x.admits cx e = true) (hselection : e.kind ≠ .sortitionSelection)
    (hdecline : x.declineOf cx e = none) (hstatement : x.statementOf cx e = none)
    (hfails : e.kind ≠ .sortitionFailed) (hresult : e.kind ≠ .pollResult) :
    Same (x.applyEvent cx cv e).1 (put (lateWrite cx cv x e) e x) := by
  have h : Stepped cx cv x e (x.applyEvent cx cv e).1 := stepped cx cv x e
  refine h.same_put ha ?_
  have hparts : ∀ w, (x.voteOf cx e).elim x.deliberation.votes (castVote x.deliberation.votes) =
      (put w e x).deliberation.votes →
      ((x.approvalOf cx e).elim (x.candidates ++ (x.candidateOf cx e).toList) fun hash =>
        approveFirst hash e.actor x.candidates) = (put w e x).candidates →
      bumpBy x.candidatesPerActor e.actor (x.candidateOf cx e) = (put w e x).candidatesPerActor →
      x.ratificationBallots ++ (x.ballotOf cx cv e).toList = (put w e x).ratificationBallots →
      bumpBy x.ballotsPerActor e.actor (x.ballotOf cx cv e) = (put w e x).ballotsPerActor →
      SameParts (x.applyEvent cx cv e).1 (put w e x) := by
    intro w hvotes hcandidates hperActor hballots hballotsPerActor
    constructor
    case votes => exact h.votes.trans hvotes
    case candidates => exact fun hash => by rw [h.candidates, hcandidates]
    case candidatesPerActor => exact h.candidatesPerActor.trans hperActor
    case ratificationBallots => exact .of_eq (h.ratificationBallots.trans hballots)
    case ballotsPerActor => exact h.ballotsPerActor.trans hballotsPerActor
    all_goals simp [h.meta, h.committeeOracle, h.voided, h.stage, h.sortitionResult, h.declines,
      h.declinesPerActor, h.statements, h.statementsPerAuthor, h.result, hselection, hdecline,
      hstatement, hfails, hresult]
  unfold lateWrite
  cases hk : e.kind with
  | deliberationVote =>
    cases hw : x.voteOf cx e <;> apply hparts <;> simp [hk, hw, put, receive]
  | draftCandidate =>
    cases hw : x.candidateOf cx e <;> apply hparts <;> simp [hk, hw, put, receive]
  | draftApproval =>
    cases hw : x.approvalOf cx e <;> apply hparts <;> simp [hk, hw, put, receive]
  | ratificationBallot =>
    cases hw : x.ballotOf cx cv e <;> apply hparts <;> simp [hk, hw, put, receive]
  | _ => apply hparts <;> simp [hk, put, receive]

theorem sameParts_of_nothing (ha : x.admits cx e = true) (hselection : e.kind ≠ .sortitionSelection)
    (hdecline : x.declineOf cx e = none) (hstatement : x.statementOf cx e = none)
    (hfails : e.kind ≠ .sortitionFailed) (hresult : e.kind ≠ .pollResult)
    (hw : lateWrite cx cv x e = .nothing) : SameParts (x.applyEvent cx cv e).1 x := by
  have h : Same (x.applyEvent cx cv e).1 (put (lateWrite cx cv x e) e x) :=
    same_put_lateWrite ha hselection hdecline hstatement hfails hresult
  rw [hw] at h
  exact h.toSameParts.trans receive_sameParts

theorem replay_of_undecoded (h : ∀ f ∈ B, decodes cx f = false) : x.replay cx cv B = x := by
  induction B with
  | nil => rfl
  | cons f B ih =>
    change (x.applyEvent cx cv f).1.replay cx cv B = x
    rw [applyEvent_of_undecoded (h f (by simp)), ih fun g hg => h g (by simp [hg])]

namespace Arrival

/-! ### Between the event's place and the end -/

theorem meta_at (pre : List SignedVotingEvent) : (r.replay cx cv pre).meta = r.meta :=
  (replay_outside pre).meta

theorem grows_at (hB : B = pre ++ post) :
    Grows (r.replay cx cv (A ++ pre)) (r.replay cx cv (A ++ B)) := by
  rw [hB, ← List.append_assoc, replay_append _ (A ++ pre)]
  exact .replay _ _

theorem grows_after (hB : B = pre ++ f :: post) :
    Grows ((r.replay cx cv (A ++ pre)).applyEvent cx cv f).1 (r.replay cx cv (A ++ B)) := by
  rw [← replay_snoc, List.append_assoc]
  exact grows_at (by rw [hB, List.append_assoc, List.singleton_append])

theorem grows_from (pre : List SignedVotingEvent) :
    Grows (r.replay cx cv A) (r.replay cx cv (A ++ pre)) := by
  rw [replay_append]
  exact .replay _ _

theorem split_at (hB : B = pre ++ f :: post) : A ++ B = (A ++ pre) ++ f :: post := by
  rw [hB, List.append_assoc]

theorem order (h : Arrival cx cv r A B e) (hB : B = pre ++ f :: post) : e.ordinal ≤ f.ordinal :=
  ordinal_le_of_canonicalKey_le (h.lt f (by simp [hB])).le

theorem kind_ne_result (h : Arrival cx cv r A B e) (hB : B = pre ++ f :: post)
    (hd : Tier3PollState.decodes cx f = true) : f.kind ≠ .pollResult := fun hk =>
  h.ends_not (split_at hB) hd (.inl hk)

theorem kind_ne_failed (h : Arrival cx cv r A B e) (hB : B = pre ++ f :: post)
    (hd : Tier3PollState.decodes cx f = true) : f.kind ≠ .sortitionFailed := fun hk =>
  h.ends_not (split_at hB) hd (.inr hk)

theorem sameParts_at (h : Arrival cx cv r A B e) (hB : B = pre ++ f :: post)
    (hc : (r.replay cx cv (A ++ B)).counted cx f = false) :
    SameParts ((r.replay cx cv (A ++ pre)).applyEvent cx cv f).1 (r.replay cx cv (A ++ pre)) := by
  cases hd : Tier3PollState.decodes cx f with
  | false => rw [applyEvent_of_undecoded hd]
  | true =>
    refine sameParts_of_not_counted (stepped cx cv _ f) ?_ (h.kind_ne_failed hB hd)
      (h.kind_ne_result hB hd)
    rw [Bool.eq_false_iff] at hc ⊢
    exact mt (counted_mono (grows_after hB)) hc

/-- What first holds behind a later event holds because of one that is counted. -/
theorem exists_counted (h : Arrival cx cv r A B e) {P : Tier3PollState → Prop}
    (hP : ∀ {x y}, SameParts x y → P x → P y) (hbefore : ¬P (r.replay cx cv A))
    (hafter : P (r.replay cx cv (A ++ B))) : ∃ pre f post, B = pre ++ f :: post ∧
      ¬P (r.replay cx cv (A ++ pre)) ∧ P ((r.replay cx cv (A ++ pre)).applyEvent cx cv f).1 ∧
      (r.replay cx cv (A ++ B)).counted cx f = true := by
  have hfold : ∀ l, r.replay cx cv (A ++ l) =
      l.foldl (fun s ev => (s.applyEvent cx cv ev).1) (r.replay cx cv A) :=
    fun l => replay_append r A l
  rw [hfold] at hafter
  obtain ⟨pre, f, post, hB, hx, hy⟩ := exists_crossing hbefore hafter
  rw [← hfold] at hx hy
  refine ⟨pre, f, post, hB, hx, hy, ?_⟩
  by_contra hc
  exact hx (hP (h.sameParts_at hB (Bool.eq_false_iff.mpr hc)) hy)

/-- A cap that is reached only behind the event's place is reached by a counted event. -/
theorem exists_counted_of_cap (h : Arrival cx cv r A B e) {α : Type}
    {counts : Tier3PollState → BTreeMap OwnerAddr ℕ}
    {write : Tier3PollState → SignedVotingEvent → Option α} {cap : ℕ} {actor : OwnerAddr}
    (hparts : ∀ {x y}, SameParts x y → counts x = counts y)
    (hstep : ∀ x f, counts (x.applyEvent cx cv f).1 = bumpBy (counts x) f.actor (write x f))
    (hbefore : countOf (counts (r.replay cx cv A)) actor < cap)
    (hafter : cap ≤ countOf (counts (r.replay cx cv (A ++ B))) actor) :
    ∃ f ∈ B, ∃ x, f.actor = actor ∧ (write x f).isSome = true ∧
      (r.replay cx cv (A ++ B)).counted cx f = true := by
  obtain ⟨pre, f, post, hB, hx, hy, hc⟩ := h.exists_counted
    (P := fun x => cap ≤ countOf (counts x) actor) (fun hxy hP => hparts hxy ▸ hP)
    (not_le.mpr hbefore) hafter
  rw [hstep] at hy
  refine ⟨f, by simp [hB], r.replay cx cv (A ++ pre), ?_⟩
  cases hw : write (r.replay cx cv (A ++ pre)) f with
  | none =>
    rw [hw] at hy
    exact absurd hy hx
  | some w =>
    refine ⟨?_, rfl, hc⟩
    by_contra hactor
    rw [hw, bumpBy_some, countOf_bumpCount, if_neg hactor] at hy
    exact hx hy

/-- The same write in the event's place and at the end. -/
theorem same_of_put (h : Arrival cx cv r A B e) {w : LateWrite}
    (hw : ∀ pre f post, B = pre ++ f :: post → Tier3PollState.decodes cx f = true →
      Exchanges cx cv w e f (r.replay cx cv (A ++ pre)))
    (hfirst : Same ((r.replay cx cv A).applyEvent cx cv e).1 (put w e (r.replay cx cv A)))
    (hlast : Same ((r.replay cx cv (A ++ B)).applyEvent cx cv e).1
      (put w e (r.replay cx cv (A ++ B)))) :
    Same (r.replay cx cv (A ++ e :: B)) ((r.replay cx cv (A ++ B)).applyEvent cx cv e).1 :=
  (h.bubble hw hfirst).trans hlast.symm

theorem same_of_quiet (h : Arrival cx cv r A B e)
    (hfirst : SameParts ((r.replay cx cv A).applyEvent cx cv e).1 (r.replay cx cv A))
    (hlast : SameParts ((r.replay cx cv (A ++ B)).applyEvent cx cv e).1
      (r.replay cx cv (A ++ B))) :
    Same (r.replay cx cv (A ++ e :: B)) ((r.replay cx cv (A ++ B)).applyEvent cx cv e).1 := by
  refine h.same_of_put (w := .nothing) (fun pre f post hB hd => ?_)
    (same_put_nothing h.admits_first hfirst) (same_put_nothing h.admitted hlast)
  exact {
    order := h.order hB
    kind := h.kind_ne_result hB hd
    vote := nofun
    candidate := nofun
    candidateCap := nofun
    approved := nofun
    approval := nofun
    ballotCap := nofun
    size := fun _ _ => rfl }

/-! ### The end of the poll -/

theorem sameParts_of_uncounted (h : Arrival cx cv r A B e)
    (hc : ∀ f ∈ B, (r.replay cx cv (A ++ B)).counted cx f = false) :
    ∀ post, B = pre ++ post → SameParts (r.replay cx cv (A ++ pre)) (r.replay cx cv A) := by
  induction pre using List.reverseRecOn with
  | nil =>
    intro post _
    rw [List.append_nil]
  | append_singleton pre f ih =>
    intro post hB
    rw [List.append_assoc, List.singleton_append] at hB
    rw [← List.append_assoc, replay_snoc]
    exact (h.sameParts_at hB (hc f (by simp [hB]))).trans (ih _ hB)

theorem same_of_end (h : Arrival cx cv r A B e)
    (hk : e.kind = .pollResult ∨ e.kind = .sortitionFailed)
    (hc : ∀ f ∈ B, (r.replay cx cv (A ++ B)).conflicts cx cv events e f = false) :
    Same (r.replay cx cv (A ++ e :: B)) ((r.replay cx cv (A ++ B)).applyEvent cx cv e).1 := by
  have huncounted : ∀ f ∈ B, (r.replay cx cv (A ++ B)).counted cx f = false := by
    intro f hf
    have hconflict := hc f hf
    rcases hk with hk | hk <;> simpa [conflicts, hk] using hconflict
  have hparts : SameParts (r.replay cx cv A) (r.replay cx cv (A ++ B)) :=
    (h.sameParts_of_uncounted huncounted [] (List.append_nil B).symm).symm
  have hverdict : SameVerdict cx cv (r.replay cx cv A) (r.replay cx cv (A ++ B)) e :=
    (h.sameVerdict (fun g hg => by simp [hg]) (by simp)).trans
      (h.sameVerdict (fun g hg => by simp at hg ⊢; grind) (by simp)).symm
  have hends : ((r.replay cx cv A).applyEvent cx cv e).1.Terminal :=
    terminal_of_admits h.admits_first hk
  have hfold : r.replay cx cv (A ++ e :: B) = ((r.replay cx cv A).applyEvent cx cv e).1 := by
    rw [replay_append]
    exact replay_of_terminal hends
  rw [hfold]
  exact ⟨(stepped cx cv _ e).sameParts (stepped cx cv _ e) hparts
    (hparts.writes (h.admits_first.trans h.admitted.symm) hverdict),
    fun ht => absurd hends ht, fun ht => absurd hends ht⟩

end Arrival

end Harmony.Voting.Tier3PollState
