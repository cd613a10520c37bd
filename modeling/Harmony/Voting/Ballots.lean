import Harmony.Voting.Sample
import Harmony.Voting.Tier3Step

/-! Ballots and voters. A poll remembers the ballots it accepted but not who cast them;
the list of accepted ballots with their actors is kept beside it here. The tally reads one
ballot of each actor, the last one, exactly in the runs in which no actor with a ballot
casts a second one. -/

namespace Harmony.Voting.Tier3PollState

open Harmony.Lib
open Harmony.Membership (OwnerAddr)

/-! ### What the tally reads -/

def talliedBallots (s : Tier3PollState) : List RatificationBallotPayload :=
  if s.meta.config.privacyMode = "se" then lwwDedupSeBallots s.ratificationBallots
  else s.ratificationBallots

/-- The tally of any ballots, with the shares and the committee of the poll. -/
def tallyOf (cv : Curve) (s : Tier3PollState) (ordered : List CandidateRef)
    (ballots : List RatificationBallotPayload) : Option StarResult :=
  if s.meta.config.privacyMode = "se" then
    if ordered.isEmpty then none
    else ((s.tallyShares.keys.map fun k => (ofLex k).2).dedup.insertionSort (· ≥ ·)).findSome?
      (recoverAtEpoch cv s ordered ballots)
  else some (tallyStar ordered ballots)

theorem recomputeExpectedResult_eq_tallyOf (cv : Curve) (s : Tier3PollState)
    (ordered : List CandidateRef) :
    recomputeExpectedResult cv s ordered = tallyOf cv s ordered s.talliedBallots := by
  unfold recomputeExpectedResult tallyOf talliedBallots recoverSecretTally
  split_ifs <;> rfl

theorem talliedBallots_eq (s : Tier3PollState) : s.talliedBallots = s.ratificationBallots := by
  simp [talliedBallots, lwwDedupSeBallots]

/-! ### Accepted ballots -/

variable (cx : Codec) (cv : Curve)

/-- The ballots a run accepts, with the actors who cast them. -/
def acceptedBallots (s : Tier3PollState) :
    List SignedVotingEvent → List (OwnerAddr × RatificationBallotPayload)
  | [] => []
  | ev :: events => (s.ballotOf cx cv ev).toList.map (fun payload => (ev.actor, payload)) ++
      acceptedBallots (s.applyEvent cx cv ev).1 events

/-- The last ballot of each actor. -/
def lastBallots : List (OwnerAddr × RatificationBallotPayload) → List RatificationBallotPayload
  | [] => []
  | (actor, payload) :: rest =>
    if actor ∈ rest.map Prod.fst then lastBallots rest else payload :: lastBallots rest

/-- No ballot has been accepted yet. -/
structure NoBallots (s : Tier3PollState) : Prop where
  ratificationBallots : s.ratificationBallots = []
  ballotsPerActor : s.ballotsPerActor = ∅

/-- Each actor contributes one ballot to the tally, and it is the actor's last. -/
structure OneBallotEach (s : Tier3PollState) (events : List SignedVotingEvent) : Prop where
  count : (s.replay cx cv events).talliedBallots.length ≤
    ((s.acceptedBallots cx cv events).map Prod.fst).toFinset.card
  last : ((s.replay cx cv events).talliedBallots).Perm (lastBallots (s.acceptedBallots cx cv events))

/-- A well-formed ballot of an actor who has one in the poll. -/
def Resubmits (s : Tier3PollState) (ev : SignedVotingEvent) : Prop :=
  (s.wellFormedBallot cx cv ev).isSome = true ∧ countOf s.ballotsPerActor ev.actor = 1

variable {cx cv} {s : Tier3PollState}

theorem newFromCreate_noBallots («meta» : Tier3PollMeta) (electorate : List OwnerAddr) :
    (newFromCreate «meta» electorate).NoBallots := ⟨rfl, rfl⟩

theorem reset_noBallots (s : Tier3PollState) : s.reset.NoBallots := ⟨rfl, rfl⟩

theorem replay_snoc (s : Tier3PollState) (events : List SignedVotingEvent)
    (ev : SignedVotingEvent) :
    s.replay cx cv (events ++ [ev]) = ((s.replay cx cv events).applyEvent cx cv ev).1 := by
  simp [replay]

theorem acceptedBallots_snoc (s : Tier3PollState) (events : List SignedVotingEvent)
    (ev : SignedVotingEvent) :
    s.acceptedBallots cx cv (events ++ [ev]) = s.acceptedBallots cx cv events ++
      ((s.replay cx cv events).ballotOf cx cv ev).toList.map fun payload => (ev.actor, payload) := by
  induction events generalizing s with
  | nil => simp [acceptedBallots, replay]
  | cons e events ih =>
    simp only [List.cons_append, acceptedBallots, ih, List.append_assoc]
    rfl

@[simp] theorem countOf_bumpCount (counts : BTreeMap OwnerAddr ℕ) (actor a : OwnerAddr) :
    countOf (bumpCount counts actor) a = countOf counts a + if actor = a then 1 else 0 := by
  simp only [countOf, bumpCount, BTreeMap.get_insert]
  split_ifs with h
  · rw [h, Option.getD_some]
  · rfl

/-- The ballots of a run are those it accepted, and the counters count them by actor. -/
theorem replay_ballots (hs : s.NoBallots) (events : List SignedVotingEvent) :
    (s.replay cx cv events).ratificationBallots = (s.acceptedBallots cx cv events).map Prod.snd ∧
    ∀ a, countOf (s.replay cx cv events).ballotsPerActor a =
      ((s.acceptedBallots cx cv events).map Prod.fst).count a := by
  induction events using List.reverseRecOn with
  | nil =>
    refine ⟨hs.ratificationBallots, fun a => ?_⟩
    simp [replay, acceptedBallots, hs.ballotsPerActor, countOf]
  | append_singleton events ev ih =>
    obtain ⟨ihballots, ihcount⟩ := ih
    have hstep := stepped cx cv (s.replay cx cv events) ev
    rw [replay_snoc, acceptedBallots_snoc, hstep.ratificationBallots, hstep.ballotsPerActor]
    cases (s.replay cx cv events).ballotOf cx cv ev with
    | none => simpa using ⟨ihballots, ihcount⟩
    | some payload =>
      refine ⟨by simp [ihballots], fun a => ?_⟩
      simp [ihcount a, List.count_singleton]

/-! ### One ballot each -/

theorem lastBallots_of_nodup {l : List (OwnerAddr × RatificationBallotPayload)}
    (h : (l.map Prod.fst).Nodup) : lastBallots l = l.map Prod.snd := by
  induction l with
  | nil => rfl
  | cons x l ih =>
    rw [List.map_cons, List.nodup_cons] at h
    rw [lastBallots, if_neg h.1, ih h.2, List.map_cons]

theorem nodup_of_length_le_card {l : List OwnerAddr} (h : l.length ≤ l.toFinset.card) :
    l.Nodup := by
  have hcard : l.toFinset.card = l.length := le_antisymm (List.toFinset_card_le l) h
  exact Multiset.toFinset_card_eq_card_iff_nodup.mp hcard

theorem oneBallotEach_iff_nodup (hs : s.NoBallots) (events : List SignedVotingEvent) :
    OneBallotEach cx cv s events ↔ ((s.acceptedBallots cx cv events).map Prod.fst).Nodup := by
  have hballots : (s.replay cx cv events).talliedBallots =
      (s.acceptedBallots cx cv events).map Prod.snd := by
    rw [talliedBallots_eq]
    exact (replay_ballots hs events).1
  constructor
  · intro h
    apply nodup_of_length_le_card
    simpa [hballots] using h.count
  · intro h
    constructor
    · rw [hballots, List.toFinset_card_of_nodup h, List.length_map, List.length_map]
    · rw [hballots, lastBallots_of_nodup h]

/-- With one ballot each, the expected result is the tally of each actor's last ballot. -/
theorem recomputeExpectedResult_lastBallots (hs : s.NoBallots) {events : List SignedVotingEvent}
    (h : OneBallotEach cx cv s events) (ordered : List CandidateRef) :
    recomputeExpectedResult cv (s.replay cx cv events) ordered =
      tallyOf cv (s.replay cx cv events) ordered
        (lastBallots (s.acceptedBallots cx cv events)) := by
  have hnd := (oneBallotEach_iff_nodup hs events).mp h
  rw [recomputeExpectedResult_eq_tallyOf, talliedBallots_eq, (replay_ballots hs events).1,
    lastBallots_of_nodup hnd]

/-- A ballot enters the poll as the second of its actor exactly if it resubmits. -/
theorem mem_accepted_iff_resubmits (hs : s.NoBallots) {events : List SignedVotingEvent}
    (hnd : ((s.acceptedBallots cx cv events).map Prod.fst).Nodup) (ev : SignedVotingEvent) :
    (((s.replay cx cv events).ballotOf cx cv ev).isSome = true ∧
      ev.actor ∈ (s.acceptedBallots cx cv events).map Prod.fst) ↔
    Resubmits cx cv (s.replay cx cv events) ev := by
  have hcount : countOf (s.replay cx cv events).ballotsPerActor ev.actor =
      ((s.acceptedBallots cx cv events).map Prod.fst).count ev.actor :=
    (replay_ballots hs events).2 ev.actor
  have hle : ((s.acceptedBallots cx cv events).map Prod.fst).count ev.actor ≤ 1 :=
    List.nodup_iff_count_le_one.mp hnd _
  have hmem : ev.actor ∈ (s.acceptedBallots cx cv events).map Prod.fst ↔
      countOf (s.replay cx cv events).ballotsPerActor ev.actor = 1 := by
    rw [hcount, ← List.count_pos_iff]
    omega
  have hcap : countOf (s.replay cx cv events).ballotsPerActor ev.actor <
      maxRatificationBallotsPerActor := by
    rw [hcount]
    exact Nat.lt_succ_of_le hle
  rw [Resubmits, hmem, ballotOf, if_pos hcap]

/-- The actors of a run's accepted ballots differ exactly if no event of it resubmits. -/
theorem nodup_accepted_iff (hs : s.NoBallots) (events : List SignedVotingEvent) :
    ((s.acceptedBallots cx cv events).map Prod.fst).Nodup ↔
      ∀ pre ev, pre ++ [ev] <+: events → ¬Resubmits cx cv (s.replay cx cv pre) ev := by
  induction events using List.reverseRecOn with
  | nil => simp [acceptedBallots]
  | append_singleton events ev ih =>
    have hlast : ((s.acceptedBallots cx cv (events ++ [ev])).map Prod.fst).Nodup ↔
        ((s.acceptedBallots cx cv events).map Prod.fst).Nodup ∧
          ¬Resubmits cx cv (s.replay cx cv events) ev := by
      rw [acceptedBallots_snoc, List.map_append]
      constructor
      · intro h
        have hnd := h.of_append_left
        refine ⟨hnd, fun hr => ?_⟩
        obtain ⟨hsome, hmem⟩ := (mem_accepted_iff_resubmits hs hnd ev).mpr hr
        obtain ⟨payload, hpayload⟩ := Option.isSome_iff_exists.mp hsome
        rw [hpayload] at h
        exact List.disjoint_of_nodup_append h hmem (by simp)
      · rintro ⟨hnd, hr⟩
        rw [← mem_accepted_iff_resubmits hs hnd ev, not_and] at hr
        cases hb : (s.replay cx cv events).ballotOf cx cv ev with
        | none => simpa using hnd
        | some payload =>
          have hnew := hr (by simp [hb])
          refine List.nodup_append.mpr ⟨hnd, by simp, fun a ha b hb => ?_⟩
          obtain rfl : b = ev.actor := by simpa using hb
          rintro rfl
          exact hnew ha
    rw [hlast, ih]
    constructor
    · rintro ⟨hpre, hr⟩ pre e he
      rcases List.prefix_concat_iff.mp he with heq | he
      · obtain ⟨rfl, rfl⟩ := List.append_inj' heq rfl |>.imp id List.singleton_inj.mp
        exact hr
      · exact hpre pre e he
    · intro h
      exact ⟨fun pre e he => h pre e (he.trans (List.prefix_append _ _)),
        h events ev (List.prefix_refl _)⟩

/-- The state is the outcome of a run from a poll without ballots. -/
def IsReplay (cx : Codec) (cv : Curve) (t3 : Tier3PollState) : Prop :=
  ∃ s events, NoBallots s ∧ t3 = s.replay cx cv events

/-- So is every state a log holds: calls append to the run, rebuilds start a new one. -/
theorem applyTier3To_isReplay {p p' : PollState} {t3 t3' : Tier3PollState}
    {event : SignedVotingEvent} (h : IsReplay cx cv t3)
    (happly : VotingLog.applyTier3To cx cv p t3 event = (p', .ok ()))
    (hp : p'.tierState = .tier3 t3') : IsReplay cx cv t3' := by
  obtain ⟨u, hu, heffect⟩ : ∃ u, p'.tierState = .tier3 u ∧
      VotingLog.Tier3Effect cx cv p t3 event u := VotingLog.applyTier3To_effect happly
  obtain rfl := TierState.tier3.inj (hu.symm.trans hp)
  cases heffect with
  | applied outcome hok hkeep =>
    obtain ⟨s, events, hs, rfl⟩ := h
    exact ⟨s, events ++ [event], hs, (replay_snoc s events event).symm⟩
  | rebuilt => exact ⟨_, _, reset_noBallots _, rfl⟩

/-- From a poll without ballots, each actor contributes one ballot to the tally, the
actor's last, exactly if no well-formed ballot of the run comes from an actor who has one. -/
theorem oneBallotEach_iff {cx : Codec} {cv : Curve} {s : Tier3PollState} (hs : s.NoBallots)
    (events : List SignedVotingEvent) :
    OneBallotEach cx cv s events ↔
      ∀ pre ev, pre ++ [ev] <+: events → ¬Resubmits cx cv (s.replay cx cv pre) ev :=
  (oneBallotEach_iff_nodup hs events).trans (nodup_accepted_iff hs events)

/-- The sample poll as its PollCreate leaves it. -/
def sampleTier3 : Tier3PollState :=
  newFromCreate ⟨Sample.sortitionPoll, 1, ⟨1, 0, "a"⟩, Sample.sortitionConfig,
    0x710fed5cf4533a25be7f5f66771c196094407d80e062711961bd3f2182026f1b, 0⟩ []

/-- Members 2 and 3 vote, each once. -/
theorem oneBallotEach_iff_oneBallot :
    OneBallotEach Sample.sortitionCodec Sample.onePointCurve sampleTier3
      [Sample.ballot 120002 5, { Sample.ballot 120003 0 with actor := 3 }] ∧
    (acceptedBallots Sample.sortitionCodec Sample.onePointCurve sampleTier3
      [Sample.ballot 120002 5, { Sample.ballot 120003 0 with actor := 3 }]).map Prod.fst
        = [2, 3] := by
  refine ⟨(oneBallotEach_iff (newFromCreate_noBallots _ _) _).mpr ?_, by decide +kernel⟩
  rintro pre ev ⟨post, hpost⟩ ⟨-, hcount⟩
  obtain _ | ⟨first, _ | ⟨second, pre⟩⟩ := pre
  · simp [replay, newFromCreate, countOf] at hcount
  · simp only [List.cons_append, List.nil_append, List.cons.injEq] at hpost
    obtain ⟨rfl, rfl, -⟩ := hpost
    revert hcount
    decide +kernel
  · have hlength := congrArg List.length hpost
    simp at hlength

/-- Member 2 votes twice, and both ballots are tallied. -/
theorem two_ballots_of_one_member :
    (acceptedBallots Sample.sortitionCodec Sample.onePointCurve sampleTier3
      [Sample.ballot 120002 5, Sample.ballot 120003 0]).map Prod.fst = [2, 2] ∧
    (sampleTier3.replay Sample.sortitionCodec Sample.onePointCurve
      [Sample.ballot 120002 5, Sample.ballot 120003 0]).talliedBallots.length = 2 ∧
    ¬OneBallotEach Sample.sortitionCodec Sample.onePointCurve sampleTier3
      [Sample.ballot 120002 5, Sample.ballot 120003 0] := by
  have haccepted : (acceptedBallots Sample.sortitionCodec Sample.onePointCurve sampleTier3
      [Sample.ballot 120002 5, Sample.ballot 120003 0]).map Prod.fst = [2, 2] := by decide +kernel
  refine ⟨haccepted, by decide +kernel, fun h => ?_⟩
  have hnd : ((acceptedBallots Sample.sortitionCodec Sample.onePointCurve sampleTier3
      [Sample.ballot 120002 5, Sample.ballot 120003 0]).map Prod.fst).Nodup :=
    (oneBallotEach_iff_nodup (newFromCreate_noBallots _ _) _).mp h
  rw [haccepted] at hnd
  exact absurd hnd (by decide)

end Harmony.Voting.Tier3PollState
