import Harmony.Voting.Sample
import Harmony.Voting.Tier3Step

/-! A poll rebuilt from its recorded events. The signature is not read, so events with one
signing hash fold alike and the order of arrival does not matter. The verdict cache, which
a rebuild keeps, changes no verdict: a second rebuild folds to the same state. -/

namespace Harmony.Voting

open Harmony.Lib
open Harmony.Membership (OwnerAddr EventId Digest Bytes Hlc)

/-- No two events of the list share a signing hash without sharing what is signed. -/
def CollisionFree (cx : Codec) (events : List SignedVotingEvent) : Prop :=
  ∀ a ∈ events, ∀ b ∈ events, sha256OfSigningBytes cx a = sha256OfSigningBytes cx b →
    a.toSigInput = b.toSigInput

theorem CollisionFree.tail {cx : Codec} {ev : SignedVotingEvent} {events : List SignedVotingEvent}
    (h : CollisionFree cx (ev :: events)) : CollisionFree cx events :=
  fun a ha b hb => h a (.tail _ ha) b (.tail _ hb)

theorem CollisionFree.sortBy {cx : Codec} {events : List SignedVotingEvent}
    (h : CollisionFree cx events) : CollisionFree cx (sortBy (canonicalKey cx) events) :=
  fun a ha b hb => h a (mem_sortBy.mp ha) b (mem_sortBy.mp hb)

theorem map_toSigInput_eq {cx : Codec} {events l l' : List SignedVotingEvent}
    (h : CollisionFree cx events) (hl : ∀ ev ∈ l, ev ∈ events) (hl' : ∀ ev ∈ l', ev ∈ events)
    (hkeys : l.map (canonicalKey cx) = l'.map (canonicalKey cx)) :
    l.map SignedVotingEvent.toSigInput = l'.map SignedVotingEvent.toSigInput := by
  induction l generalizing l' with
  | nil =>
    have hnil : l' = [] := by simpa using hkeys.symm
    rw [hnil]
  | cons a l ih =>
    cases l' with
    | nil => simp at hkeys
    | cons b l' =>
      simp only [List.map_cons, List.cons.injEq] at hkeys ⊢
      have hhash : sha256OfSigningBytes cx a = sha256OfSigningBytes cx b :=
        congrArg (fun k => (ofLex k).2) hkeys.1
      exact ⟨h a (hl a (by simp)) b (hl' b (by simp)) hhash,
        ih (fun ev hev => hl ev (by simp [hev])) (fun ev hev => hl' ev (by simp [hev])) hkeys.2⟩

theorem map_toSigInput_sortBy {cx : Codec} {events events' : List SignedVotingEvent}
    (h : CollisionFree cx events) (hp : events'.Perm events) :
    (sortBy (canonicalKey cx) events').map SignedVotingEvent.toSigInput =
      (sortBy (canonicalKey cx) events).map SignedVotingEvent.toSigInput := by
  refine map_toSigInput_eq h (fun ev hev => hp.mem_iff.mp (mem_sortBy.mp hev))
    (fun ev hev => mem_sortBy.mp hev) ?_
  have hperm : ((sortBy (canonicalKey cx) events').map (canonicalKey cx)).Perm
      ((sortBy (canonicalKey cx) events).map (canonicalKey cx)) :=
    ((sortBy_perm _).trans (hp.trans (sortBy_perm _).symm)).map _
  exact hperm.eq_of_pairwise' (List.pairwise_map.mpr (sortBy_sorted _))
    (List.pairwise_map.mpr (sortBy_sorted _))

namespace Tier3PollState

variable (cx : Codec) (cv : Curve)

theorem applyEvent_congr {a b : SignedVotingEvent} (h : a.toSigInput = b.toSigInput)
    (s : Tier3PollState) : s.applyEvent cx cv a = s.applyEvent cx cv b := by
  obtain ⟨input, sig⟩ := a
  obtain ⟨input', sig'⟩ := b
  obtain rfl : input = input' := h
  rfl

theorem replay_congr {l l' : List SignedVotingEvent}
    (h : l.map SignedVotingEvent.toSigInput = l'.map SignedVotingEvent.toSigInput)
    (s : Tier3PollState) : s.replay cx cv l = s.replay cx cv l' := by
  induction l generalizing l' s with
  | nil =>
    have hnil : l' = [] := by simpa using h.symm
    rw [hnil]
  | cons a l ih =>
    cases l' with
    | nil => simp at h
    | cons b l' =>
      simp only [List.map_cons, List.cons.injEq] at h
      simp only [replay, List.foldl_cons, applyEvent_congr cx cv h.1 s]
      exact ih h.2 _

/-! ### The verdict cache -/

/-- The state with another cache and another count. -/
def withCache (s : Tier3PollState) (cache : BTreeMap (Digest ×ₗ ℕ) Bool) (count : ℕ) :
    Tier3PollState :=
  { s with rbNizkVerdicts := cache, rebuildCount := count }

def SameVerdict (s t : Tier3PollState) (ev : SignedVotingEvent) : Prop :=
  ∀ payload, cx.ratificationBallot ev.payload = .ok payload →
    s.nizkOk cv (sha256OfSigningBytes cx ev) payload =
      t.nizkOk cv (sha256OfSigningBytes cx ev) payload

variable {cx cv} {s : Tier3PollState} {ev : SignedVotingEvent}
  {cache : BTreeMap (Digest ×ₗ ℕ) Bool} {count : ℕ}

theorem dispatch_withCache (hk : ev.kind ≠ .ratificationBallot) :
    (s.withCache cache count).dispatch cx cv ev =
      (s.dispatch cx cv ev).map fun r => (r.1.withCache cache count, r.2) := by
  cases hkind : ev.kind with
  | ratificationBallot => exact absurd hkind hk
  | sortitionSelection =>
    simp only [dispatch, hkind, applySortitionSelection]
    cases cx.sortitionSelection ev.payload <;> rfl
  | miniPublicDecline =>
    simp only [dispatch, hkind, applyMiniPublicDecline]
    cases cx.miniPublicDecline ev.payload with
    | error reason => rfl
    | ok payload =>
      dsimp only [decode, bind, Except.bind]
      rw [apply_ite (Except.map _)]
      rfl
  | deliberationStatement =>
    simp only [dispatch, hkind, applyDeliberationStatement]
    cases cx.deliberationStatement ev.payload with
    | error reason => rfl
    | ok payload =>
      dsimp only [decode, bind, Except.bind]
      rw [apply_ite (Except.map _), apply_ite (Except.map _), apply_ite (Except.map _)]
      rfl
  | deliberationVote =>
    simp only [dispatch, hkind, applyDeliberationVote]
    cases cx.deliberationVote ev.payload with
    | error reason => rfl
    | ok payload =>
      have hstatements : (s.withCache cache count).deliberation = s.deliberation := rfl
      dsimp only [decode, bind, Except.bind]
      rw [hstatements, apply_ite (Except.map _)]
      cases s.deliberation.statements[payload.statementEventHash]? with
      | none => rfl
      | some target =>
        dsimp only
        rw [apply_ite (Except.map _)]
        cases BridgingVoteCode.fromU8 payload.vote with
        | none => rfl
        | some code =>
          dsimp only
          rw [apply_ite (Except.map _)]
          rfl
  | draftCandidate =>
    simp only [dispatch, hkind, applyDraftCandidate]
    cases cx.draftCandidate ev.payload with
    | error reason => rfl
    | ok payload =>
      dsimp only [decode, bind, Except.bind]
      rw [apply_ite (Except.map _)]
      rfl
  | draftApproval =>
    simp only [dispatch, hkind, applyDraftApproval]
    cases cx.draftApproval ev.payload with
    | error reason => rfl
    | ok payload =>
      dsimp only [decode, bind, Except.bind]
      rw [apply_ite (Except.map _)]
      rfl
  | sortitionFailed =>
    simp only [dispatch, hkind, applySortitionFailed]
    cases cx.sortitionFailed ev.payload <;> rfl
  | tallyShare =>
    simp only [dispatch, hkind, applyTallyShare]
    cases cx.tallyShare ev.payload with
    | error reason => rfl
    | ok payload =>
      dsimp only [decode, bind, Except.bind]
      rw [apply_ite (Except.map _)]
      rfl
  | pollResult =>
    simp only [dispatch, hkind, applyPollResult]
    cases cx.tier3PollResult ev.payload <;> rfl
  | _ => simp only [dispatch, hkind]; rfl

/-- A ballot is handled alike where its verdict agrees and the cache has it once it is
accepted. -/
theorem dispatch_withCache_ballot (hk : ev.kind = .ratificationBallot) (hg : s.guard ev = none)
    (hv : SameVerdict cx cv (s.withCache cache count) s ev)
    (hc : (s.ballotOf cx cv ev).isSome →
      (s.withCache cache count).rememberVerdict (sha256OfSigningBytes cx ev) = cache) :
    (s.withCache cache count).dispatch cx cv ev =
      (s.dispatch cx cv ev).map fun r => (r.1.withCache cache count, r.2) := by
  simp only [dispatch, hk, applyRatificationBallot]
  cases hp : cx.ratificationBallot ev.payload with
  | error reason => rfl
  | ok payload =>
    have hok : (s.withCache cache count).ballotOk cx cv (sha256OfSigningBytes cx ev) payload =
        s.ballotOk cx cv (sha256OfSigningBytes cx ev) payload := by
      unfold ballotOk
      rw [hv payload hp]
      rfl
    have hcounts : (s.withCache cache count).ballotsPerActor = s.ballotsPerActor := rfl
    dsimp only [decode, bind, Except.bind]
    rw [hok, hcounts]
    by_cases hballot : s.ballotOk cx cv (sha256OfSigningBytes cx ev) payload = true
    · rw [if_neg (not_not.mpr hballot), if_neg (not_not.mpr hballot)]
      by_cases hcap : maxRatificationBallotsPerActor ≤ countOf s.ballotsPerActor ev.actor
      · rw [if_pos hcap, if_pos hcap]
        rfl
      · have ha : s.admits cx ev = true := by
          simp [admits_eq_true, hg, decodes, hk, hp, Except.isOk, Except.toBool]
        have hw : (s.ballotOf cx cv ev).isSome := by
          simp [ballotOf, wellFormedBallot, ha, hk, hp, hballot, not_le.mp hcap, Except.toOption]
        rw [if_neg hcap, if_neg hcap, hc hw]
        rfl
    · rw [if_pos hballot, if_pos hballot]
      rfl

theorem applyEvent_withCache (hv : SameVerdict cx cv (s.withCache cache count) s ev)
    (hc : (s.ballotOf cx cv ev).isSome →
      (s.withCache cache count).rememberVerdict (sha256OfSigningBytes cx ev) = cache) :
    ((s.withCache cache count).applyEvent cx cv ev).1 =
      (s.applyEvent cx cv ev).1.withCache cache count := by
  have hguard : (s.withCache cache count).guard ev = s.guard ev := rfl
  unfold applyEvent
  rw [hguard]
  cases hg : s.guard ev with
  | some err => rfl
  | none =>
    have hd : (s.withCache cache count).dispatch cx cv ev =
        (s.dispatch cx cv ev).map fun r => (r.1.withCache cache count, r.2) := by
      by_cases hk : ev.kind = .ratificationBallot
      · exact dispatch_withCache_ballot hk hg hv hc
      · exact dispatch_withCache hk
    dsimp only
    rw [hd]
    cases s.dispatch cx cv ev with
    | error err => rfl
    | ok handled => rfl

/-! ### What a fold leaves of the verdicts -/

theorem wellFormedBallot_ok {payload : RatificationBallotPayload}
    (h : s.wellFormedBallot cx cv ev = some payload) :
    cx.ratificationBallot ev.payload = .ok payload ∧
      s.ballotOk cx cv (sha256OfSigningBytes cx ev) payload = true := by
  unfold wellFormedBallot at h
  split_ifs at h
  cases hp : cx.ratificationBallot ev.payload with
  | error reason => simp [hp, Except.toOption] at h
  | ok decoded =>
    rw [hp] at h
    obtain ⟨hsome, hok⟩ := Option.filter_eq_some_iff.mp h
    obtain rfl : decoded = payload := by simpa [Except.toOption] using hsome
    exact ⟨rfl, hok⟩

theorem ballotOf_ok (h : (s.ballotOf cx cv ev).isSome) :
    ∃ payload, cx.ratificationBallot ev.payload = .ok payload ∧
      s.ballotOk cx cv (sha256OfSigningBytes cx ev) payload = true := by
  obtain ⟨payload, hw⟩ := Option.isSome_iff_exists.mp h
  unfold ballotOf at hw
  split_ifs at hw
  exact ⟨payload, wellFormedBallot_ok hw⟩

theorem get_rememberVerdict (hash : Digest) (key : Digest ×ₗ ℕ) :
    (s.rememberVerdict hash)[key]? =
      if s.meta.config.privacyMode = "se" ∧ s.committeeOracle.latestEpoch = some (ofLex key).2 ∧
        hash = (ofLex key).1 then some true else s.rbNizkVerdicts[key]? := by
  unfold rememberVerdict
  by_cases hmode : s.meta.config.privacyMode = "se"
  · cases hepoch : s.committeeOracle.latestEpoch with
    | none => simp [hmode]
    | some epoch =>
      have hkey : (toLex (hash, epoch) : Digest ×ₗ ℕ) = key ↔
          epoch = (ofLex key).2 ∧ hash = (ofLex key).1 := by
        constructor
        · intro h
          rw [← h]
          exact ⟨rfl, rfl⟩
        · intro h
          rw [h.1, h.2]
          rfl
      simp only [hmode, if_true, Option.elim_some, BTreeMap.get_insert, hkey, true_and,
        Option.some.injEq]
  · simp [hmode]

theorem nizkOk_eq {epoch : ℕ} {cs : CommitteePublicState}
    (he : s.committeeOracle.latestEpoch = some epoch)
    (hcs : s.committeeOracle.committeeAtEpoch epoch = some cs) (hash : Digest)
    (payload : RatificationBallotPayload) :
    s.nizkOk cv hash payload = s.rbNizkVerdicts[(toLex (hash, epoch) : Digest ×ₗ ℕ)]?.getD
      (bundleVerifies cv cs payload) := by
  simp only [nizkOk, he, hcs]

/-- An accepted secret ballot is remembered with the verdict it already had. -/
theorem getD_rememberVerdict (hash : Digest) {epoch : ℕ} {cs : CommitteePublicState}
    {payload : RatificationBallotPayload}
    (he : s.committeeOracle.latestEpoch = some epoch)
    (hcs : s.committeeOracle.committeeAtEpoch epoch = some cs) {hash' : Digest}
    (hsame : s.meta.config.privacyMode = "se" → hash = hash' →
      s.nizkOk cv hash' payload = true) :
    (s.rememberVerdict hash)[(toLex (hash', epoch) : Digest ×ₗ ℕ)]?.getD
        (bundleVerifies cv cs payload) = s.nizkOk cv hash' payload := by
  rw [get_rememberVerdict]
  split_ifs with h
  · rw [hsame h.1 h.2.2]
    rfl
  · rw [nizkOk_eq he hcs]

theorem sameVerdict_applyEvent {ev' : SignedVotingEvent}
    (h : sha256OfSigningBytes cx ev = sha256OfSigningBytes cx ev' →
      ev.toSigInput = ev'.toSigInput) :
    SameVerdict cx cv (s.applyEvent cx cv ev).1 s ev' := by
  intro payload hp
  have hstep : Stepped cx cv s ev (s.applyEvent cx cv ev).1 := stepped cx cv s ev
  unfold nizkOk
  rw [hstep.committeeOracle, hstep.rbNizkVerdicts]
  cases he : s.committeeOracle.latestEpoch with
  | none => rfl
  | some epoch =>
    cases hcs : s.committeeOracle.committeeAtEpoch epoch with
    | none => simp only [hcs]
    | some cs =>
      simp only [hcs]
      split_ifs with hw
      · obtain ⟨accepted, haccepted, hok⟩ := ballotOf_ok hw
        rw [getD_rememberVerdict _ he hcs, nizkOk_eq he hcs]
        intro hmode hhash
        have hpayload : ev.payload = ev'.payload := congrArg SigInput.payload (h hhash)
        obtain rfl : accepted = payload := by
          rw [hpayload, hp] at haccepted
          exact (Except.ok.inj haccepted).symm
        simp only [ballotOk, hmode, ne_eq, not_true_eq_false, decide_false, Bool.false_or,
          Bool.and_eq_true] at hok
        rw [← hhash]
        exact hok.2
      · rfl

theorem applyEvent_keeps_verdict {key : Digest ×ₗ ℕ} (h : s.rbNizkVerdicts[key]? = some true) :
    (s.applyEvent cx cv ev).1.rbNizkVerdicts[key]? = some true := by
  rw [(stepped cx cv s ev).rbNizkVerdicts]
  split_ifs
  · rw [get_rememberVerdict, h, ite_self]
  · exact h

theorem replay_keeps_verdict {key : Digest ×ₗ ℕ} (l : List SignedVotingEvent)
    (h : s.rbNizkVerdicts[key]? = some true) :
    (s.replay cx cv l).rbNizkVerdicts[key]? = some true := by
  induction l generalizing s with
  | nil => exact h
  | cons ev l ih => exact ih (applyEvent_keeps_verdict h)

theorem sameVerdict_replay {events l : List SignedVotingEvent} (hfree : CollisionFree cx events)
    (hl : ∀ a ∈ l, a ∈ events) (hev : ev ∈ events) :
    SameVerdict cx cv (s.replay cx cv l) s ev := by
  induction l generalizing s with
  | nil => exact fun _ _ => rfl
  | cons a l ih =>
    intro payload hp
    have hlater : SameVerdict cx cv ((s.applyEvent cx cv a).1.replay cx cv l)
        (s.applyEvent cx cv a).1 ev := ih fun b hb => hl b (.tail _ hb)
    have hfirst : SameVerdict cx cv (s.applyEvent cx cv a).1 s ev :=
      sameVerdict_applyEvent (hfree a (hl a (.head _)) ev hev)
    exact (hlater payload hp).trans (hfirst payload hp)

/-! ### What no event writes -/

structure Outside (s t : Tier3PollState) : Prop where
  «meta» : t.meta = s.meta
  eligibleElectorateSnapshot : t.eligibleElectorateSnapshot = s.eligibleElectorateSnapshot
  committeeOracle : t.committeeOracle = s.committeeOracle
  rebuildCount : t.rebuildCount = s.rebuildCount
  voided : t.voided = s.voided

theorem Outside.refl (s : Tier3PollState) : Outside s s := ⟨rfl, rfl, rfl, rfl, rfl⟩

theorem Outside.trans {s t u : Tier3PollState} (h : Outside s t) (h' : Outside t u) :
    Outside s u :=
  ⟨h'.meta.trans h.meta, h'.eligibleElectorateSnapshot.trans h.eligibleElectorateSnapshot,
    h'.committeeOracle.trans h.committeeOracle, h'.rebuildCount.trans h.rebuildCount,
    h'.voided.trans h.voided⟩

/-- Whatever the handler returns, it left these parts alone. -/
def KeepsOutside (s : Tier3PollState) (handled : Handled) : Prop :=
  ∀ s' advance, handled = .ok (s', advance) → Outside s s'

theorem keepsOutside_pure {s s' : Tier3PollState} (h : Outside s s') (advance : Bool) :
    KeepsOutside s (pure (s', advance)) := by
  intro s'' advance' hr
  cases hr
  exact h

theorem KeepsOutside.decode_bind {α : Type} {x : Except String α} {f : α → Handled}
    (h : ∀ payload, KeepsOutside s (f payload)) : KeepsOutside s (decode x >>= f) := by
  cases x with
  | ok payload => exact h payload
  | error reason => exact fun s' advance hr => by cases hr

theorem KeepsOutside.ite {p : Prop} [Decidable p] {a b : Handled} (ha : KeepsOutside s a)
    (hb : KeepsOutside s b) : KeepsOutside s (if p then a else b) := by
  split
  · exact ha
  · exact hb

theorem keepsOutside_deliberationVote : KeepsOutside s (s.applyDeliberationVote cx ev) := by
  have hdrop : KeepsOutside s (pure (s, false)) := keepsOutside_pure (.refl s) false
  refine .decode_bind fun payload => .ite hdrop ?_
  cases s.deliberation.statements[payload.statementEventHash]? with
  | none => exact hdrop
  | some target =>
    refine .ite hdrop ?_
    cases BridgingVoteCode.fromU8 payload.vote with
    | none => exact hdrop
    | some code => exact .ite (keepsOutside_pure (by constructor <;> rfl) true) hdrop

theorem keepsOutside_dispatch : KeepsOutside s (s.dispatch cx cv ev) := by
  have hdrop : KeepsOutside s (pure (s, false)) := keepsOutside_pure (.refl s) false
  unfold dispatch
  split
  · exact .decode_bind fun _ => keepsOutside_pure (by constructor <;> rfl) true
  · exact .decode_bind fun _ => .ite hdrop (keepsOutside_pure (by constructor <;> rfl) true)
  · exact .decode_bind fun _ => .ite hdrop (.ite hdrop (.ite hdrop
      (keepsOutside_pure (by constructor <;> rfl) true)))
  · exact keepsOutside_deliberationVote
  · exact .decode_bind fun _ => .ite hdrop (keepsOutside_pure (by constructor <;> rfl) true)
  · exact .decode_bind fun _ => .ite (keepsOutside_pure (by constructor <;> rfl) true) hdrop
  · exact .decode_bind fun _ => keepsOutside_pure (by constructor <;> rfl) true
  · exact .decode_bind fun _ => .ite hdrop (.ite hdrop (keepsOutside_pure (by constructor <;> rfl) _))
  · exact .decode_bind fun _ => .ite (keepsOutside_pure (by constructor <;> rfl) _) hdrop
  · exact keepsOutside_pure (by constructor <;> rfl) true
  · exact .decode_bind fun _ => keepsOutside_pure (by constructor <;> rfl) true
  · exact fun s' advance hr => by cases hr

theorem applyEvent_outside (cx : Codec) (cv : Curve) (s : Tier3PollState) (ev : SignedVotingEvent) :
    Outside s (s.applyEvent cx cv ev).1 := by
  unfold applyEvent
  cases s.guard ev with
  | some err => exact .refl s
  | none =>
    cases hd : s.dispatch cx cv ev with
    | error err => exact .refl s
    | ok handled =>
      have hout : Outside s handled.1 := keepsOutside_dispatch handled.1 handled.2 hd
      exact hout.trans ⟨rfl, rfl, rfl, rfl, rfl⟩

theorem replay_outside (l : List SignedVotingEvent) : Outside s (s.replay cx cv l) := by
  induction l generalizing s with
  | nil => exact .refl s
  | cons ev l ih => exact (applyEvent_outside cx cv s ev).trans ih

/-! ### Rebuilding -/

/-- A fold that starts with the verdicts the first fold ended with. -/
theorem replay_withCache {events l : List SignedVotingEvent} (hfree : CollisionFree cx events)
    (hl : ∀ ev ∈ l, ev ∈ events)
    (hv : ∀ ev ∈ l, SameVerdict cx cv (s.withCache cache count) s ev)
    (hc : ∀ key : Digest ×ₗ ℕ, (s.replay cx cv l).rbNizkVerdicts[key]? = some true →
      cache[key]? = some true) :
    (s.withCache cache count).replay cx cv l = (s.replay cx cv l).withCache cache count := by
  induction l generalizing s with
  | nil => rfl
  | cons ev l ih =>
    have hstep : ((s.withCache cache count).applyEvent cx cv ev).1 =
        (s.applyEvent cx cv ev).1.withCache cache count := by
      refine applyEvent_withCache (hv ev (.head _)) fun hw => ?_
      -- what this event remembers is still there at the end of the fold
      have hafter : ∀ key : Digest ×ₗ ℕ,
          (s.rememberVerdict (sha256OfSigningBytes cx ev))[key]? = some true →
            cache[key]? = some true := by
        intro key hkey
        refine hc key (replay_keeps_verdict l ?_)
        rw [(stepped cx cv s ev).rbNizkVerdicts, if_pos hw]
        exact hkey
      refine Std.ExtTreeMap.ext_getElem? fun key => ?_
      rw [get_rememberVerdict]
      split_ifs with hkey
      · refine (hafter key ?_).symm
        exact (get_rememberVerdict _ key).trans (if_pos hkey)
      · rfl
    have hlater : ∀ a ∈ l, SameVerdict cx cv
        ((s.applyEvent cx cv ev).1.withCache cache count) (s.applyEvent cx cv ev).1 a := by
      intro a ha payload hp
      have hkept : SameVerdict cx cv (s.applyEvent cx cv ev).1 s a :=
        sameVerdict_applyEvent (hfree ev (hl ev (.head _)) a (hl a (.tail _ ha)))
      have horacle : ((s.applyEvent cx cv ev).1.withCache cache count).nizkOk cv
          (sha256OfSigningBytes cx a) payload = (s.withCache cache count).nizkOk cv
            (sha256OfSigningBytes cx a) payload := by
        unfold nizkOk withCache
        rw [(stepped cx cv s ev).committeeOracle]
      rw [horacle, hv a (.tail _ ha) payload hp, hkept payload hp]
    change ((s.withCache cache count).applyEvent cx cv ev).1.replay cx cv l = _
    rw [hstep]
    exact ih (fun a ha => hl a (.tail _ ha)) hlater hc

theorem rebuildFromEvents_perm {events events' : List SignedVotingEvent}
    (hfree : CollisionFree cx events) (hp : events'.Perm events) :
    s.rebuildFromEvents cx cv events' = s.rebuildFromEvents cx cv events :=
  replay_congr cx cv (map_toSigInput_sortBy hfree hp) s.reset

theorem rebuildFromEvents_twice {events : List SignedVotingEvent}
    (hfree : CollisionFree cx events) :
    (s.rebuildFromEvents cx cv events).rebuildFromEvents cx cv events =
      { s.rebuildFromEvents cx cv events with
        rebuildCount := (s.rebuildFromEvents cx cv events).rebuildCount + 1 } := by
  set first : Tier3PollState := s.rebuildFromEvents cx cv events with hfirst
  have hout : Outside s.reset first := replay_outside _
  have hreset : first.reset =
      s.reset.withCache first.rbNizkVerdicts (first.rebuildCount + 1) := by
    unfold reset withCache
    rw [hout.meta, hout.eligibleElectorateSnapshot, hout.committeeOracle, hout.voided]
    rfl
  have hverdicts : ∀ ev ∈ Lib.sortBy (canonicalKey cx) events, SameVerdict cx cv
      (s.reset.withCache first.rbNizkVerdicts (first.rebuildCount + 1)) s.reset ev := by
    intro ev hev payload hp
    have hsame : SameVerdict cx cv first s.reset ev :=
      sameVerdict_replay hfree.sortBy (fun a ha => ha) hev
    rw [← hsame payload hp]
    unfold nizkOk withCache
    rw [hout.committeeOracle]
  change first.reset.replay cx cv (Lib.sortBy (canonicalKey cx) events) = _
  rw [hreset, replay_withCache hfree.sortBy (fun a ha => ha) hverdicts fun key hkey => hkey]
  rfl

/-- The order of the events does not matter, and a second rebuild changes the count only. -/
theorem rebuildFromEvents_order_free_idempotent (cx : Codec) (cv : Curve) (s : Tier3PollState)
    (events : List SignedVotingEvent) (hfree : CollisionFree cx events) :
    (∀ events' : List SignedVotingEvent, events'.Perm events →
      s.rebuildFromEvents cx cv events' = s.rebuildFromEvents cx cv events) ∧
    (s.rebuildFromEvents cx cv events).rebuildFromEvents cx cv events =
      { s.rebuildFromEvents cx cv events with
        rebuildCount := (s.rebuildFromEvents cx cv events).rebuildCount + 1 } ∧
    (s.rebuildFromEvents cx cv events).meta = s.meta ∧
    (s.rebuildFromEvents cx cv events).eligibleElectorateSnapshot =
      s.eligibleElectorateSnapshot ∧
    (s.rebuildFromEvents cx cv events).committeeOracle = s.committeeOracle ∧
    (s.rebuildFromEvents cx cv events).voided = s.voided := by
  have hout : Outside s.reset (s.rebuildFromEvents cx cv events) := replay_outside _
  exact ⟨fun events' hp => rebuildFromEvents_perm hfree hp, rebuildFromEvents_twice hfree,
    hout.meta, hout.eligibleElectorateSnapshot, hout.committeeOracle, hout.voided⟩

/-- Member 2's draft, its approval and two copies of a ballot with different signatures. -/
def sampleEvents : List SignedVotingEvent :=
  [Sample.ballot 120002 5, Sample.draft, { Sample.ballot 120002 5 with sig := [1] },
    Sample.approval]

theorem rebuildFromEvents_order_free_idempotent_sample :
    ((newFromCreate ⟨Sample.sortitionPoll, 1, ⟨1, 0, "a"⟩, Sample.sortitionConfig, 1, 0⟩
        []).rebuildFromEvents Sample.sortitionCodec Sample.onePointCurve
          sampleEvents.reverse).ratificationBallots.length = 2 ∧
      CollisionFree Sample.sortitionCodec sampleEvents := by
  have hfree : CollisionFree Sample.sortitionCodec sampleEvents := by
    unfold CollisionFree
    decide +kernel
  refine ⟨?_, hfree⟩
  rw [(rebuildFromEvents_order_free_idempotent Sample.sortitionCodec Sample.onePointCurve _
    sampleEvents hfree).1 _ (List.reverse_perm _)]
  decide +kernel

end Tier3PollState
end Harmony.Voting
