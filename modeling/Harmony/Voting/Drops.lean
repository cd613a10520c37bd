import Harmony.Voting.Tier3Apply

/-! What an event that is not applied leaves behind: a rejected one nothing, a dropped one
its mark in the receive lanes and in the watermark of everything dispatched. -/

namespace Harmony.Voting.Tier3PollState

open Harmony.Lib

variable {cx : Codec} {cv : Curve} {s : Tier3PollState} {ev : SignedVotingEvent}

/-! ### The ballot is never empty -/

theorem draftingAdvancers_ne_nil {candidates : List DraftCandidateState}
    (miniPublicSize : ℕ) {sq : DraftCandidateState} (h : sq ∈ candidates) :
    ∃ advancers, draftingAdvancers candidates miniPublicSize sq.eventHash = some advancers ∧
      advancers ≠ [] := by
  obtain ⟨found, hfound⟩ : ∃ found, candidates.find? (·.eventHash = sq.eventHash) = some found := by
    rw [← Option.isSome_iff_exists, List.find?_isSome]
    exact ⟨sq, h, by simp⟩
  rw [draftingAdvancers, hfound]
  exact ⟨_, rfl, by simp⟩

theorem ratificationOrdering_ne_nil (cx : Codec) (s : Tier3PollState) :
    ∃ ordered, ratificationOrdering cx s = some ordered ∧ ordered ≠ [] := by
  obtain ⟨advancers, hadv, hne⟩ := draftingAdvancers_ne_nil s.meta.config.sortitionSize
    (show synthesizeStatusQuo cx s.meta.pollId ∈
      s.candidates ++ [synthesizeStatusQuo cx s.meta.pollId] by simp)
  refine ⟨ratificationCandidatesOrdering advancers, by simp [ratificationOrdering, hadv], ?_⟩
  have hlen := (List.perm_insertionSort approvalOrder advancers).length_eq
  rw [ratificationCandidatesOrdering, ← List.length_pos_iff, hlen]
  exact List.length_pos_iff.mpr hne

theorem ratificationOrdering_isSome (cx : Codec) (s : Tier3PollState) :
    (ratificationOrdering cx s).isSome = true := by
  obtain ⟨ordered, h, _⟩ := ratificationOrdering_ne_nil cx s
  rw [h]
  rfl

theorem one_le_ballotSize (cx : Codec) (s : Tier3PollState) : 1 ≤ s.ballotSize cx := by
  obtain ⟨ordered, h, hne⟩ := ratificationOrdering_ne_nil cx s
  rw [ballotSize, h]
  exact List.length_pos_iff.mpr hne

/-! ### A handler that reports a drop wrote nothing -/

/-- Whatever the handler returns, it returns `s` when the event does not count. -/
def DropsKeep (s : Tier3PollState) (handled : Handled) : Prop :=
  ∀ s', handled = .ok (s', false) → s' = s

theorem dropsKeep_self (s : Tier3PollState) (advance : Bool) :
    DropsKeep s (pure (s, advance)) := by
  intro s' h
  cases h
  rfl

theorem dropsKeep_applied (s s' : Tier3PollState) : DropsKeep s (pure (s', true)) := by
  intro s'' h
  cases h

theorem DropsKeep.decode_bind {α : Type} {x : Except String α} {f : α → Handled}
    (h : ∀ payload, DropsKeep s (f payload)) : DropsKeep s (decode x >>= f) := by
  cases x with
  | ok payload => exact h payload
  | error reason => exact fun s' h => by cases h

theorem DropsKeep.ite {p : Prop} [Decidable p] {a b : Handled} (ha : DropsKeep s a)
    (hb : DropsKeep s b) : DropsKeep s (if p then a else b) := by
  split
  · exact ha
  · exact hb

theorem dropsKeep_deliberationVote : DropsKeep s (s.applyDeliberationVote cx ev) := by
  refine .decode_bind fun payload => .ite (dropsKeep_self s false) ?_
  cases s.deliberation.statements[payload.statementEventHash]? with
  | none => exact dropsKeep_self s false
  | some target =>
    refine .ite (dropsKeep_self s false) ?_
    cases BridgingVoteCode.fromU8 payload.vote with
    | none => exact dropsKeep_self s false
    | some code => exact .ite (dropsKeep_applied s _) (dropsKeep_self s false)

theorem dropsKeep_ratificationBallot : DropsKeep s (s.applyRatificationBallot cx cv ev) := by
  rw [applyRatificationBallot]
  refine .decode_bind fun payload => ?_
  rw [ratificationOrdering_isSome]
  exact .ite (dropsKeep_self s false) (.ite (dropsKeep_self s false) (dropsKeep_applied s _))

theorem dropsKeep_tallyShare : DropsKeep s (s.applyTallyShare cx cv ev) := by
  rw [applyTallyShare]
  refine .decode_bind fun payload => ?_
  rw [ratificationOrdering_isSome]
  exact .ite (dropsKeep_applied s _) (dropsKeep_self s false)

theorem dropsKeep_dispatch : DropsKeep s (s.dispatch cx cv ev) := by
  unfold dispatch
  split
  · exact .decode_bind fun _ => dropsKeep_applied s _
  · exact .decode_bind fun _ => .ite (dropsKeep_self s false) (dropsKeep_applied s _)
  · exact .decode_bind fun _ => .ite (dropsKeep_self s false) (.ite (dropsKeep_self s false)
      (.ite (dropsKeep_self s false) (dropsKeep_applied s _)))
  · exact dropsKeep_deliberationVote
  · exact .decode_bind fun _ => .ite (dropsKeep_self s false) (dropsKeep_applied s _)
  · exact .decode_bind fun _ => .ite (dropsKeep_applied s _) (dropsKeep_self s false)
  · exact .decode_bind fun _ => dropsKeep_applied s _
  · exact dropsKeep_ratificationBallot
  · exact dropsKeep_tallyShare
  · exact dropsKeep_applied s _
  · exact .decode_bind fun _ => dropsKeep_applied s _
  · exact fun s' h => by cases h

/-! ### The event as a whole -/

/-- A rejected event leaves the state as it was; a dropped one changes the receive lanes and
the dispatch watermark only; and no pair count is taken of an empty ballot. -/
theorem applyEvent_frame (cx : Codec) (cv : Curve) (s : Tier3PollState) (ev : SignedVotingEvent) :
    (∀ err, (s.applyEvent cx cv ev).2 = .error err → (s.applyEvent cx cv ev).1 = s) ∧
    ((s.applyEvent cx cv ev).2 = .ok .dropped →
      (s.applyEvent cx cv ev).1 = { s with
        lastReceivedHlc := (s.applyEvent cx cv ev).1.lastReceivedHlc
        maxApplied := (s.applyEvent cx cv ev).1.maxApplied }) ∧
    1 ≤ s.ballotSize cx := by
  refine ⟨?_, ?_, one_le_ballotSize cx s⟩
  · intro err h
    rw [applyEvent] at h ⊢
    cases hg : s.guard ev with
    | some guarded => rfl
    | none =>
      rw [hg] at h
      cases hd : s.dispatch cx cv ev with
      | error reason => rfl
      | ok handled => simp [hd] at h
  · intro h
    rw [applyEvent] at h ⊢
    cases hg : s.guard ev with
    | some guarded => simp [hg] at h
    | none =>
      rw [hg] at h
      cases hd : s.dispatch cx cv ev with
      | error reason => simp [hd] at h
      | ok handled =>
        obtain ⟨s', advance⟩ := handled
        cases advance with
        | true => simp [hd] at h
        | false =>
          simp only [dropsKeep_dispatch s' hd]
          rfl

end Harmony.Voting.Tier3PollState
