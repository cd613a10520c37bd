import Harmony.Lib.Trace
import Harmony.Voting.Tier3Conflicts

/-! An event that no recorded one of a later key conflicts with changes the poll as if it had
arrived in its place. Recorded events are folded in canonical order, where no lane runs
backwards, so as long as the poll is open each of them is received. -/

namespace Harmony.Voting

open Harmony.Lib
open Harmony.Membership (OwnerAddr Digest Hlc)

section Keys

variable {cx : Codec} {e f : SignedVotingEvent}

theorem key_le_of_canonicalKey_le (h : canonicalKey cx e ≤ canonicalKey cx f) : e.key ≤ f.key := by
  rcases Prod.Lex.le_iff.mp h with hlt | ⟨heq, -⟩
  · exact hlt.le
  · exact heq.le

theorem ordinal_le_of_key_le (h : e.key ≤ f.key) : e.ordinal ≤ f.ordinal := by
  rcases Prod.Lex.le_iff.mp h with hlt | ⟨heq, hle⟩
  · exact Prod.Lex.le_iff.mpr (.inl hlt)
  · refine Prod.Lex.le_iff.mpr (.inr ⟨heq, ?_⟩)
    rcases Prod.Lex.le_iff.mp hle with hlt | ⟨heq', -⟩
    · exact hlt.le
    · exact heq'.le

theorem ordinal_le_of_canonicalKey_le (h : canonicalKey cx e ≤ canonicalKey cx f) :
    e.ordinal ≤ f.ordinal := ordinal_le_of_key_le (key_le_of_canonicalKey_le h)

end Keys

namespace Tier3PollState

variable {cx : Codec} {cv : Curve} {r x : Tier3PollState} {e f : SignedVotingEvent}
  {l pre post : List SignedVotingEvent}

theorem replay_append (r : Tier3PollState) (l l' : List SignedVotingEvent) :
    r.replay cx cv (l ++ l') = (r.replay cx cv l).replay cx cv l' := by
  simp only [replay, List.foldl_append]

theorem replay_terminal (h : r.Terminal) : (r.replay cx cv l).Terminal := by
  induction l generalizing r with
  | nil => exact h
  | cons f l ih => exact ih ((stepped cx cv r f).terminal_of h)

theorem admits_of_terminal (h : x.Terminal) : x.admits cx f = false := by
  rcases h with hs | hs <;> simp [admits, guard, hs]

theorem replay_of_terminal (h : r.Terminal) : r.replay cx cv l = r := by
  induction l with
  | nil => rfl
  | cons f l ih =>
    change (r.applyEvent cx cv f).1.replay cx cv l = r
    rw [applyEvent_of_rejected (admits_of_terminal h), ih]

theorem admits_eq_true_iff : x.admits cx f = true ↔ ¬x.Terminal ∧ x.voided = none ∧
    ¬x.lastReceivedHlc[f.lane]?.any (f.ordinal < ·) = true ∧ decodes cx f = true := by
  rw [admits_eq_true, guard, Terminal]
  split_ifs with h1 h2 h3 h4
  · simp [h1]
  · simp [h2]
  · simp [Option.ne_none_iff_isSome.mpr h3]
  · simp [h4]
  · simp_all

theorem replay_lanes (h : r.lastReceivedHlc = ∅) {k : OwnerAddr ×ₗ String} {old : ℕ ×ₗ ℕ}
    (hk : (r.replay cx cv l).lastReceivedHlc[k]? = some old) : ∃ g ∈ l, old = g.ordinal := by
  induction l using List.reverseRecOn generalizing old with
  | nil => simp [replay, h] at hk
  | append_singleton l f ih =>
    rw [replay_snoc, (stepped cx cv _ f).lastReceivedHlc] at hk
    have hold : (r.replay cx cv l).lastReceivedHlc[k]? = some old →
        ∃ g ∈ l ++ [f], old = g.ordinal := by
      intro hk
      obtain ⟨g, hg, hord⟩ := ih hk
      exact ⟨g, List.mem_append_left _ hg, hord⟩
    split_ifs at hk
    · rw [get_raiseLane] at hk
      split_ifs at hk
      · cases hprev : (r.replay cx cv l).lastReceivedHlc[k]? with
        | none =>
          rw [hprev] at hk
          exact ⟨f, by simp, (Option.some.inj hk).symm⟩
        | some prev =>
          rw [hprev, Option.elim_some, Option.some.injEq] at hk
          rcases max_choice f.ordinal prev with hmax | hmax
          · exact ⟨f, by simp, hk.symm.trans hmax⟩
          · exact hold (hprev.trans (congrArg some (hmax.symm.trans hk)))
      · exact hold hk
    · exact hold hk

/-- In canonical order every event is received while the poll is open. -/
theorem admits_of_sorted (hlanes : r.lastReceivedHlc = ∅) (hvoided : r.voided = none)
    (hkeys : ∀ g ∈ l, canonicalKey cx g ≤ canonicalKey cx f) (hd : decodes cx f = true)
    (hopen : ¬(r.replay cx cv l).Terminal) : (r.replay cx cv l).admits cx f = true := by
  refine admits_eq_true_iff.mpr ⟨hopen, ?_, ?_, hd⟩
  · rw [(replay_outside l).voided, hvoided]
  · intro hany
    obtain ⟨old, hold, hlt⟩ := (Option.any_eq_true _ _).mp hany
    obtain ⟨g, hg, rfl⟩ := replay_lanes hlanes hold
    rw [decide_eq_true_eq] at hlt
    exact absurd (ordinal_le_of_canonicalKey_le (hkeys g hg)) hlt.not_ge

theorem replay_maxApplied {m : HlcKey} (h : x.maxApplied = some m) :
    ∃ m', (x.replay cx cv l).maxApplied = some m' ∧ m ≤ m' := by
  induction l generalizing x m with
  | nil => exact ⟨m, h, le_rfl⟩
  | cons f l ih =>
    have hstep : (x.applyEvent cx cv f).1.maxApplied =
        if x.admits cx f then some (max f.key m) else some m := by
      rw [(stepped cx cv x f).maxApplied, h]
      rfl
    split_ifs at hstep
    · obtain ⟨m', hm', hle⟩ := ih hstep
      exact ⟨m', hm', (le_max_right _ _).trans hle⟩
    · exact ih hstep

/-- The event `e` sorts between the recorded events `A` and `B` and is let in after them. -/
structure Arrival (cx : Codec) (cv : Curve) (r : Tier3PollState) (A B : List SignedVotingEvent)
    (e : SignedVotingEvent) : Prop where
  lanes : r.lastReceivedHlc = ∅
  unselected : r.sortitionResult = none
  silent : r.deliberation.statements = ∅
  sorted : (A ++ B).Pairwise fun g h => canonicalKey cx g ≤ canonicalKey cx h
  le : ∀ g ∈ A, canonicalKey cx g ≤ canonicalKey cx e
  lt : ∀ f ∈ B, canonicalKey cx e < canonicalKey cx f
  free : CollisionFree cx (A ++ e :: B)
  admitted : (r.replay cx cv (A ++ B)).admits cx e = true
  threshold : 2 ≤ (r.meta.config.sortitionSize + 1) / 2

theorem decodes_create (h : f.kind = .pollCreate) : decodes cx f = false := by simp [decodes, h]

theorem applyEvent_of_undecoded (h : decodes cx f = false) : (x.applyEvent cx cv f).1 = x :=
  applyEvent_of_rejected (by simp [admits, h])

theorem terminal_of_admits (ha : x.admits cx f = true)
    (hk : f.kind = .pollResult ∨ f.kind = .sortitionFailed) :
    (x.applyEvent cx cv f).1.Terminal := by
  have hstage : (x.applyEvent cx cv f).1.stage = _ := (stepped cx cv x f).stage
  rcases hk with hk | hk
  · have hd : decodes cx f = true := (admits_eq_true_iff.mp ha).2.2.2
    simp only [decodes, hk, isOk_iff] at hd
    obtain ⟨payload, hp⟩ := hd
    have hresult : (x.resultOf cx cv f).isSome = true := by
      simp [resultOf, ha, hk, hp, Except.toOption]
    rw [failsBy_of_ne (by simp [hk]), hresult] at hstage
    exact .inr hstage
  · have hfails : x.failsBy cx f = true := by simp [failsBy, ha, hk]
    rw [hfails] at hstage
    exact .inl hstage

theorem SameVerdict.trans {s t u : Tier3PollState} (h : SameVerdict cx cv s t f)
    (h' : SameVerdict cx cv t u f) : SameVerdict cx cv s u f :=
  fun payload hp => (h payload hp).trans (h' payload hp)

theorem SameVerdict.symm {s t : Tier3PollState} (h : SameVerdict cx cv s t f) :
    SameVerdict cx cv t s f := fun payload hp => (h payload hp).symm

namespace Arrival

variable {A B : List SignedVotingEvent}

theorem opened (h : Arrival cx cv r A B e) : ¬(r.replay cx cv (A ++ B)).Terminal :=
  (admits_eq_true_iff.mp h.admitted).1

theorem voided (h : Arrival cx cv r A B e) : r.voided = none := by
  rw [← (replay_outside (A ++ B)).voided]
  exact (admits_eq_true_iff.mp h.admitted).2.1

theorem decodes (h : Arrival cx cv r A B e) : decodes cx e = true :=
  (admits_eq_true_iff.mp h.admitted).2.2.2

theorem open_at (h : Arrival cx cv r A B e) (hl : A ++ B = pre ++ post) :
    ¬(r.replay cx cv pre).Terminal := by
  intro ht
  refine h.opened ?_
  rw [hl, replay_append]
  exact replay_terminal ht

theorem admits_at (h : Arrival cx cv r A B e) (hl : A ++ B = pre ++ f :: post)
    (hd : Tier3PollState.decodes cx f = true) : (r.replay cx cv pre).admits cx f = true := by
  have hsorted : (pre ++ f :: post).Pairwise fun g h => canonicalKey cx g ≤ canonicalKey cx h :=
    hl ▸ h.sorted
  exact admits_of_sorted h.lanes h.voided
    (fun g hg => (List.pairwise_append.mp hsorted).2.2 g hg f (by simp)) hd (h.open_at hl)

theorem ends_not (h : Arrival cx cv r A B e) (hl : A ++ B = pre ++ f :: post)
    (hd : Tier3PollState.decodes cx f = true)
    (hk : f.kind = .pollResult ∨ f.kind = .sortitionFailed) : False := by
  have hnext : A ++ B = (pre ++ [f]) ++ post := by
    rw [hl, List.append_assoc, List.singleton_append]
  refine h.open_at hnext ?_
  rw [replay_snoc]
  exact terminal_of_admits (h.admits_at hl hd) hk

theorem admits_first (h : Arrival cx cv r A B e) : (r.replay cx cv A).admits cx e = true :=
  admits_of_sorted h.lanes h.voided h.le h.decodes (h.open_at rfl)

theorem sameVerdict (h : Arrival cx cv r A B e) (hl : ∀ g ∈ l, g ∈ A ++ e :: B)
    (hf : f ∈ A ++ e :: B) : SameVerdict cx cv (r.replay cx cv l) r f :=
  sameVerdict_replay h.free hl hf

/-- A write that every later event can be exchanged with is put in behind all of them. -/
theorem bubble (h : Arrival cx cv r A B e) {w : LateWrite}
    (hw : ∀ pre f post, B = pre ++ f :: post → Tier3PollState.decodes cx f = true →
      Exchanges cx cv w e f (r.replay cx cv (A ++ pre)))
    (hfirst : Same ((r.replay cx cv A).applyEvent cx cv e).1 (put w e (r.replay cx cv A))) :
    Same (r.replay cx cv (A ++ e :: B)) (put w e (r.replay cx cv (A ++ B))) := by
  suffices hall : ∀ pre post, B = pre ++ post →
      Same (r.replay cx cv (A ++ e :: pre)) (put w e (r.replay cx cv (A ++ pre))) from
    hall B [] (List.append_nil B).symm
  intro pre
  induction pre using List.reverseRecOn with
  | nil =>
    intro post _
    rw [replay_snoc, List.append_nil]
    exact hfirst
  | append_singleton pre f ih =>
    intro post hB
    rw [List.append_assoc] at hB
    have hsub : ∀ g ∈ pre, g ∈ B := fun g hg => by simp [hB, hg]
    have hf : f ∈ A ++ e :: B := by simp [hB]
    have hlate : SameVerdict cx cv (r.replay cx cv (A ++ e :: pre)) r f :=
      h.sameVerdict (fun g hg => by simp at hg ⊢; grind) hf
    have hput : SameVerdict cx cv (put w e (r.replay cx cv (A ++ pre))) r f :=
      sameVerdict_put.trans (h.sameVerdict (fun g hg => by simp at hg ⊢; grind) hf)
    have hprev : Same ((r.replay cx cv (A ++ e :: pre)).applyEvent cx cv f).1
        ((put w e (r.replay cx cv (A ++ pre))).applyEvent cx cv f).1 :=
      (ih _ hB).applyEvent (hlate.trans hput.symm)
    rw [← List.append_assoc, replay_snoc, ← List.cons_append, ← List.append_assoc, replay_snoc]
    refine hprev.trans ?_
    cases hd : Tier3PollState.decodes cx f with
    | false => rw [applyEvent_of_undecoded hd, applyEvent_of_undecoded hd]
    | true => exact (hw pre f post hB hd).same (stepped cx cv _ f) (stepped cx cv _ f)

end Arrival

end Tier3PollState
end Harmony.Voting
