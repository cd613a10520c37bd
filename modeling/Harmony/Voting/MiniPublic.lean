import Harmony.Voting.Sample
import Harmony.Voting.Tier3Step

/-! Seats of the mini-public. A walk over `primary || backup` that stops at full house seats
the first members that did not decline; a decline promotes behind the seat it frees and
moves nobody who still sits. -/

namespace Harmony.Voting

open Harmony.Lib
open Harmony.Membership (OwnerAddr Hlc)

section Walk

variable {α : Type} [DecidableEq α]

/-- A walk that seats members that did not decline, up to `seats`. -/
def seatWalk (seats : ℕ) (declined : Finset α) (l : List α) (set : Finset α) : Finset α :=
  l.foldl (fun set member =>
    if seats ≤ set.card then set else if member ∈ declined then set else insert member set) set

theorem seatWalk_eq {seats : ℕ} {declined : Finset α} {l : List α} (hnd : l.Nodup)
    {set : Finset α} (hset : ∀ m ∈ l, m ∉ set) :
    seatWalk seats declined l set =
      set ∪ ((l.filter (· ∉ declined)).take (seats - set.card)).toFinset := by
  induction l generalizing set with
  | nil => simp [seatWalk]
  | cons a l ih =>
    obtain ⟨ha, hl⟩ := List.nodup_cons.mp hnd
    have hrest : ∀ m ∈ l, m ∉ set := fun m hm => hset m (.tail _ hm)
    simp only [seatWalk, List.foldl_cons]
    split_ifs with hfull hdeclined
    · have hzero : seats - set.card = 0 := by omega
      have hih := ih hl hrest
      rw [seatWalk, hzero] at hih
      rw [hih, hzero, List.take_zero, List.take_zero]
    · rw [List.filter_cons_of_neg (by simpa using hdeclined)]
      exact ih hl hrest
    · have hnew : ∀ m ∈ l, m ∉ insert a set := by
        intro m hm
        rw [Finset.mem_insert, not_or]
        exact ⟨fun h => ha (h ▸ hm), hrest m hm⟩
      have hcard : (insert a set).card = set.card + 1 :=
        Finset.card_insert_of_notMem (hset a (.head _))
      have hih := ih hl hnew
      have hseats : seats - set.card = (seats - (set.card + 1)) + 1 := by omega
      rw [seatWalk, hcard] at hih
      rw [hih, List.filter_cons_of_pos (by simpa using hdeclined), hseats, List.take_succ_cons,
        List.toFinset_cons, Finset.insert_union, Finset.union_insert]

omit [DecidableEq α] in
theorem mem_take_filter {l : List α} {n : ℕ} {p : α → Bool} {a : α} (ha : a ∈ l.take n)
    (hp : p a = true) : a ∈ (l.filter p).take n := by
  induction l generalizing n with
  | nil => simp at ha
  | cons b l ih =>
    cases n with
    | zero => simp at ha
    | succ n =>
      rw [List.take_succ_cons, List.mem_cons] at ha
      cases hb : p b with
      | true =>
        rw [List.filter_cons_of_pos hb, List.take_succ_cons, List.mem_cons]
        exact ha.imp_right ih
      | false =>
        have hne : a ≠ b := by
          intro h
          rw [h, hb] at hp
          cases hp
        rw [List.filter_cons_of_neg (by simp [hb])]
        have hmem : a ∈ (l.filter p).take n := ih (ha.resolve_left hne)
        exact List.take_subset_take_left _ (by omega) hmem

end Walk

namespace Tier3PollState

variable {s t : Tier3PollState} {sr : SortitionResult}

/-- The members still available at `now`, in the order of the draw. -/
def available (s : Tier3PollState) (sr : SortitionResult) (now : Hlc) : List OwnerAddr :=
  (sr.primary ++ sr.backup).filter (· ∉ s.declinedAt now)

theorem currentMiniPublic_eq (hs : s.sortitionResult = some sr)
    (hnd : (sr.primary ++ sr.backup).Nodup) (now : Hlc) :
    s.currentMiniPublic now = ((s.available sr now).take sr.primary.length).toFinset := by
  have hwalk : s.currentMiniPublic now =
      seatWalk sr.primary.length (s.declinedAt now) (sr.primary ++ sr.backup) ∅ := by
    unfold currentMiniPublic
    rw [hs]
    rfl
  rw [hwalk, seatWalk_eq hnd (by simp), Finset.empty_union, Finset.card_empty, Nat.sub_zero]
  rfl

theorem card_currentMiniPublic (hs : s.sortitionResult = some sr)
    (hnd : (sr.primary ++ sr.backup).Nodup) (now : Hlc) :
    (s.currentMiniPublic now).card = min sr.primary.length (s.available sr now).length := by
  rw [currentMiniPublic_eq hs hnd, List.toFinset_card_of_nodup, List.length_take]
  exact (hnd.filter _).sublist (List.take_sublist _ _)

theorem not_declined_of_seated (hs : s.sortitionResult = some sr)
    (hnd : (sr.primary ++ sr.backup).Nodup) {now : Hlc} {m : OwnerAddr}
    (hm : m ∈ s.currentMiniPublic now) : m ∉ s.declinedAt now := by
  rw [currentMiniPublic_eq hs hnd, List.mem_toFinset] at hm
  have havailable : m ∈ s.available sr now := List.mem_of_mem_take hm
  simpa using (List.mem_filter.mp havailable).2

theorem declinedAt_mono (hgrow : ∀ d ∈ s.declines, d ∈ t.declines) {now later : Hlc}
    (hle : hlcKey now ≤ hlcKey later) : s.declinedAt now ⊆ t.declinedAt later := by
  intro m hm
  simp only [declinedAt, List.mem_toFinset, List.mem_map, List.mem_filter,
    decide_eq_true_eq] at hm ⊢
  obtain ⟨d, ⟨hd, hbefore⟩, rfl⟩ := hm
  exact ⟨d, ⟨hgrow d hd, hbefore.trans hle⟩, rfl⟩

theorem available_later (hgrow : ∀ d ∈ s.declines, d ∈ t.declines) {now later : Hlc}
    (hle : hlcKey now ≤ hlcKey later) :
    t.available sr later = (s.available sr now).filter (· ∉ t.declinedAt later) := by
  rw [available, available, List.filter_filter]
  refine List.filter_congr fun m _ => ?_
  by_cases hm : m ∈ t.declinedAt later
  · simp [hm]
  · have hearlier : m ∉ s.declinedAt now := fun h => hm (declinedAt_mono hgrow hle h)
    simp [hm, hearlier]

theorem seat_kept (hs : s.sortitionResult = some sr) (ht : t.sortitionResult = some sr)
    (hnd : (sr.primary ++ sr.backup).Nodup) (hgrow : ∀ d ∈ s.declines, d ∈ t.declines)
    {now later : Hlc} (hle : hlcKey now ≤ hlcKey later) {m : OwnerAddr}
    (hm : m ∈ s.currentMiniPublic now) (hstays : m ∉ t.declinedAt later) :
    m ∈ t.currentMiniPublic later := by
  rw [currentMiniPublic_eq hs hnd, List.mem_toFinset] at hm
  rw [currentMiniPublic_eq ht hnd, List.mem_toFinset, available_later hgrow hle]
  exact mem_take_filter hm (by simpa using hstays)

/-! ### While events come in -/

section Runs

variable (cx : Codec) (cv : Curve)

theorem replay_declines (s : Tier3PollState) (events : List SignedVotingEvent) :
    s.declines <+: (s.replay cx cv events).declines := by
  induction events generalizing s with
  | nil => exact List.prefix_refl _
  | cons ev events ih =>
    have hstep : s.declines <+: (s.applyEvent cx cv ev).1.declines := by
      rw [(stepped cx cv s ev).declines]
      exact List.prefix_append _ _
    exact hstep.trans (ih _)

theorem replay_sortitionResult {events : List SignedVotingEvent}
    (hkinds : ∀ ev ∈ events, ev.kind ≠ .sortitionSelection) (s : Tier3PollState) :
    (s.replay cx cv events).sortitionResult = s.sortitionResult := by
  induction events generalizing s with
  | nil => rfl
  | cons ev events ih =>
    have hstep : (s.applyEvent cx cv ev).1.sortitionResult = s.sortitionResult := by
      rw [(stepped cx cv s ev).sortitionResult, selectionOf_of_ne (hkinds ev (.head _))]
      rfl
    exact (ih (fun e he => hkinds e (.tail _ he)) _).trans hstep

/-- After the draw, events take a seat from nobody but those who decline. -/
theorem replay_seat_kept {events : List SignedVotingEvent} (hs : s.sortitionResult = some sr)
    (hnd : (sr.primary ++ sr.backup).Nodup)
    (hkinds : ∀ ev ∈ events, ev.kind ≠ .sortitionSelection) {now later : Hlc}
    (hle : hlcKey now ≤ hlcKey later) {m : OwnerAddr} (hm : m ∈ s.currentMiniPublic now)
    (hstays : m ∉ (s.replay cx cv events).declinedAt later) :
    m ∈ (s.replay cx cv events).currentMiniPublic later :=
  seat_kept hs ((replay_sortitionResult cx cv hkinds s).trans hs) hnd
    (fun _ hd => (replay_declines cx cv s events).subset hd) hle hm hstays

end Runs

/-- The mini-public is as full as the draw allows, holds nobody who declined, and keeps
everybody who does not decline while declines come in and time passes. -/
theorem currentMiniPublic_stable {s t : Tier3PollState} {sr : SortitionResult}
    (hs : s.sortitionResult = some sr) (ht : t.sortitionResult = some sr)
    (hnd : (sr.primary ++ sr.backup).Nodup) (hgrow : s.declines <+: t.declines) :
    (∀ now, (s.currentMiniPublic now).card = min sr.primary.length
      ((sr.primary ++ sr.backup).filter (· ∉ s.declinedAt now)).length) ∧
    (∀ now, ∀ m ∈ s.currentMiniPublic now, m ∉ s.declinedAt now) ∧
    ∀ now1 now2, hlcKey now1 ≤ hlcKey now2 → ∀ m ∈ s.currentMiniPublic now1,
      m ∉ t.declinedAt now2 → m ∈ t.currentMiniPublic now2 :=
  ⟨fun now => card_currentMiniPublic hs hnd now, fun _ _ hm => not_declined_of_seated hs hnd hm,
    fun _ _ hle _ hm hstays => seat_kept hs ht hnd (fun _ hd => hgrow.subset hd) hle hm hstays⟩

/-- Two seats and one substitute. -/
def seated (declines : List (OwnerAddr × Hlc)) : Tier3PollState :=
  { newFromCreate ⟨Sample.sortitionPoll, 1, ⟨1, 0, "a"⟩, Sample.sortitionConfig, 1, 0⟩ [] with
    sortitionResult := some ⟨[1, 2], [3]⟩
    declines := declines }

theorem currentMiniPublic_stable_declined :
    2 ∈ (seated [(1, ⟨5, 0, "a"⟩)]).currentMiniPublic ⟨9, 0, "a"⟩ ∧
      ((seated [(1, ⟨5, 0, "a"⟩)]).currentMiniPublic ⟨9, 0, "a"⟩).card = 2 := by
  have hnd : (([1, 2] : List OwnerAddr) ++ [3]).Nodup := by decide
  have hstable := @currentMiniPublic_stable (seated []) (seated [(1, ⟨5, 0, "a"⟩)])
    ⟨[1, 2], [3]⟩ rfl rfl hnd ⟨_, rfl⟩
  have hcard := @currentMiniPublic_stable (seated [(1, ⟨5, 0, "a"⟩)])
    (seated [(1, ⟨5, 0, "a"⟩)]) ⟨[1, 2], [3]⟩ rfl rfl hnd (List.prefix_refl _)
  refine ⟨hstable.2.2 ⟨1, 0, "a"⟩ ⟨9, 0, "a"⟩ (by decide) 2 (by decide) (by decide), ?_⟩
  rw [hcard.1]
  decide

end Tier3PollState
end Harmony.Voting
