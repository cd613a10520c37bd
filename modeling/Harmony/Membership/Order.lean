import Harmony.Membership.Symbolic

/-! The materialized view depends only on the set of events. Each pre-pass over the
unsorted input is determined by the events it holds, given that their ids differ;
the replay sorts first. -/

namespace Harmony.Membership

open Harmony.Lib

/-- The events of a log have pairwise distinct ids. -/
def DistinctIds (events : List SignedMembershipEvent) : Prop := KeyNodup (·.id) events

instance (events : List SignedMembershipEvent) : Decidable (DistinctIds events) :=
  inferInstanceAs (Decidable (KeyNodup _ events))

theorem id_eq_of_sortKey {a b : SignedMembershipEvent} (h : eventSortKey a = eventSortKey b) :
    a.id = b.id := by
  simp only [eventSortKey, EmbeddingLike.apply_eq_iff_eq, Prod.mk.injEq] at h
  exact h.2.2.2.1

theorem DistinctIds.keyNodup {events : List SignedMembershipEvent} (h : DistinctIds events) :
    KeyNodup eventSortKey events := KeyNodup.of_finer h id_eq_of_sortKey

section Walls

variable {events : List SignedMembershipEvent}

theorem wall_le_of_sortKey_lt {a b : SignedMembershipEvent}
    (h : eventSortKey a < eventSortKey b) : a.hlc.wallMs ≤ b.hlc.wallMs := by
  rcases Prod.Lex.lt_iff.mp h with h | h
  · exact h.le
  · exact h.1.le

theorem sorted_walls (events : List SignedMembershipEvent) :
    (sortEvents events).Pairwise fun a b => a.hlc.wallMs ≤ b.hlc.wallMs := by
  refine (sortBy_sorted events).imp fun {a b} hab => ?_
  rcases hab.lt_or_eq with hlt | heq
  · exact wall_le_of_sortKey_lt hlt
  · simp only [eventSortKey, EmbeddingLike.apply_eq_iff_eq, Prod.mk.injEq] at heq
    exact heq.1.le

theorem le_eventsMaxWallMs {e : SignedMembershipEvent} (he : e ∈ events) :
    e.hlc.wallMs ≤ eventsMaxWallMs events := by
  induction events with
  | nil => simp at he
  | cons a events ih =>
    simp only [eventsMaxWallMs, List.map_cons, List.foldr_cons] at ih ⊢
    rcases List.mem_cons.mp he with rfl | he
    · exact le_max_left _ _
    · exact (ih he).trans (le_max_right _ _)

theorem le_currentMaxWallMs (nowMs : Option ℕ) {e : SignedMembershipEvent} (he : e ∈ events) :
    e.hlc.wallMs ≤ currentMaxWallMs events nowMs := by
  have := le_eventsMaxWallMs he
  unfold currentMaxWallMs
  split
  · exact this.trans (le_max_left _ _)
  · exact this

theorem currentMaxWallMs_before (e : SignedMembershipEvent) :
    currentMaxWallMs (before eventSortKey events e) (some e.hlc.wallMs) = e.hlc.wallMs := by
  refine max_eq_right ?_
  unfold eventsMaxWallMs
  refine List.foldrRecOn (motive := (· ≤ e.hlc.wallMs)) _ _ (Nat.zero_le _) fun w hw a ha => ?_
  obtain ⟨b, hb, rfl⟩ := List.mem_map.mp ha
  simp only [before, List.mem_filter, decide_eq_true_eq] at hb
  exact max_le (wall_le_of_sortKey_lt hb.2) hw

end Walls

section PrePass

variable {events events' : List SignedMembershipEvent}

theorem eventsMaxWallMs_perm (hp : events'.Perm events) :
    eventsMaxWallMs events' = eventsMaxWallMs events :=
  (hp.map _).foldr_eq (f := max) 0

theorem countersignedPendingIds_perm (hp : events'.Perm events) :
    countersignedPendingIds events' = countersignedPendingIds events :=
  List.toFinset_eq_of_perm _ _ (hp.filterMap _)

theorem pendingToken_perm (hids : DistinctIds events) (hp : events'.Perm events) :
    pendingToken events' = pendingToken events := BTreeMap.ofEntries_perm hids hp

theorem proposalsIndex_perm (hids : DistinctIds events) (hp : events'.Perm events) :
    proposalsIndex events' = proposalsIndex events := BTreeMap.ofEntries_perm hids hp

/-- The token a countersign competes for: its target is a known PendingJoin that
is not later than the countersign. -/
def claimedToken (pending : BTreeMap EventId (Sig × ℕ)) (c : SignedMembershipEvent) :
    Option Sig :=
  ((countersignTarget c).bind fun target => pending[target]?).bind fun p =>
    if countersignPassesCausalityGuard c.hlc.wallMs p.2 then some p.1 else none

def keepBest (c : SignedMembershipEvent) (best : Option SignedMembershipEvent) :
    SignedMembershipEvent :=
  match best with
  | some cur => if eventSortKey cur ≤ eventSortKey c then cur else c
  | none => c

theorem bestStep_get (pending : BTreeMap EventId (Sig × ℕ))
    (best : BTreeMap Sig SignedMembershipEvent) (c : SignedMembershipEvent) (tok : Sig) :
    (bestStep pending best c)[tok]? =
      if claimedToken pending c = some tok then some (keepBest c best[tok]?) else best[tok]? := by
  unfold bestStep claimedToken keepBest
  cases (countersignTarget c).bind fun target => pending[target]? with
  | none => simp
  | some p =>
    by_cases hg : countersignPassesCausalityGuard c.hlc.wallMs p.2 = true
    · by_cases ht : p.1 = tok
      · subst ht
        cases hb : best[p.1]? with
        | none => simp [hg, hb]
        | some cur =>
          by_cases hle : eventSortKey cur ≤ eventSortKey c
          · simp [hg, hb, hle]
          · simp [hg, hb, hle]
      · cases hb : best[p.1]? with
        | none => simp [hg, hb, ht, BTreeMap.get_insert]
        | some cur =>
          by_cases hle : eventSortKey cur ≤ eventSortKey c
          · simp [hg, hb, hle, ht]
          · simp [hg, hb, hle, ht, BTreeMap.get_insert]
    · simp [hg]

theorem keepBest_comm {a b : SignedMembershipEvent} (best : Option SignedMembershipEvent)
    (h : eventSortKey a = eventSortKey b → a = b) :
    keepBest b (some (keepBest a best)) = keepBest a (some (keepBest b best)) := by
  unfold keepBest
  cases best with
  | none =>
    simp only
    split_ifs with h1 h2 h2
    · exact h (le_antisymm h1 h2)
    · rfl
    · rfl
    · exact absurd (le_of_not_ge h1) h2
  | some cur => simp only; grind

theorem bestCountersigns_perm (hids : DistinctIds events) (hp : events'.Perm events) :
    bestCountersigns events' = bestCountersigns events := by
  unfold bestCountersigns
  rw [pendingToken_perm hids hp]
  refine hp.foldl_eq' (fun a ha b hb best => ?_) ∅
  have hab := hids.keyNodup.inj (hp.subset ha) (hp.subset hb)
  refine Std.ExtTreeMap.ext_getElem? fun tok => ?_
  simp only [bestStep_get]
  split_ifs with h1 h2
  · rw [keepBest_comm _ hab]
  · rfl
  · rfl
  · rfl

theorem canonicalPendingIds_perm (hids : DistinctIds events) (hp : events'.Perm events) :
    canonicalPendingIds events' = canonicalPendingIds events := by
  rw [canonicalPendingIds, canonicalPendingIds, bestCountersigns_perm hids hp]

theorem currentMaxWallMs_perm (hp : events'.Perm events) (nowMs : Option ℕ) :
    currentMaxWallMs events' nowMs = currentMaxWallMs events nowMs := by
  unfold currentMaxWallMs
  rw [eventsMaxWallMs_perm hp]

theorem prePass_perm (hids : DistinctIds events) (hp : events'.Perm events) (C : Crypto)
    (adminAddr : OwnerAddr) (nowMs : Option ℕ) :
    prePass C events' adminAddr nowMs = prePass C events adminAddr nowMs := by
  simp only [prePass, currentMaxWallMs_perm hp, countersignedPendingIds_perm hp,
    canonicalPendingIds_perm hids hp, proposalsIndex_perm hids hp]

end PrePass

theorem materializeWithNow_perm {events events' : List SignedMembershipEvent}
    (hids : DistinctIds events) (hp : events'.Perm events) (C : Crypto) (adminAddr : OwnerAddr)
    (nowMs : Option ℕ) :
    materializeWithNow C events' adminAddr nowMs = materializeWithNow C events adminAddr nowMs := by
  simp only [materializeWithNow, prePass_perm hids hp, sortEvents,
    sortBy_eq_of_perm hids.keyNodup hp]

theorem materializeWithBounds_eq (C : Crypto) (events : List SignedMembershipEvent)
    (adminAddr : OwnerAddr) (nowMs : Option ℕ) (rn : ℕ) :
    materializeWithBounds C events adminAddr nowMs (some rn) =
      materializeWithNow C
        (events.filter fun e => decide (e.hlc.wallMs ≤ rn + maxForwardSkewMs)) adminAddr nowMs := by
  have hf : ∀ e : SignedMembershipEvent,
      (!rejectFuture e.hlc.wallMs rn maxForwardSkewMs) =
        decide (e.hlc.wallMs ≤ rn + maxForwardSkewMs) := by
    intro e
    rw [rejectFuture, ← decide_not, decide_eq_decide]
    omega
  simp only [materializeWithBounds, hf]

/-- Materialization is a function of the set of events, and the future events it
drops might as well have been removed beforehand. -/
theorem materializeWithBounds_set_function (C : Crypto)
    (events events' : List SignedMembershipEvent) (adminAddr : OwnerAddr)
    (nowMs receiverNowMs : Option ℕ) (hids : DistinctIds events) (hp : events'.Perm events) :
    materializeWithBounds C events' adminAddr nowMs receiverNowMs =
        materializeWithBounds C events adminAddr nowMs receiverNowMs ∧
      ∀ rn, receiverNowMs = some rn →
        materializeWithBounds C
            (events'.filter fun e => decide (e.hlc.wallMs ≤ rn + maxForwardSkewMs)) adminAddr nowMs
            receiverNowMs =
          materializeWithBounds C events adminAddr nowMs receiverNowMs := by
  have hfirst : materializeWithBounds C events' adminAddr nowMs receiverNowMs =
      materializeWithBounds C events adminAddr nowMs receiverNowMs := by
    cases receiverNowMs with
    | none => exact materializeWithNow_perm hids hp C adminAddr nowMs
    | some rn =>
      simp only [materializeWithBounds_eq]
      exact materializeWithNow_perm (hids.filter _) (hp.filter _) C adminAddr nowMs
  refine ⟨hfirst, ?_⟩
  rintro rn rfl
  rw [← hfirst]
  simp only [materializeWithBounds_eq, List.filter_filter, Bool.and_self]

theorem materializeWithBounds_set_function_swap :
    materializeWithBounds symbolicCrypto [signed 2 900000 2 .join, signed 1 1 1 .join] 1 none
          (some 0) =
        materializeWithBounds symbolicCrypto [signed 1 1 1 .join, signed 2 900000 2 .join] 1 none
          (some 0) ∧
      ∀ rn, some 0 = some rn →
        materializeWithBounds symbolicCrypto
            ([signed 2 900000 2 .join, signed 1 1 1 .join].filter
              fun e => decide (e.hlc.wallMs ≤ rn + maxForwardSkewMs)) 1 none (some 0) =
          materializeWithBounds symbolicCrypto [signed 1 1 1 .join, signed 2 900000 2 .join] 1 none
            (some 0) :=
  materializeWithBounds_set_function symbolicCrypto _ _ 1 none (some 0) (by decide)
    (List.Perm.swap _ _ _)

end Harmony.Membership
