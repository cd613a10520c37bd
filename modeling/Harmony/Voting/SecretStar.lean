import Harmony.Voting.StarWinner

/-! The secret tally sees sums only: the score of each candidate, and for each pair the
ballots that prefer its first member. With at most two finalists that is the public tally;
with more it counts pairwise victories where the public tally counts leaders. -/

namespace Harmony.Voting

/-! ### The sums of a list of ballots -/

/-- The pairs `a < b` of `n` candidates, row by row. -/
def candidatePairs (n : ℕ) : List (ℕ × ℕ) :=
  (List.range n).flatMap fun a => (List.range (n - (a + 1))).map fun i => (a, a + 1 + i)

def preferring (cards : List (List ℕ)) (a b : ℕ) : ℕ :=
  cards.countP fun scores => scores.getD b 0 < scores.getD a 0

def deriveSumsFromBallots (n : ℕ) (cards : List (List ℕ)) : List ℕ × List ℕ :=
  ((List.range n).map fun i => (cards.map fun scores => scores.getD i 0).sum,
    (candidatePairs n).map fun p => preferring cards p.1 p.2)

theorem length_rows (n a : ℕ) (ha : a ≤ n) :
    2 * ((List.range a).flatMap fun a =>
      (List.range (n - (a + 1))).map fun i => (a, a + 1 + i)).length = a * (2 * n - a - 1) := by
  induction a with
  | zero => simp
  | succ a ih =>
    have hrow := ih (by omega)
    obtain ⟨k, rfl⟩ : ∃ k, n = a + 1 + k := ⟨n - (a + 1), by omega⟩
    rw [List.range_succ, List.flatMap_append, List.length_append, Nat.mul_add, hrow]
    simp only [List.flatMap_cons, List.flatMap_nil, List.append_nil, List.length_map,
      List.length_range]
    have h1 : 2 * (a + 1 + k) - a - 1 = a + 1 + 2 * k := by omega
    have h2 : 2 * (a + 1 + k) - (a + 1) - 1 = a + 2 * k := by omega
    have h3 : a + 1 + k - (a + 1) = k := by omega
    rw [h1, h2, h3]
    ring

theorem candidatePairs_pairIndex {n a b : ℕ} (hab : a < b) (hb : b < n) :
    (candidatePairs n)[pairIndex n a b]? = some (a, b) := by
  have hrows := length_rows n a (by omega)
  have hsplit : List.range n = List.range a ++ a :: (List.range (n - a - 1)).map (a + 1 + ·) := by
    obtain ⟨k, rfl⟩ : ∃ k, n = a + (k + 1) := ⟨n - a - 1, by omega⟩
    have hk : a + (k + 1) - a - 1 = k := by omega
    rw [List.range_add, List.range_succ_eq_map, hk]
    simp [Function.comp_def, Nat.add_assoc, Nat.add_comm 1]
  rw [candidatePairs, hsplit, List.flatMap_append, List.flatMap_cons]
  have hindex : pairIndex n a b = ((List.range a).flatMap fun a =>
      (List.range (n - (a + 1))).map fun i => (a, a + 1 + i)).length + (b - a - 1) := by
    rw [pairIndex, ← hrows]
    omega
  rw [hindex, List.getElem?_append_right (by omega), Nat.add_sub_cancel_left,
    List.getElem?_append_left (by simp; omega), List.getElem?_map,
    List.getElem?_range (by omega)]
  simp only [Option.map_some, Option.some.injEq, Prod.mk.injEq, true_and]
  omega

theorem deriveSums_pairIndex (cards : List (List ℕ)) {n a b : ℕ} (hab : a < b) (hb : b < n) :
    (deriveSumsFromBallots n cards).2.getD (pairIndex n a b) 0 = preferring cards a b := by
  rw [deriveSumsFromBallots, List.getD_eq_getElem?_getD, List.getElem?_map,
    candidatePairs_pairIndex hab hb]
  rfl

/-! ### Without ties -/

/-- No ballot scores two of the finalists equally. -/
def TieFree (finalists : List ℕ) (cards : List (List ℕ)) : Prop :=
  ∀ scores ∈ cards, ∀ a ∈ finalists, ∀ b ∈ finalists, a ≠ b →
    scores.getD a 0 ≠ scores.getD b 0

instance (finalists : List ℕ) (cards : List (List ℕ)) : Decidable (TieFree finalists cards) := by
  unfold TieFree; infer_instance

theorem preferring_add {finalists : List ℕ} {cards : List (List ℕ)}
    (h : TieFree finalists cards) {a b : ℕ} (ha : a ∈ finalists) (hb : b ∈ finalists)
    (hab : a ≠ b) : preferring cards a b + preferring cards b a = cards.length := by
  rw [List.length_eq_countP_add_countP fun scores : List ℕ => scores.getD b 0 < scores.getD a 0]
  congr 1
  refine List.countP_congr fun scores hs => ?_
  have := h scores hs a ha b hb hab
  simp only [decide_eq_true_eq]
  omega

/-- What the secret tally counts for a finalist: the ballots that prefer it to the only
other one, or the others it beats on more ballots. -/
def secretVotes (finalists : List ℕ) (cards : List (List ℕ)) (c : ℕ) : ℕ :=
  if finalists.length ≤ 2 then clampU32 (cards.countP fun scores => Leads finalists scores c)
  else finalists.countP fun d => c ≠ d ∧ preferring cards d c < preferring cards c d

theorem pairwiseBeats_iff {finalists : List ℕ} {cards : List (List ℕ)}
    (h : TieFree finalists cards) {n i j : ℕ} (hi : i ∈ finalists) (hj : j ∈ finalists)
    (hin : i < n) (hjn : j < n) (hij : i ≠ j) :
    pairwiseBeats n (deriveSumsFromBallots n cards).2 cards.length i j = true ↔
      preferring cards j i < preferring cards i j := by
  have hsum := preferring_add h hi hj hij
  simp only [pairwiseBeats]
  rcases Nat.lt_or_gt_of_ne hij with hlt | hlt
  · rw [min_eq_left hlt.le, max_eq_right hlt.le, deriveSums_pairIndex cards hlt hjn, if_pos hlt]
    simp only [decide_eq_true_eq]
    omega
  · rw [min_eq_right hlt.le, max_eq_left hlt.le, deriveSums_pairIndex cards hlt hin,
      if_neg (by omega)]
    simp only [decide_eq_true_eq]
    omega

/-- The secret tally over the sums of `cards`. -/
def secretTally (candidates : List CandidateRef) (cards : List (List ℕ)) : StarResult :=
  let sums := deriveSumsFromBallots candidates.length cards
  computeStarFromSums candidates sums.1 sums.2 cards.length

def secretTotals (n : ℕ) (cards : List (List ℕ)) : List ℕ :=
  (deriveSumsFromBallots n cards).1.map clampU32

@[simp] theorem length_secretTotals (n : ℕ) (cards : List (List ℕ)) :
    (secretTotals n cards).length = n := by
  simp [secretTotals, deriveSumsFromBallots]

theorem leads_pair (scores : List ℕ) {a b : ℕ} (hab : a ≠ b) :
    (Leads [a, b] scores a ↔ scores.getD b 0 < scores.getD a 0) ∧
      (Leads [a, b] scores b ↔ scores.getD a 0 < scores.getD b 0) := by
  simp [Leads, hab, Ne.symm hab]

theorem secretTally_eq {candidates : List CandidateRef} {cards : List (List ℕ)}
    (h : TieFree (finalistIndices (secretTotals candidates.length cards)) cards) :
    let totals := secretTotals candidates.length cards
    let finalists := finalistIndices totals
    secretTally candidates cards
      = starResult candidates totals finalists (finalists.map (secretVotes finalists cards)) := by
  intro totals finalists
  have htotals : (deriveSumsFromBallots candidates.length cards).1.map clampU32 = totals := rfl
  have hfin : finalistIndices totals = finalists := rfl
  have hlt : ∀ c ∈ finalists, c < candidates.length :=
    fun c hc => (length_secretTotals candidates.length cards) ▸ lt_of_mem_finalistIndices hc
  have hsorted : finalists.Pairwise (· < ·) := finalistIndices_sorted totals
  simp only [secretTally, computeStarFromSums, htotals, hfin]
  congr 1
  change TieFree finalists cards at h
  clear_value finalists
  rcases finalists with _ | ⟨a, _ | ⟨b, _ | ⟨c, rest⟩⟩⟩
  · rfl
  · have hall : ∀ scores ∈ cards, decide (Leads [a] scores a) = true :=
      fun _ _ => by simp [Leads]
    simp [secretVotes, List.countP_eq_length.mpr hall]
  · have hab : a < b := by simpa using hsorted
    have hsum := preferring_add h (a := a) (b := b) (by simp) (by simp) hab.ne
    have hb : b < candidates.length := hlt b (by simp)
    have hleads : cards.countP (fun scores => Leads [a, b] scores a) = preferring cards a b ∧
        cards.countP (fun scores => Leads [a, b] scores b) = preferring cards b a := by
      simp only [(leads_pair _ hab.ne).1, (leads_pair _ hab.ne).2]
      exact ⟨rfl, rfl⟩
    simp only [secretVotes, List.length_cons, List.length_nil, List.map_cons, List.map_nil,
      deriveSums_pairIndex cards hab hb, hleads.1, hleads.2]
    simp [← hsum]
  · refine List.map_congr_left fun i hi => ?_
    rw [secretVotes, if_neg (by simp)]
    refine List.countP_congr fun j hj => ?_
    by_cases hij : i = j
    · simp [hij]
    · simp [hij, pairwiseBeats_iff h hi hj (hlt i hi) (hlt j hj) hij]

theorem secretTally_winner {candidates : List CandidateRef} (hne : candidates ≠ [])
    (hd : (candidates.map (·.eventHash)).Nodup) {cards : List (List ℕ)}
    (h : TieFree (finalistIndices (secretTotals candidates.length cards)) cards) :
    let totals := secretTotals candidates.length cards
    let finalists := finalistIndices totals
    ∃ c, IsFirst (hashAt candidates) (totals.getD · 0) (secretVotes finalists cards)
        finalists c ∧
      (secretTally candidates cards).winner = candidates.getD c default := by
  intro totals finalists
  have hlen : totals.length = candidates.length := length_secretTotals _ cards
  have hpos := List.length_pos_iff.mpr hne
  rw [secretTally_eq h]
  refine starResult_winner candidates totals _ (finalistIndices_ne_nil ?_) fun a ha b hb => ?_
  · exact List.ne_nil_of_length_pos (by omega)
  · exact hashAt_injOn hd (hlen ▸ lt_of_mem_finalistIndices ha)
      (hlen ▸ lt_of_mem_finalistIndices hb)

/-! ### Two finalists -/

def FullBallots (n : ℕ) (ballots : List RatificationBallotPayload) : Prop :=
  ∀ b ∈ ballots, ∃ scores, b.scores = some scores ∧ scores.length = n

theorem length_plainScores {n : ℕ} {ballots : List RatificationBallotPayload}
    (h : FullBallots n ballots) : (plainScores ballots).length = ballots.length := by
  rw [plainScores, List.length_filterMap_eq_countP, List.countP_eq_length]
  intro b hb
  obtain ⟨scores, hs, _⟩ := h b hb
  simp [hs]

theorem totals_agree {n : ℕ} {ballots : List RatificationBallotPayload}
    (h : ∀ t ∈ (deriveSumsFromBallots n (plainScores ballots)).1, t < 2 ^ 32) :
    secretTotals n (plainScores ballots) = totalScores n ballots := by
  simp only [deriveSumsFromBallots, List.mem_map, forall_exists_index, and_imp,
    forall_apply_eq_imp_iff₂] at h
  rw [secretTotals, deriveSumsFromBallots, totalScores, List.map_map]
  refine List.map_congr_left fun i hi => ?_
  have hlt := h i hi
  rw [plainScores] at hlt ⊢
  rw [Function.comp_apply, clampU32, min_eq_left (by omega), Nat.mod_eq_of_lt hlt]

theorem preferring_le_total (cards : List (List ℕ)) (a b : ℕ) :
    preferring cards a b ≤ (cards.map fun scores => scores.getD a 0).sum := by
  induction cards with
  | nil => simp [preferring]
  | cons scores cards ih =>
    rw [preferring, List.countP_cons, List.map_cons, List.sum_cons, ← preferring]
    split
    · next h => simp only [decide_eq_true_eq] at h; omega
    · omega

theorem ledBallots_lt {n : ℕ} {ballots : List RatificationBallotPayload}
    (htot : ∀ t ∈ (deriveSumsFromBallots n (plainScores ballots)).1, t < 2 ^ 32)
    (hone : n = 1 → (plainScores ballots).length < 2 ^ 32)
    (htwo : (finalistIndices (totalScores n ballots)).length ≤ 2) :
    ∀ c ∈ finalistIndices (totalScores n ballots),
      ledBallots (finalistIndices (totalScores n ballots)) ballots c < 2 ^ 32 := by
  have hlen := length_totalScores n ballots
  have hge := length_finalistIndices_ge (totalScores n ballots)
  have hlt : ∀ c ∈ finalistIndices (totalScores n ballots), c < n :=
    fun c hc => hlen ▸ lt_of_mem_finalistIndices hc
  have hnd := finalistIndices_nodup (totalScores n ballots)
  have htotal : ∀ c, c < n → ∀ d, preferring (plainScores ballots) c d < 2 ^ 32 := by
    intro c hc d
    refine (preferring_le_total _ c d).trans_lt (htot _ ?_)
    exact List.mem_map.mpr ⟨c, List.mem_range.mpr hc, rfl⟩
  generalize finalistIndices (totalScores n ballots) = finalists at *
  intro c hc
  rcases finalists with _ | ⟨a, _ | ⟨b, _ | ⟨d, rest⟩⟩⟩
  · simp at hc
  · have hn : n = 1 := by
      have ha := hlt a (by simp)
      simp only [List.length_cons, List.length_nil] at hge
      omega
    exact List.countP_le_length.trans_lt (hone hn)
  · have hab : a ≠ b := by simpa using hnd
    simp only [List.mem_cons, List.not_mem_nil, or_false] at hc
    rcases hc with rfl | rfl
    · simp only [ledBallots, (leads_pair _ hab).1]
      exact htotal c (hlt c (by simp)) b
    · simp only [ledBallots, (leads_pair _ hab).2]
      exact htotal c (hlt c (by simp)) a
  · simp at htwo

/-- With at most two finalists and no ties between them the two tallies are one, as long as
a lone candidate's ballots fit the counter. -/
theorem secretTally_eq_tallyStar {candidates : List CandidateRef}
    {ballots : List RatificationBallotPayload} (hfull : FullBallots candidates.length ballots)
    (htot : ∀ t ∈ (deriveSumsFromBallots candidates.length (plainScores ballots)).1, t < 2 ^ 32)
    (hone : candidates.length = 1 → ballots.length < 2 ^ 32)
    (htwo : (finalistIndices (totalScores candidates.length ballots)).length ≤ 2)
    (htie : TieFree (finalistIndices (totalScores candidates.length ballots))
      (plainScores ballots)) :
    let sums := deriveSumsFromBallots candidates.length (plainScores ballots)
    computeStarFromSums candidates sums.1 sums.2 ballots.length = tallyStar candidates ballots := by
  have hagree := totals_agree htot
  have hled := ledBallots_lt htot (fun h => length_plainScores hfull ▸ hone h) htwo
  have hsecret := secretTally_eq (hagree ▸ htie)
  simp only [hagree] at hsecret
  have hvotes : (finalistIndices (totalScores candidates.length ballots)).map
        (secretVotes (finalistIndices (totalScores candidates.length ballots))
          (plainScores ballots))
      = runoffVotes (finalistIndices (totalScores candidates.length ballots)) ballots := by
    rw [runoffVotes_eq (finalistIndices_nodup _)]
    refine List.map_congr_left fun c hc => ?_
    have hc := hled c hc
    rw [secretVotes, if_pos htwo, clampU32, ← ledBallots, min_eq_left (by omega),
      Nat.mod_eq_of_lt hc]
  intro sums
  rw [← length_plainScores hfull, tallyStar, ← hvotes, ← hsecret]
  rfl

theorem secretTally_eq_tallyStar_pair :
    computeStarFromSums [⟨7, 2⟩, ⟨9, 0⟩, ⟨4, 1⟩] [9, 8, 4] [1, 2, 2] 2
      = tallyStar [⟨7, 2⟩, ⟨9, 0⟩, ⟨4, 1⟩]
        [⟨0, some [5, 3, 2], none, none, none⟩, ⟨0, some [4, 5, 2], none, none, none⟩] := by
  have hfull : FullBallots 3
      [⟨0, some [5, 3, 2], none, none, none⟩, ⟨0, some [4, 5, 2], none, none, none⟩] := by
    simp [FullBallots]
  exact @secretTally_eq_tallyStar [⟨7, 2⟩, ⟨9, 0⟩, ⟨4, 1⟩] _ hfull (by decide) (by decide)
    (by decide) (by decide)

/-- A lone candidate that every ballot scores zero: the public counter wraps. -/
theorem lone_candidate_votes (candidate : CandidateRef) (count : ℕ) :
    (tallyStar [candidate] (List.replicate count ⟨0, some [0], none, none, none⟩)).runoffVotes
        = [count % 2 ^ 32] ∧
      (secretTally [candidate] (List.replicate count [0])).runoffVotes = [clampU32 count] := by
  have hpublic : totalScores 1 (List.replicate count ⟨0, some [0], none, none, none⟩) = [0] := by
    simp [totalScores]
  have hsecret : (deriveSumsFromBallots 1 (List.replicate count [0])).1 = [0] := by
    simp [deriveSumsFromBallots]
  have hfin : finalistIndices [0] = [0] := by decide
  have hfin' : finalistIndices ([0].map clampU32) = [0] := by decide
  have hleader : leader [0] [0] = some 0 := by decide
  constructor
  · simp [tallyStar, starResult, hpublic, hfin, runoffVotes, List.countP_replicate, hleader]
  · simp only [secretTally, List.length_singleton, computeStarFromSums, hsecret, hfin',
      starResult, List.length_replicate]

/-- 2^32 ballots on a lone candidate: the public counter is back at zero, the secret one
stays at its greatest value. -/
theorem secretTally_ne_tallyStar_lone :
    ¬ ∀ (candidates : List CandidateRef) (ballots : List RatificationBallotPayload),
      candidates ≠ [] → (candidates.map (·.eventHash)).Nodup →
      FullBallots candidates.length ballots →
      (∀ t ∈ (deriveSumsFromBallots candidates.length (plainScores ballots)).1, t < 2 ^ 32) →
      (finalistIndices (totalScores candidates.length ballots)).length ≤ 2 →
      TieFree (finalistIndices (totalScores candidates.length ballots)) (plainScores ballots) →
      let sums := deriveSumsFromBallots candidates.length (plainScores ballots)
      computeStarFromSums candidates sums.1 sums.2 ballots.length
        = tallyStar candidates ballots := by
  intro h
  obtain ⟨count, hcount⟩ : ∃ count, count = 2 ^ 32 := ⟨_, rfl⟩
  have hcards : plainScores (List.replicate count ⟨0, some [0], none, none, none⟩)
      = List.replicate count [0] := by
    simp [plainScores]
  have hsum : (deriveSumsFromBallots 1 (List.replicate count [0])).1 = [0] := by
    simp [deriveSumsFromBallots]
  have htotal : totalScores 1 (List.replicate count ⟨0, some [0], none, none, none⟩) = [0] := by
    simp [totalScores]
  have hfin : finalistIndices [0] = [0] := by decide
  have heq := h [⟨7, 0⟩] (List.replicate count ⟨0, some [0], none, none, none⟩) (by simp)
    (by simp) (fun b hb => ⟨[0], by rw [List.eq_of_mem_replicate hb], rfl⟩)
    (by simp [hcards, hsum]) (by simp [htotal, hfin]) (by simp [htotal, hfin, TieFree])
  obtain ⟨hpublic, hsecret⟩ := lone_candidate_votes ⟨7, 0⟩ count
  have hvotes := congrArg StarResult.runoffVotes heq
  rw [hpublic, hcards, List.length_replicate] at hvotes
  simp only [secretTally, List.length_replicate] at hsecret
  rw [List.length_singleton] at hvotes hsecret
  rw [hsecret, hcount] at hvotes
  revert hvotes
  decide

/-! ### Any number of finalists -/

/-- One finalist is first in both counts: by the ballots it leads and, past two finalists,
by the others that more ballots place below it than above it; each count goes on to the
total score and the smaller hash. -/
def LeaderMeetsMajorities (candidates : List CandidateRef)
    (ballots : List RatificationBallotPayload) : Prop :=
  let totals := totalScores candidates.length ballots
  let clamped := secretTotals candidates.length (plainScores ballots)
  ∃ c, IsFirst (hashAt candidates) (totals.getD · 0)
      (fun c => ledBallots (finalistIndices totals) ballots c % 2 ^ 32)
      (finalistIndices totals) c ∧
    IsFirst (hashAt candidates) (clamped.getD · 0)
      (secretVotes (finalistIndices clamped) (plainScores ballots)) (finalistIndices clamped) c

/-- Two finalists always agree: who leads more ballots wins the only pair. -/
theorem leaderMeetsMajorities_of_pair {candidates : List CandidateRef} (hne : candidates ≠ [])
    (hd : (candidates.map (·.eventHash)).Nodup) {ballots : List RatificationBallotPayload}
    (htot : ∀ t ∈ (deriveSumsFromBallots candidates.length (plainScores ballots)).1, t < 2 ^ 32)
    (hone : candidates.length = 1 → (plainScores ballots).length < 2 ^ 32)
    (htwo : (finalistIndices (totalScores candidates.length ballots)).length ≤ 2) :
    LeaderMeetsMajorities candidates ballots := by
  have hled := ledBallots_lt htot hone htwo
  obtain ⟨c, hc, _⟩ := tallyStar_winner hne hd ballots
  refine ⟨c, hc, ?_⟩
  simp only [totals_agree htot]
  refine (isFirst_congr (fun _ _ => rfl) (fun c hc => ?_) c).mp hc
  have hc := hled c hc
  rw [secretVotes, if_pos htwo, clampU32, ← ledBallots, min_eq_left (by omega),
    Nat.mod_eq_of_lt hc]

/-- Each count has one first finalist, and hashes tell candidates apart. -/
theorem secretTally_winner_eq_iff {candidates : List CandidateRef} (hne : candidates ≠ [])
    (hd : (candidates.map (·.eventHash)).Nodup) {ballots : List RatificationBallotPayload}
    (hfull : FullBallots candidates.length ballots)
    (htie : TieFree (finalistIndices (secretTotals candidates.length (plainScores ballots)))
      (plainScores ballots)) :
    let sums := deriveSumsFromBallots candidates.length (plainScores ballots)
    (computeStarFromSums candidates sums.1 sums.2 ballots.length).winner
        = (tallyStar candidates ballots).winner ↔
      LeaderMeetsMajorities candidates ballots := by
  obtain ⟨c, hc, hcwin⟩ := tallyStar_winner hne hd ballots
  obtain ⟨d, hd', hdwin⟩ := secretTally_winner hne hd htie
  intro sums
  rw [← length_plainScores hfull, hcwin]
  have hsecret : (computeStarFromSums candidates sums.1 sums.2 (plainScores ballots).length).winner
      = candidates.getD d default := hdwin
  rw [hsecret]
  have hclt : c < candidates.length :=
    length_totalScores candidates.length ballots ▸ lt_of_mem_finalistIndices hc.1
  have hdlt : d < candidates.length :=
    length_secretTotals candidates.length (plainScores ballots) ▸ lt_of_mem_finalistIndices hd'.1
  refine ⟨fun h => ?_, fun ⟨e, he, he'⟩ => ?_⟩
  · have hdc : d = c := hashAt_injOn hd hdlt hclt (congrArg CandidateRef.eventHash h)
    exact ⟨c, hc, hdc ▸ hd'⟩
  · rw [hd'.unique he', hc.unique he]

/-- With two finalists at most, the secret tally elects the public winner. -/
theorem secretTally_winner_of_pair {candidates : List CandidateRef} (hne : candidates ≠ [])
    (hd : (candidates.map (·.eventHash)).Nodup) {ballots : List RatificationBallotPayload}
    (hfull : FullBallots candidates.length ballots)
    (htot : ∀ t ∈ (deriveSumsFromBallots candidates.length (plainScores ballots)).1, t < 2 ^ 32)
    (hone : candidates.length = 1 → (plainScores ballots).length < 2 ^ 32)
    (htwo : (finalistIndices (totalScores candidates.length ballots)).length ≤ 2)
    (htie : TieFree (finalistIndices (secretTotals candidates.length (plainScores ballots)))
      (plainScores ballots)) :
    let sums := deriveSumsFromBallots candidates.length (plainScores ballots)
    (computeStarFromSums candidates sums.1 sums.2 ballots.length).winner
        = (tallyStar candidates ballots).winner :=
  (secretTally_winner_eq_iff hne hd hfull htie).mpr
    (leaderMeetsMajorities_of_pair hne hd htot hone htwo)

/-- Without ties between finalists the secret tally elects the public winner exactly when
the leader of most ballots is also the winner of most pairwise majorities. -/
theorem secret_winner_iff {candidates : List CandidateRef} (hne : candidates ≠ [])
    (hd : (candidates.map (·.eventHash)).Nodup) {ballots : List RatificationBallotPayload}
    (hfull : FullBallots candidates.length ballots)
    (htie : TieFree (finalistIndices (secretTotals candidates.length (plainScores ballots)))
      (plainScores ballots)) :
    let sums := deriveSumsFromBallots candidates.length (plainScores ballots)
    (computeStarFromSums candidates sums.1 sums.2 ballots.length).winner
        = (tallyStar candidates ballots).winner ↔
      LeaderMeetsMajorities candidates ballots :=
  secretTally_winner_eq_iff hne hd hfull htie

theorem secret_winner_three :
    let cards := [[5, 4, 3], [5, 3, 4], [5, 4, 3], [5, 3, 4]]
    let sums := deriveSumsFromBallots 3 cards
    (computeStarFromSums [⟨7, 2⟩, ⟨9, 0⟩, ⟨4, 1⟩] sums.1 sums.2 4).winner
      = (tallyStar [⟨7, 2⟩, ⟨9, 0⟩, ⟨4, 1⟩]
          (cards.map fun scores => ⟨0, some scores, none, none, none⟩)).winner := by
  have hfull : FullBallots 3 ([[5, 4, 3], [5, 3, 4], [5, 4, 3], [5, 3, 4]].map
      fun scores => ⟨0, some scores, none, none, none⟩) := by
    simp [FullBallots]
  refine (@secret_winner_iff [⟨7, 2⟩, ⟨9, 0⟩, ⟨4, 1⟩] (by decide) (by decide) _ hfull
    (by decide)).mpr ⟨0, ?_, ?_⟩
  · decide
  · decide

/-- Three finalists at fifteen points each: the first leads three ballots of seven, the
second beats either of the others on four or more. -/
theorem secret_winner_differs :
    let candidates : List CandidateRef := [⟨7, 2⟩, ⟨9, 0⟩, ⟨4, 1⟩]
    let cards := [[5, 1, 0], [5, 1, 0], [5, 1, 0], [0, 4, 3], [0, 4, 3], [0, 2, 4], [0, 2, 5]]
    let ballots : List RatificationBallotPayload :=
      cards.map fun scores => ⟨0, some scores, none, none, none⟩
    let sums := deriveSumsFromBallots candidates.length (plainScores ballots)
    TieFree (finalistIndices (totalScores candidates.length ballots)) (plainScores ballots) ∧
      TieFree (finalistIndices (secretTotals candidates.length (plainScores ballots)))
        (plainScores ballots) ∧
      (tallyStar candidates ballots).winner = ⟨7, 2⟩ ∧
      (computeStarFromSums candidates sums.1 sums.2 ballots.length).winner = ⟨9, 0⟩ := by
  decide

end Harmony.Voting
