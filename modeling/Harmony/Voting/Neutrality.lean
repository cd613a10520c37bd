import Harmony.Voting.StarWinner

/-! The public tally treats ballots and candidates alike: neither the order of the ballots
nor the position of a candidate on them decides anything. -/

namespace Harmony.Voting

/-- The entries of `l` at the positions `σ`. -/
def reorder {α : Type} (σ : List ℕ) (l : List α) (d : α) : List α := σ.map fun i => l.getD i d

/-- A ballot with its score columns moved along. -/
def RatificationBallotPayload.reorder (σ : List ℕ) (b : RatificationBallotPayload) :
    RatificationBallotPayload :=
  { b with scores := b.scores.map fun scores => Voting.reorder σ scores 0 }

section Reordering

variable {σ : List ℕ} {n : ℕ}

theorem reorder_perm {α : Type} {l : List α} {d : α} (hσ : σ.Perm (List.range l.length)) :
    (reorder σ l d).Perm l := by
  have h := hσ.map fun i => l.getD i d
  rwa [map_range_getD] at h

theorem getD_reorder {α : Type} (l : List α) (d : α) {j : ℕ} (hj : j < σ.length) :
    (reorder σ l d).getD j d = l.getD (σ.getD j 0) d := by
  simp [reorder, List.getD_eq_getElem?_getD, hj]

variable (hσ : σ.Perm (List.range n))

include hσ in
theorem order_length : σ.length = n := by
  simpa using hσ.length_eq

include hσ in
theorem order_lt {j : ℕ} (hj : j < n) : σ.getD j 0 < n := by
  have hlen := order_length hσ
  have hmem : σ.getD j 0 ∈ σ := by
    simp [List.getD_eq_getElem?_getD, hlen, hj]
  exact List.mem_range.mp (hσ.mem_iff.mp hmem)

include hσ in
theorem order_inj {i j : ℕ} (hi : i < n) (hj : j < n) (h : σ.getD i 0 = σ.getD j 0) : i = j := by
  have hlen := order_length hσ
  have hnd : σ.Nodup := hσ.nodup_iff.mpr List.nodup_range
  have hget : σ[i] = σ[j] := by
    simpa [List.getD_eq_getElem?_getD, hlen, hi, hj] using h
  exact hnd.getElem_inj_iff.mp hget

include hσ in
theorem order_surj {c : ℕ} (hc : c < n) : ∃ j, j < n ∧ σ.getD j 0 = c := by
  have hlen := order_length hσ
  obtain ⟨j, hj, rfl⟩ := List.getElem_of_mem (hσ.mem_iff.mpr (List.mem_range.mpr hc))
  exact ⟨j, by omega, by simp [List.getD_eq_getElem?_getD, hj]⟩

/-! ### Every stage of the tally moves along -/

include hσ in
theorem totalScores_reorder (ballots : List RatificationBallotPayload) :
    totalScores n (ballots.map (·.reorder σ)) = reorder σ (totalScores n ballots) 0 := by
  have hlen := order_length hσ
  refine List.ext_getElem (by simp [reorder, hlen]) fun j hj _ => ?_
  have hjn : j < n := by simpa using hj
  have hlt := order_lt hσ hjn
  have hscores : (ballots.map (·.reorder σ)).filterMap (·.scores)
      = (ballots.filterMap (·.scores)).map fun scores => reorder σ scores 0 := by
    rw [List.filterMap_map, List.map_filterMap]
    rfl
  have hget : σ.getD j 0 = σ[j] := by
    simp [List.getD_eq_getElem?_getD, hlen, hjn]
  rw [hget] at hlt
  simp only [totalScores, hscores, List.getElem_map, List.getElem_range, List.map_map, reorder]
  rw [List.getD_eq_getElem?_getD, List.getElem?_map, List.getElem?_range hlt]
  simp only [Option.map_some, Option.getD_some]
  congr 3
  funext scores
  simp only [Function.comp_apply]
  rw [← hget, ← getD_reorder scores 0 (by omega)]
  rfl

include hσ in
theorem mem_finalistIndices_reorder {totals : List ℕ} (hn : totals.length = n) {j : ℕ}
    (hj : j < n) :
    j ∈ finalistIndices (reorder σ totals 0) ↔ σ.getD j 0 ∈ finalistIndices totals := by
  have hlen := order_length hσ
  have hperm : (reorder σ totals 0).Perm totals := reorder_perm (by rwa [hn])
  have hlt := order_lt hσ hj
  simp only [finalistIndices, List.mem_filter, List.mem_range, hperm.length_eq, hn, hj, hlt,
    insertionSort_perm hperm, getD_reorder totals 0 (show j < σ.length by omega), true_and]

variable {finalists finalists' : List ℕ}
  (hfin : ∀ j, j ∈ finalists' ↔ j < n ∧ σ.getD j 0 ∈ finalists)
  (hlt : ∀ c ∈ finalists, c < n)

include hσ hfin hlt in
theorem leads_reorder (scores : List ℕ) {j : ℕ} (hj : j < n) :
    Leads finalists' (reorder σ scores 0) j ↔ Leads finalists scores (σ.getD j 0) := by
  have hlen := order_length hσ
  have hget : ∀ i, i < n → (reorder σ scores 0).getD i 0 = scores.getD (σ.getD i 0) 0 :=
    fun i hi => getD_reorder scores 0 (by omega)
  refine ⟨fun h c hc hne => ?_, fun h i hi hne => ?_⟩
  · obtain ⟨i, hi, rfl⟩ := order_surj hσ (hlt c hc)
    have := h i ((hfin i).mpr ⟨hi, hc⟩) (by rintro rfl; exact hne rfl)
    rwa [hget i hi, hget j hj] at this
  · obtain ⟨hin, hmem⟩ := (hfin i).mp hi
    rw [hget i hin, hget j hj]
    exact h _ hmem fun he => hne (order_inj hσ hin hj he)

include hσ hfin hlt in
theorem ledBallots_reorder (ballots : List RatificationBallotPayload) {j : ℕ} (hj : j < n) :
    ledBallots finalists' (ballots.map (·.reorder σ)) j
      = ledBallots finalists ballots (σ.getD j 0) := by
  have hscores : plainScores (ballots.map (·.reorder σ))
      = (plainScores ballots).map fun scores => reorder σ scores 0 := by
    rw [plainScores, plainScores, List.filterMap_map, List.map_filterMap]
    rfl
  rw [ledBallots, hscores, List.countP_map]
  refine List.countP_congr fun scores _ => ?_
  simp [leads_reorder hσ hfin hlt scores hj]

include hσ hfin hlt in
theorem isFirst_reorder {hash totals votes hash' totals' votes' : ℕ → ℕ}
    (hh : ∀ j < n, hash' j = hash (σ.getD j 0)) (ht : ∀ j < n, totals' j = totals (σ.getD j 0))
    (hv : ∀ j < n, votes' j = votes (σ.getD j 0)) {j : ℕ}
    (h : IsFirst hash' totals' votes' finalists' j) :
    IsFirst hash totals votes finalists (σ.getD j 0) := by
  obtain ⟨hj, hmem⟩ := (hfin j).mp h.1
  refine ⟨hmem, fun c hc hne => ?_⟩
  obtain ⟨i, hi, rfl⟩ := order_surj hσ (hlt c hc)
  have := h.2 i ((hfin i).mpr ⟨hi, hc⟩) (by rintro rfl; exact hne rfl)
  rwa [Behind, hh i hi, hh j hj, ht i hi, ht j hj, hv i hi, hv j hj] at this

end Reordering

/-- Finalist `f` beats finalist `w` in a result: more votes, else a higher total, else the
smaller hash. -/
def StarResult.Beats (candidates : List CandidateRef) (r : StarResult) (f w : ℕ) : Prop :=
  let total := fun fi => r.totalScores.getD (candidates.idxOf (r.finalists.getD fi default)) 0
  let hash := fun fi => (r.finalists.getD fi default).eventHash
  r.runoffVotes.getD w 0 < r.runoffVotes.getD f 0 ∨
    r.runoffVotes.getD w 0 = r.runoffVotes.getD f 0 ∧
      (total w < total f ∨ total w = total f ∧ hash f < hash w)

theorem idxOf_getD {candidates : List CandidateRef}
    (hd : (candidates.map (·.eventHash)).Nodup) {c : ℕ} (hc : c < candidates.length) :
    candidates.idxOf (candidates.getD c default) = c := by
  rw [List.getD_eq_getElem?_getD, List.getElem?_eq_getElem hc, Option.getD_some]
  exact (hd.of_map _).idxOf_getElem c hc

theorem tallyStar_winner_unbeaten {candidates : List CandidateRef} (hne : candidates ≠ [])
    (hd : (candidates.map (·.eventHash)).Nodup) (ballots : List RatificationBallotPayload) :
    let r := tallyStar candidates ballots
    ∃ w < r.finalists.length, r.finalists.getD w default = r.winner ∧
      ∀ f < r.finalists.length, ¬ r.Beats candidates f w := by
  intro r
  obtain ⟨c, hfirst, hwin⟩ := tallyStar_winner hne hd ballots
  let totals := totalScores candidates.length ballots
  let finalists := finalistIndices totals
  have hfin : r.finalists = finalists.map fun ci => candidates.getD ci default := rfl
  have hvotes : r.runoffVotes
      = finalists.map fun c => ledBallots finalists ballots c % 2 ^ 32 :=
    runoffVotes_eq (finalistIndices_nodup totals) ballots
  have hlt : ∀ d ∈ finalists, d < candidates.length :=
    fun d hd => (length_totalScores candidates.length ballots) ▸ lt_of_mem_finalistIndices hd
  have hlen : r.finalists.length = finalists.length := by
    rw [hfin, List.length_map]
  have hget : ∀ f (hf : f < finalists.length),
      r.finalists.getD f default = candidates.getD finalists[f] default ∧
        r.runoffVotes.getD f 0 = ledBallots finalists ballots finalists[f] % 2 ^ 32 := by
    intro f hf
    rw [hfin, hvotes]
    simp [List.getD_eq_getElem?_getD, hf]
  have hfirst : IsFirst (hashAt candidates) (totals.getD · 0)
      (fun c => ledBallots finalists ballots c % 2 ^ 32) finalists c := hfirst
  obtain ⟨w, hw, rfl⟩ := List.getElem_of_mem hfirst.1
  refine ⟨w, by omega, (hget w hw).1.trans hwin.symm, fun f hf hbeats => ?_⟩
  rw [hlen] at hf
  have hidx : ∀ f (hf : f < finalists.length),
      candidates.idxOf (candidates.getD finalists[f] default) = finalists[f] :=
    fun f hf => idxOf_getD hd (hlt _ (List.getElem_mem hf))
  by_cases hfw : finalists[f] = finalists[w]
  · have : f = w := ((finalistIndices_nodup totals).getElem_inj_iff).mp hfw
    subst this
    simp [StarResult.Beats] at hbeats
  · have hbehind := hfirst.2 _ (List.getElem_mem hf) hfw
    simp only [StarResult.Beats, (hget f hf).1, (hget f hf).2, (hget w hw).1, (hget w hw).2,
      hidx f hf, hidx w hw] at hbeats
    exact hbehind.asymm hbeats

theorem tallyStar_winner_reorder {candidates : List CandidateRef} (hne : candidates ≠ [])
    (hd : (candidates.map (·.eventHash)).Nodup) (ballots : List RatificationBallotPayload)
    {σ : List ℕ} (hσ : σ.Perm (List.range candidates.length)) :
    let moved := tallyStar (reorder σ candidates default) (ballots.map (·.reorder σ))
    moved.winner = (tallyStar candidates ballots).winner ∧
      moved.totalScores = reorder σ (tallyStar candidates ballots).totalScores 0 := by
  have hperm : (reorder σ candidates default).Perm candidates := reorder_perm hσ
  have hlen := hperm.length_eq
  have hσlen := order_length hσ
  have hne' : reorder σ candidates default ≠ [] :=
    List.ne_nil_of_length_pos (hlen ▸ List.length_pos_iff.mpr hne)
  have htotals : totalScores (reorder σ candidates default).length (ballots.map (·.reorder σ))
      = reorder σ (totalScores candidates.length ballots) 0 := by
    rw [hlen, totalScores_reorder hσ]
  refine ⟨?_, htotals⟩
  obtain ⟨c, hc, hcwin⟩ := tallyStar_winner hne hd ballots
  obtain ⟨j, hj, hjwin⟩ :=
    tallyStar_winner hne' ((hperm.map _).nodup_iff.mpr hd) (ballots.map (·.reorder σ))
  simp only [htotals] at hj
  have hlength := length_totalScores candidates.length ballots
  generalize totalScores candidates.length ballots = totals at hc hj hlength
  have hlt : ∀ c ∈ finalistIndices totals, c < candidates.length :=
    fun d hd => hlength ▸ lt_of_mem_finalistIndices hd
  have hfin : ∀ i, i ∈ finalistIndices (reorder σ totals 0) ↔
      i < candidates.length ∧ σ.getD i 0 ∈ finalistIndices totals := by
    intro i
    by_cases hi : i < candidates.length
    · simp [hi, mem_finalistIndices_reorder hσ hlength hi]
    · refine iff_of_false (fun h => hi ?_) fun h => hi h.1
      have := lt_of_mem_finalistIndices h
      simp only [reorder, List.length_map] at this
      omega
  have hjn := ((hfin j).mp hj.1).1
  have hmoved : IsFirst (hashAt candidates) (totals.getD · 0)
      (fun c => ledBallots (finalistIndices totals) ballots c % 2 ^ 32) (finalistIndices totals)
      (σ.getD j 0) := by
    refine isFirst_reorder hσ hfin hlt (fun i hi => ?_) (fun i hi => ?_) (fun i hi => ?_) hj
    · rw [hashAt, getD_reorder _ _ (by omega), hashAt]
    · exact getD_reorder _ _ (by omega)
    · simp only [ledBallots_reorder hσ hfin hlt ballots hi]
  rw [hjwin, hcwin, getD_reorder _ _ (by omega), hc.unique hmoved]

/-- Neither the order of the ballots nor that of the candidates matters, and nobody beats
the winner. -/
theorem tallyStar_fair {candidates : List CandidateRef} (hne : candidates ≠ [])
    (hd : (candidates.map (·.eventHash)).Nodup) (ballots : List RatificationBallotPayload) :
    (∀ ballots', ballots.Perm ballots' →
      tallyStar candidates ballots' = tallyStar candidates ballots) ∧
    (∀ σ : List ℕ, σ.Perm (List.range candidates.length) →
      let moved := tallyStar (reorder σ candidates default) (ballots.map (·.reorder σ))
      moved.winner = (tallyStar candidates ballots).winner ∧
        moved.totalScores = reorder σ (tallyStar candidates ballots).totalScores 0) ∧
    let r := tallyStar candidates ballots
    ∃ w < r.finalists.length, r.finalists.getD w default = r.winner ∧
      ∀ f < r.finalists.length, ¬ r.Beats candidates f w :=
  ⟨fun _ h => (tallyStar_perm candidates h).symm,
    fun _ hσ => tallyStar_winner_reorder hne hd ballots hσ,
    tallyStar_winner_unbeaten hne hd ballots⟩

/-- Three candidates, two of them level at the second place. -/
theorem tallyStar_fair_three :
    let candidates : List CandidateRef := [⟨7, 2⟩, ⟨9, 0⟩, ⟨4, 1⟩]
    let ballots : List RatificationBallotPayload :=
      [⟨0, some [5, 1, 2], none, none, none⟩, ⟨0, some [4, 3, 2], none, none, none⟩]
    tallyStar candidates ballots.reverse = tallyStar candidates ballots ∧
      (tallyStar (reorder [2, 0, 1] candidates default)
        (ballots.map (·.reorder [2, 0, 1]))).winner = ⟨7, 2⟩ :=
  have h := tallyStar_fair
    (show ([⟨7, 2⟩, ⟨9, 0⟩, ⟨4, 1⟩] : List CandidateRef) ≠ [] by decide) (by decide)
    [⟨0, some [5, 1, 2], none, none, none⟩, ⟨0, some [4, 3, 2], none, none, none⟩]
  ⟨h.1 _ (by decide), (h.2.1 [2, 0, 1] (by decide)).1.trans (by decide)⟩

end Harmony.Voting
