import Harmony.Voting.Star

/-! Who wins a STAR runoff, said of the candidates themselves: the finalist no other one
beats. The positions the two tallies loop over are gone from here on. -/

namespace Harmony.Voting

/-! ### The greatest element -/

theorem foldl_maxBy {α β : Type} [LinearOrder β] (cmp : α → α → Ordering) (key : α → β)
    (h : ∀ a b, cmp a b = .gt ↔ key b < key a) (l : List α) (a : α) :
    let r := l.foldl (fun best b => if cmp best b = .gt then best else b) a
    r ∈ a :: l ∧ ∀ x ∈ a :: l, key x ≤ key r := by
  induction l generalizing a with
  | nil => simp
  | cons b l ih =>
    obtain ⟨hmem, hle⟩ := ih (if cmp a b = .gt then a else b)
    simp only [List.foldl_cons]
    by_cases hab : cmp a b = .gt
    · rw [if_pos hab] at hmem hle ⊢
      have hb : key b ≤ key a := ((h a b).mp hab).le
      refine ⟨?_, ?_⟩
      · rcases List.mem_cons.mp hmem with hr | hr
        · exact List.mem_cons.mpr (Or.inl hr)
        · exact List.mem_cons_of_mem _ (List.mem_cons_of_mem _ hr)
      · intro x hx
        rcases List.mem_cons.mp hx with rfl | hx
        · exact hle _ List.mem_cons_self
        · rcases List.mem_cons.mp hx with rfl | hx
          · exact hb.trans (hle a List.mem_cons_self)
          · exact hle x (List.mem_cons_of_mem _ hx)
    · rw [if_neg hab] at hmem hle ⊢
      have hb : key a ≤ key b := not_lt.mp fun hlt => hab ((h a b).mpr hlt)
      refine ⟨List.mem_cons_of_mem _ hmem, ?_⟩
      intro x hx
      rcases List.mem_cons.mp hx with rfl | hx
      · exact hb.trans (hle b List.mem_cons_self)
      · exact hle x hx

theorem maxBy_spec {α β : Type} [LinearOrder β] {cmp : α → α → Ordering} (key : α → β)
    (h : ∀ a b, cmp a b = .gt ↔ key b < key a) {l : List α} (hl : l ≠ []) :
    ∃ r ∈ l, maxBy cmp l = some r ∧ ∀ x ∈ l, key x ≤ key r := by
  obtain ⟨a, l, rfl⟩ := List.exists_cons_of_ne_nil hl
  obtain ⟨hmem, hle⟩ := foldl_maxBy cmp key h l a
  exact ⟨_, hmem, rfl, hle⟩

/-! ### The winner -/

/-- `d` falls behind `c`: fewer votes, else a lower total, else a greater hash. -/
def Behind (hash totals votes : ℕ → ℕ) (d c : ℕ) : Prop :=
  votes d < votes c ∨ votes d = votes c ∧
    (totals d < totals c ∨ totals d = totals c ∧ hash c < hash d)

instance (hash totals votes : ℕ → ℕ) (d c : ℕ) : Decidable (Behind hash totals votes d c) := by
  unfold Behind; infer_instance

/-- The finalist every other one falls behind. -/
def IsFirst (hash totals votes : ℕ → ℕ) (finalists : List ℕ) (c : ℕ) : Prop :=
  c ∈ finalists ∧ ∀ d ∈ finalists, d ≠ c → Behind hash totals votes d c

instance (hash totals votes : ℕ → ℕ) (finalists : List ℕ) (c : ℕ) :
    Decidable (IsFirst hash totals votes finalists c) := by
  unfold IsFirst; infer_instance

variable {hash totals votes : ℕ → ℕ} {finalists : List ℕ}

theorem Behind.asymm {c d : ℕ} (h : Behind hash totals votes d c) :
    ¬ Behind hash totals votes c d := by
  unfold Behind at h ⊢
  omega

theorem IsFirst.unique {c c' : ℕ} (h : IsFirst hash totals votes finalists c)
    (h' : IsFirst hash totals votes finalists c') : c = c' := by
  by_contra hne
  exact (h.2 c' h'.1 (Ne.symm hne)).asymm (h'.2 c h.1 hne)

theorem isFirst_congr {totals' votes' : ℕ → ℕ} (ht : ∀ c ∈ finalists, totals c = totals' c)
    (hv : ∀ c ∈ finalists, votes c = votes' c) (c : ℕ) :
    IsFirst hash totals votes finalists c ↔ IsFirst hash totals' votes' finalists c := by
  refine and_congr_right fun hc => forall₂_congr fun d hd => ?_
  rw [Behind, Behind, ht c hc, ht d hd, hv c hc, hv d hd]

def hashAt (candidates : List CandidateRef) (c : ℕ) : ℕ := (candidates.getD c default).eventHash

theorem winnerCmp_gt (candidates : List CandidateRef) (totals finalists votes : List ℕ)
    (a b : ℕ) :
    let key : ℕ → ℕ ×ₗ ℕ ×ₗ ℕᵒᵈ := fun fi => toLex (votes.getD fi 0,
      toLex (totals.getD (finalists.getD fi 0) 0,
        OrderDual.toDual (hashAt candidates (finalists.getD fi 0))))
    winnerCmp candidates totals finalists votes a b = .gt ↔ key b < key a := by
  simp only [winnerCmp, hashAt, Ordering.then_eq_gt, compare_gt_iff_gt, compare_eq_iff_eq,
    Prod.Lex.toLex_lt_toLex, OrderDual.toDual_lt_toDual]
  tauto

theorem map_range_getD {α : Type} (l : List α) (d : α) :
    (List.range l.length).map (fun i => l.getD i d) = l := by
  refine List.ext_getElem (by simp) fun i _ h => ?_
  simp [List.getD_eq_getElem?_getD, h]

/-- The winner of the common end, when the votes of a finalist depend on the candidate only. -/
theorem starResult_winner (candidates : List CandidateRef) (totals : List ℕ)
    {finalists : List ℕ} (votes : ℕ → ℕ) (hne : finalists ≠ [])
    (hh : ∀ a ∈ finalists, ∀ b ∈ finalists, hashAt candidates a = hashAt candidates b → a = b) :
    ∃ c, IsFirst (hashAt candidates) (totals.getD · 0) votes finalists c ∧
      (starResult candidates totals finalists (finalists.map votes)).winner
        = candidates.getD c default := by
  have hrange : List.range finalists.length ≠ [] := by
    simpa using hne
  obtain ⟨w, hw, hmax, hle⟩ :=
    maxBy_spec _ (winnerCmp_gt candidates totals finalists (finalists.map votes)) hrange
  rw [List.mem_range] at hw
  have hget : ∀ fi, fi < finalists.length →
      finalists.getD fi 0 ∈ finalists ∧
        (finalists.map votes).getD fi 0 = votes (finalists.getD fi 0) := by
    intro fi hfi
    simp [List.getD_eq_getElem?_getD, hfi]
  refine ⟨finalists.getD w 0, ⟨(hget w hw).1, ?_⟩, ?_⟩
  · intro d hd hdc
    obtain ⟨fi, hfi, rfl⟩ : ∃ fi, fi < finalists.length ∧ finalists.getD fi 0 = d := by
      obtain ⟨fi, hfi, rfl⟩ := List.getElem_of_mem hd
      exact ⟨fi, hfi, by simp [List.getD_eq_getElem?_getD, hfi]⟩
    have h := hle fi (List.mem_range.mpr hfi)
    have hhash : hashAt candidates (finalists.getD fi 0)
        ≠ hashAt candidates (finalists.getD w 0) :=
      fun he => hdc (hh _ hd _ (hget w hw).1 he)
    simp only [Prod.Lex.toLex_le_toLex, OrderDual.toDual_le_toDual, (hget fi hfi).2,
      (hget w hw).2] at h
    simp only [Behind]
    omega
  · simp only [starResult, hmax, Option.getD_some]

/-! ### The finalists -/

theorem finalistIndices_nodup (totals : List ℕ) : (finalistIndices totals).Nodup :=
  List.nodup_range.filter _

theorem finalistIndices_sorted (totals : List ℕ) : (finalistIndices totals).Pairwise (· < ·) :=
  List.pairwise_lt_range.filter _

theorem lt_of_mem_finalistIndices {totals : List ℕ} {c : ℕ} (h : c ∈ finalistIndices totals) :
    c < totals.length :=
  List.mem_range.mp (List.mem_filter.mp h).1

theorem insertionSort_perm {l l' : List ℕ} (h : l.Perm l') :
    l.insertionSort (· ≥ ·) = l'.insertionSort (· ≥ ·) :=
  (((List.perm_insertionSort _ l).trans h).trans (List.perm_insertionSort _ l').symm).eq_of_pairwise'
    (List.pairwise_insertionSort _ l) (List.pairwise_insertionSort _ l')

theorem countP_range_getD (l : List ℕ) (p : ℕ → Bool) :
    (List.range l.length).countP (fun i => p (l.getD i 0)) = l.countP p := by
  conv_rhs => rw [← map_range_getD l 0, List.countP_map]
  rfl

theorem length_finalistIndices (totals : List ℕ) :
    (finalistIndices totals).length =
      let sorted := totals.insertionSort (· ≥ ·)
      sorted.countP fun t => t = sorted.headD 0 ∨ t = sorted.getD 1 (sorted.headD 0) := by
  simp only [finalistIndices, ← List.countP_eq_length_filter]
  rw [(List.perm_insertionSort (· ≥ ·) totals).countP_eq, ← countP_range_getD totals]

theorem length_finalistIndices_ge (totals : List ℕ) :
    min totals.length 2 ≤ (finalistIndices totals).length := by
  rw [length_finalistIndices, ← List.length_insertionSort (· ≥ ·) totals]
  rcases totals.insertionSort (· ≥ ·) with _ | ⟨m, _ | ⟨m', rest⟩⟩ <;> simp

theorem finalistIndices_ne_nil {totals : List ℕ} (h : totals ≠ []) :
    finalistIndices totals ≠ [] := by
  have hlen := length_finalistIndices_ge totals
  have hpos := List.length_pos_iff.mpr h
  intro he
  simp only [he, List.length_nil] at hlen
  omega

/-! ### The leader of a ballot -/

/-- The ballot scores `c` above every other finalist. -/
def Leads (finalists scores : List ℕ) (c : ℕ) : Prop :=
  ∀ d ∈ finalists, d ≠ c → scores.getD d 0 < scores.getD c 0

instance (finalists scores : List ℕ) (c : ℕ) : Decidable (Leads finalists scores c) := by
  unfold Leads; infer_instance

theorem foldl_max_mem (l : List ℕ) (hl : l ≠ []) :
    l.foldl max 0 ∈ l ∧ ∀ x ∈ l, x ≤ l.foldl max 0 := by
  obtain ⟨a, l, rfl⟩ := List.exists_cons_of_ne_nil hl
  have h : ∀ (l : List ℕ) (a : ℕ), l.foldl max a ∈ a :: l ∧ ∀ x ∈ a :: l, x ≤ l.foldl max a := by
    intro l
    induction l with
    | nil => simp
    | cons b l ih =>
      intro a
      obtain ⟨hmem, hle⟩ := ih (max a b)
      simp only [List.mem_cons, List.foldl_cons, forall_eq_or_imp] at hmem hle ⊢
      refine ⟨?_, by omega, by omega, hle.2⟩
      rcases hmem with he | hmem
      · rcases max_choice a b with hab | hab <;> omega
      · exact Or.inr (Or.inr hmem)
  simpa using h l a

theorem eq_singleton_iff {l : List ℕ} (hl : l.Nodup) (a : ℕ) :
    l = [a] ↔ a ∈ l ∧ ∀ b ∈ l, b = a := by
  refine ⟨by rintro rfl; simp, fun ⟨hmem, hall⟩ => ?_⟩
  exact List.perm_singleton.mp ((List.perm_ext_iff_of_nodup hl (List.nodup_singleton a)).mpr
    fun b => ⟨fun hb => by simp [hall b hb], fun hb => by simp_all⟩)

theorem leader_eq_some {finalists : List ℕ} (hnd : finalists.Nodup) (scores : List ℕ) {fi : ℕ}
    (hfi : fi < finalists.length) :
    leader finalists scores = some fi ↔ Leads finalists scores finalists[fi] := by
  have hget : ∀ fj (h : fj < finalists.length),
      (finalists.map fun ci => scores.getD ci 0).getD fj 0 = scores.getD finalists[fj] 0 := by
    intro fj h
    simp [List.getD_eq_getElem?_getD, h]
  obtain ⟨hmem, hle⟩ := foldl_max_mem (finalists.map fun ci => scores.getD ci 0)
    (by simpa using List.ne_nil_of_length_pos (by omega))
  have hone : leader finalists scores = some fi ↔
      ((List.range finalists.length).filter fun fj =>
        (finalists.map fun ci => scores.getD ci 0).getD fj 0
          = (finalists.map fun ci => scores.getD ci 0).foldl max 0) = [fi] := by
    simp only [leader]
    split
    · next h => rw [h]; simp
    · next h => exact ⟨by simp, fun he => (h fi he).elim⟩
  rw [hone, eq_singleton_iff (List.nodup_range.filter _)]
  generalize (finalists.map fun ci => scores.getD ci 0).foldl max 0 = best at hmem hle ⊢
  simp only [List.mem_map, forall_exists_index, and_imp, forall_apply_eq_imp_iff₂] at hmem hle
  simp only [List.mem_filter, List.mem_range, decide_eq_true_eq]
  refine ⟨fun ⟨⟨_, hbest⟩, huniq⟩ => ?_, fun hlead => ?_⟩
  · intro d hd hne
    obtain ⟨fj, hfj, rfl⟩ := List.getElem_of_mem hd
    rw [hget fi hfi] at hbest
    have hd := hle _ hd
    by_contra hnlt
    have heq : fj = fi := huniq fj ⟨hfj, by rw [hget fj hfj]; omega⟩
    exact hne (by simp only [heq])
  · obtain ⟨d, hd, hbest⟩ := hmem
    have hself : scores.getD finalists[fi] 0 = best := by
      by_contra hne
      have hlt := hlead d hd (by rintro rfl; exact hne hbest)
      have := hle _ (List.getElem_mem hfi)
      omega
    refine ⟨⟨hfi, by rw [hget fi hfi, hself]⟩, fun fj ⟨hfj, he⟩ => ?_⟩
    by_contra hne
    have hlt := hlead finalists[fj] (List.getElem_mem hfj)
      fun h => hne ((hnd.getElem_inj_iff).mp h)
    rw [hget fj hfj] at he
    omega

def plainScores (ballots : List RatificationBallotPayload) : List (List ℕ) :=
  ballots.filterMap (·.scores)

/-- The ballots `c` leads. -/
def ledBallots (finalists : List ℕ) (ballots : List RatificationBallotPayload) (c : ℕ) : ℕ :=
  (plainScores ballots).countP fun scores => Leads finalists scores c

theorem map_range_eq_map {α : Type} (l : List ℕ) {f g : ℕ → α}
    (h : ∀ i (hi : i < l.length), f i = g l[i]) : (List.range l.length).map f = l.map g :=
  List.ext_getElem (by simp) fun i hi _ => by
    simpa using h i (by simpa using hi)

theorem runoffVotes_eq {finalists : List ℕ} (hnd : finalists.Nodup)
    (ballots : List RatificationBallotPayload) :
    runoffVotes finalists ballots
      = finalists.map fun c => ledBallots finalists ballots c % 2 ^ 32 := by
  refine map_range_eq_map finalists fun fi hfi => ?_
  rw [ledBallots, plainScores]
  congr 1
  refine List.countP_congr fun scores _ => ?_
  simp only [decide_eq_true_eq, leader_eq_some hnd scores hfi]

/-! ### The public tally -/

theorem hashAt_injOn {candidates : List CandidateRef}
    (hd : (candidates.map (·.eventHash)).Nodup) {a b : ℕ} (ha : a < candidates.length)
    (hb : b < candidates.length) (h : hashAt candidates a = hashAt candidates b) : a = b := by
  have hget : ∀ c, c < candidates.length →
      (candidates.map (·.eventHash))[c]? = some (hashAt candidates c) := by
    intro c hc
    simp [hashAt, List.getD_eq_getElem?_getD, hc]
  have ha' : a < (candidates.map (·.eventHash)).length := by simpa using ha
  refine (List.getElem?_inj ha' hd).mp ?_
  rw [hget a ha, hget b hb, h]

@[simp] theorem length_totalScores (n : ℕ) (ballots : List RatificationBallotPayload) :
    (totalScores n ballots).length = n := by
  simp [totalScores]

theorem tallyStar_winner {candidates : List CandidateRef} (hne : candidates ≠ [])
    (hd : (candidates.map (·.eventHash)).Nodup) (ballots : List RatificationBallotPayload) :
    let totals := totalScores candidates.length ballots
    let finalists := finalistIndices totals
    ∃ c, IsFirst (hashAt candidates) (totals.getD · 0)
        (fun c => ledBallots finalists ballots c % 2 ^ 32) finalists c ∧
      (tallyStar candidates ballots).winner = candidates.getD c default := by
  intro totals finalists
  have hlen : totals.length = candidates.length := length_totalScores _ ballots
  have hpos := List.length_pos_iff.mpr hne
  rw [tallyStar, runoffVotes_eq (finalistIndices_nodup totals)]
  refine starResult_winner candidates totals _ (finalistIndices_ne_nil ?_) fun a ha b hb => ?_
  · exact List.ne_nil_of_length_pos (by omega)
  · exact hashAt_injOn hd (hlen ▸ lt_of_mem_finalistIndices ha)
      (hlen ▸ lt_of_mem_finalistIndices hb)

end Harmony.Voting
