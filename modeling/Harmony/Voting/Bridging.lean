import Harmony.Lib.Checks
import Harmony.Lib.Keyed
import Harmony.Voting.SecretStar
import Harmony.Voting.Tier3

/-! Vectors over pairs. Nested loops push one entry for each pair `a < b` of members or of
candidates, and `pairIndex` finds the entry of a pair again: in the dissimilarities behind
the bridging scores, in the sums of the secret tally and in the ballots on the wire. -/

namespace Harmony.Voting

open Harmony.Lib
open Harmony.Membership (OwnerAddr Digest)

/-! ### The pairs row by row -/

section Pairs

variable {α β : Type}

/-- Every element with each of those behind it. -/
def pairsOf : List α → List (α × α)
  | [] => []
  | a :: l => l.map (a, ·) ++ pairsOf l

theorem candidatePairs_succ (n : ℕ) :
    candidatePairs (n + 1) = (List.range n).map (fun j => (0, j + 1)) ++
      (candidatePairs n).map fun p => (p.1 + 1, p.2 + 1) := by
  simp only [candidatePairs, List.range_succ_eq_map, List.flatMap_cons, List.flatMap_map,
    List.map_flatMap, List.map_map]
  congr 1
  · refine List.map_congr_left fun j _ => ?_
    simp only [Prod.mk.injEq, true_and]
    omega
  · refine List.flatMap_congr fun a _ => ?_
    have hrow : n + 1 - (a.succ + 1) = n - (a + 1) := by omega
    rw [hrow]
    refine List.map_congr_left fun j _ => ?_
    simp only [Function.comp_apply, Prod.mk.injEq, true_and]
    omega

@[simp] theorem candidatePairs_zero : candidatePairs 0 = [] := rfl

theorem mem_candidatePairs {n a b : ℕ} : (a, b) ∈ candidatePairs n ↔ a < b ∧ b < n := by
  simp only [candidatePairs, List.mem_flatMap, List.mem_range, List.mem_map, Prod.mk.injEq]
  constructor
  · rintro ⟨i, hi, j, hj, hia, hjb⟩
    omega
  · rintro ⟨hab, hb⟩
    exact ⟨a, by omega, b - (a + 1), by omega, rfl, by omega⟩

theorem two_mul_length_candidatePairs (n : ℕ) : 2 * (candidatePairs n).length = n * (n - 1) := by
  have hrows := length_rows n n le_rfl
  rw [candidatePairs, hrows]
  congr 1
  omega

@[simp] theorem length_candidatePairs (n : ℕ) : (candidatePairs n).length = pairCount n := by
  have h := two_mul_length_candidatePairs n
  rw [pairCount]
  omega

theorem nodup_candidatePairs (n : ℕ) : (candidatePairs n).Nodup := by
  induction n with
  | zero => exact List.nodup_nil
  | succ n ih =>
    rw [candidatePairs_succ, List.nodup_append]
    refine ⟨List.nodup_range.map fun i j h => ?_, ih.map fun p q h => ?_, ?_⟩
    · simpa using h
    · simpa [Prod.ext_iff] using h
    · intro p hp q hq hpq
      simp only [List.mem_map] at hp hq
      obtain ⟨j, -, rfl⟩ := hp
      obtain ⟨r, -, rfl⟩ := hq
      simp at hpq

theorem candidatePairs_map_getElem? (l : List α) :
    ((candidatePairs l.length).map fun p => (l[p.1]?, l[p.2]?)) =
      (pairsOf l).map fun p => (some p.1, some p.2) := by
  induction l with
  | nil => rfl
  | cons a l ih =>
    have hrow : (List.range l.length).map (fun j => (some a, l[j]?)) =
        l.map fun b => (some a, some b) := by
      refine List.ext_getElem? fun j => ?_
      rw [List.getElem?_map, List.getElem?_map]
      by_cases hj : j < l.length
      · rw [List.getElem?_range hj, List.getElem?_eq_getElem hj]
        simp [hj]
      · rw [List.getElem?_eq_none (by simpa using hj), List.getElem?_eq_none (by omega)]
        rfl
    rw [List.length_cons, candidatePairs_succ, pairsOf, List.map_append, List.map_append,
      List.map_map, List.map_map, List.map_map]
    congr 1

theorem candidatePairs_mapM (f : α → α → Option β) (l : List α) :
    ((candidatePairs l.length).mapM fun p => do f (← l[p.1]?) (← l[p.2]?)) =
      (pairsOf l).mapM fun p => f p.1 p.2 := by
  have h := congrArg (List.mapM fun q : Option α × Option α => do f (← q.1) (← q.2))
    (candidatePairs_map_getElem? l)
  rwa [List.mapM_map, List.mapM_map] at h

theorem pairsOf_map (f : α → β) (l : List α) :
    pairsOf (l.map f) = (pairsOf l).map (Prod.map f f) := by
  induction l with
  | nil => rfl
  | cons a l ih =>
    rw [List.map_cons, pairsOf, pairsOf, List.map_append, ih, List.map_map, List.map_map]
    rfl

@[simp] theorem length_pairsOf (l : List α) : (pairsOf l).length = pairCount l.length := by
  have h := congrArg List.length (candidatePairs_map_getElem? l)
  simpa using h.symm

theorem rel_of_mem_pairsOf {r : α → α → Prop} {l : List α} (h : l.Pairwise r) {p : α × α}
    (hp : p ∈ pairsOf l) : p.1 ∈ l ∧ p.2 ∈ l ∧ r p.1 p.2 := by
  induction l with
  | nil => simp [pairsOf] at hp
  | cons a l ih =>
    obtain ⟨ha, hl⟩ := List.pairwise_cons.mp h
    rw [pairsOf, List.mem_append, List.mem_map] at hp
    rcases hp with ⟨b, hb, rfl⟩ | hp
    · exact ⟨.head _, .tail _ hb, ha b hb⟩
    · obtain ⟨h1, h2, hr⟩ := ih hl hp
      exact ⟨.tail _ h1, .tail _ h2, hr⟩

end Pairs

/-! ### The index of a pair -/

/-- `index` numbers the pairs `a < b < n` in the order in which the loops visit them. -/
structure RowMajor (n : ℕ) (index : ℕ → ℕ → ℕ) : Prop where
  preceding : ∀ {a b}, a < b → b < n →
    ((candidatePairs n).takeWhile (· ≠ (a, b))).length = index a b
  lt : ∀ {a b}, a < b → b < n → index a b < n * (n - 1) / 2
  inj : ∀ {a b c d}, a < b → b < n → c < d → d < n → index a b = index c d → (a, b) = (c, d)

theorem pairIndex_lt {n a b : ℕ} (hab : a < b) (hb : b < n) : pairIndex n a b < pairCount n := by
  obtain ⟨h, -⟩ := List.getElem?_eq_some_iff.mp (candidatePairs_pairIndex hab hb)
  rwa [length_candidatePairs] at h

theorem takeWhile_ne_getElem? {α : Type} [DecidableEq α] {l : List α} (hnd : l.Nodup) {k : ℕ}
    {a : α} (h : l[k]? = some a) : l.takeWhile (· ≠ a) = l.take k := by
  induction l generalizing k with
  | nil => simp at h
  | cons b l ih =>
    obtain ⟨hb, hl⟩ := List.nodup_cons.mp hnd
    cases k with
    | zero => simp_all
    | succ k =>
      have hne : b ≠ a := fun hba => hb (hba ▸ List.mem_of_getElem? h)
      rw [List.takeWhile_cons_of_pos (by simpa using hne), ih hl h, List.take_succ_cons]

theorem rowMajor_pairIndex (n : ℕ) : RowMajor n (pairIndex n) where
  preceding hab hb := by
    have hlt := pairIndex_lt hab hb
    rw [takeWhile_ne_getElem? (nodup_candidatePairs n) (candidatePairs_pairIndex hab hb),
      List.length_take, length_candidatePairs]
    omega
  lt := pairIndex_lt
  inj hab hb hcd hd h := by
    have hpair := candidatePairs_pairIndex hab hb
    rw [h, candidatePairs_pairIndex hcd hd] at hpair
    exact (Option.some.inj hpair).symm

example : (candidatePairs 4).map (fun p => pairIndex 4 p.1 p.2) = [0, 1, 2, 3, 4, 5] := by decide

theorem pushed_pairIndex {α : Type} (entry : ℕ × ℕ → α) {n a b : ℕ} (hab : a < b) (hb : b < n) :
    ((candidatePairs n).map entry)[pairIndex n a b]? = some (entry (a, b)) := by
  rw [List.getElem?_map, candidatePairs_pairIndex hab hb]
  rfl

/-! ### The sums of the secret tally -/

/-- The indicators of a ballot bundle: for each pair whether the first scores higher. -/
def bundleIndicators (scores : List ℕ) : List ℕ :=
  (candidatePairs scores.length).map fun p =>
    if scores.getD p.2 0 < scores.getD p.1 0 then 1 else 0

/-- Position by position, as `aggregate_se_ballots` adds up the ciphertexts. -/
def aggregateIndicators (n : ℕ) (cards : List (List ℕ)) : List ℕ :=
  (cards.map bundleIndicators).foldl (List.zipWith (· + ·)) (List.replicate (pairCount n) 0)

theorem foldl_zipWith_indicators {n : ℕ} {cards : List (List ℕ)}
    (hlen : ∀ scores ∈ cards, scores.length = n) (sums : ℕ × ℕ → ℕ) :
    (cards.map bundleIndicators).foldl (List.zipWith (· + ·)) ((candidatePairs n).map sums) =
      (candidatePairs n).map fun p => sums p + preferring cards p.1 p.2 := by
  induction cards generalizing sums with
  | nil => simp [preferring]
  | cons scores cards ih =>
    have hrest : ∀ scores ∈ cards, scores.length = n := fun s hs => hlen s (.tail _ hs)
    rw [List.map_cons, List.foldl_cons, bundleIndicators, hlen scores (.head _),
      List.zipWith_map, List.zipWith_self, ih hrest]
    refine List.map_congr_left fun p _ => ?_
    simp only [preferring, List.countP_cons, decide_eq_true_eq]
    omega

theorem aggregateIndicators_eq {n : ℕ} {cards : List (List ℕ)}
    (hlen : ∀ scores ∈ cards, scores.length = n) :
    aggregateIndicators n cards = (deriveSumsFromBallots n cards).2 := by
  have hzero : List.replicate (pairCount n) 0 = (candidatePairs n).map fun _ => 0 := by
    rw [List.map_const', length_candidatePairs]
  rw [aggregateIndicators, hzero, foldl_zipWith_indicators hlen, deriveSumsFromBallots]
  simp only [Nat.zero_add]

/-- Whether the finalist at `i` beats the one at `j`, from the entry of their pair. -/
def beatsBy (ballotCount i j loWins : ℕ) : Bool :=
  let hiWins := ballotCount - loWins
  if i < j then hiWins < loWins else loWins < hiWins

/-- The runoff over a table of pairs. -/
def runoffFrom (look : ℕ → ℕ → Option ℕ) (ballotCount : ℕ) (finalists : List ℕ) :
    Option (List ℕ) :=
  match finalists with
  | [_] => some [clampU32 ballotCount]
  | [a, b] => (look a b).map fun aWins => [clampU32 aWins, clampU32 (ballotCount - aWins)]
  | _ => finalists.mapM fun i => do
      let beaten ← (finalists.filter (i ≠ ·)).mapM fun j =>
        (look (min i j) (max i j)).map (beatsBy ballotCount i j)
      some (beaten.countP id)

/-- `compute_star_from_sums` with its assertions and with the reads of `indicator_sums` as
they are; a panic is `none`. -/
def computeStarChecked (ordered : List CandidateRef) (scoreSums indicatorSums : List ℕ)
    (ballotCount : ℕ) : Option StarResult :=
  let n := ordered.length
  if ordered = [] ∨ scoreSums.length ≠ n ∨ indicatorSums.length ≠ n * (n - 1) / 2 then none
  else
    let totals := scoreSums.map clampU32
    let finalists := finalistIndices totals
    (runoffFrom (fun a b => indicatorSums[pairIndex n a b]?) ballotCount finalists).map
      (starResult ordered totals finalists)

/-- The runoff when `wins a b` ballots prefer the first of a pair. -/
def runoffOf (wins : ℕ → ℕ → ℕ) (ballotCount : ℕ) (finalists : List ℕ) : List ℕ :=
  match finalists with
  | [_] => [clampU32 ballotCount]
  | [a, b] => [clampU32 (wins a b), clampU32 (ballotCount - wins a b)]
  | _ => finalists.map fun i =>
      finalists.countP fun j => i ≠ j ∧ beatsBy ballotCount i j (wins (min i j) (max i j))

theorem runoffFrom_eq {look : ℕ → ℕ → Option ℕ} {wins : ℕ → ℕ → ℕ} {n : ℕ} {finalists : List ℕ}
    (ballotCount : ℕ) (hsorted : finalists.Pairwise (· < ·)) (hlt : ∀ c ∈ finalists, c < n)
    (hlook : ∀ {a b}, a < b → b < n → look a b = some (wins a b)) :
    runoffFrom look ballotCount finalists = some (runoffOf wins ballotCount finalists) := by
  have hbeaten : ∀ i ∈ finalists, ((finalists.filter (i ≠ ·)).mapM fun j =>
        (look (min i j) (max i j)).map (beatsBy ballotCount i j)) =
      some ((finalists.filter (i ≠ ·)).map fun j =>
        beatsBy ballotCount i j (wins (min i j) (max i j))) := by
    intro i hi
    refine mapM_eq_some fun j hj => ?_
    obtain ⟨hj, hij⟩ := List.mem_filter.mp hj
    simp only [ne_eq, decide_not, Bool.not_eq_true', decide_eq_false_iff_not] at hij
    have hmax : max i j < n := max_lt (hlt i hi) (hlt j hj)
    rw [hlook (min_lt_max.mpr hij) hmax]
    rfl
  rcases finalists with _ | ⟨a, _ | ⟨b, _ | ⟨c, rest⟩⟩⟩
  · rfl
  · rfl
  · have hab : a < b := by simpa using hsorted
    rw [runoffFrom, hlook hab (hlt b (by simp))]
    rfl
  · simp only [runoffFrom, runoffOf]
    refine mapM_eq_some fun i hi => ?_
    rw [hbeaten i hi]
    simp only [Option.bind_eq_bind, Option.bind_some, Option.some.injEq, List.countP_map,
      List.countP_filter]
    refine List.countP_congr fun j _ => ?_
    simp [and_comm]

theorem computeStarFromSums_eq (ordered : List CandidateRef) (scoreSums indicatorSums : List ℕ)
    (ballotCount : ℕ) :
    computeStarFromSums ordered scoreSums indicatorSums ballotCount =
      let totals := scoreSums.map clampU32
      starResult ordered totals (finalistIndices totals)
        (runoffOf (fun a b => indicatorSums.getD (pairIndex ordered.length a b) 0) ballotCount
          (finalistIndices totals)) := rfl

/-- Behind its assertions the tally meets every pair it looks for. -/
theorem computeStarChecked_eq {ordered : List CandidateRef} {scoreSums indicatorSums : List ℕ}
    {wins : ℕ → ℕ → ℕ} (ballotCount : ℕ) (hne : ordered ≠ [])
    (hscores : scoreSums.length = ordered.length)
    (hpairs : indicatorSums.length = ordered.length * (ordered.length - 1) / 2)
    (hlook : ∀ {a b}, a < b → b < ordered.length →
      indicatorSums[pairIndex ordered.length a b]? = some (wins a b)) :
    computeStarChecked ordered scoreSums indicatorSums ballotCount =
      let totals := scoreSums.map clampU32
      some (starResult ordered totals (finalistIndices totals)
        (runoffOf wins ballotCount (finalistIndices totals))) := by
  have hlt : ∀ c ∈ finalistIndices (scoreSums.map clampU32), c < ordered.length := by
    intro c hc
    have h := lt_of_mem_finalistIndices hc
    rwa [List.length_map, hscores] at h
  rw [computeStarChecked, if_neg (by simp [hne, hscores, hpairs])]
  simp only [runoffFrom_eq ballotCount (finalistIndices_sorted _) hlt hlook, Option.map_some]

/-- The reads never fall back on a default. -/
theorem computeStarChecked_eq_computeStarFromSums {ordered : List CandidateRef}
    {scoreSums indicatorSums : List ℕ} (ballotCount : ℕ) (hne : ordered ≠ [])
    (hscores : scoreSums.length = ordered.length)
    (hpairs : indicatorSums.length = ordered.length * (ordered.length - 1) / 2) :
    computeStarChecked ordered scoreSums indicatorSums ballotCount =
      some (computeStarFromSums ordered scoreSums indicatorSums ballotCount) := by
  rw [computeStarFromSums_eq, computeStarChecked_eq ballotCount hne hscores hpairs]
  intro a b hab hb
  have hlt := pairIndex_lt hab hb
  rw [pairCount, ← hpairs] at hlt
  rw [List.getD_eq_getElem?_getD, List.getElem?_eq_getElem hlt]
  rfl

/-! ### Bridging scores -/

structure BridgingScore where
  statementEventHash : Digest
  statementText : String
  author : OwnerAddr
  agreeCount : ℕ
  disagreeCount : ℕ
  passCount : ℕ
  diversityQ32 : ℕ
  bridgingScoreQ64 : ℕ
deriving DecidableEq

abbrev DeliberationVotes := BTreeMap (OwnerAddr ×ₗ Digest) DeliberationVoteEntry

def voteOf (votes : DeliberationVotes) (m : OwnerAddr) (s : Digest) : Option BridgingVoteCode :=
  (votes[toLex (m, s)]?).map (·.vote)

/-- Agree is 1, disagree -1; a pass counts like no vote. -/
def voteSign : Option BridgingVoteCode → ℤ
  | some .agree => 1
  | some .disagree => -1
  | some .pass => 0
  | none => 0

/-- A member's row of `vote_vec`. -/
def voteVec (votes : DeliberationVotes) (stmtKeys : List Digest) (m : OwnerAddr) : List ℤ :=
  stmtKeys.map fun s => voteSign (voteOf votes m s)

/-- The fraction of the statements two members both took a side on where the sides differ,
in units of 2^-32. -/
def dissimilarity (u v : List ℤ) : ℕ :=
  let jointSupport := (u.zip v).countP fun p => p.1 ≠ 0 ∧ p.2 ≠ 0
  let disagreeCount := (u.zip v).countP fun p => (p.1 ≠ 0 ∧ p.2 ≠ 0) ∧ p.1 ≠ p.2
  if jointSupport = 0 then 0 else disagreeCount * 2 ^ 32 % 2 ^ 64 / jointSupport

def pairDissim (vecs : List (List ℤ)) : Option (List ℕ) :=
  if vecs.length < 2 then some []
  else (candidatePairs vecs.length).mapM fun p => do
    (fun u v => some (dissimilarity u v)) (← vecs[p.1]?) (← vecs[p.2]?)

/-- The positions of the members that agree. -/
def agreeIndices (votes : DeliberationVotes) (members : List OwnerAddr) (s : Digest) : List ℕ :=
  (members.zipIdx.filter fun p => voteOf votes p.1 s = some .agree).map Prod.snd

/-- The mean over the pairs of agreeing members, `look` reading the dissimilarity of two. -/
def diversityQ32 (look : ℕ → ℕ → Option ℕ) (agree : List ℕ) : Option ℕ :=
  if agree.length < 2 then some 0
  else do
    let ds ← (candidatePairs agree.length).mapM fun p => do look (← agree[p.1]?) (← agree[p.2]?)
    some (if ds.length = 0 then 0 else ds.sum % 2 ^ 64 / ds.length)

/-- The `u16` counter of one kind of vote. -/
def voteCount (votes : DeliberationVotes) (members : List OwnerAddr) (s : Digest)
    (vote : BridgingVoteCode) : ℕ :=
  members.countP (fun m => voteOf votes m s = some vote) % 2 ^ 16

def bridgingScore (votes : DeliberationVotes) (members : List OwnerAddr) (s : Digest)
    (stmt : DeliberationStatement) (diversity : ℕ) : BridgingScore :=
  let agreeCount := voteCount votes members s .agree
  { statementEventHash := s
    statementText := stmt.text
    author := stmt.author
    agreeCount := agreeCount
    disagreeCount := voteCount votes members s .disagree
    passCount := voteCount votes members s .pass
    diversityQ32 := diversity
    bridgingScoreQ64 := agreeCount * diversity % 2 ^ 64 }

/-- Best score first, then the smaller hash. -/
def bridgingOrder (a b : BridgingScore) : Prop :=
  b.bridgingScoreQ64 < a.bridgingScoreQ64 ∨
    a.bridgingScoreQ64 = b.bridgingScoreQ64 ∧ a.statementEventHash ≤ b.statementEventHash

instance : DecidableRel bridgingOrder := fun a b => by unfold bridgingOrder; infer_instance

/-- A read out of bounds is `none`. -/
def computeBridgingScores (statements : BTreeMap Digest DeliberationStatement)
    (votes : DeliberationVotes) (miniPublic : Finset OwnerAddr) : Option (List BridgingScore) := do
  let members := miniPublic.sort (· ≤ ·)
  let stmtKeys := statements.keys
  let dissim ← pairDissim (members.map (voteVec votes stmtKeys))
  let scores ← stmtKeys.mapM fun s => do
    let stmt ← statements[s]?
    let diversity ← diversityQ32 (fun i j => dissim[pairIndex members.length i j]?)
      (agreeIndices votes members s)
    some (bridgingScore votes members s stmt diversity)
  some (scores.insertionSort bridgingOrder)

/-- The mean dissimilarity of the pairs of members that agree with a statement. -/
def supporterDiversity (votes : DeliberationVotes) (stmtKeys : List Digest)
    (members : List OwnerAddr) (s : Digest) : ℕ :=
  let supporters := members.filter fun m => voteOf votes m s = some .agree
  let ds := (pairsOf supporters).map fun p =>
    dissimilarity (voteVec votes stmtKeys p.1) (voteVec votes stmtKeys p.2)
  ds.sum % 2 ^ 64 / ds.length

/-- The scores by the members themselves, with no table in between. -/
def supporterScores (statements : BTreeMap Digest DeliberationStatement)
    (votes : DeliberationVotes) (miniPublic : Finset OwnerAddr) : List BridgingScore :=
  let members := miniPublic.sort (· ≤ ·)
  (statements.toList.map fun p => bridgingScore votes members p.1 p.2
    (supporterDiversity votes statements.keys members p.1)).insertionSort bridgingOrder

theorem pairDissim_eq (vecs : List (List ℤ)) :
    pairDissim vecs = some ((candidatePairs vecs.length).map fun p =>
      dissimilarity (vecs.getD p.1 []) (vecs.getD p.2 [])) := by
  rw [pairDissim]
  split_ifs with hlen
  · interval_cases hn : vecs.length
    · rfl
    · rfl
  · refine mapM_eq_some fun p hp => ?_
    obtain ⟨hab, hb⟩ := mem_candidatePairs.mp hp
    have ha : p.1 < vecs.length := by omega
    rw [List.getElem?_eq_getElem ha, List.getElem?_eq_getElem hb,
      List.getD_eq_getElem _ _ ha, List.getD_eq_getElem _ _ hb]
    rfl

section Diversity

variable {votes : DeliberationVotes} {stmtKeys : List Digest} {members : List OwnerAddr}

/-- The entry the table holds for two members. -/
theorem pairDissim_getElem? {i j : ℕ} {m m' : OwnerAddr} {dissim : List ℕ}
    (hdissim : pairDissim (members.map (voteVec votes stmtKeys)) = some dissim) (hij : i < j)
    (hi : members[i]? = some m) (hj : members[j]? = some m') :
    dissim[pairIndex members.length i j]? =
      some (dissimilarity (voteVec votes stmtKeys m) (voteVec votes stmtKeys m')) := by
  obtain ⟨hjn, -⟩ := List.getElem?_eq_some_iff.mp hj
  rw [pairDissim_eq, Option.some.injEq, List.length_map] at hdissim
  rw [← hdissim, pushed_pairIndex _ hij hjn]
  simp only [List.getD_eq_getElem?_getD, List.getElem?_map, hi, hj, Option.map_some,
    Option.getD_some]

theorem pairwise_agreeing (votes : DeliberationVotes) (members : List OwnerAddr) (s : Digest) :
    (members.zipIdx.filter fun p => voteOf votes p.1 s = some .agree).Pairwise
      fun p q => p.2 < q.2 := by
  have hidx : members.zipIdx.Pairwise fun p q => p.2 < q.2 := by
    have hrange : (members.zipIdx.map Prod.snd).Pairwise (· < ·) := by
      rw [List.zipIdx_map_snd]
      exact List.pairwise_lt_range'
    exact List.pairwise_map.mp hrange
  exact hidx.filter _

theorem agreeing_fst (s : Digest) :
    (members.zipIdx.filter fun p => voteOf votes p.1 s = some .agree).map Prod.fst =
      members.filter fun m => voteOf votes m s = some .agree := by
  conv_rhs => rw [← List.zipIdx_map_fst 0 members, List.filter_map]
  rfl

theorem diversityQ32_eq (s : Digest) {dissim : List ℕ}
    (hdissim : pairDissim (members.map (voteVec votes stmtKeys)) = some dissim) :
    diversityQ32 (fun i j => dissim[pairIndex members.length i j]?)
        (agreeIndices votes members s) =
      some (supporterDiversity votes stmtKeys members s) := by
  have hpairs := pairwise_agreeing votes members s
  have hlen : (agreeIndices votes members s).length =
      (members.filter fun m => voteOf votes m s = some .agree).length := by
    rw [agreeIndices, List.length_map, ← agreeing_fst, List.length_map]
  have hds : ((pairsOf (agreeIndices votes members s)).mapM fun p =>
        dissim[pairIndex members.length p.1 p.2]?) =
      some ((pairsOf (members.filter fun m => voteOf votes m s = some .agree)).map fun p =>
        dissimilarity (voteVec votes stmtKeys p.1) (voteVec votes stmtKeys p.2)) := by
    rw [← agreeing_fst, agreeIndices, pairsOf_map, pairsOf_map, List.mapM_map, List.map_map]
    refine mapM_eq_some fun q hq => ?_
    obtain ⟨h1, h2, hlt⟩ := rel_of_mem_pairsOf hpairs hq
    exact pairDissim_getElem? hdissim hlt
      (List.mem_zipIdx_iff_getElem?.mp (List.mem_of_mem_filter h1))
      (List.mem_zipIdx_iff_getElem?.mp (List.mem_of_mem_filter h2))
  rw [diversityQ32]
  split_ifs with hfew
  · rw [supporterDiversity]
    have hnone : pairsOf (members.filter fun m => voteOf votes m s = some .agree) = [] := by
      rw [← List.length_eq_zero_iff, length_pairsOf, ← hlen]
      interval_cases (agreeIndices votes members s).length <;> rfl
    simp [hnone]
  · rw [candidatePairs_mapM fun i j => dissim[pairIndex members.length i j]?, hds]
    simp only [Option.bind_eq_bind, Option.bind_some, Option.some.injEq, supporterDiversity,
      ite_eq_right_iff]
    intro hzero
    rw [hzero, Nat.div_zero]

end Diversity

theorem computeBridgingScores_eq (statements : BTreeMap Digest DeliberationStatement)
    (votes : DeliberationVotes) (miniPublic : Finset OwnerAddr) :
    computeBridgingScores statements votes miniPublic =
      some (supporterScores statements votes miniPublic) := by
  obtain ⟨dissim, hdissim⟩ : ∃ dissim, pairDissim
      ((miniPublic.sort (· ≤ ·)).map (voteVec votes statements.keys)) = some dissim :=
    ⟨_, pairDissim_eq _⟩
  have hkeys : statements.keys = statements.toList.map Prod.fst :=
    Std.ExtTreeMap.map_fst_toList_eq_keys.symm
  rw [computeBridgingScores, supporterScores, hdissim]
  simp only [Option.bind_eq_bind, Option.bind_some]
  generalize miniPublic.sort (· ≤ ·) = members at hdissim ⊢
  rw [hkeys] at hdissim ⊢
  rw [List.mapM_map, mapM_eq_some fun p hp => ?_]
  · rfl
  · simp only [Function.comp_apply, mem_toList_iff.mp hp, diversityQ32_eq p.1 hdissim,
      Option.bind_some]

/-- The closed form numbers the pairs as the loops visit them; with it the bridging scores and
the secret tally find every pair, in their own tables and in the sums of the ballots. -/
theorem pairIndex_reads :
    (∀ n, RowMajor n (pairIndex n)) ∧
    (∀ (statements : BTreeMap Digest DeliberationStatement) (votes : DeliberationVotes)
      (miniPublic : Finset OwnerAddr),
      computeBridgingScores statements votes miniPublic =
        some (supporterScores statements votes miniPublic)) ∧
    (∀ (ordered : List CandidateRef) (scoreSums : List ℕ) (wins : ℕ → ℕ → ℕ) (ballotCount : ℕ),
      ordered ≠ [] → scoreSums.length = ordered.length →
      let totals := scoreSums.map clampU32
      computeStarChecked ordered scoreSums
          ((candidatePairs ordered.length).map fun p => wins p.1 p.2) ballotCount =
        some (starResult ordered totals (finalistIndices totals)
          (runoffOf wins ballotCount (finalistIndices totals)))) ∧
    ∀ (n : ℕ) (cards : List (List ℕ)), (∀ scores ∈ cards, scores.length = n) →
      aggregateIndicators n cards = (candidatePairs n).map fun p => preferring cards p.1 p.2 := by
  refine ⟨rowMajor_pairIndex, computeBridgingScores_eq, ?_, fun n cards => aggregateIndicators_eq⟩
  intro ordered scoreSums wins ballotCount hne hscores
  refine computeStarChecked_eq ballotCount hne hscores ?_ fun hab hb => ?_
  · rw [List.length_map, length_candidatePairs, pairCount]
  · rw [pushed_pairIndex _ hab hb]

end Harmony.Voting
