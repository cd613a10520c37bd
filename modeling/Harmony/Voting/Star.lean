import Harmony.Voting.Events

/-! STAR: the sum of scores picks the finalists, an automatic runoff the winner. The
counters of the source are 32 bits wide and wrap. -/

namespace Harmony.Voting

/-- `Iterator::max_by`: of several greatest elements, the last. -/
def maxBy {α : Type} (cmp : α → α → Ordering) : List α → Option α
  | [] => none
  | a :: l => some (l.foldl (fun best b => if cmp best b = .gt then best else b) a)

def totalScores (n : ℕ) (ballots : List RatificationBallotPayload) : List ℕ :=
  (List.range n).map fun i =>
    ((ballots.filterMap (·.scores)).map fun scores => scores.getD i 0).sum % 2 ^ 32

/-- The candidates at the greatest or second greatest total. -/
def finalistIndices (totals : List ℕ) : List ℕ :=
  let sorted := totals.insertionSort (· ≥ ·)
  let max1 := sorted.headD 0
  let max2 := sorted.getD 1 max1
  (List.range totals.length).filter fun i => totals.getD i 0 = max1 ∨ totals.getD i 0 = max2

/-- The finalist a ballot scores highest, if it is the only one. -/
def leader (finalists scores : List ℕ) : Option ℕ :=
  let finalistScores := finalists.map fun ci => scores.getD ci 0
  let maxScore := finalistScores.foldl max 0
  match (List.range finalists.length).filter fun fi => finalistScores.getD fi 0 = maxScore with
  | [fi] => some fi
  | _ => none

def runoffVotes (finalists : List ℕ) (ballots : List RatificationBallotPayload) : List ℕ :=
  (List.range finalists.length).map fun fi =>
    (ballots.filterMap (·.scores)).countP (fun scores => leader finalists scores = some fi) % 2 ^ 32

/-- Runoff votes, then total score, then the smaller event hash. -/
def winnerCmp (candidates : List CandidateRef) (totals finalists votes : List ℕ) (a b : ℕ) :
    Ordering :=
  let hash := fun fi => (candidates.getD (finalists.getD fi 0) default).eventHash
  (compare (votes.getD a 0) (votes.getD b 0)).then
    ((compare (totals.getD (finalists.getD a 0) 0) (totals.getD (finalists.getD b 0) 0)).then
      (compare (hash b) (hash a)))

/-- The common end of both tallies; there is a finalist as soon as there is a candidate. -/
def starResult (candidates : List CandidateRef) (totals finalists votes : List ℕ) : StarResult :=
  let winnerFi :=
    (maxBy (winnerCmp candidates totals finalists votes) (List.range finalists.length)).getD 0
  { winner := candidates.getD (finalists.getD winnerFi 0) default
    finalists := finalists.map fun ci => candidates.getD ci default
    totalScores := totals
    runoffVotes := votes }

/-- Ballots without plain scores are skipped. -/
def tallyStar (candidates : List CandidateRef) (ballots : List RatificationBallotPayload) :
    StarResult :=
  let totals := totalScores candidates.length ballots
  let finalists := finalistIndices totals
  starResult candidates totals finalists (runoffVotes finalists ballots)

/-- `u32::try_from(n).unwrap_or(u32::MAX)`. -/
def clampU32 (n : ℕ) : ℕ := min n (2 ^ 32 - 1)

def pairIndex (n a b : ℕ) : ℕ := a * (2 * n - a - 1) / 2 + (b - a - 1)

/-- The finalist at `i` beats the one at `j` on strictly more ballots. -/
def pairwiseBeats (n : ℕ) (indicatorSums : List ℕ) (ballotCount i j : ℕ) : Bool :=
  let loWins := indicatorSums.getD (pairIndex n (min i j) (max i j)) 0
  let hiWins := ballotCount - loWins
  if i < j then hiWins < loWins else loWins < hiWins

/-- STAR from decrypted sums: a pair only counts the ballots that prefer its first member. -/
def computeStarFromSums (ordered : List CandidateRef) (scoreSums indicatorSums : List ℕ)
    (ballotCount : ℕ) : StarResult :=
  let n := ordered.length
  let totals := scoreSums.map clampU32
  let finalists := finalistIndices totals
  let votes :=
    match finalists with
    | [_] => [clampU32 ballotCount]
    | [a, b] =>
      let aWins := indicatorSums.getD (pairIndex n a b) 0
      [clampU32 aWins, clampU32 (ballotCount - aWins)]
    | _ => finalists.map fun i =>
        finalists.countP fun j => i ≠ j ∧ pairwiseBeats n indicatorSums ballotCount i j
  starResult ordered totals finalists votes

/-- Score [0, 5] against [3, 0]: the second candidate collects more and wins the runoff tie. -/
example : (tallyStar [⟨7, 2⟩, ⟨9, 0⟩] [⟨0, some [0, 5], none, none, none⟩,
    ⟨0, some [3, 0], none, none, none⟩]).winner = ⟨9, 0⟩ := by decide

/-! ### The order of the ballots is immaterial -/

theorem totalScores_perm (n : ℕ) {l l' : List RatificationBallotPayload} (h : l.Perm l') :
    totalScores n l = totalScores n l' := by
  refine List.map_congr_left fun i _ => ?_
  rw [((h.filterMap (·.scores)).map fun scores => scores.getD i 0).sum_eq]

theorem runoffVotes_perm (finalists : List ℕ) {l l' : List RatificationBallotPayload}
    (h : l.Perm l') : runoffVotes finalists l = runoffVotes finalists l' := by
  refine List.map_congr_left fun fi _ => ?_
  rw [(h.filterMap (·.scores)).countP_eq]

theorem tallyStar_perm (candidates : List CandidateRef) {l l' : List RatificationBallotPayload}
    (h : l.Perm l') : tallyStar candidates l = tallyStar candidates l' := by
  simp only [tallyStar, totalScores_perm _ h, runoffVotes_perm _ h]

end Harmony.Voting
