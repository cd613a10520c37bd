import Harmony.Lib.Shuffle
import Harmony.Voting.Tier3

/-! The draw of the mini-public: a partial shuffle of the electorate in ascending order.
What `gen_range` returns at each step is a parameter. -/

namespace Harmony.Voting

open Harmony.Lib
open Harmony.Membership (OwnerAddr)

/-- Ascending order of the addresses' bytes. -/
def canonicalElectorateOrder (electorate : List OwnerAddr) : List OwnerAddr :=
  electorate.insertionSort (· ≤ ·)

/-- `draw i` is the `i`-th output of `gen_range`, asked for a number below `n - i`. A panic,
such as that on a small electorate, is `none`. -/
def fisherYatesSelect (draw : ℕ → ℕ) (electorate : List OwnerAddr)
    (primarySize backupSize : ℕ) : Option SortitionResult :=
  if electorate.length < primarySize + backupSize then none
  else (shuffle draw (canonicalElectorateOrder electorate) (primarySize + backupSize)).map
    fun pool => ⟨pool.take primarySize, (pool.take (primarySize + backupSize)).drop primarySize⟩

variable {electorate : List OwnerAddr} {primarySize backupSize : ℕ}

theorem canonicalElectorateOrder_perm (electorate : List OwnerAddr) :
    (canonicalElectorateOrder electorate).Perm electorate := List.perm_insertionSort _ _

theorem canonicalElectorateOrder_eq {electorate' : List OwnerAddr}
    (hp : electorate'.Perm electorate) :
    canonicalElectorateOrder electorate' = canonicalElectorateOrder electorate :=
  ((canonicalElectorateOrder_perm _).trans (hp.trans
    (canonicalElectorateOrder_perm _).symm)).eq_of_pairwise'
      (List.pairwise_insertionSort _ _) (List.pairwise_insertionSort _ _)

/-- In range the two parts together are the shuffled prefix. -/
theorem fisherYatesSelect_eq {draw : ℕ → ℕ} {pool : List OwnerAddr}
    (hsize : primarySize + backupSize ≤ electorate.length)
    (hrun : shuffle draw (canonicalElectorateOrder electorate) (primarySize + backupSize) =
      some pool) :
    fisherYatesSelect draw electorate primarySize backupSize =
      some ⟨pool.take primarySize, (pool.take (primarySize + backupSize)).drop primarySize⟩ := by
  rw [fisherYatesSelect, if_neg (by omega), hrun]
  rfl

theorem fisherYatesSelect_perm {electorate' : List OwnerAddr} (hp : electorate'.Perm electorate)
    (draw : ℕ → ℕ) :
    fisherYatesSelect draw electorate' primarySize backupSize =
      fisherYatesSelect draw electorate primarySize backupSize := by
  rw [fisherYatesSelect, fisherYatesSelect, hp.length_eq, canonicalElectorateOrder_eq hp]

/-- What a draw in range returns. -/
structure Drawn (electorate : List OwnerAddr) (primarySize backupSize : ℕ)
    (result : SortitionResult) : Prop where
  primary_length : result.primary.length = primarySize
  backup_length : result.backup.length = backupSize
  nodup : (result.primary ++ result.backup).Nodup
  members : ∀ m ∈ result.primary ++ result.backup, m ∈ electorate
  disjoint : result.primary.Disjoint result.backup

theorem exists_drawn (hnd : electorate.Nodup)
    (hsize : primarySize + backupSize ≤ electorate.length) {draw : ℕ → ℕ}
    (hd : Draws draw electorate.length (primarySize + backupSize)) :
    ∃ result, fisherYatesSelect draw electorate primarySize backupSize = some result ∧
      Drawn electorate primarySize backupSize result := by
  have hcanonical := canonicalElectorateOrder_perm electorate
  rw [← hcanonical.length_eq] at hd
  obtain ⟨pool, hrun, hperm⟩ := exists_shuffle hd
  have hpool : pool.Perm electorate := hperm.trans hcanonical
  have hlen : pool.length = electorate.length := hpool.length_eq
  refine ⟨_, fisherYatesSelect_eq hsize hrun, ?_⟩
  have hparts : pool.take primarySize ++
      (pool.take (primarySize + backupSize)).drop primarySize =
        pool.take (primarySize + backupSize) := by
    have htake : pool.take primarySize =
        (pool.take (primarySize + backupSize)).take primarySize := by
      rw [List.take_take, min_eq_left (by omega)]
    rw [htake, List.take_append_drop]
  have hnodup : (pool.take primarySize ++
      (pool.take (primarySize + backupSize)).drop primarySize).Nodup := by
    rw [hparts]
    exact (hpool.nodup_iff.mpr hnd).sublist (List.take_sublist _ _)
  refine ⟨by simp; omega, by simp; omega, hnodup, ?_, ?_⟩
  · intro m hm
    dsimp only at hm
    rw [hparts] at hm
    exact hpool.mem_iff.mp (List.mem_of_mem_take hm)
  · exact List.disjoint_of_nodup_append hnodup

theorem exists_draw_of_selection {selection : SortitionResult}
    (hdrawn : Drawn electorate primarySize backupSize selection) :
    ∃ draw, Draws draw electorate.length (primarySize + backupSize) ∧
      fisherYatesSelect draw electorate primarySize backupSize = some selection := by
  have hcanonical := canonicalElectorateOrder_perm electorate
  obtain ⟨draw, hd, pool, hrun, htaken⟩ := exists_draws (selection.primary ++ selection.backup)
    hdrawn.nodup fun m hm => hcanonical.mem_iff.mpr (hdrawn.members m hm)
  have htotal : (selection.primary ++ selection.backup).length = primarySize + backupSize := by
    rw [List.length_append, hdrawn.primary_length, hdrawn.backup_length]
  rw [htotal] at hd hrun htaken
  rw [hcanonical.length_eq] at hd
  have hsize : primarySize + backupSize ≤ electorate.length := by
    rw [← htotal]
    exact (hdrawn.nodup.subperm hdrawn.members).length_le
  refine ⟨draw, hd, ?_⟩
  have hprimary : pool.take primarySize = selection.primary := by
    have htake : pool.take primarySize =
        (pool.take (primarySize + backupSize)).take primarySize := by
      rw [List.take_take, min_eq_left (by omega)]
    rw [htake, htaken, ← hdrawn.primary_length, List.take_left]
  have hbackup : (pool.take (primarySize + backupSize)).drop primarySize = selection.backup := by
    rw [htaken, ← hdrawn.primary_length, List.drop_left]
  rw [fisherYatesSelect_eq hsize hrun, hprimary, hbackup]

/-- A draw in range seats distinct members of the electorate, whatever order it came in, and
every ordered selection of that size is drawn by some outputs. -/
theorem fisherYatesSelect_fair {electorate : List OwnerAddr} (hnd : electorate.Nodup)
    {primarySize backupSize : ℕ} (hsize : primarySize + backupSize ≤ electorate.length) :
    (∀ draw, Draws draw electorate.length (primarySize + backupSize) →
      ∃ result, fisherYatesSelect draw electorate primarySize backupSize = some result ∧
        Drawn electorate primarySize backupSize result ∧
        ∀ electorate' : List OwnerAddr, electorate'.Perm electorate →
          fisherYatesSelect draw electorate' primarySize backupSize = some result) ∧
    ∀ selection, Drawn electorate primarySize backupSize selection →
      ∃ draw, Draws draw electorate.length (primarySize + backupSize) ∧
        fisherYatesSelect draw electorate primarySize backupSize = some selection := by
  refine ⟨fun draw hd => ?_, fun selection hdrawn => exists_draw_of_selection hdrawn⟩
  obtain ⟨result, hresult, hdrawn⟩ := exists_drawn hnd hsize hd
  exact ⟨result, hresult, hdrawn, fun _ hp => (fisherYatesSelect_perm hp draw).trans hresult⟩

/-- Two seats and one substitute from four members. -/
theorem fisherYatesSelect_fair_four :
    ∃ draw, Draws draw 4 3 ∧ fisherYatesSelect draw [7, 3, 9, 1] 2 1 = some ⟨[9, 1], [7]⟩ := by
  have hnd : ([7, 3, 9, 1] : List OwnerAddr).Nodup := by decide
  have hdrawn : Drawn [7, 3, 9, 1] 2 1 ⟨[9, 1], [7]⟩ :=
    ⟨rfl, rfl, by decide, by decide, by simp⟩
  have hsize : 2 + 1 ≤ ([7, 3, 9, 1] : List OwnerAddr).length := by decide
  exact (fisherYatesSelect_fair hnd hsize).2 _ hdrawn

end Harmony.Voting
