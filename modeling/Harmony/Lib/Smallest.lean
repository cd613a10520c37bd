import Harmony.Lib.Slice

/-! The smallest elements of a finite set, in order. Cutting two sets down to their
`n` smallest elements before they are joined loses nothing: what is among the first
`n` of the union is among the first `n` of the part it comes from. -/

namespace Harmony.Lib

variable {α : Type} [LinearOrder α] {n : ℕ} {s t u : Finset α} {a : α}

def smallest (n : ℕ) (s : Finset α) : List α := (s.sort (· ≤ ·)).take n

/-- Sorting a list and dropping its repeats sorts the set of its elements. -/
theorem sortDedup_eq_sort (l : List α) : sortDedup (fun a => a) l = l.toFinset.sort (· ≤ ·) := by
  refine (sortDedup_ascending l).ext (Finset.sortedLT_sort _).pairwise fun a => ?_
  rw [mem_sortDedup fun _ _ _ _ h => h, Finset.mem_sort, List.mem_toFinset]

theorem mem_of_mem_smallest (h : a ∈ smallest n s) : a ∈ s :=
  (Finset.mem_sort (· ≤ ·)).mp (List.mem_of_mem_take h)

theorem smallest_of_card_le (h : s.card ≤ n) : smallest n s = s.sort (· ≤ ·) :=
  List.take_of_length_le (by rwa [Finset.length_sort])

/-- An element above all others is not among the smallest while there are enough others. -/
theorem smallest_insert_top (h : ∀ b ∈ s, b < a) (hn : n ≤ s.card) :
    smallest n (insert a s) = smallest n s := by
  have hsort : (insert a s).sort (· ≤ ·) = s.sort (· ≤ ·) ++ [a] := by
    have hs : Ascending (fun a => a) (s.sort (· ≤ ·)) := (Finset.sortedLT_sort s).pairwise
    have hi : Ascending (fun a => a) ((insert a s).sort (· ≤ ·)) :=
      (Finset.sortedLT_sort (insert a s)).pairwise
    have hsnoc : Ascending (fun a => a) (s.sort (· ≤ ·) ++ [a]) := by
      refine List.pairwise_append.mpr ⟨hs, List.pairwise_singleton _ _, fun b hb c hc => ?_⟩
      rw [List.mem_singleton.mp hc]
      exact h b ((Finset.mem_sort (· ≤ ·)).mp hb)
    refine hi.ext hsnoc fun b => ?_
    simp [or_comm]
  rw [smallest, smallest, hsort, List.take_append_of_le_length (by rwa [Finset.length_sort])]

theorem sort_eq_filter (h : s ⊆ u) :
    s.sort (· ≤ ·) = (u.sort (· ≤ ·)).filter (· ∈ s) := by
  have hu : Ascending (fun a => a) (u.sort (· ≤ ·)) := (Finset.sortedLT_sort u).pairwise
  have hs : Ascending (fun a => a) (s.sort (· ≤ ·)) := (Finset.sortedLT_sort s).pairwise
  refine hs.ext (hu.sublist List.filter_sublist) fun a => ?_
  rw [List.mem_filter, Finset.mem_sort, Finset.mem_sort, decide_eq_true_eq]
  exact ⟨fun ha => ⟨h ha, ha⟩, And.right⟩

theorem mem_smallest_of_subset (h : s ⊆ u) (ha : a ∈ smallest n u) (has : a ∈ s) :
    a ∈ smallest n s := by
  have hfront : a ∈ ((u.sort (· ≤ ·)).take n).filter (· ∈ s) :=
    List.mem_filter.mpr ⟨ha, decide_eq_true has⟩
  have hlen : (((u.sort (· ≤ ·)).take n).filter (· ∈ s)).length ≤ n :=
    (List.length_filter_le _ _).trans (List.length_take_le _ _)
  rw [smallest, sort_eq_filter h, ← List.take_append_drop n (u.sort (· ≤ ·)), List.filter_append,
    List.take_append, List.take_of_length_le hlen]
  exact List.mem_append_left _ hfront

/-- A part that holds the smallest elements of a set has the same smallest elements. -/
theorem smallest_between (h : s ⊆ u) (hu : ∀ a ∈ smallest n u, a ∈ s) :
    smallest n s = smallest n u := by
  have hs : s.toList.toFinset = s := Finset.toList_toFinset s
  have ht : u.toList.toFinset = u := Finset.toList_toFinset u
  unfold smallest at hu ⊢
  rw [← hs, ← ht, ← sortDedup_eq_sort, ← sortDedup_eq_sort]
  refine take_sortDedup_between (fun _ _ _ _ h => h) (fun a ha => ?_) fun a ha => ?_
  · exact Finset.mem_toList.mpr (h (Finset.mem_toList.mp ha))
  · rw [sortDedup_eq_sort, ht] at ha
    exact Finset.mem_toList.mpr (hu a ha)

/-- Sets that lie between the smallest elements of two sets and the sets themselves
have a union with the same smallest elements. -/
theorem smallest_union {s' t' : Finset α} (hs : s' ⊆ s) (ht : t' ⊆ t)
    (hs' : ∀ a ∈ smallest n s, a ∈ s') (ht' : ∀ a ∈ smallest n t, a ∈ t') :
    smallest n (s' ∪ t') = smallest n (s ∪ t) := by
  refine smallest_between (Finset.union_subset_union hs ht) fun a ha => ?_
  rcases Finset.mem_union.mp (mem_of_mem_smallest ha) with h | h
  · exact Finset.mem_union_left _ (hs' a (mem_smallest_of_subset Finset.subset_union_left ha h))
  · exact Finset.mem_union_right _ (ht' a (mem_smallest_of_subset Finset.subset_union_right ha h))

end Harmony.Lib
