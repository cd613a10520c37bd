import Mathlib

/-! Sliding windows over a queue of times. The queue holds the oldest time in front and
loses from the front what has left the window. It is compared with the whole log of what was
recorded, newest first: as long as the clock does not run backwards, the queue without its
stale front is the part of the log inside the window. -/

namespace Harmony.Lib

/-- Drops the times before the cutoff from the front. -/
def dropStale (cutoff : ℕ) (queue : List ℕ) : List ℕ := queue.dropWhile (· < cutoff)

def inWindow (window now : ℕ) (log : List ℕ) : List ℕ := log.filter fun t => now ≤ t + window

/-- Any `limit + 1` of the recorded times span more than the window. -/
def Spread (window limit : ℕ) (log : List ℕ) : Prop :=
  ∀ i j s t, i + limit ≤ j → log[i]? = some s → log[j]? = some t → t + window < s

/-- The queue has lost only times that have left the window by `now`. -/
structure Queues (window now : ℕ) (log queue : List ℕ) : Prop where
  sorted : log.Pairwise (· ≥ ·)
  past : ∀ t ∈ log, t ≤ now
  kept : ∃ stale, log = queue.reverse ++ stale ∧ ∀ t ∈ stale, t + window < now

variable {window limit now later : ℕ} {log queue : List ℕ}

theorem Queues.nil : Queues window now [] [] := ⟨.nil, by simp, [], rfl, by simp⟩

theorem Queues.mono (h : Queues window now log queue) (hle : now ≤ later) :
    Queues window later log queue := by
  obtain ⟨stale, hlog, hstale⟩ := h.kept
  refine ⟨h.sorted, fun t ht => (h.past t ht).trans hle, stale, hlog, fun t ht => ?_⟩
  exact (hstale t ht).trans_le hle

/-- In a sorted queue the stale times are all in front. -/
theorem dropStale_eq_filter {cutoff : ℕ} (h : queue.Pairwise (· ≤ ·)) :
    dropStale cutoff queue = queue.filter (cutoff ≤ ·) := by
  induction queue with
  | nil => rfl
  | cons t queue ih =>
    obtain ⟨ht, hrest⟩ := List.pairwise_cons.mp h
    have ih := ih hrest
    rw [dropStale] at ih ⊢
    by_cases hstale : t < cutoff
    · rw [List.dropWhile_cons_of_pos (by simpa using hstale), ih,
        List.filter_cons_of_neg (by simpa using hstale)]
    · rw [List.dropWhile_cons_of_neg (by simpa using hstale), List.filter_eq_self.mpr]
      intro u hu
      rcases List.mem_cons.mp hu with rfl | hu
      · simpa using hstale
      · have := ht u hu
        simp only [decide_eq_true_eq]
        omega

theorem Queues.queue_sorted (h : Queues window now log queue) : queue.Pairwise (· ≤ ·) := by
  obtain ⟨stale, hlog, -⟩ := h.kept
  have hsorted := h.sorted
  rw [hlog, List.pairwise_append] at hsorted
  exact List.pairwise_reverse.mp hsorted.1

/-- The queue without its stale front is the log inside the window. -/
theorem Queues.dropStale_eq (h : Queues window now log queue) :
    dropStale (now - window) queue = (inWindow window now log).reverse := by
  obtain ⟨stale, hlog, hstale⟩ := h.kept
  have hnone : stale.filter (fun t => now ≤ t + window) = [] := by
    refine List.filter_eq_nil_iff.mpr fun t ht => ?_
    have := hstale t ht
    simp only [decide_eq_true_eq]
    omega
  rw [dropStale_eq_filter h.queue_sorted, inWindow, hlog, List.filter_append, hnone,
    List.append_nil, List.filter_reverse, List.reverse_reverse]
  refine List.filter_congr fun t _ => ?_
  simp only [decide_eq_decide]
  omega

theorem Queues.dropStale (h : Queues window now log queue) :
    Queues window now log (dropStale (now - window) queue) := by
  obtain ⟨stale, hlog, hstale⟩ := h.kept
  refine ⟨h.sorted, h.past, (queue.takeWhile (· < now - window)).reverse ++ stale, ?_, ?_⟩
  · rw [← List.append_assoc, ← List.reverse_append, Lib.dropStale,
      List.takeWhile_append_dropWhile, hlog]
  · intro t ht
    rcases List.mem_append.mp ht with ht | ht
    · have hlt := List.mem_takeWhile_imp (List.mem_reverse.mp ht)
      simp only [decide_eq_true_eq] at hlt
      omega
    · exact hstale t ht

theorem Queues.push (h : Queues window now log queue) :
    Queues window now (now :: log) (queue ++ [now]) := by
  obtain ⟨stale, hlog, hstale⟩ := h.kept
  refine ⟨List.pairwise_cons.mpr ⟨h.past, h.sorted⟩, ?_, stale, ?_, hstale⟩
  · intro t ht
    rcases List.mem_cons.mp ht with rfl | ht
    · exact le_rfl
    · exact h.past t ht
  · rw [List.reverse_append, hlog]
    rfl

/-- The last of the queue is the latest record. -/
theorem Queues.getLast?_eq (h : Queues window now log queue) (hne : queue ≠ []) :
    queue.getLast? = log.head? := by
  obtain ⟨stale, hlog, -⟩ := h.kept
  rw [hlog, List.head?_append_of_ne_nil _ (by simpa using hne), List.head?_reverse]

theorem Spread.nil : Spread window limit [] := by
  intro i j s t _ hs
  simp at hs

/-- A record with fewer than `limit` others in its window keeps the records spread. -/
theorem Spread.cons (h : Spread window limit log) (hsorted : log.Pairwise (· ≥ ·))
    (hfew : (inWindow window now log).length < limit) : Spread window limit (now :: log) := by
  -- the record `limit` places back has left the window
  have hout : ∀ {j t}, limit ≤ j + 1 → log[j]? = some t → t + window < now := by
    intro j t hj ht
    by_contra hin
    obtain ⟨hjlen, rfl⟩ := List.getElem?_eq_some_iff.mp ht
    have hnewer : ∀ u ∈ log.take (j + 1), now ≤ u + window := by
      intro u hu
      obtain ⟨i, hi, rfl⟩ := List.getElem_of_mem hu
      rw [List.length_take] at hi
      rw [List.getElem_take]
      rcases Nat.lt_or_ge i j with hij | hij
      · have := List.pairwise_iff_getElem.mp hsorted i j (by omega) hjlen hij
        omega
      · obtain rfl : i = j := by omega
        omega
    have hsub : ((log.take (j + 1)).filter fun t => now ≤ t + window).Sublist
        (inWindow window now log) := (List.take_sublist (j + 1) log).filter _
    have hlen := hsub.length_le
    rw [List.filter_eq_self.mpr fun u hu => decide_eq_true (hnewer u hu), List.length_take] at hlen
    omega
  intro i j s t hij hs ht
  cases i with
  | zero =>
    cases j with
    | zero => omega
    | succ j =>
      rw [List.getElem?_cons_zero, Option.some.injEq] at hs
      rw [List.getElem?_cons_succ] at ht
      exact hs ▸ hout (by omega) ht
  | succ i =>
    cases j with
    | zero => omega
    | succ j => exact h i j s t (by omega) hs ht

end Harmony.Lib
