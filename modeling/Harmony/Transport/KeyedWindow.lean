import Harmony.Lib.Checks
import Harmony.Lib.Keyed
import Harmony.Lib.SlidingWindow
import Harmony.Lib.Sorted

/-! The keyed rate limiter. Each key has a sliding window of its own; the number of keys is
bounded by an eviction that first drops the keys with nothing left in their window and then,
under a flood of live keys, those whose latest admission is oldest. -/

namespace Harmony.Transport

open Harmony.Lib Std

def maxWindowKeys : ℕ := 8192

/-- `select_nth_unstable_by_key` in bounds: on either side of the index, and among equal
keys, the order is its own. -/
structure NthSelection (α : Type) (key : α → ℕ) where
  run : List α → ℕ → List α
  perm : ∀ l n, (run l n).Perm l
  parted : ∀ l n, n < l.length → ∀ a ∈ (run l n).take n, ∀ b ∈ (run l n).drop n, key a ≤ key b

/-- An index out of bounds panics. -/
def NthSelection.select {α : Type} {key : α → ℕ} (sel : NthSelection α key) (l : List α) (n : ℕ) :
    Option (List α) :=
  if n < l.length then some (sel.run l n) else none

/-- A full sort by the key is a selection at every index. -/
def NthSelection.sort {α : Type} (key : α → ℕ) : NthSelection α key where
  run l _ := l.insertionSort fun a b => key a ≤ key b
  perm l _ := List.perm_insertionSort _ l
  parted l n _ a ha b hb := by
    have hsorted : (l.insertionSort fun a b => key a ≤ key b).Pairwise fun a b => key a ≤ key b :=
      sortBy_sorted l
    rw [← List.take_append_drop n (l.insertionSort _), List.pairwise_append] at hsorted
    exact hsorted.2.2 a ha b hb

structure KeyedSlidingWindow (K : Type) [Ord K] where
  max : ℕ
  windowMs : ℕ
  windows : BTreeMap K (List ℕ) := ∅

namespace KeyedSlidingWindow

variable {K : Type} [Ord K] [TransOrd K]

def cutoff (w : KeyedSlidingWindow K) (nowMs : ℕ) : ℕ := nowMs - w.windowMs

/-- The windows with the stale times and then the empty queues dropped. -/
def retained (w : KeyedSlidingWindow K) (nowMs : ℕ) : BTreeMap K (List ℕ) :=
  w.windows.filterMap fun _ dq =>
    let dq := dropStale (w.cutoff nowMs) dq
    if dq = [] then none else some dq

/-- The latest time of each key; an empty queue panics. -/
def recents (windows : BTreeMap K (List ℕ)) : Option (List (ℕ × K)) :=
  windows.toList.mapM fun p => p.2.getLast?.map fun t => (t, p.1)

def dropKeys (windows : BTreeMap K (List ℕ)) (gone : List (ℕ × K)) : BTreeMap K (List ℕ) :=
  (gone.map Prod.snd).foldl (fun t k => t.erase k) windows

/-- A panic is `none`. -/
def evict (w : KeyedSlidingWindow K) (sel : NthSelection (ℕ × K) Prod.fst) (nowMs : ℕ) :
    Option (KeyedSlidingWindow K) :=
  if w.windows.size ≤ maxWindowKeys then some w
  else
    let windows := w.retained nowMs
    if windows.size ≤ maxWindowKeys then some { w with windows }
    else do
      let target := maxWindowKeys / 4 * 3
      let recents ← recents windows
      let excess := recents.length - target
      if recents.length < target then none
      else
        let recents ← sel.select recents excess
        some { w with windows := dropKeys windows (recents.take excess) }

def pruned (w : KeyedSlidingWindow K) (key : K) (nowMs : ℕ) : List ℕ :=
  dropStale (w.cutoff nowMs) (w.windows[key]?.getD [])

def prune (w : KeyedSlidingWindow K) (key : K) (nowMs : ℕ) : KeyedSlidingWindow K :=
  { w with windows := w.windows.insert key (w.pruned key nowMs) }

def record (w : KeyedSlidingWindow K) (key : K) (nowMs : ℕ) : KeyedSlidingWindow K :=
  { w with windows := w.windows.insert key (w.pruned key nowMs ++ [nowMs]) }

/-- Whether the key was recorded; a refusal keeps the pruned queue. -/
def admitKey (w : KeyedSlidingWindow K) (sel : NthSelection (ℕ × K) Prod.fst) (key : K)
    (nowMs : ℕ) : Option (Bool × KeyedSlidingWindow K) :=
  if w.max = 0 then some (false, w)
  else if w.max ≤ (w.pruned key nowMs).length then some (false, w.prune key nowMs)
  else ((w.record key nowMs).evict sel nowMs).map fun w => (true, w)

def wouldAdmit (w : KeyedSlidingWindow K) (key : K) (nowMs : ℕ) : Bool :=
  if w.max = 0 then false
  else
    match w.windows[key]? with
    | none => true
    | some dq => (dq.filter fun t => w.cutoff nowMs ≤ t).length < w.max

theorem admitKey_of_lt {w w' : KeyedSlidingWindow K} {sel : NthSelection (ℕ × K) Prod.fst}
    {key : K} {nowMs : ℕ} (hfew : (w.pruned key nowMs).length < w.max)
    (hevict : (w.record key nowMs).evict sel nowMs = some w') :
    w.admitKey sel key nowMs = some (true, w') := by
  rw [admitKey, if_neg (by omega), if_neg (by omega), hevict]
  rfl

/-! ### Eviction -/

/-- Queues are in the order of time and never empty. -/
def Tidy (windows : BTreeMap K (List ℕ)) : Prop :=
  ∀ (k : K) (dq : List ℕ), windows[k]? = some dq → dq ≠ [] ∧ dq.Pairwise (· ≤ ·)

def LatestIs (windows : BTreeMap K (List ℕ)) (k : K) (t : ℕ) : Prop :=
  ∃ dq, windows[k]? = some dq ∧ dq.getLast? = some t

theorem Tidy.latest {windows : BTreeMap K (List ℕ)} (hw : Tidy windows) {k : K} (hk : k ∈ windows) :
    ∃ t, LatestIs windows k t := by
  obtain ⟨dq, hdq⟩ := Option.isSome_iff_exists.mp (ExtTreeMap.mem_iff_isSome_getElem?.mp hk)
  exact ⟨dq.getLast (hw _ _ hdq).1, dq, hdq, List.getLast?_eq_some_getLast (hw _ _ hdq).1⟩

theorem LatestIs.mem {windows : BTreeMap K (List ℕ)} {k : K} {t : ℕ} (h : LatestIs windows k t) :
    k ∈ windows := by
  obtain ⟨dq, hdq, -⟩ := h
  rw [ExtTreeMap.mem_iff_isSome_getElem?, hdq]
  rfl

theorem LatestIs.unique {windows : BTreeMap K (List ℕ)} {k : K} {t u : ℕ}
    (ht : LatestIs windows k t) (hu : LatestIs windows k u) : t = u := by
  obtain ⟨dq, hdq, ht⟩ := ht
  obtain ⟨dq', hdq', hu⟩ := hu
  rw [hdq, Option.some.injEq] at hdq'
  rw [← hdq', ht, Option.some.injEq] at hu
  exact hu

variable [LawfulEqOrd K]

section Evict

variable {w : KeyedSlidingWindow K} {nowMs : ℕ}

theorem retained_get_eq_some {k : K} {dq' : List ℕ} :
    (w.retained nowMs)[k]? = some dq' ↔
      ∃ dq, w.windows[k]? = some dq ∧ dropStale (w.cutoff nowMs) dq = dq' ∧ dq' ≠ [] := by
  rw [retained, ExtTreeMap.getElem?_filterMap', Option.bind_eq_some_iff]
  refine exists_congr fun dq => and_congr_right fun _ => ?_
  dsimp only
  split_ifs with hempty
  · simp only [false_iff, not_and, not_not]
    rintro rfl
    exact hempty
  · simp only [Option.some.injEq, iff_self_and]
    rintro rfl
    exact hempty

theorem getLast?_dropStale {cutoff : ℕ} {dq : List ℕ} (hne : dropStale cutoff dq ≠ []) :
    (dropStale cutoff dq).getLast? = dq.getLast? := by
  obtain ⟨front, hfront⟩ : ∃ front, dq = front ++ dropStale cutoff dq :=
    ⟨_, List.takeWhile_append_dropWhile.symm⟩
  conv_rhs => rw [hfront]
  rw [List.getLast?_append_of_ne_nil _ hne]

theorem dropStale_ne_nil_iff {cutoff : ℕ} {dq : List ℕ} (hsorted : dq.Pairwise (· ≤ ·)) {t : ℕ}
    (ht : dq.getLast? = some t) : dropStale cutoff dq ≠ [] ↔ cutoff ≤ t := by
  rw [dropStale_eq_filter hsorted, ne_eq, List.filter_eq_nil_iff]
  obtain ⟨front, rfl⟩ := List.getLast?_eq_some_iff.mp ht
  have hle := (List.pairwise_append.mp hsorted).2.2
  simp only [List.mem_append, List.mem_singleton, decide_eq_true_eq, not_forall, not_not]
  constructor
  · rintro ⟨u, hu | rfl, hcut⟩
    · exact hcut.trans (hle u hu t (by simp))
    · exact hcut
  · intro hcut
    exact ⟨t, .inr rfl, hcut⟩

theorem latestIs_retained (hw : Tidy w.windows) {k : K} {t : ℕ} :
    LatestIs (w.retained nowMs) k t ↔ LatestIs w.windows k t ∧ w.cutoff nowMs ≤ t := by
  simp only [LatestIs, retained_get_eq_some]
  constructor
  · rintro ⟨_, ⟨dq, hdq, rfl, hne⟩, ht⟩
    rw [getLast?_dropStale hne] at ht
    exact ⟨⟨dq, hdq, ht⟩, (dropStale_ne_nil_iff (hw _ _ hdq).2 ht).mp hne⟩
  · rintro ⟨⟨dq, hdq, ht⟩, hcut⟩
    have hne := (dropStale_ne_nil_iff (hw _ _ hdq).2 ht).mpr hcut
    exact ⟨_, ⟨dq, hdq, rfl, hne⟩, by rw [getLast?_dropStale hne, ht]⟩

theorem Tidy.retained (hw : Tidy w.windows) : Tidy (w.retained nowMs) := by
  intro k dq' hdq'
  obtain ⟨dq, hdq, rfl, hne⟩ := retained_get_eq_some.mp hdq'
  exact ⟨hne, (hw _ _ hdq).2.sublist (List.dropWhile_sublist _)⟩

theorem recents_eq {windows : BTreeMap K (List ℕ)} (hw : Tidy windows) :
    ∃ l, recents windows = some l ∧ l.length = windows.size ∧ (l.map Prod.snd).Nodup ∧
      ∀ t k, (t, k) ∈ l ↔ LatestIs windows k t := by
  refine ⟨windows.toList.map fun p => (p.2.getLastD 0, p.1), ?_, ?_, ?_, fun t k => ?_⟩
  · refine mapM_eq_some fun p hp => ?_
    have hne := (hw _ _ (mem_toList_iff.mp hp)).1
    rw [List.getLast?_eq_some_getLast hne, Option.map_some, List.getLastD_eq_getLast?,
      List.getLast?_eq_some_getLast hne]
    rfl
  · rw [List.length_map, ExtTreeMap.length_toList]
  · rw [List.map_map]
    exact nodup_keys_toList windows
  · simp only [List.mem_map, Prod.exists, mem_toList_iff, Prod.mk.injEq, LatestIs,
      List.getLastD_eq_getLast?]
    constructor
    · rintro ⟨k, dq, hdq, rfl, rfl⟩
      refine ⟨dq, hdq, ?_⟩
      rw [List.getLast?_eq_some_getLast (hw _ _ hdq).1]
      rfl
    · rintro ⟨dq, hdq, ht⟩
      exact ⟨k, dq, hdq, by rw [ht]; rfl, rfl⟩

/-- What an eviction leaves. -/
structure Evicted (w w' : KeyedSlidingWindow K) (nowMs : ℕ) : Prop where
  max : w'.max = w.max
  windowMs : w'.windowMs = w.windowMs
  bounded : w'.windows.size ≤ maxWindowKeys
  kept : ∀ {k : K} {dq'}, w'.windows[k]? = some dq' → ∃ dq, w.windows[k]? = some dq ∧ dq' ≠ [] ∧
    (dq' = dq ∨ dq' = dropStale (w.cutoff nowMs) dq)
  flood : ∀ {k t}, LatestIs w.windows k t → k ∉ w'.windows → w.cutoff nowMs ≤ t →
    maxWindowKeys < (w.retained nowMs).size
  oldest : ∀ {k t k' t'}, LatestIs w.windows k t → k ∉ w'.windows → LatestIs w'.windows k' t' →
    t ≤ t'

omit [LawfulEqOrd K] in
theorem evicted_self (hw : Tidy w.windows) (hsize : w.windows.size ≤ maxWindowKeys) :
    Evicted w w nowMs where
  max := rfl
  windowMs := rfl
  bounded := hsize
  kept hdq := ⟨_, hdq, (hw _ _ hdq).1, .inl rfl⟩
  flood h hk := absurd h.mem hk
  oldest h hk := absurd h.mem hk

theorem lt_cutoff_of_not_retained (hw : Tidy w.windows) {k : K} {t : ℕ}
    (ht : LatestIs w.windows k t) (hk : k ∉ w.retained nowMs) : t < w.cutoff nowMs := by
  by_contra hlive
  exact hk ((latestIs_retained hw).mpr ⟨ht, by omega⟩).mem

theorem retained_kept {k : K} {dq' : List ℕ} (h : (w.retained nowMs)[k]? = some dq') :
    ∃ dq, w.windows[k]? = some dq ∧ dq' ≠ [] ∧ (dq' = dq ∨ dq' = dropStale (w.cutoff nowMs) dq) := by
  obtain ⟨dq, hdq, rfl, hne⟩ := retained_get_eq_some.mp h
  exact ⟨dq, hdq, hne, .inr rfl⟩

theorem evicted_retained (hw : Tidy w.windows)
    (hsize : (w.retained nowMs).size ≤ maxWindowKeys) :
    Evicted w { w with windows := w.retained nowMs } nowMs := by
  refine ⟨rfl, rfl, hsize, retained_kept, fun ht hk hlive => ?_, fun ht hk ht' => ?_⟩
  · exact absurd (lt_cutoff_of_not_retained hw ht hk) (by omega)
  · exact (lt_cutoff_of_not_retained hw ht hk).le.trans ((latestIs_retained hw).mp ht').2

variable [DecidableEq K]

theorem dropKeys_get (windows : BTreeMap K (List ℕ)) (gone : List (ℕ × K)) (k : K) :
    (dropKeys windows gone)[k]? = if k ∈ gone.map Prod.snd then none else windows[k]? :=
  BTreeMap.get_foldl_erase _ _ _

theorem latestIs_dropKeys {windows : BTreeMap K (List ℕ)} {gone : List (ℕ × K)} {k : K} {t : ℕ} :
    LatestIs (dropKeys windows gone) k t ↔ k ∉ gone.map Prod.snd ∧ LatestIs windows k t := by
  simp only [LatestIs, dropKeys_get]
  split_ifs with hk <;> simp [hk]

/-- The flood: those with the oldest latest time go. -/
theorem evicted_oldest (sel : NthSelection (ℕ × K) Prod.fst) (hw : Tidy w.windows)
    (hsize : maxWindowKeys < (w.retained nowMs).size) {l : List (ℕ × K)}
    (hlen : l.length = (w.retained nowMs).size) (hnd : (l.map Prod.snd).Nodup)
    (hl : ∀ t k, (t, k) ∈ l ↔ LatestIs (w.retained nowMs) k t) (excess : ℕ)
    (hexcess : l.length ≤ excess + maxWindowKeys) (hlt : excess < l.length) :
    Evicted w { w with windows := dropKeys (w.retained nowMs) ((sel.run l excess).take excess) }
      nowMs := by
  have hperm := sel.perm l excess
  have hparted := sel.parted l excess hlt
  generalize sel.run l excess = sorted at hperm hparted
  have hmem : ∀ t k, (t, k) ∈ sorted ↔ LatestIs (w.retained nowMs) k t := by
    intro t k
    rw [hperm.mem_iff, hl]
  have hgone : ((sorted.take excess).map Prod.snd).Nodup :=
    ((hperm.map Prod.snd).nodup_iff.mpr hnd).sublist ((List.take_sublist _ _).map _)
  refine ⟨rfl, rfl, ?_, fun hdq' => ?_, fun _ _ _ => hsize, fun {k t k' t'} ht hk ht' => ?_⟩
  · have hsub : ∀ k ∈ (sorted.take excess).map Prod.snd, k ∈ w.retained nowMs := by
      intro k hk
      obtain ⟨⟨t, k⟩, htk, rfl⟩ := List.mem_map.mp hk
      exact ((hmem t k).mp (List.mem_of_mem_take htk)).mem
    have hleft := BTreeMap.size_foldl_erase hgone hsub
    rw [List.length_map, List.length_take, hperm.length_eq] at hleft
    change ExtTreeMap.size (List.foldl _ _ _) ≤ _
    omega
  · dsimp only at hdq'
    rw [dropKeys_get] at hdq'
    split_ifs at hdq'
    exact retained_kept hdq'
  · obtain ⟨hk', ht'⟩ := latestIs_dropKeys.mp ht'
    by_cases hlive : w.cutoff nowMs ≤ t
    · have ht := (latestIs_retained hw).mpr ⟨ht, hlive⟩
      have hgone : k ∈ (sorted.take excess).map Prod.snd := by
        by_contra hkept
        exact hk (latestIs_dropKeys.mpr ⟨hkept, ht⟩).mem
      obtain ⟨⟨u, k⟩, huk, rfl⟩ := List.mem_map.mp hgone
      obtain rfl := ht.unique ((hmem u k).mp (List.mem_of_mem_take huk))
      -- the kept key stands behind the cut
      have hdrop : (t', k') ∈ sorted.drop excess := by
        have hin := (hmem t' k').mpr ht'
        rw [← List.take_append_drop excess sorted, List.mem_append] at hin
        exact hin.resolve_left fun hfront => hk' (List.mem_map_of_mem hfront)
      exact hparted _ huk _ hdrop
    · exact (Nat.lt_of_not_le hlive).le.trans ((latestIs_retained hw).mp ht').2

theorem target_lt : 0 < maxWindowKeys / 4 * 3 ∧ maxWindowKeys / 4 * 3 < maxWindowKeys := by decide

theorem exists_evict (sel : NthSelection (ℕ × K) Prod.fst) (nowMs : ℕ) (hw : Tidy w.windows) :
    ∃ w', w.evict sel nowMs = some w' ∧ Evicted w w' nowMs := by
  rw [evict]
  dsimp only
  split_ifs with hsize hretained
  · exact ⟨w, rfl, evicted_self hw hsize⟩
  · exact ⟨_, rfl, evicted_retained hw hretained⟩
  · have htidy : Tidy (w.retained nowMs) := hw.retained
    obtain ⟨l, hrecents, hlen, hnd, hl⟩ := recents_eq htidy
    have htarget := target_lt
    rw [hrecents]
    refine ⟨_, ?_, evicted_oldest sel hw (by omega) hlen hnd hl
      (l.length - maxWindowKeys / 4 * 3) (by omega) (by omega)⟩
    simp only [Option.bind_eq_bind, Option.bind_some]
    rw [if_neg (by omega), NthSelection.select, if_pos (by omega)]
    rfl

end Evict

end KeyedSlidingWindow

end Harmony.Transport
