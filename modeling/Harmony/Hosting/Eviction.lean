import Harmony.Hosting.Ledger

/-! Eviction of the newest attributions until the distinct bytes fit, and the ledger over
runs of its mutators. -/

namespace Harmony.Hosting.StorageLedger

open Harmony.Lib

variable {s : StorageLedger} {buddy cid : String}

/-- The pairs, as a measure. -/
def pairFinset (s : StorageLedger) : Finset (String × String) :=
  (s.attributions.map fun a => (a.owner, a.cid)).toFinset

theorem mem_pairFinset {p : String × String} : p ∈ s.pairFinset ↔ p ∈ s.pairs := by
  rw [pairFinset, List.mem_toFinset, List.mem_map, mem_pairs]
  constructor
  · rintro ⟨a, ha, rfl⟩
    obtain ⟨e, he, hcid, -⟩ := mem_attributions.mp ha
    exact ⟨e, he, hcid⟩
  · rintro ⟨e, he, hcid⟩
    exact ⟨toLex (e.pinnedAtMs, toLex p), mem_attributions.mpr ⟨e, he, hcid, rfl⟩, rfl⟩

theorem newest_mem {a : Attribution} (h : s.newest = some a) : (a.owner, a.cid) ∈ s.pairs := by
  obtain ⟨e, he, hcid, -⟩ := mem_attributions.mp (List.argmax_mem (Option.mem_def.mpr h))
  exact mem_pairs.mpr ⟨e, he, hcid⟩

theorem card_releaseInner_lt {a : Attribution} (h : s.newest = some a) :
    (s.releaseInner a.owner a.cid).1.pairFinset.card < s.pairFinset.card := by
  refine Finset.card_lt_card ⟨fun p hp => ?_, fun hsub => ?_⟩
  · exact mem_pairFinset.mpr (mem_pairs_releaseInner.mp (mem_pairFinset.mp hp)).1
  · have hgone := mem_pairFinset.mp (hsub (mem_pairFinset.mpr (newest_mem h)))
    exact (mem_pairs_releaseInner.mp hgone).2 rfl

/-- The loop of `evict_newest_first`. Every turn takes a pair away. -/
def evictLoop (target : ℕ) (s : StorageLedger) (freed : List String) :
    StorageLedger × List String :=
  if s.distinctPinnedBytes ≤ target then (s, freed)
  else
    match _h : s.newest with
    | none => (s, freed)
    | some a =>
      evictLoop target (s.releaseInner a.owner a.cid).1
        (freed ++ freedBy a.cid (s.releaseInner a.owner a.cid).2)
termination_by s.pairFinset.card
decreasing_by exact card_releaseInner_lt _h

def evictNewestFirst (s : StorageLedger) (target : ℕ) : StorageLedger × List String :=
  if s.sealedFault then (s, []) else evictLoop target s []

def without (s : StorageLedger) (l : List Attribution) : StorageLedger :=
  l.foldl (fun s a => (s.releaseInner a.owner a.cid).1) s

def newestFirst (s : StorageLedger) : List Attribution := s.attributions.insertionSort (· ≥ ·)

/-- No buddy maps to nothing, and none lists an object twice. -/
structure WellFormed (s : StorageLedger) : Prop where
  nonempty : ∀ (buddy : String) (entries : List LedgerEntry),
    s.perBuddy[buddy]? = some entries → entries ≠ []
  nodup : ∀ buddy, ((s.entriesOf buddy).map LedgerEntry.cid).Nodup

theorem newest_eq_none (h : s.newest = none) : s.distinctPinnedBytes = 0 := by
  have hnone : s.attributions = [] := List.argmax_eq_none.mp h
  have hempty : s.allEntries = [] := by
    rw [List.eq_nil_iff_forall_not_mem]
    intro e he
    obtain ⟨buddy, hb⟩ := mem_allEntries.mp he
    have ha : (toLex (e.pinnedAtMs, toLex (buddy, e.cid)) : Attribution) ∈ s.attributions :=
      mem_attributions.mpr ⟨e, hb, rfl, rfl⟩
    rw [hnone] at ha
    cases ha
  rw [distinctPinnedBytes, hempty]
  rfl

theorem evictLoop_of_fits {target : ℕ} (hfits : s.distinctPinnedBytes ≤ target)
    (freed : List String) : evictLoop target s freed = (s, freed) := by
  rw [evictLoop, if_pos hfits]

theorem evictLoop_of_newest {target : ℕ} {freed : List String} {a : Attribution}
    (hfits : ¬s.distinctPinnedBytes ≤ target) (ha : s.newest = some a) :
    evictLoop target s freed = evictLoop target (s.releaseInner a.owner a.cid).1
      (freed ++ freedBy a.cid (s.releaseInner a.owner a.cid).2) := by
  rw [evictLoop, if_neg hfits]
  split
  · simp_all
  · simp_all

theorem evictLoop_frees (target : ℕ) (s : StorageLedger) (freed : List String) :
    (evictLoop target s freed).1.distinctPinnedBytes ≤ target ∧
      ∃ more, (evictLoop target s freed).2 = freed ++ more ∧ more.Nodup ∧
        Frees s.pairs (evictLoop target s freed).1.pairs more := by
  induction s, freed using evictLoop.induct target with
  | case1 s freed hfits =>
    rw [evictLoop_of_fits hfits]
    exact ⟨hfits, [], by simp, List.nodup_nil, .refl _⟩
  | case2 s freed hfits hnone =>
    have hzero := newest_eq_none hnone
    omega
  | case3 s freed hfits a hnewest ih =>
    obtain ⟨hle, more, hmore, hnd, hfrees⟩ := ih
    have hfirst := frees_releaseInner (newest_mem hnewest)
    rw [evictLoop_of_newest hfits hnewest]
    refine ⟨hle, _, by rw [hmore, List.append_assoc], ?_, hfirst.trans hfrees⟩
    refine hfirst.nodup_append hfrees ?_ hnd
    unfold freedBy
    split <;> simp

/-! ### The order of eviction -/

theorem WellFormed.entry_eq (h : s.WellFormed) {e e' : LedgerEntry} (he : e ∈ s.entriesOf buddy)
    (he' : e' ∈ s.entriesOf buddy) (hcid : e.cid = e'.cid) : e = e' :=
  List.inj_on_of_nodup_map (h.nodup buddy) he he' hcid

theorem WellFormed.nodup_attributions (h : s.WellFormed) : s.attributions.Nodup := by
  unfold attributions
  rw [List.nodup_flatMap]
  constructor
  · rintro ⟨buddy, entries⟩ hp
    have hnd := h.nodup buddy
    rw [mem_toList_entriesOf hp] at hnd
    refine List.Nodup.of_map Attribution.cid ?_
    rw [List.map_map]
    exact hnd
  · have hkeys := List.pairwise_map.mp (nodup_keys_toList s.perBuddy)
    refine hkeys.imp fun {p q} hne => ?_
    rw [Function.onFun, List.disjoint_left]
    intro a ha ha'
    obtain ⟨e, -, rfl⟩ := List.mem_map.mp ha
    obtain ⟨e', -, heq⟩ := List.mem_map.mp ha'
    exact hne (congrArg Attribution.owner heq).symm

theorem WellFormed.mem_attributions_release (h : s.WellFormed) {a x : Attribution}
    (ha : a ∈ s.attributions) :
    x ∈ (s.releaseInner a.owner a.cid).1.attributions ↔ x ∈ s.attributions ∧ x ≠ a := by
  obtain ⟨e, he, hcid, htime⟩ := mem_attributions.mp ha
  rw [mem_attributions, mem_attributions, entriesOf_releaseInner]
  by_cases howner : a.owner = x.owner
  · rw [if_pos howner]
    constructor
    · rintro ⟨e', he', hcid', htime'⟩
      obtain ⟨hmem, hne⟩ := List.mem_filter.mp he'
      refine ⟨⟨e', hmem, hcid', htime'⟩, fun hx => ?_⟩
      rw [hcid', hx] at hne
      simp at hne
    · rintro ⟨⟨e', he', hcid', htime'⟩, hne⟩
      refine ⟨e', List.mem_filter.mpr ⟨he', ?_⟩, hcid', htime'⟩
      simp only [ne_eq, decide_not, Bool.not_eq_eq_eq_not, Bool.not_true, decide_eq_false_iff_not]
      intro hsame
      -- one buddy lists an object once, so the clocks agree as well
      have heq : e = e' := h.entry_eq he (howner ▸ he') (hcid.trans hsame.symm)
      refine hne ?_
      have htimes : (ofLex x).1 = (ofLex a).1 := by rw [← htime, ← htime', heq]
      have hcids : x.cid = a.cid := hcid'.symm.trans hsame
      exact Prod.ext htimes (Prod.ext howner.symm hcids)
  · rw [if_neg howner]
    exact ⟨fun hx => ⟨hx, fun heq => howner (heq ▸ rfl)⟩, fun hx => hx.1⟩

theorem WellFormed.releaseInner (h : s.WellFormed) (buddy cid : String) :
    (s.releaseInner buddy cid).1.WellFormed := by
  constructor
  · intro o entries ho
    rcases s.releaseInner_cases buddy cid with ⟨hsame, -⟩ | hkept
    · rw [hsame] at ho
      exact h.nonempty o entries ho
    · rw [hkept] at ho
      split_ifs at ho with hempty
      · rw [BTreeMap.get_erase] at ho
        split_ifs at ho
        exact h.nonempty o entries ho
      · rw [BTreeMap.get_insert] at ho
        split_ifs at ho
        · rw [← Option.some.inj ho]
          simpa [List.isEmpty_iff] using hempty
        · exact h.nonempty o entries ho
  · intro o
    rw [entriesOf_releaseInner]
    split_ifs
    · exact (h.nodup o).sublist (List.filter_sublist.map _)
    · exact h.nodup o

theorem WellFormed.newestFirst_eq (h : s.WellFormed) {a : Attribution} (ha : s.newest = some a) :
    s.newestFirst = a :: (s.releaseInner a.owner a.cid).1.newestFirst := by
  have hmem : a ∈ s.attributions := List.argmax_mem (Option.mem_def.mpr ha)
  have hrest := (h.releaseInner a.owner a.cid).nodup_attributions
  have hperm : s.attributions.Perm (a :: (s.releaseInner a.owner a.cid).1.attributions) := by
    refine (List.perm_ext_iff_of_nodup h.nodup_attributions ?_).mpr fun x => ?_
    · rw [List.nodup_cons, h.mem_attributions_release hmem]
      exact ⟨fun hx => hx.2 rfl, hrest⟩
    · rw [List.mem_cons, h.mem_attributions_release hmem]
      by_cases hx : x = a
      · simp [hx, hmem]
      · simp [hx]
  refine List.Perm.eq_of_pairwise' (r := (· ≥ ·)) (List.pairwise_insertionSort _ _) ?_ ?_
  · refine List.pairwise_cons.mpr ⟨fun x hx => ?_, List.pairwise_insertionSort _ _⟩
    have hx' : x ∈ s.attributions :=
      hperm.mem_iff.mpr (.tail _ ((List.perm_insertionSort _ _).mem_iff.mp hx))
    exact List.le_of_mem_argmax hx' (Option.mem_def.mpr ha)
  · exact (List.perm_insertionSort _ _).trans (hperm.trans
      ((List.perm_insertionSort _ _).symm.cons a))

theorem without_cons (a : Attribution) (l : List Attribution) :
    s.without (a :: l) = (s.releaseInner a.owner a.cid).1.without l := rfl

/-- The loop takes a prefix of the descending attributions, the shortest that makes the
rest fit. -/
theorem WellFormed.evictLoop_order (h : s.WellFormed) (target : ℕ) (freed : List String) :
    (evictLoop target s freed).1.WellFormed ∧
      ∃ removed, s.newestFirst = removed ++ (evictLoop target s freed).1.newestFirst ∧
        (evictLoop target s freed).1 = s.without removed ∧
        ∀ pre, pre <+: removed → pre ≠ removed → target < (s.without pre).distinctPinnedBytes := by
  induction s, freed using evictLoop.induct target with
  | case1 s freed hfits =>
    rw [evictLoop_of_fits hfits]
    refine ⟨h, [], rfl, rfl, fun pre hpre hne => ?_⟩
    exact absurd (List.prefix_nil.mp hpre) hne
  | case2 s freed hfits hnone =>
    have hzero := newest_eq_none hnone
    omega
  | case3 s freed hfits a hnewest ih =>
    obtain ⟨hwf, removed, horder, hwithout, hfirst⟩ := ih (h.releaseInner a.owner a.cid)
    rw [evictLoop_of_newest hfits hnewest]
    refine ⟨hwf, a :: removed, ?_, hwithout, fun pre hpre hne => ?_⟩
    · rw [h.newestFirst_eq hnewest, horder]
      rfl
    · cases pre with
      | nil => exact not_le.mp hfits
      | cons b pre =>
        obtain ⟨rfl, htail⟩ := List.cons_prefix_cons.mp hpre
        rw [without_cons]
        exact hfirst pre htail fun heq => hne (by rw [heq])

/-! ### Runs -/

theorem wellFormed_empty (fault : Bool) : WellFormed ⟨∅, fault⟩ :=
  ⟨by simp, by simp [entriesOf]⟩

theorem WellFormed.recordPin (h : s.WellFormed) (buddy cid : String) (size nowMs : ℕ) :
    (s.recordPin buddy cid size nowMs).1.WellFormed := by
  unfold StorageLedger.recordPin
  split_ifs with hfault hheld
  · exact h
  · exact h
  · constructor
    · intro o entries ho
      rw [BTreeMap.get_insert] at ho
      split_ifs at ho
      · rw [← Option.some.inj ho]
        simp
      · exact h.nonempty o entries ho
    · intro o
      rw [entriesOf_insert]
      split_ifs with ho
      · have hnew : cid ∉ (s.entriesOf buddy).map LedgerEntry.cid := by
          simpa [holds, List.any_eq_true] using hheld
        rw [List.map_append, List.nodup_append]
        refine ⟨h.nodup buddy, by simp, fun c hc d hd hcd => ?_⟩
        rw [List.map_singleton, List.mem_singleton] at hd
        rw [hcd, hd] at hc
        exact hnew hc
      · exact h.nodup o

theorem WellFormed.release (h : s.WellFormed) (buddy cid : String) :
    (s.release buddy cid).1.WellFormed := by
  unfold StorageLedger.release
  split_ifs
  · exact h
  · exact h.releaseInner buddy cid

theorem WellFormed.releaseBuddy (h : s.WellFormed) (buddy : String) :
    (s.releaseBuddy buddy).1.WellFormed := by
  unfold StorageLedger.releaseBuddy
  split_ifs
  · exact h
  · cases s.perBuddy[buddy]? with
    | none => exact h
    | some entries =>
      constructor
      · intro o entries' ho
        rw [BTreeMap.get_erase] at ho
        split_ifs at ho
        exact h.nonempty o entries' ho
      · intro o
        rw [entriesOf_erase]
        split_ifs
        · exact List.nodup_nil
        · exact h.nodup o

theorem WellFormed.dropCidEverywhere (h : s.WellFormed) (cid : String) :
    (s.dropCidEverywhere cid).WellFormed := by
  cases hfault : s.sealedFault with
  | true =>
    unfold StorageLedger.dropCidEverywhere
    rw [hfault, if_pos rfl]
    exact h
  | false =>
    constructor
    · intro o entries ho
      unfold StorageLedger.dropCidEverywhere at ho
      rw [hfault, if_neg (by simp), Std.ExtTreeMap.getElem?_filterMap'] at ho
      obtain ⟨held, -, hkept⟩ := Option.bind_eq_some_iff.mp ho
      dsimp only at hkept
      split_ifs at hkept with hempty
      rw [← Option.some.inj hkept]
      simpa [List.isEmpty_iff] using hempty
    · intro o
      rw [entriesOf_dropCidEverywhere hfault]
      exact (h.nodup o).sublist (List.filter_sublist.map _)

theorem WellFormed.evictNewestFirst (h : s.WellFormed) (target : ℕ) :
    (s.evictNewestFirst target).1.WellFormed := by
  unfold StorageLedger.evictNewestFirst
  split_ifs
  · exact h
  · exact (h.evictLoop_order target []).1

inductive LedgerCall where
  | recordPin (buddy cid : String) (size nowMs : ℕ)
  | release (buddy cid : String)
  | releaseBuddy (buddy : String)
  | dropCidEverywhere (cid : String)
  | evictNewestFirst (target : ℕ)

def call (s : StorageLedger) : LedgerCall → StorageLedger × List String
  | .recordPin buddy cid size nowMs => ((s.recordPin buddy cid size nowMs).1, [])
  | .release buddy cid => ((s.release buddy cid).1, freedBy cid (s.release buddy cid).2)
  | .releaseBuddy buddy => s.releaseBuddy buddy
  | .dropCidEverywhere cid => (s.dropCidEverywhere cid, [])
  | .evictNewestFirst target => s.evictNewestFirst target

def built (fault : Bool) (calls : List LedgerCall) : StorageLedger :=
  calls.foldl (fun s c => (s.call c).1) ⟨∅, fault⟩

theorem WellFormed.call (h : s.WellFormed) (c : LedgerCall) : (s.call c).1.WellFormed := by
  cases c with
  | recordPin buddy cid size nowMs => exact h.recordPin buddy cid size nowMs
  | release buddy cid => exact h.release buddy cid
  | releaseBuddy buddy => exact h.releaseBuddy buddy
  | dropCidEverywhere cid => exact h.dropCidEverywhere cid
  | evictNewestFirst target => exact h.evictNewestFirst target

theorem wellFormed_built (fault : Bool) (calls : List LedgerCall) : (built fault calls).WellFormed := by
  unfold built
  induction calls using List.reverseRecOn with
  | nil => exact wellFormed_empty fault
  | append_singleton calls c ih =>
    rw [List.foldl_append]
    exact ih.call c

theorem call_frozen (hfault : s.sealedFault = true) (c : LedgerCall) : s.call c = (s, []) := by
  cases c <;> simp [StorageLedger.call, StorageLedger.recordPin, StorageLedger.release,
    StorageLedger.releaseBuddy, StorageLedger.dropCidEverywhere,
    StorageLedger.evictNewestFirst, freedBy, hfault]

/-- What `evict_newest_first` leaves and reports. -/
structure Evicted (target : ℕ) (s s' : StorageLedger) (freed : List String) : Prop where
  fits : s'.distinctPinnedBytes ≤ target
  nodup : freed.Nodup
  freed : ∀ cid, cid ∈ freed ↔ s.Held cid ∧ ¬s'.Held cid
  /-- A prefix of the descending attributions goes, the shortest that makes the rest fit. -/
  order : ∃ removed, s.newestFirst = removed ++ s'.newestFirst ∧ s' = s.without removed ∧
    ∀ pre, pre <+: removed → pre ≠ removed → target < (s.without pre).distinctPinnedBytes

theorem WellFormed.evicted (h : s.WellFormed) (hfault : s.sealedFault = false) (target : ℕ) :
    Evicted target s (s.evictNewestFirst target).1 (s.evictNewestFirst target).2 := by
  unfold StorageLedger.evictNewestFirst
  rw [hfault, if_neg (by simp)]
  obtain ⟨hle, more, hmore, hnd, hfrees⟩ := evictLoop_frees target s []
  rw [List.nil_append] at hmore
  rw [hmore]
  exact ⟨hle, hnd, hfrees.mem, (h.evictLoop_order target []).2⟩

/-- `release_buddy` reports the objects whose last attribution it took. -/
structure BuddyReleased (buddy : String) (s s' : StorageLedger) (freed : List String) : Prop where
  nodup : freed.Nodup
  gone : ∀ cid, s'.holds buddy cid = false
  others : ∀ o, o ≠ buddy → s'.entriesOf o = s.entriesOf o
  freed : ∀ cid, cid ∈ freed ↔ s.holds buddy cid = true ∧ ¬s'.Held cid

theorem WellFormed.buddyReleased (h : s.WellFormed) (hfault : s.sealedFault = false)
    (buddy : String) :
    BuddyReleased buddy s (s.releaseBuddy buddy).1 (s.releaseBuddy buddy).2 := by
  have hpairs := @mem_pairs_releaseBuddy s buddy hfault
  have hfrees := @frees_releaseBuddy s buddy hfault
  refine ⟨?_, ?_, ?_, ?_⟩
  · unfold StorageLedger.releaseBuddy
    rw [hfault, if_neg (by simp)]
    cases hb : s.perBuddy[buddy]? with
    | none => exact List.nodup_nil
    | some entries =>
      have hnd := h.nodup buddy
      rw [entriesOf, hb, Option.getD_some] at hnd
      exact hnd.sublist (List.filter_sublist.map _)
  · intro cid
    by_contra hheld
    exact ((@hpairs (buddy, cid)).mp (Bool.eq_true_of_not_eq_false hheld)).2 rfl
  · intro o ho
    unfold StorageLedger.releaseBuddy
    rw [hfault, if_neg (by simp)]
    cases hb : s.perBuddy[buddy]? with
    | none => rfl
    | some entries => exact (entriesOf_erase buddy o _).trans (if_neg (Ne.symm ho))
  · intro cid
    rw [hfrees.mem]
    constructor
    · rintro ⟨⟨o, ho⟩, hgone⟩
      refine ⟨?_, hgone⟩
      by_contra hother
      have hne : o ≠ buddy := fun heq => hother (heq ▸ ho)
      exact hgone ⟨o, (@hpairs (o, cid)).mpr ⟨ho, hne⟩⟩
    · rintro ⟨hheld, hgone⟩
      exact ⟨⟨buddy, hheld⟩, hgone⟩

/-- Over every run of the mutators: the ledger stays well formed, eviction frees exactly what
nobody holds any more, in descending order and no further than it must, so does the release
of a buddy, and a frozen ledger does nothing. -/
theorem built_eviction (fault : Bool) (calls : List LedgerCall) :
    (built fault calls).WellFormed ∧
    ((built fault calls).sealedFault = false →
      (∀ target, Evicted target (built fault calls) ((built fault calls).evictNewestFirst target).1
        ((built fault calls).evictNewestFirst target).2) ∧
      ∀ buddy, BuddyReleased buddy (built fault calls) ((built fault calls).releaseBuddy buddy).1
        ((built fault calls).releaseBuddy buddy).2) ∧
    ∀ s : StorageLedger, s.sealedFault = true → ∀ c, s.call c = (s, []) :=
  ⟨wellFormed_built fault calls,
    fun hfault => ⟨fun target => (wellFormed_built fault calls).evicted hfault target,
      fun buddy => (wellFormed_built fault calls).buddyReleased hfault buddy⟩,
    fun _ hfault c => call_frozen hfault c⟩

end Harmony.Hosting.StorageLedger
