import Harmony.Hosting.Eviction
import Harmony.Hosting.Planner

/-! A plan applied to the ledger it was computed from: releases and the eviction first,
attributions after them, and last the unpinning of what the ledger does not claim any more. -/

namespace Harmony.Hosting

open Harmony.Lib

namespace StorageLedger

def performs (s : StorageLedger) (calls : List LedgerCall) : StorageLedger × List String :=
  calls.foldl (fun st c => ((st.1.call c).1, st.2 ++ (st.1.call c).2)) (s, [])

end StorageLedger

/-- What only frees. -/
def PinPlan.clearing (p : PinPlan) : List StorageLedger.LedgerCall :=
  p.releaseBuddies.map .releaseBuddy ++ p.release.map (fun r => .release r.1 r.2) ++
    p.evictTo.toList.map .evictNewestFirst

/-- The clock is read for each attribution. -/
def PinPlan.attributing (p : PinPlan) (clock : ℕ → ℕ) : List StorageLedger.LedgerCall :=
  p.attributeOnly.zipIdx.map fun a => .recordPin a.1.1 a.1.2.1 a.1.2.2 (clock a.2)

namespace StorageLedger

def applyPlan (s : StorageLedger) (p : PinPlan) (clock : ℕ → ℕ) : StorageLedger × List String :=
  let applied := s.performs (p.clearing ++ p.attributing clock)
  (applied.1, applied.2.filter fun cid => (applied.1.heldAnywhere cid).isNone)

variable {s : StorageLedger} {calls : List LedgerCall}

@[simp] theorem performs_nil (s : StorageLedger) : s.performs [] = (s, []) := rfl

theorem foldl_queue (s : StorageLedger) (queued : List String) (calls : List LedgerCall) :
    calls.foldl (fun st c => ((st.1.call c).1, st.2 ++ (st.1.call c).2)) (s, queued) =
      ((s.performs calls).1, queued ++ (s.performs calls).2) := by
  induction calls generalizing s queued with
  | nil => simp
  | cons c calls ih => rw [performs, List.foldl_cons, List.foldl_cons, ih, ih]; simp

theorem performs_cons (s : StorageLedger) (c : LedgerCall) (calls : List LedgerCall) :
    s.performs (c :: calls) =
      (((s.call c).1.performs calls).1, (s.call c).2 ++ ((s.call c).1.performs calls).2) := by
  rw [performs, List.foldl_cons, foldl_queue, List.nil_append]

theorem performs_append (s : StorageLedger) (l r : List LedgerCall) :
    s.performs (l ++ r) =
      (((s.performs l).1.performs r).1, (s.performs l).2 ++ ((s.performs l).1.performs r).2) := by
  rw [performs, List.foldl_append, ← performs, foldl_queue]

/-! ### What clears -/

def LedgerCall.clears : LedgerCall → Bool
  | .release _ _ => true
  | .releaseBuddy _ => true
  | .evictNewestFirst _ => true
  | _ => false

theorem evictLoop_sealedFault (target : ℕ) (s : StorageLedger) (freed : List String) :
    (evictLoop target s freed).1.sealedFault = s.sealedFault := by
  induction s, freed using evictLoop.induct target with
  | case1 s freed hfits => rw [evictLoop_of_fits hfits]
  | case2 s freed hfits hnone =>
    have hzero := newest_eq_none hnone
    omega
  | case3 s freed hfits a hnewest ih =>
    rw [evictLoop_of_newest hfits hnewest, ih, releaseInner_sealedFault]

theorem call_sealedFault (c : LedgerCall) : (s.call c).1.sealedFault = s.sealedFault := by
  cases c with
  | recordPin buddy cid size nowMs =>
    change (s.recordPin buddy cid size nowMs).1.sealedFault = s.sealedFault
    rw [recordPin]
    split_ifs <;> rfl
  | release buddy cid =>
    change (s.release buddy cid).1.sealedFault = s.sealedFault
    rw [release]
    split_ifs
    · rfl
    · exact releaseInner_sealedFault
  | releaseBuddy buddy =>
    change (s.releaseBuddy buddy).1.sealedFault = s.sealedFault
    rw [releaseBuddy]
    split_ifs
    · rfl
    · cases s.perBuddy[buddy]? <;> rfl
  | dropCidEverywhere cid =>
    change (s.dropCidEverywhere cid).sealedFault = s.sealedFault
    rw [dropCidEverywhere]
    split_ifs <;> rfl
  | evictNewestFirst target =>
    change (s.evictNewestFirst target).1.sealedFault = s.sealedFault
    rw [evictNewestFirst]
    split_ifs
    · rfl
    · exact evictLoop_sealedFault target s []

theorem performs_sealedFault (s : StorageLedger) (calls : List LedgerCall) :
    (s.performs calls).1.sealedFault = s.sealedFault := by
  induction calls generalizing s with
  | nil => rfl
  | cons c calls ih => rw [performs_cons, ih, call_sealedFault]

theorem frees_call (hfault : s.sealedFault = false) {c : LedgerCall} (hc : c.clears = true) :
    Frees s.pairs (s.call c).1.pairs (s.call c).2 := by
  cases c with
  | release buddy cid => exact frees_release hfault
  | releaseBuddy buddy => exact frees_releaseBuddy hfault
  | evictNewestFirst target =>
    change Frees s.pairs (s.evictNewestFirst target).1.pairs (s.evictNewestFirst target).2
    rw [evictNewestFirst, hfault, if_neg (by simp)]
    obtain ⟨-, more, hmore, -, hfrees⟩ := evictLoop_frees target s []
    rw [hmore]
    exact hfrees
  | recordPin buddy cid size nowMs => cases hc
  | dropCidEverywhere cid => cases hc

theorem frees_performs (hfault : s.sealedFault = false) (hcalls : ∀ c ∈ calls, c.clears = true) :
    Frees s.pairs (s.performs calls).1.pairs (s.performs calls).2 := by
  induction calls generalizing s with
  | nil => exact .refl _
  | cons c calls ih =>
    rw [performs_cons]
    have hfirst := frees_call hfault (hcalls c (.head _))
    exact hfirst.trans (ih ((call_sealedFault c).trans hfault) fun d hd => hcalls d (.tail _ hd))

/-! ### What attributing leaves -/

def firstSize (entries : List LedgerEntry) (cid : String) : ℕ :=
  ((entries.find? (·.cid = cid)).map LedgerEntry.size).getD 0

theorem firstSize_eq (s : StorageLedger) (cid : String) :
    firstSize s.allEntries cid = (s.heldAnywhere cid).getD 0 := rfl

theorem sum_firstSeen (seen : List String) (entries : List LedgerEntry) :
    ((firstSeen seen entries).map LedgerEntry.size).sum =
      ∑ c ∈ (entries.map LedgerEntry.cid).toFinset \ seen.toFinset, firstSize entries c := by
  induction entries generalizing seen with
  | nil => simp [firstSeen]
  | cons e entries ih =>
    have hrest : ∀ c, c ≠ e.cid → firstSize (e :: entries) c = firstSize entries c := by
      intro c hc
      rw [firstSize, firstSize, List.find?_cons_of_neg (by simpa using Ne.symm hc)]
    by_cases hseen : e.cid ∈ seen
    · have hset : ((e :: entries).map LedgerEntry.cid).toFinset \ seen.toFinset =
          (entries.map LedgerEntry.cid).toFinset \ seen.toFinset := by
        rw [List.map_cons, List.toFinset_cons, Finset.insert_sdiff_of_mem _ (by simpa using hseen)]
      rw [firstSeen, if_pos hseen, ih, hset]
      refine Finset.sum_congr rfl fun c hc => (hrest c fun h => ?_).symm
      rw [h] at hc
      simp [hseen] at hc
    · have hset : ((e :: entries).map LedgerEntry.cid).toFinset \ seen.toFinset =
          insert e.cid ((entries.map LedgerEntry.cid).toFinset \ (e.cid :: seen).toFinset) := by
        ext c
        simp only [List.map_cons, List.toFinset_cons, Finset.mem_sdiff, Finset.mem_insert,
          List.mem_toFinset]
        by_cases hc : c = e.cid
        · simp [hc, hseen]
        · simp [hc]
      have hnew : e.cid ∉ (entries.map LedgerEntry.cid).toFinset \ (e.cid :: seen).toFinset := by
        simp
      have hhead : firstSize (e :: entries) e.cid = e.size := by simp [firstSize]
      rw [firstSeen, if_neg hseen, List.map_cons, List.sum_cons, ih, hset,
        Finset.sum_insert hnew, hhead]
      refine congrArg (e.size + ·) (Finset.sum_congr rfl fun c hc => (hrest c fun h => ?_).symm)
      rw [h] at hc
      exact hnew hc

theorem distinctPinnedBytes_eq (s : StorageLedger) :
    s.distinctPinnedBytes =
      ∑ c ∈ (s.allEntries.map LedgerEntry.cid).toFinset, firstSize s.allEntries c := by
  rw [distinctPinnedBytes, sum_firstSeen, List.toFinset_nil, Finset.sdiff_empty]

section RecordPin

variable {buddy cid : String} {size nowMs : ℕ}

theorem allEntries_recordPin (s : StorageLedger) (buddy cid : String) (size nowMs : ℕ) :
    (s.recordPin buddy cid size nowMs).1 = s ∨
      ∃ l r, s.allEntries = l ++ r ∧
        (s.recordPin buddy cid size nowMs).1.allEntries = l ++ ⟨cid, size, nowMs⟩ :: r := by
  rw [recordPin]
  split_ifs
  · exact .inl rfl
  · exact .inl rfl
  · obtain ⟨l, r, hold, hnew⟩ := toList_insert_split s.perBuddy buddy
      (s.entriesOf buddy ++ [⟨cid, size, nowMs⟩])
    refine .inr ⟨l.flatMap Prod.snd ++ s.entriesOf buddy, r.flatMap Prod.snd, ?_, ?_⟩
    · rw [allEntries, hold, entriesOf]
      cases s.perBuddy[buddy]? <;> simp
    · rw [allEntries, hnew]
      simp

/-- A pin of a held object in its size hides no other size of it. -/
theorem heldAnywhere_recordPin (h : s.heldAnywhere cid = some size) (c : String) :
    (s.recordPin buddy cid size nowMs).1.heldAnywhere c = s.heldAnywhere c := by
  rcases allEntries_recordPin s buddy cid size nowMs with hsame | ⟨l, r, hold, hnew⟩
  · rw [hsame]
  · rw [heldAnywhere, hold, List.find?_append] at h
    rw [heldAnywhere, heldAnywhere, hold, hnew, List.find?_append, List.find?_append]
    by_cases hc : cid = c
    · subst hc
      cases hl : l.find? (·.cid = cid) with
      | some e => simp
      | none =>
        rw [hl, Option.none_or] at h
        rw [List.find?_cons_of_pos (by simp), Option.none_or, Option.none_or, h]
        rfl
    · rw [List.find?_cons_of_neg (by simpa using hc)]

theorem distinctPinnedBytes_recordPin (h : s.heldAnywhere cid = some size) :
    (s.recordPin buddy cid size nowMs).1.distinctPinnedBytes = s.distinctPinnedBytes := by
  have hcids : ((s.recordPin buddy cid size nowMs).1.allEntries.map LedgerEntry.cid).toFinset =
      (s.allEntries.map LedgerEntry.cid).toFinset := by
    ext c
    have hsize : (s.recordPin buddy cid size nowMs).1.heldAnywhere c = s.heldAnywhere c :=
      heldAnywhere_recordPin h c
    rw [List.mem_toFinset, List.mem_toFinset, List.mem_map, List.mem_map, ← held_iff, ← held_iff,
      ← not_iff_not, ← heldAnywhere_eq_none, ← heldAnywhere_eq_none, hsize]
  rw [distinctPinnedBytes_eq, distinctPinnedBytes_eq, hcids]
  refine Finset.sum_congr rfl fun c _ => ?_
  rw [firstSize_eq, firstSize_eq, heldAnywhere_recordPin h]

end RecordPin

/-- Attributing queues nothing and takes nothing away. -/
theorem performs_attributing (hfault : s.sealedFault = false)
    (l : List ((String × String × ℕ) × ℕ)) (clock : ℕ → ℕ) :
    (s.performs (l.map fun a => .recordPin a.1.1 a.1.2.1 a.1.2.2 (clock a.2))).2 = [] ∧
      s.pairs ⊆ (s.performs (l.map fun a =>
        .recordPin a.1.1 a.1.2.1 a.1.2.2 (clock a.2))).1.pairs := by
  induction l generalizing s with
  | nil => exact ⟨rfl, subset_rfl⟩
  | cons a l ih =>
    rw [List.map_cons, performs_cons]
    have hfirst : s.pairs ⊆ (s.recordPin a.1.1 a.1.2.1 a.1.2.2 (clock a.2)).1.pairs :=
      fun p hp => (pairs_recordPin hfault p).mpr (.inl hp)
    obtain ⟨hqueue, hgrow⟩ := ih ((call_sealedFault (s := s)
      (.recordPin a.1.1 a.1.2.1 a.1.2.2 (clock a.2))).trans hfault)
    exact ⟨hqueue, hfirst.trans hgrow⟩

theorem distinctPinnedBytes_attributing {l : List ((String × String × ℕ) × ℕ)}
    (hheld : ∀ a ∈ l, s.heldAnywhere a.1.2.1 = some a.1.2.2) (clock : ℕ → ℕ) :
    (s.performs (l.map fun a =>
      .recordPin a.1.1 a.1.2.1 a.1.2.2 (clock a.2))).1.distinctPinnedBytes =
        s.distinctPinnedBytes := by
  induction l generalizing s with
  | nil => rfl
  | cons a l ih =>
    have ha := hheld a (.head _)
    rw [List.map_cons, performs_cons]
    refine (ih fun b hb => ?_).trans (distinctPinnedBytes_recordPin ha)
    exact (heldAnywhere_recordPin ha b.1.2.1).trans (hheld b (.tail _ hb))

/-! ### The whole plan -/

theorem clears_of_mem_clearing {p : PinPlan} {c : LedgerCall} (h : c ∈ p.clearing) :
    c.clears = true := by
  rw [PinPlan.clearing, List.mem_append, List.mem_append] at h
  rcases h with (h | h) | h
  · obtain ⟨b, -, rfl⟩ := List.mem_map.mp h
    rfl
  · obtain ⟨r, -, rfl⟩ := List.mem_map.mp h
    rfl
  · obtain ⟨t, -, rfl⟩ := List.mem_map.mp h
    rfl

theorem distinctPinnedBytes_clearing (hfault : s.sealedFault = false) {p : PinPlan} {target : ℕ}
    (h : p.evictTo = some target) : (s.performs p.clearing).1.distinctPinnedBytes ≤ target := by
  rw [PinPlan.clearing, h, Option.toList_some, List.map_singleton, performs_append]
  have hfault' := (performs_sealedFault s (p.releaseBuddies.map .releaseBuddy ++
    p.release.map fun r => .release r.1 r.2)).trans hfault
  rw [performs_cons, performs_nil]
  dsimp only
  rw [call, evictNewestFirst, hfault', if_neg (by simp)]
  exact (evictLoop_frees target _ []).1

theorem mem_unpinned_iff (hfault : s.sealedFault = false) (p : PinPlan) (clock : ℕ → ℕ)
    (cid : String) :
    cid ∈ (s.applyPlan p clock).2 ↔ s.Held cid ∧ ¬(s.applyPlan p clock).1.Held cid := by
  have hclear : Frees s.pairs (s.performs p.clearing).1.pairs (s.performs p.clearing).2 :=
    frees_performs hfault fun c hc => clears_of_mem_clearing hc
  obtain ⟨hqueue, hgrow⟩ := performs_attributing
    ((performs_sealedFault s p.clearing).trans hfault) p.attributeOnly.zipIdx clock
  rw [applyPlan, performs_append, PinPlan.attributing, hqueue, List.append_nil]
  simp only [List.mem_filter, Option.isNone_iff_eq_none, heldAnywhere_eq_none]
  rw [hclear.mem]
  refine ⟨fun h => ⟨h.1.1, h.2⟩, fun h => ⟨⟨h.1, fun hstill => h.2 ?_⟩, h.2⟩⟩
  exact objects_mono hgrow hstill

/-- Applying a plan to the ledger it was computed from: what is unpinned is attributed to
nobody, and once the evictions are done the distinct bytes fit the shared budget, if they did
not before. They still do when the attributions name objects that are still held with the
planned sizes. -/
theorem applyPlan_plan (i : PlanInput) (hfault : i.ledger.sealedFault = false) (clock : ℕ → ℕ) :
    (∀ cid, cid ∈ (i.ledger.applyPlan i.plan clock).2 ↔
      i.ledger.Held cid ∧ ¬(i.ledger.applyPlan i.plan clock).1.Held cid) ∧
    (i.plan.evictTo.isSome →
      (i.ledger.performs i.plan.clearing).1.distinctPinnedBytes ≤ i.sharedBudget ∧
      ((∀ a ∈ i.plan.attributeOnly,
          (i.ledger.performs i.plan.clearing).1.heldAnywhere a.2.1 = some a.2.2) →
        (i.ledger.applyPlan i.plan clock).1.distinctPinnedBytes ≤ i.sharedBudget)) := by
  refine ⟨mem_unpinned_iff hfault i.plan clock, fun hevict => ?_⟩
  obtain ⟨target, htarget⟩ := Option.isSome_iff_exists.mp hevict
  have hbudget : target = i.sharedBudget := by
    rw [PlanInput.plan, hfault, if_neg (by simp)] at htarget
    dsimp only at htarget
    split_ifs at htarget
    exact (Option.some.inj htarget).symm
  have hclear := distinctPinnedBytes_clearing hfault htarget
  rw [hbudget] at hclear
  refine ⟨hclear, fun hheld => ?_⟩
  have hsame := distinctPinnedBytes_attributing (s := (i.ledger.performs i.plan.clearing).1)
    (l := i.plan.attributeOnly.zipIdx) (fun a ha => hheld a.1 (List.fst_mem_of_mem_zipIdx ha)) clock
  rw [applyPlan, performs_append, PinPlan.attributing, hsame]
  exact hclear

/-- Only the pact with `bob` is active, and bob lists what alice's pact holds. -/
def handedOver : PlanInput where
  me := "me"
  myPledges := (∅ : BTreeMap String ℕ).insert "bob" 1000
  records := ⟨(∅ : BTreeMap String (List PledgeEntry)).insert "bob" [⟨"me", 0⟩],
    (∅ : BTreeMap String (List BackupEntry)).insert "bob" [⟨"cid", 100⟩]⟩
  ledger := ⟨(∅ : BTreeMap String (List LedgerEntry)).insert "alice" [⟨"cid", 100, 1⟩], false⟩
  sharedBudget := 1000
  inflight := ∅
  backoffBlocked := fun _ => false

/-- The shared budget shrank below what alice's pact holds, and bob lists it as well. -/
def shrunk : PlanInput where
  me := "me"
  myPledges := ((∅ : BTreeMap String ℕ).insert "alice" 1000).insert "bob" 1000
  records :=
    ⟨((∅ : BTreeMap String (List PledgeEntry)).insert "alice" [⟨"me", 0⟩]).insert "bob" [⟨"me", 0⟩],
      ((∅ : BTreeMap String (List BackupEntry)).insert "alice" [⟨"cid", 100⟩]).insert "bob"
        [⟨"cid", 100⟩]⟩
  ledger := ⟨(∅ : BTreeMap String (List LedgerEntry)).insert "alice" [⟨"cid", 100, 1⟩], false⟩
  sharedBudget := 50
  inflight := ∅
  backoffBlocked := fun _ => false

theorem shrunk_plan :
    shrunk.plan = { attributeOnly := [("bob", "cid", 100)], evictTo := some 50 } := by
  decide +kernel

theorem shrunk_cleared : shrunk.ledger.performs shrunk.plan.clearing =
    ((shrunk.ledger.releaseInner "alice" "cid").1, ["cid"]) := by
  have hnewest : shrunk.ledger.newest = some (toLex (1, toLex ("alice", "cid"))) := by
    decide +kernel
  have hover : ¬shrunk.ledger.distinctPinnedBytes ≤ 50 := by decide +kernel
  have hfits : (shrunk.ledger.releaseInner "alice" "cid").1.distinctPinnedBytes ≤ 50 := by
    decide +kernel
  have hlast : freedBy "cid" (shrunk.ledger.releaseInner "alice" "cid").2 = ["cid"] := by
    decide +kernel
  have hloop : evictLoop 50 shrunk.ledger [] =
      ((shrunk.ledger.releaseInner "alice" "cid").1, ["cid"]) := by
    rw [evictLoop_of_newest hover hnewest]
    exact (evictLoop_of_fits hfits _).trans (by rw [← hlast]; rfl)
  rw [shrunk_plan]
  exact hloop

/-- The release of alice's pact reports the object freed, and the same plan attributes it to
bob. What the eviction freed is attributed again too, over the budget. -/
theorem handedOver_still_attributed :
    ("cid" ∈ (handedOver.ledger.performs handedOver.plan.clearing).2 ∧
      (handedOver.ledger.applyPlan handedOver.plan id).1.Held "cid") ∧
    shrunk.plan.evictTo = some shrunk.sharedBudget ∧
      shrunk.sharedBudget < (shrunk.ledger.applyPlan shrunk.plan id).1.distinctPinnedBytes := by
  refine ⟨⟨by decide +kernel, "bob", ?_⟩, by rw [shrunk_plan]; rfl, ?_⟩
  · change (handedOver.ledger.applyPlan handedOver.plan id).1.holds "bob" "cid" = true
    decide +kernel
  · rw [applyPlan, performs_append, shrunk_cleared, shrunk_plan]
    decide +kernel

theorem applyPlan_plan_shrunk :
    (∀ cid, cid ∈ (shrunk.ledger.applyPlan shrunk.plan id).2 ↔
      shrunk.ledger.Held cid ∧ ¬(shrunk.ledger.applyPlan shrunk.plan id).1.Held cid) ∧
    (shrunk.ledger.performs shrunk.plan.clearing).1.distinctPinnedBytes ≤ 50 := by
  obtain ⟨hunpinned, hfits⟩ := applyPlan_plan shrunk rfl id
  exact ⟨hunpinned, (hfits (by rw [shrunk_plan]; rfl)).1⟩

end StorageLedger
end Harmony.Hosting
