import Harmony.Channel.Log

/-! What the reconcile index of a channel log answers, and what a scan for keys
returns. -/

namespace Harmony.Channel

open Harmony.Lib Harmony.Reconcile

namespace ChannelLog

/-! ### Looking a key up -/

theorem spanOf_reads {entries : List Entry} (h : Ascending Prod.fst entries) :
    Reads (spanOf entries) entries := by
  intro first last
  refine List.Perm.of_eq ?_
  induction entries with
  | nil => simp [spanOf]
  | cons a l ih =>
    obtain ⟨hhead, htail⟩ := List.pairwise_cons.mp h
    have ih := ih htail
    simp only [spanOf, List.filter_cons, partitionPoint_cons, decide_eq_true_eq] at ih ⊢
    rcases le_or_gt a.1 last with hle | hgt
    · rcases lt_or_ge a.1 first with hlt | hge
      · simpa [hlt, hle, not_le.mpr hlt, Nat.add_max_add_right] using ih
      · have hs : partitionPoint (fun b => decide (b.1 < first)) l = 0 :=
          partitionPoint_eq_zero fun b hb => by simpa using hge.trans (hhead b hb).le
        rw [hs] at ih
        simpa [hle, hge, not_lt.mpr hge] using ih
    · -- everything from `a` on lies past `last`
      have hnil : l.filter (fun b => decide (first ≤ b.1 ∧ b.1 ≤ last)) = [] :=
        List.filter_eq_nil_iff.mpr fun b hb hw =>
          absurd (of_decide_eq_true hw).2 (not_le.mpr (hgt.trans (hhead b hb)))
      simpa [not_le.mpr hgt] using hnil

theorem any_at_partitionPoint {entries : List Entry} (h : Ascending Prod.fst entries)
    (key : ReconcileKey) :
    (entries[partitionPoint (fun x => decide (x.1 < key)) entries]?.any fun x => x.1 = key) = true ↔
      key ∈ entries.map Prod.fst := by
  induction entries with
  | nil => simp
  | cons a l ih =>
    obtain ⟨hhead, htail⟩ := List.pairwise_cons.mp h
    rw [partitionPoint_cons, List.map_cons, List.mem_cons]
    rcases lt_or_ge a.1 key with hlt | hge
    · rw [if_pos (by simpa using hlt), List.getElem?_cons_succ, ih htail]
      simp [hlt.ne']
    · rw [if_neg (by simpa using hge), List.getElem?_cons_zero, Option.any_some, decide_eq_true_iff]
      constructor
      · exact fun he => Or.inl he.symm
      · rintro (he | hmem)
        · exact he.symm
        · -- the keys after `a` are larger still
          obtain ⟨b, hb, rfl⟩ := List.mem_map.mp hmem
          exact absurd (hhead b hb) (not_lt.mpr hge)

theorem containsKey_iff {log : ChannelLog} (h : Ascending Prod.fst log.reconcileEntries)
    (key : ReconcileKey) :
    log.containsKey key = true ↔ key ∈ log.reconcileEntries.map Prod.fst :=
  any_at_partitionPoint h key

theorem mem_keysInRange {log : ChannelLog} (h : Ascending Prod.fst log.reconcileEntries)
    {lo hi key : ReconcileKey} :
    key ∈ RangeReconcileSource.keysInRange log lo hi ↔
      key ∈ log.reconcileEntries.map Prod.fst ∧ lo ≤ key ∧ key < hi := by
  change key ∈ (slice Prod.fst lo hi log.reconcileEntries).map Prod.fst ↔ _
  rw [slice_eq_within h]
  constructor
  · intro hk
    obtain ⟨x, hx, rfl⟩ := List.mem_map.mp hk
    exact ⟨List.mem_map_of_mem (mem_within.mp hx).1, (mem_within.mp hx).2⟩
  · rintro ⟨hk, hb⟩
    obtain ⟨x, hx, rfl⟩ := List.mem_map.mp hk
    exact List.mem_map_of_mem (mem_within.mpr ⟨hx, hb⟩)

theorem mem_segmentEvents {log : ChannelLog} {dir : ChannelDir} {seg : SegmentDescriptor}
    {e : SignedChannelEvent} :
    e ∈ log.segmentEvents dir seg ↔ ∃ evs, log.readSegment dir seg = .ok evs ∧ e ∈ evs := by
  unfold segmentEvents
  cases log.readSegment dir seg <;> simp

/-! ### Resolving keys -/

section Scan

variable {sha256 : SignedSet → ByteArr 32}

theorem pick_keys {wanted : List ReconcileKey} {out : List SignedChannelEvent}
    {ev : SignedChannelEvent} {k : ReconcileKey} :
    k ∈ (pick sha256 wanted out ev).map (reconcileKey sha256) ↔
      k ∈ out.map (reconcileKey sha256) ∨ k ∈ wanted ∧ k = reconcileKey sha256 ev := by
  unfold pick
  dsimp only
  split_ifs with h
  · rw [List.map_append, List.mem_append, List.map_cons, List.map_nil, List.mem_singleton]
    constructor
    · rintro (hk | rfl)
      · exact Or.inl hk
      · exact Or.inr ⟨h.1, rfl⟩
    · rintro (hk | ⟨-, rfl⟩)
      · exact Or.inl hk
      · exact Or.inr rfl
  · constructor
    · exact Or.inl
    · rintro (hk | ⟨hw, rfl⟩)
      · exact hk
      · by_contra hk
        exact h ⟨hw, hk⟩

/-- After a scan exactly the wanted keys that were met are resolved. -/
theorem foldl_pick_keys {wanted : List ReconcileKey} {evs out : List SignedChannelEvent}
    {k : ReconcileKey} :
    k ∈ (evs.foldl (pick sha256 wanted) out).map (reconcileKey sha256) ↔
      k ∈ out.map (reconcileKey sha256) ∨
        k ∈ wanted ∧ k ∈ evs.map (reconcileKey sha256) := by
  induction evs generalizing out with
  | nil => simp
  | cons ev evs ih =>
    rw [List.foldl_cons, ih, pick_keys, List.map_cons, List.mem_cons]
    tauto

theorem pick_keyNodup {wanted : List ReconcileKey} {out : List SignedChannelEvent}
    (h : KeyNodup (reconcileKey sha256) out) (ev : SignedChannelEvent) :
    KeyNodup (reconcileKey sha256) (pick sha256 wanted out ev) := by
  unfold pick
  dsimp only
  split_ifs with hk
  · rw [KeyNodup, List.map_append]
    exact List.nodup_append.mpr ⟨h, by simp, fun a ha b hb hab =>
      hk.2 (List.mem_singleton.mp hb ▸ hab ▸ ha)⟩
  · exact h

theorem foldl_pick_keyNodup {wanted : List ReconcileKey} (evs : List SignedChannelEvent)
    {out : List SignedChannelEvent} (h : KeyNodup (reconcileKey sha256) out) :
    KeyNodup (reconcileKey sha256) (evs.foldl (pick sha256 wanted) out) := by
  induction evs generalizing out with
  | nil => exact h
  | cons ev evs ih => exact ih (pick_keyNodup h ev)

theorem mem_foldl_pick {wanted : List ReconcileKey} {evs out : List SignedChannelEvent}
    {e : SignedChannelEvent} (he : e ∈ evs.foldl (pick sha256 wanted) out) : e ∈ out ∨ e ∈ evs := by
  induction evs generalizing out with
  | nil => exact Or.inl he
  | cons ev evs ih =>
    rcases ih he with h | h
    · unfold pick at h
      dsimp only at h
      split_ifs at h with hk
      · rcases List.mem_append.mp h with h | h
        · exact Or.inl h
        · exact Or.inr (by simp [List.mem_singleton.mp h])
      · exact Or.inl h
    · exact Or.inr (List.mem_cons_of_mem _ h)

/-- The segment's wall span meets the requested one. -/
def Overlaps (seg : SegmentDescriptor) (lo hi : Fin (2 ^ 64)) : Prop :=
  lo ≤ seg.range.2.wallMs ∧ seg.range.1.wallMs ≤ hi

instance (seg : SegmentDescriptor) (lo hi : Fin (2 ^ 64)) : Decidable (Overlaps seg lo hi) :=
  inferInstanceAs (Decidable (_ ∧ _))

theorem scanSegment_of_not_overlaps {log : ChannelLog} {dir : ChannelDir}
    {wanted : List ReconcileKey} {lo hi : Fin (2 ^ 64)} {out : List SignedChannelEvent}
    {seg : SegmentDescriptor} (h : ¬Overlaps seg lo hi) :
    scanSegment sha256 log dir wanted lo hi out seg = .ok out := by
  rw [Overlaps, not_and_or, not_le, not_le] at h
  exact if_pos h

theorem scanSegment_of_overlaps {log : ChannelLog} {dir : ChannelDir}
    {wanted : List ReconcileKey} {lo hi : Fin (2 ^ 64)} {out : List SignedChannelEvent}
    {seg : SegmentDescriptor} (h : Overlaps seg lo hi) :
    scanSegment sha256 log dir wanted lo hi out seg =
      (log.readSegment dir seg).map fun events => events.foldl (pick sha256 wanted) out := by
  have hout : ¬(seg.range.2.wallMs < lo ∨ hi < seg.range.1.wallMs) := by
    rw [not_or, not_lt, not_lt]
    exact h
  unfold scanSegment
  rw [if_neg hout]
  cases log.readSegment dir seg <;> rfl

/-- A scan that succeeds has read every segment in its span, and folded their events. -/
theorem scan_spec {log : ChannelLog} {dir : ChannelDir} {wanted : List ReconcileKey}
    {lo hi : Fin (2 ^ 64)} {segs : List SegmentDescriptor} {out result : List SignedChannelEvent} :
    segs.foldlM (scanSegment sha256 log dir wanted lo hi) out = .ok result ↔
      (∀ seg ∈ segs, Overlaps seg lo hi → ∃ evs, log.readSegment dir seg = .ok evs) ∧
        ((segs.filter fun seg => Overlaps seg lo hi).flatMap (log.segmentEvents dir)).foldl
          (pick sha256 wanted) out = result := by
  induction segs generalizing out with
  | nil =>
    change Except.ok out = Except.ok result ↔ _
    simp
  | cons seg segs ih =>
    rw [List.foldlM_cons]
    by_cases hov : Overlaps seg lo hi
    · rw [scanSegment_of_overlaps hov, List.filter_cons_of_pos (by simpa using hov),
        List.flatMap_cons, List.foldl_append]
      cases hread : log.readSegment dir seg with
      | error e =>
        constructor
        · intro h
          exact absurd h (by simp [Except.map, bind, Except.bind])
        · rintro ⟨hall, -⟩
          obtain ⟨evs, hevs⟩ := hall seg List.mem_cons_self hov
          rw [hread] at hevs
          exact absurd hevs (by simp)
      | ok evs =>
        have hev : log.segmentEvents dir seg = evs := by simp [segmentEvents, hread]
        rw [hev]
        refine Iff.trans ih (and_congr_left' ?_)
        rw [List.forall_mem_cons]
        exact ⟨fun h => ⟨fun _ => ⟨evs, hread⟩, h⟩, fun h => h.2⟩
    · rw [scanSegment_of_not_overlaps hov, List.filter_cons_of_neg (by simpa using hov)]
      refine Iff.trans ih (and_congr_left' ?_)
      rw [List.forall_mem_cons]
      exact ⟨fun h => ⟨fun ho => absurd ho hov, h⟩, fun h => h.2⟩

/-- What `events_for_keys` returns for the wall span of a nonempty request. -/
theorem eventsForKeys_spec (sha256 : SignedSet → ByteArr 32) (log : ChannelLog) (dir : ChannelDir)
    {keys : List ReconcileKey} (hne : keys ≠ []) : ∃ lo hi, (∃ k ∈ keys, k.wallMs = lo) ∧ (∃ k ∈ keys, k.wallMs = hi) ∧
      (∀ k ∈ keys, lo ≤ k.wallMs ∧ k.wallMs ≤ hi) ∧ ∀ evs,
        log.eventsForKeys sha256 dir keys = .ok evs ↔
          (∀ seg ∈ log.manifest.segments, Overlaps seg lo hi →
            ∃ evs, log.readSegment dir seg = .ok evs) ∧
          ((log.manifest.segments.filter fun seg => Overlaps seg lo hi).flatMap
            (log.segmentEvents dir) ++ log.tail).foldl (pick sha256 keys) [] = evs := by
  have hmap : keys.map ReconcileKey.wallMs ≠ [] := by simpa using hne
  obtain ⟨lo, hlo⟩ := Option.isSome_iff_exists.mp (List.isSome_min?_of_ne_nil hmap)
  obtain ⟨hi, hhi⟩ := Option.isSome_iff_exists.mp (List.isSome_max?_of_ne_nil hmap)
  obtain ⟨hlomem, hlole⟩ := List.min?_eq_some_iff.mp hlo
  obtain ⟨himem, hhile⟩ := List.max?_eq_some_iff.mp hhi
  refine ⟨lo, hi, List.mem_map.mp hlomem, List.mem_map.mp himem, fun k hk =>
    ⟨hlole _ (List.mem_map_of_mem hk), hhile _ (List.mem_map_of_mem hk)⟩, fun evs => ?_⟩
  unfold eventsForKeys
  rw [hlo, hhi]
  dsimp only
  rw [List.foldl_append]
  cases hscan : log.manifest.segments.foldlM (scanSegment sha256 log dir keys lo hi) [] with
  | error e =>
    constructor
    · intro h
      exact absurd h (by simp [bind, Except.bind])
    · rintro ⟨hall, -⟩
      have hok : log.manifest.segments.foldlM (scanSegment sha256 log dir keys lo hi) [] = .ok _ :=
        scan_spec.mpr ⟨hall, rfl⟩
      rw [hscan] at hok
      exact absurd hok (by simp)
  | ok out =>
    obtain ⟨hall, hout⟩ := scan_spec.mp hscan
    rw [hout]
    change Except.ok (log.tail.foldl (pick sha256 keys) out) = Except.ok evs ↔ _
    rw [Except.ok.injEq]
    exact ⟨fun h => ⟨hall, h⟩, fun h => h.2⟩

@[simp] theorem eventsForKeys_nil (log : ChannelLog) (dir : ChannelDir) :
    log.eventsForKeys sha256 dir [] = .ok [] := rfl

end Scan

end ChannelLog

end Harmony.Channel
