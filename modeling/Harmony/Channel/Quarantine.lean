import Harmony.Channel.Reload

/-! Dropping segments from a reloaded log. The drop takes the segment out of the
manifest and its file out of the directory; the reconcile index keeps the keys. -/

namespace Harmony.Channel

open Harmony.Lib Harmony.Reconcile
open Harmony.Membership (SpaceId ChannelId)

/-- One call of `quarantine_segment`, with the fate of its rename and its write. -/
structure QuarantineCall where
  segIndex : ℕ
  renamed : Bool
  written : Bool

/-- The segments still listed, and the paths that were moved aside. -/
structure Remaining where
  segments : List SegmentDescriptor
  moved : List FilePath := []

namespace Remaining

def drop (r : Remaining) (q : QuarantineCall) : Remaining :=
  match r.segments[q.segIndex]? with
  | none => r
  | some seg => ⟨r.segments.eraseIdx q.segIndex,
      if q.renamed then filePath seg.handle.relPath :: r.moved else r.moved⟩

def Intact (r : Remaining) (seg : SegmentDescriptor) : Prop :=
  ∀ p ∈ r.moved, ¬p <+: filePath seg.handle.relPath

instance (r : Remaining) (seg : SegmentDescriptor) : Decidable (r.Intact seg) :=
  inferInstanceAs (Decidable (∀ p ∈ r.moved, _))

end Remaining

namespace ChannelLog

/-- The calls one after another; what a call reports does not stop the next. -/
def quarantineAll (calls : List QuarantineCall) (log : ChannelLog) (dir : ChannelDir) :
    ChannelLog × ChannelDir :=
  calls.foldl (fun st q => (quarantineSegment q.renamed q.written q.segIndex st.1 st.2).2) (log, dir)

/-- Which segments the calls leave. -/
def remainingAfter (calls : List QuarantineCall) (log : ChannelLog) : Remaining :=
  calls.foldl Remaining.drop ⟨log.manifest.segments, []⟩

/-! ### What the calls change -/

structure Trimmed (log₀ : ChannelLog) (dir₀ : ChannelDir) (r : Remaining) (log : ChannelLog)
    (dir : ChannelDir) : Prop where
  communityId : log.manifest.communityId = log₀.manifest.communityId
  channelId : log.manifest.channelId = log₀.manifest.channelId
  tail : log.tail = log₀.tail
  config : log.config = log₀.config
  entries : log.reconcileEntries = log₀.reconcileEntries
  segments : log.manifest.segments = r.segments
  sublist : r.segments.Sublist log₀.manifest.segments
  files : ∀ p : FilePath, p.head? = some "segments".toList →
    dir p = if ∃ q ∈ r.moved, q <+: p then none else dir₀ p

variable {log₀ log : ChannelLog} {dir₀ dir : ChannelDir} {r : Remaining}

theorem Trimmed.refl (log₀ : ChannelLog) (dir₀ : ChannelDir) :
    Trimmed log₀ dir₀ ⟨log₀.manifest.segments, []⟩ log₀ dir₀ :=
  ⟨rfl, rfl, rfl, rfl, rfl, rfl, .refl _, fun p _ => by simp⟩

theorem writeManifest_apply (log : ChannelLog) (inner : Inner) (dir : ChannelDir) {p : FilePath}
    (hp : p.head? = some "segments".toList) :
    log.writeChannelFile manifestFilename inner dir p = dir p := by
  unfold writeChannelFile
  refine Function.update_of_ne ?_ _ _
  rintro rfl
  exact absurd hp (by decide)

theorem Trimmed.quarantineSegment (h : Trimmed log₀ dir₀ r log dir) (q : QuarantineCall) :
    Trimmed log₀ dir₀ (r.drop q)
      (quarantineSegment q.renamed q.written q.segIndex log dir).2.1
      (quarantineSegment q.renamed q.written q.segIndex log dir).2.2 := by
  unfold ChannelLog.quarantineSegment Remaining.drop
  rw [h.segments]
  cases hseg : r.segments[q.segIndex]? with
  | none => exact h
  | some seg =>
    -- the paths under the moved one are gone, the others are as before
    have hmoved : ∀ p : FilePath, p.head? = some "segments".toList →
        quarantineAside q.renamed (filePath seg.handle.relPath) dir p =
          if ∃ q' ∈ (if q.renamed then filePath seg.handle.relPath :: r.moved else r.moved),
            q' <+: p then none else dir₀ p := by
      intro p hp
      unfold quarantineAside
      cases q.renamed with
      | false => simpa using h.files p hp
      | true =>
        simp only [if_true, List.exists_mem_cons_iff]
        by_cases hpre : filePath seg.handle.relPath <+: p
        · simp [hpre]
        · simpa [hpre] using h.files p hp
    dsimp only
    by_cases hw : q.written = true
    · simp only [if_pos hw]
      refine ⟨h.communityId, h.channelId, h.tail, h.config, h.entries, rfl,
        (List.eraseIdx_sublist _ _).trans h.sublist, fun p hp => ?_⟩
      rw [writeManifest_apply _ _ _ hp]
      exact hmoved p hp
    · simp only [if_neg hw]
      exact ⟨h.communityId, h.channelId, h.tail, h.config, h.entries, rfl,
        (List.eraseIdx_sublist _ _).trans h.sublist, hmoved⟩

theorem trimmed_quarantineAll (calls : List QuarantineCall) (log₀ : ChannelLog)
    (dir₀ : ChannelDir) :
    Trimmed log₀ dir₀ (remainingAfter calls log₀) (quarantineAll calls log₀ dir₀).1
      (quarantineAll calls log₀ dir₀).2 := by
  induction calls using List.reverseRecOn with
  | nil => exact Trimmed.refl log₀ dir₀
  | append_singleton calls q ih =>
    rw [remainingAfter, quarantineAll, List.foldl_append, List.foldl_append]
    exact ih.quarantineSegment q

theorem head_of_validSegmentPath {relPath : String} (h : validSegmentPath relPath = true) :
    (filePath relPath).head? = some "segments".toList := by
  unfold validSegmentPath at h
  exact (of_decide_eq_true h).2.2.2

theorem Trimmed.readSegment (h : Trimmed log₀ dir₀ r log dir) (seg : SegmentDescriptor)
    (evs : List SignedChannelEvent) :
    log.readSegment dir seg = .ok evs ↔ r.Intact seg ∧ log₀.readSegment dir₀ seg = .ok evs := by
  unfold ChannelLog.readSegment readSegmentAt openSegmentImage
  rw [h.communityId, h.channelId]
  by_cases hvalid : validSegmentPath seg.handle.relPath = true
  · have hfile := h.files _ (head_of_validSegmentPath hvalid)
    dsimp only
    rw [if_pos hvalid, if_pos hvalid]
    unfold readImage
    rw [hfile]
    by_cases hmoved : ∃ q ∈ r.moved, q <+: filePath seg.handle.relPath
    · have hgone : ¬r.Intact seg := fun hi => by
        obtain ⟨q, hq, hpre⟩ := hmoved
        exact hi q hq hpre
      rw [if_pos hmoved]
      constructor
      · intro hread
        exact absurd hread (by simp [bind, Except.bind])
      · exact fun hi => absurd hi.1 hgone
    · have hintact : r.Intact seg := fun q hq hpre => hmoved ⟨q, hq, hpre⟩
      rw [if_neg hmoved]
      exact ⟨fun hread => ⟨hintact, hread⟩, fun hread => hread.2⟩
  · dsimp only
    rw [if_neg hvalid, if_neg hvalid]
    constructor
    · intro hread
      exact absurd hread (by simp [bind, Except.bind])
    · intro hread
      exact absurd hread.2 (by simp [bind, Except.bind])

theorem Trimmed.mem_segmentEvents (h : Trimmed log₀ dir₀ r log dir) {seg : SegmentDescriptor}
    {e : SignedChannelEvent} :
    e ∈ log.segmentEvents dir seg ↔ r.Intact seg ∧ e ∈ log₀.segmentEvents dir₀ seg := by
  simp only [ChannelLog.mem_segmentEvents, h.readSegment, and_assoc, exists_and_left]

/-! ### Holes that can be refilled -/

section Refill

variable {sha256 : SignedSet → ByteArr 32}

/-- The index speaks of the events the log still holds: an event is contained exactly
if it is among them, any other of this channel is appended, and every key offered
for a range can be resolved. -/
structure Refillable (sha256 : SignedSet → ByteArr 32) (log : ChannelLog) (dir : ChannelDir) :
    Prop where
  contains : ∀ e, log.containsReconcileKey sha256 e = true ↔
    reconcileKey sha256 e ∈ (log.storedEvents dir).map (reconcileKey sha256)
  refilled : ∀ e, e.communityId = log.manifest.communityId → e.channelId = log.manifest.channelId →
    reconcileKey sha256 e ∉ (log.storedEvents dir).map (reconcileKey sha256) →
    ∃ outcome log', log.append sha256 e = .ok (outcome, log') ∧ outcome.newlyAppended = true
  resolves : ∀ lo hi, ∃ evs,
    log.eventsForKeys sha256 dir (RangeReconcileSource.keysInRange log lo hi) = .ok evs ∧
      ∀ k ∈ RangeReconcileSource.keysInRange log lo hi, k ∈ evs.map (reconcileKey sha256)

/-- Nothing was lost with the dropped segments: every event read at reload is still in
the tail, or in a segment left whose file is in place and whose recorded span covers
it; and each segment left whose span meets that of the events can be read. -/
structure Redundant (sha256 : SignedSet → ByteArr 32) (log₀ : ChannelLog) (dir₀ : ChannelDir)
    (r : Remaining) : Prop where
  kept : ∀ e ∈ log₀.storedEvents dir₀,
    (∃ e' ∈ log₀.tail, reconcileKey sha256 e' = reconcileKey sha256 e) ∨
      ∃ seg ∈ r.segments, r.Intact seg ∧ Overlaps seg e.at_.wallMs e.at_.wallMs ∧
        ∃ e' ∈ log₀.segmentEvents dir₀ seg, reconcileKey sha256 e' = reconcileKey sha256 e
  readable : ∀ seg ∈ r.segments, ∀ e₁ ∈ log₀.storedEvents dir₀, ∀ e₂ ∈ log₀.storedEvents dir₀,
    Overlaps seg e₁.at_.wallMs e₂.at_.wallMs →
      r.Intact seg ∧ ∃ evs, log₀.readSegment dir₀ seg = .ok evs

theorem append_new {log : ChannelLog} {e : SignedChannelEvent}
    (hc : e.communityId = log.manifest.communityId) (hch : e.channelId = log.manifest.channelId)
    (h : log.containsReconcileKey sha256 e = false) :
    ∃ outcome log', log.append sha256 e = .ok (outcome, log') ∧ outcome.newlyAppended = true := by
  unfold append
  rw [if_neg (by simp [hc, hch])]
  dsimp only
  rw [if_neg (by simpa [containsReconcileKey] using h)]
  exact ⟨_, _, rfl, rfl⟩

theorem exists_later (k : ReconcileKey) : ∃ k' : ReconcileKey, k < k' ∧ k'.wallMs = k.wallMs := by
  refine ⟨{ k with deviceId := k.deviceId ++ "a" }, ?_, rfl⟩
  have hdevice : k.deviceId < k.deviceId ++ "a" := by
    rw [String.lt_iff_toList_lt, String.toList_append]
    have hlonger : k.deviceId.toList ++ [] < k.deviceId.toList ++ "a".toList :=
      List.append_left_lt (List.nil_lt_cons 'a' [])
    rwa [List.append_nil] at hlonger
  exact Prod.Lex.lt_iff.mpr (Or.inr ⟨rfl, Prod.Lex.lt_iff.mpr (Or.inr ⟨rfl,
    Prod.Lex.lt_iff.mpr (Or.inl hdevice)⟩)⟩)

theorem wallMs_mono {a b : ReconcileKey} (h : a ≤ b) : a.wallMs ≤ b.wallMs :=
  not_lt.mp fun hlt => absurd (ReconcileKey.lt_of_wallMs hlt) (not_lt.mpr h)

theorem Trimmed.mem_stored_iff (h : Trimmed log₀ dir₀ r log dir)
    (hr : Redundant sha256 log₀ dir₀ r) (k : ReconcileKey) :
    k ∈ (log.storedEvents dir).map (reconcileKey sha256) ↔
      k ∈ (log₀.storedEvents dir₀).map (reconcileKey sha256) := by
  constructor
  · intro hk
    obtain ⟨e, he, rfl⟩ := List.mem_map.mp hk
    refine List.mem_map_of_mem ?_
    rcases List.mem_append.mp he with he | he
    · obtain ⟨seg, hseg, he⟩ := List.mem_flatMap.mp he
      exact List.mem_append_left _ (List.mem_flatMap.mpr
        ⟨seg, h.sublist.mem (h.segments ▸ hseg), (h.mem_segmentEvents.mp he).2⟩)
    · exact List.mem_append_right _ (h.tail ▸ he)
  · intro hk
    obtain ⟨e, he, rfl⟩ := List.mem_map.mp hk
    rcases hr.kept e he with ⟨e', he', hkey⟩ | ⟨seg, hseg, hintact, -, e', he', hkey⟩
    · rw [← hkey]
      exact List.mem_map_of_mem (List.mem_append_right _ (h.tail ▸ he'))
    · rw [← hkey]
      exact List.mem_map_of_mem (List.mem_append_left _ (List.mem_flatMap.mpr
        ⟨seg, h.segments ▸ hseg, h.mem_segmentEvents.mpr ⟨hintact, he'⟩⟩))

variable (hlog : Rebuilt sha256 log₀ (log₀.storedEvents dir₀)) (h : Trimmed log₀ dir₀ r log dir)

include hlog h

theorem Trimmed.mem_keysInRange {lo hi k : ReconcileKey} :
    k ∈ RangeReconcileSource.keysInRange log lo hi ↔
      k ∈ (log₀.storedEvents dir₀).map (reconcileKey sha256) ∧ lo ≤ k ∧ k < hi := by
  have hasc : Ascending Prod.fst log.reconcileEntries := h.entries ▸ hlog.ascending
  rw [ChannelLog.mem_keysInRange hasc, h.entries, hlog.mem_keys]

theorem Trimmed.containsReconcileKey_iff (e : SignedChannelEvent) :
    log.containsReconcileKey sha256 e = true ↔
      reconcileKey sha256 e ∈ (log₀.storedEvents dir₀).map (reconcileKey sha256) := by
  have hasc : Ascending Prod.fst log.reconcileEntries := h.entries ▸ hlog.ascending
  rw [containsReconcileKey, containsKey_iff hasc, h.entries, hlog.mem_keys]

/-- A request that succeeds has resolved from the tail or a segment that is left. -/
theorem Trimmed.exists_of_resolved {lo hi : ReconcileKey} {evs : List SignedChannelEvent}
    (hres : log.eventsForKeys sha256 dir (RangeReconcileSource.keysInRange log lo hi) = .ok evs)
    {k : ReconcileKey} (hk : k ∈ RangeReconcileSource.keysInRange log lo hi)
    (hkevs : k ∈ evs.map (reconcileKey sha256)) :
    (∃ e ∈ log₀.tail, reconcileKey sha256 e = k) ∨
      ∃ seg ∈ r.segments, r.Intact seg ∧ Overlaps seg lo.wallMs hi.wallMs ∧
        ∃ e ∈ log₀.segmentEvents dir₀ seg, reconcileKey sha256 e = k := by
  obtain ⟨w, w', ⟨k₁, hk₁, rfl⟩, ⟨k₂, hk₂, rfl⟩, -, hspec⟩ :=
    eventsForKeys_spec sha256 log dir (List.ne_nil_of_mem hk)
  obtain ⟨-, rfl⟩ := (hspec evs).mp hres
  rcases foldl_pick_keys.mp hkevs with hnil | ⟨-, hmem⟩
  · simp at hnil
  obtain ⟨e, he, rfl⟩ := List.mem_map.mp hmem
  rcases List.mem_append.mp he with hseg | htail
  · obtain ⟨seg, hseg, he⟩ := List.mem_flatMap.mp hseg
    obtain ⟨hseg, hov⟩ := List.mem_filter.mp hseg
    obtain ⟨hintact, he⟩ := h.mem_segmentEvents.mp he
    have hlo := wallMs_mono ((h.mem_keysInRange hlog).mp hk₁).2.1
    have hhi := wallMs_mono ((h.mem_keysInRange hlog).mp hk₂).2.2.le
    have hov := of_decide_eq_true hov
    exact Or.inr ⟨seg, h.segments ▸ hseg, hintact, ⟨hlo.trans hov.1, hov.2.trans hhi⟩, e, he, rfl⟩
  · exact Or.inl ⟨e, h.tail ▸ htail, rfl⟩

theorem Trimmed.redundant_of_refillable (hr : Refillable sha256 log dir) :
    Redundant sha256 log₀ dir₀ r := by
  refine ⟨fun e he => ?_, fun seg hseg e₁ he₁ e₂ he₂ hov => ?_⟩
  · -- ask for the keys with the wall time of `e` from its key on
    obtain ⟨hi, hlt, hwall⟩ := exists_later (reconcileKey sha256 e)
    obtain ⟨evs, hres, hall⟩ := hr.resolves (reconcileKey sha256 e) hi
    have hk : reconcileKey sha256 e ∈
        RangeReconcileSource.keysInRange log (reconcileKey sha256 e) hi :=
      (h.mem_keysInRange hlog).mpr ⟨List.mem_map_of_mem he, le_rfl, hlt⟩
    have hfound := h.exists_of_resolved hlog hres hk (hall _ hk)
    rw [hwall] at hfound
    exact hfound
  · -- ask for a range that holds both events
    obtain ⟨hi, hlt, -⟩ := exists_later
      (max (reconcileKey sha256 e₁) (reconcileKey sha256 e₂))
    obtain ⟨evs, hres, -⟩ := hr.resolves
      (min (reconcileKey sha256 e₁) (reconcileKey sha256 e₂)) hi
    have hk₁ : reconcileKey sha256 e₁ ∈ RangeReconcileSource.keysInRange log
        (min (reconcileKey sha256 e₁) (reconcileKey sha256 e₂)) hi :=
      (h.mem_keysInRange hlog).mpr ⟨List.mem_map_of_mem he₁, min_le_left _ _,
        (le_max_left _ _).trans_lt hlt⟩
    have hk₂ : reconcileKey sha256 e₂ ∈ RangeReconcileSource.keysInRange log
        (min (reconcileKey sha256 e₁) (reconcileKey sha256 e₂)) hi :=
      (h.mem_keysInRange hlog).mpr ⟨List.mem_map_of_mem he₂, min_le_right _ _,
        (le_max_right _ _).trans_lt hlt⟩
    obtain ⟨w, w', -, -, hspan, hspec⟩ :=
      eventsForKeys_spec sha256 log dir (List.ne_nil_of_mem hk₁)
    obtain ⟨hread, -⟩ := (hspec evs).mp hres
    obtain ⟨found, hfound⟩ := hread seg (h.segments ▸ hseg)
      ⟨(hspan _ hk₁).1.trans hov.1, hov.2.trans (hspan _ hk₂).2⟩
    obtain ⟨hintact, hread⟩ := (h.readSegment seg found).mp hfound
    exact ⟨hintact, found, hread⟩

theorem Trimmed.refillable_of_redundant (hr : Redundant sha256 log₀ dir₀ r) :
    Refillable sha256 log dir := by
  have hcontains : ∀ e, log.containsReconcileKey sha256 e = true ↔
      reconcileKey sha256 e ∈ (log.storedEvents dir).map (reconcileKey sha256) := fun e => by
    rw [h.containsReconcileKey_iff hlog, h.mem_stored_iff hr]
  refine ⟨hcontains, fun e hc hch hnew => ?_, fun lo hi => ?_⟩
  · refine append_new hc hch ?_
    rw [← Bool.not_eq_true, hcontains]
    exact hnew
  · rcases List.eq_nil_or_concat' (RangeReconcileSource.keysInRange log lo hi) with hnil | ⟨ks, k₀, hks⟩
    · rw [hnil]
      exact ⟨[], eventsForKeys_nil log dir, by simp⟩
    · obtain ⟨w, w', ⟨k₁, hk₁, rfl⟩, ⟨k₂, hk₂, rfl⟩, hspan, hspec⟩ :=
        eventsForKeys_spec sha256 log dir
          (show RangeReconcileSource.keysInRange log lo hi ≠ [] by simp [hks])
      obtain ⟨e₁, he₁, rfl⟩ := List.mem_map.mp ((h.mem_keysInRange hlog).mp hk₁).1
      obtain ⟨e₂, he₂, rfl⟩ := List.mem_map.mp ((h.mem_keysInRange hlog).mp hk₂).1
      refine ⟨_, (hspec _).mpr ⟨fun seg hseg hov => ?_, rfl⟩, fun k hk => ?_⟩
      · -- the span of the request is that of two events of the log
        obtain ⟨hintact, evs, hread⟩ := hr.readable seg (h.segments ▸ hseg) e₁ he₁ e₂ he₂ hov
        exact ⟨evs, (h.readSegment seg evs).mpr ⟨hintact, hread⟩⟩
      · obtain ⟨e, he, rfl⟩ := List.mem_map.mp ((h.mem_keysInRange hlog).mp hk).1
        refine foldl_pick_keys.mpr (Or.inr ⟨hk, ?_⟩)
        rcases hr.kept e he with ⟨e', he', hkey⟩ | ⟨seg, hseg, hintact, hov, e', he', hkey⟩
        · rw [← hkey]
          exact List.mem_map_of_mem (List.mem_append_right _ (h.tail ▸ he'))
        · have hov' : Overlaps seg (reconcileKey sha256 e₁).wallMs (reconcileKey sha256 e₂).wallMs :=
            ⟨(hspan _ hk).1.trans hov.1, hov.2.trans (hspan _ hk).2⟩
          rw [← hkey]
          exact List.mem_map_of_mem (List.mem_append_left _ (List.mem_flatMap.mpr
            ⟨seg, List.mem_filter.mpr ⟨h.segments ▸ hseg, by simpa using hov'⟩,
              h.mem_segmentEvents.mpr ⟨hintact, he'⟩⟩))

end Refill

/-- After a reload and any drops, the log can be refilled exactly if nothing was lost. -/
theorem quarantine_refillable_iff {sha256 : SignedSet → ByteArr 32} {renamed : Bool}
    {communityId : SpaceId} {channelId : ChannelId} {config : ChannelLogConfig}
    {disk dir₀ : ChannelDir} {log₀ : ChannelLog} {total : ℕ}
    (h : reload sha256 renamed communityId channelId config disk = (.ok (log₀, total), dir₀))
    (calls : List QuarantineCall) :
    Refillable sha256 (quarantineAll calls log₀ dir₀).1 (quarantineAll calls log₀ dir₀).2 ↔
      Redundant sha256 log₀ dir₀ (remainingAfter calls log₀) := by
  have hlog := (reload_ok h).2.2.2
  have htrim := trimmed_quarantineAll calls log₀ dir₀
  exact ⟨htrim.redundant_of_refillable hlog, htrim.refillable_of_redundant hlog⟩

/-! ### A channel directory with a mixed segment -/

def messageHash : SignedSet → ByteArr 32
  | .post f => .replicate 32 (Fin.ofNat 256 f.id)
  | .react f => .replicate 32 (Fin.ofNat 256 (128 + f.target))

def samplePost (channelId : ChannelId) (id : ℕ) : SignedChannelEvent :=
  ⟨.post {
    at_ := ⟨Fin.ofNat _ id, 0, "desk"⟩, author := 7, body := "hello", channelId, communityId := 1,
    id, contentKind := 0 }, 0⟩

def mixedSegment : SegmentDescriptor :=
  ⟨(⟨1, 0, "desk"⟩, ⟨2, 0, "desk"⟩), 2, .localFile "segments/00000000.cbor"⟩

def mixedDir : ChannelDir := fun p =>
  if p = filePath manifestFilename then some (.legacy (.manifest ⟨1, 2, [mixedSegment]⟩))
  else if p = filePath "segments/00000000.cbor" then
    some (.legacy (.events [samplePost 2 1, samplePost 3 2]))
  else none

/-- The mixed directory after its segment is dropped. -/
theorem quarantine_refillable_mixed : ∃ log₀ total dir₀,
    reload messageHash true 1 2 {} mixedDir = (.ok (log₀, total), dir₀) ∧
      (Refillable messageHash (quarantineAll [⟨0, true, true⟩] log₀ dir₀).1
          (quarantineAll [⟨0, true, true⟩] log₀ dir₀).2 ↔
        Redundant messageHash log₀ dir₀ (remainingAfter [⟨0, true, true⟩] log₀)) := by
  have h : reload messageHash true 1 2 {} mixedDir = (.ok (_, _), _) := rfl
  exact ⟨_, _, _, h, quarantine_refillable_iff h [⟨0, true, true⟩]⟩

/-- The boot walk rejects the segment. Once it is dropped the log holds no event, yet the
post of the channel counts as contained, is refused when sent again, and its key is
offered and not resolved. -/
theorem dropped_segment_stays_listed : ∃ log total dir,
    reload messageHash true 1 2 {} mixedDir = (.ok (log, total), dir) ∧
      (log.readSegmentMigrating dir mixedSegment).toOption = none ∧
      (quarantineAll [⟨0, true, true⟩] log dir).1.storedEvents
        (quarantineAll [⟨0, true, true⟩] log dir).2 = [] ∧
      (quarantineAll [⟨0, true, true⟩] log dir).1.containsReconcileKey messageHash
        (samplePost 2 1) = true ∧
      ((quarantineAll [⟨0, true, true⟩] log dir).1.append messageHash (samplePost 2 1)).toOption.map
        (fun r => r.1.newlyAppended) = some false ∧
      reconcileKey messageHash (samplePost 2 1) ∈ RangeReconcileSource.keysInRange
        (quarantineAll [⟨0, true, true⟩] log dir).1 minKey maxKey ∧
      (quarantineAll [⟨0, true, true⟩] log dir).1.eventsForKeys messageHash
        (quarantineAll [⟨0, true, true⟩] log dir).2
        (RangeReconcileSource.keysInRange (quarantineAll [⟨0, true, true⟩] log dir).1 minKey maxKey) =
          .ok [] := by
  refine ⟨_, _, _, rfl, ?_⟩
  decide +kernel

end ChannelLog

end Harmony.Channel
