import Harmony.Channel.Segments

/-! A log through any appends, flushes and seals, any of whose writes may fail, and
through crashes between two writes. The invariant ties the log in memory to the files
and the derived views to the events held. -/

namespace Harmony.Channel

open Harmony.Lib Harmony.Reconcile
open Harmony.Membership (SpaceId ChannelId)

namespace ChannelLog

variable {sha256 : SignedSet → ByteArr 32}

/-! ### One event more -/

/-- Inserting at the partition point keeps the list ascending. -/
theorem ascending_insertIdx {entries : List Entry} (h : Ascending Prod.fst entries)
    {key : ReconcileKey} (hash : ByteArr 32) (hkey : key ∉ entries.map Prod.fst) :
    Ascending Prod.fst
      (entries.insertIdx (partitionPoint (fun x => decide (x.1 < key)) entries) (key, hash)) ∧
    ∀ x, x ∈ entries.insertIdx (partitionPoint (fun x => decide (x.1 < key)) entries) (key, hash) ↔
      x ∈ entries ∨ x = (key, hash) := by
  induction entries with
  | nil => simp [partitionPoint, Ascending]
  | cons a l ih =>
    obtain ⟨hhead, htail⟩ := List.pairwise_cons.mp h
    rw [List.map_cons, List.mem_cons, not_or] at hkey
    obtain ⟨hasc, hmem⟩ := ih htail hkey.2
    rw [partitionPoint_cons]
    by_cases hlt : a.1 < key
    · rw [if_pos (by simpa using hlt), List.insertIdx_succ_cons]
      refine ⟨List.pairwise_cons.mpr ⟨fun x hx => ?_, hasc⟩, fun x => ?_⟩
      · rcases (hmem x).mp hx with hx | rfl
        · exact hhead x hx
        · exact hlt
      · rw [List.mem_cons, hmem, List.mem_cons, or_assoc]
    · have hgt : key < a.1 := lt_of_le_of_ne (not_lt.mp hlt) hkey.1
      rw [if_neg (by simpa using hlt), List.insertIdx_zero]
      refine ⟨List.pairwise_cons.mpr ⟨fun x hx => ?_, h⟩, fun x => ?_⟩
      · rcases List.mem_cons.mp hx with rfl | hx
        · exact hgt
        · exact hgt.trans (hhead x hx)
      · rw [List.mem_cons, or_comm]

theorem sortDedup_entries {entries : List Entry} {events : List SignedChannelEvent}
    (h : Ascending Prod.fst entries)
    (hmem : ∀ x, x ∈ entries ↔ x ∈ events.map (entryOf sha256)) :
    entries = sortDedup Prod.fst (events.map (entryOf sha256)) :=
  h.ext (sortDedup_ascending _) fun x => by
    rw [hmem, mem_sortDedup (entryOf_hash events)]

theorem Listed.mem_entries {log : ChannelLog} {events : List SignedChannelEvent}
    (h : Listed sha256 log events) {x : Entry} :
    x ∈ log.reconcileEntries ↔ x ∈ events.map (entryOf sha256) := by
  rw [h.entries, mem_sortDedup (entryOf_hash events)]

/-- What an insert into the reconcile index leaves alone. -/
theorem insertReconcileKey_frame (log : ChannelLog) (key : ReconcileKey) :
    (log.insertReconcileKey key).manifest = log.manifest ∧
      (log.insertReconcileKey key).tail = log.tail ∧
      (log.insertReconcileKey key).reactionIndex = log.reactionIndex ∧
      (log.insertReconcileKey key).deviceWatermarks = log.deviceWatermarks := by
  unfold insertReconcileKey
  dsimp only
  split <;> exact ⟨rfl, rfl, rfl, rfl⟩

theorem Listed.insertReconcileKey {log : ChannelLog} {events : List SignedChannelEvent}
    (h : Listed sha256 log events) {e : SignedChannelEvent}
    (hnew : reconcileKey sha256 e ∉ events.map (reconcileKey sha256)) :
    Listed sha256 (log.insertReconcileKey (reconcileKey sha256 e)) (events ++ [e]) := by
  have hkey : reconcileKey sha256 e ∉ log.reconcileEntries.map Prod.fst := fun hk =>
    hnew (h.mem_keys.mp hk)
  obtain ⟨hasc, hmem⟩ := ascending_insertIdx h.ascending
    (reconcileKey sha256 e).elementHash hkey
  have hnone : ¬(log.reconcileEntries[partitionPoint
      (fun x => decide (x.1 < reconcileKey sha256 e)) log.reconcileEntries]?.any
        fun x => x.1 = reconcileKey sha256 e) = true := by
    rw [any_at_partitionPoint h.ascending]
    exact hkey
  have hash_eq : ∀ x ∈ log.reconcileEntries, x.1 = reconcileKey sha256 e →
      x.2 = (reconcileKey sha256 e).elementHash := fun x hx hxk =>
    absurd (hxk ▸ List.mem_map_of_mem hx) hkey
  unfold ChannelLog.insertReconcileKey
  dsimp only
  rw [if_neg hnone]
  constructor
  · refine sortDedup_entries hasc fun x => ?_
    rw [hmem, h.mem_entries, List.map_append, List.mem_append, List.map_cons, List.map_nil,
      List.mem_singleton]
    rfl
  · -- the index is that of the entries before, so the insert gives that of those after
    dsimp only
    rw [h.chunks, insert_buildFromSorted h.ascending (spanOf_reads h.ascending) hash_eq]
    refine congrArg ChunkIndex.buildFromSorted ((sortDedup_ascending _).ext hasc fun x => ?_)
    rw [hmem, mem_sortDedup (hash_determined
      (fun a ha b hb hab => h.ascending.keyNodup.inj ha hb hab) hash_eq), List.mem_append,
      List.mem_singleton]

/-- An event that is not of this channel is refused, one that is held is skipped, and
any other is pushed and folded into every view. -/
theorem append_cases {log : ChannelLog} {events : List SignedChannelEvent}
    (h : Rebuilt sha256 log events) (e : SignedChannelEvent) :
    (∃ err, log.append sha256 e = .error err) ∨
      log.append sha256 e = .ok (⟨false, log.sealReady⟩, log) ∨
      ∃ outcome log', log.append sha256 e = .ok (outcome, log') ∧
        e.communityId = log.manifest.communityId ∧ e.channelId = log.manifest.channelId ∧
        reconcileKey sha256 e ∉ events.map (reconcileKey sha256) ∧
        log'.manifest = log.manifest ∧ log'.tail = log.tail ++ [e] ∧
        Rebuilt sha256 log' (events ++ [e]) := by
  unfold append
  by_cases hbind : e.communityId ≠ log.manifest.communityId ∨ e.channelId ≠ log.manifest.channelId
  · exact Or.inl ⟨_, if_pos hbind⟩
  rw [if_neg hbind]
  dsimp only
  have hcontains := (containsKey_iff h.ascending (reconcileKey sha256 e)).trans h.mem_keys
  by_cases hk : log.containsKey (reconcileKey sha256 e) = true
  · exact Or.inr (Or.inl (if_pos hk))
  rw [if_neg hk]
  rw [not_or, not_not, not_not] at hbind
  have hnew := fun hm => hk (hcontains.mpr hm)
  -- the reaction and watermark steps leave the index as it was
  have hmid : Listed sha256 { log with
      reactionIndex := log.reactionIndex.apply e
      deviceWatermarks := raiseWatermark log.deviceWatermarks e.author e.at_ } events :=
    ⟨h.entries, h.chunks⟩
  obtain ⟨hmanifest, htail, hreact, hmarks⟩ := insertReconcileKey_frame { log with
      reactionIndex := log.reactionIndex.apply e
      deviceWatermarks := raiseWatermark log.deviceWatermarks e.author e.at_ }
    (reconcileKey sha256 e)
  obtain ⟨hentries, hchunks⟩ := hmid.insertReconcileKey hnew
  refine Or.inr (Or.inr ⟨_, _, rfl, hbind.1, hbind.2, hnew, hmanifest,
    congrArg (· ++ [e]) htail, ⟨hentries, hchunks⟩, ?_, ?_⟩)
  · rw [List.foldl_append, ← h.reactions]
    exact hreact
  · rw [List.foldl_append, ← h.watermarks]
    exact hmarks

/-! ### The invariant -/

/-- Between two calls: the files are those of the log, no key is held twice, every event
is this channel's, and the views are those of the events in the order they arrived. -/
structure Consistent (sha256 : SignedSet → ByteArr 32) (communityId : SpaceId)
    (channelId : ChannelId) (log : ChannelLog) (dir : ChannelDir) : Prop where
  community : log.manifest.communityId = communityId
  channel : log.manifest.channelId = channelId
  filed : Filed log dir
  nodup : KeyNodup (reconcileKey sha256) (log.storedEvents dir)
  bound : ∀ e ∈ log.storedEvents dir, e.communityId = communityId ∧ e.channelId = channelId
  views : ∃ order : List SignedChannelEvent, order.Perm (log.storedEvents dir) ∧
    Rebuilt sha256 log order

variable {communityId : SpaceId} {channelId : ChannelId} {log : ChannelLog} {dir : ChannelDir}

theorem consistent_new (config : ChannelLogConfig) :
    Consistent sha256 communityId channelId (new communityId channelId config) fun _ => none where
  community := rfl
  channel := rfl
  filed := ⟨fun _ h => absurd h (by simp [new]), fun _ h => absurd h (by simp [new]), .nil,
    Or.inr ⟨rfl, rfl⟩, [], List.prefix_refl _, Or.inr ⟨rfl, rfl⟩, fun _ => rfl⟩
  nodup := List.nodup_nil
  bound := fun _ h => absurd h (by simp [storedEvents, new])
  views := ⟨[], .refl _, rebuilt_new⟩

theorem Consistent.of_filed {dir' : ChannelDir} (h : Consistent sha256 communityId channelId log dir)
    (hfiled : Filed log dir') (hstored : log.storedEvents dir' = log.storedEvents dir) :
    Consistent sha256 communityId channelId log dir' where
  community := h.community
  channel := h.channel
  filed := hfiled
  nodup := hstored ▸ h.nodup
  bound := hstored ▸ h.bound
  views := hstored ▸ h.views

theorem storedEvents_append (dir : ChannelDir) {log' : ChannelLog} {e : SignedChannelEvent}
    (hmanifest : log'.manifest = log.manifest) (htail : log'.tail = log.tail ++ [e]) :
    log'.storedEvents dir = log.storedEvents dir ++ [e] := by
  unfold storedEvents segmentEvents readSegment
  rw [hmanifest, htail, List.append_assoc]

theorem Filed.append {log' : ChannelLog} {e : SignedChannelEvent} (h : Filed log dir)
    (hmanifest : log'.manifest = log.manifest) (htail : log'.tail = log.tail ++ [e]) :
    Filed log' dir := by
  obtain ⟨t, ht, hfile, hnone⟩ := h.tailFile
  refine ⟨?_, ?_, ?_, ?_, t, ?_, ?_, hnone⟩
  · unfold Indexed
    rw [hmanifest]
    exact h.indexed
  · unfold readSegment
    rw [hmanifest]
    exact h.readable
  · rw [hmanifest]
    exact h.sorted
  · unfold sealedFile
    rw [hmanifest]
    exact h.manifestFile
  · rw [htail]
    exact ht.trans (List.prefix_append _ _)
  · unfold sealedFile
    rw [hmanifest]
    exact hfile

theorem Consistent.append {outcome : AppendOutcome} {log' : ChannelLog} {e : SignedChannelEvent}
    (h : Consistent sha256 communityId channelId log dir)
    (happ : log.append sha256 e = .ok (outcome, log')) :
    Consistent sha256 communityId channelId log' dir := by
  obtain ⟨order, hperm, hviews⟩ := h.views
  rcases append_cases hviews e with ⟨err, herr⟩ | hskip | ⟨o, l, hok, hc, hch, hnew, hm, ht, hr⟩
  · rw [herr] at happ
    cases happ
  · rw [hskip] at happ
    cases happ
    exact h
  · rw [hok] at happ
    cases happ
    have hstored := storedEvents_append dir hm ht
    rw [(hperm.map _).mem_iff] at hnew
    refine ⟨hm ▸ h.community, hm ▸ h.channel, h.filed.append hm ht, ?_, ?_,
      order ++ [e], ?_, hr⟩
    · rw [hstored, KeyNodup, List.map_append]
      exact List.nodup_append.mpr ⟨h.nodup, by simp, fun a ha b hb hab =>
        hnew (List.mem_singleton.mp hb ▸ hab ▸ ha)⟩
    · rw [hstored]
      intro x hx
      rcases List.mem_append.mp hx with hx | hx
      · exact h.bound x hx
      · rw [List.mem_singleton.mp hx]
        exact ⟨hc.trans h.community, hch.trans h.channel⟩
    · rw [hstored]
      exact hperm.append_right [e]

theorem Consistent.flushTail (h : Consistent sha256 communityId channelId log dir)
    (written : ℕ → Bool) :
    Consistent sha256 communityId channelId log (log.flushTail written dir).2 := by
  have hmanifest : Consistent sha256 communityId channelId log
      (log.writeChannelFile manifestFilename (.manifest log.manifest) dir) :=
    h.of_filed h.filed.write_manifest (storedEvents_congr fun seg hseg =>
      writeChannelFile_of_ne log _ dir (h.filed.indexed.path_ne hseg).1)
  have htail : ∀ d, Consistent sha256 communityId channelId log d →
      (d (filePath manifestFilename)).isSome →
      Consistent sha256 communityId channelId log
        (log.writeChannelFile tailFilename (.events log.tail) d) := fun d hd hsome =>
    hd.of_filed (hd.filed.write_tail (List.prefix_refl _) fun hnone => by simp [hnone] at hsome)
      (storedEvents_congr fun seg hseg =>
        writeChannelFile_of_ne log _ d (hd.filed.indexed.path_ne hseg).2)
  cases hfile : dir (filePath manifestFilename) with
  | none =>
    by_cases h0 : written 0 = true
    · by_cases h1 : written 1 = true
      · simpa [ChannelLog.flushTail, hfile, h0, h1] using htail _ hmanifest (by simp)
      · simpa [ChannelLog.flushTail, hfile, h0, h1] using hmanifest
    · simpa [ChannelLog.flushTail, hfile, h0] using h
  | some file =>
    by_cases h1 : written 1 = true
    · simpa [ChannelLog.flushTail, hfile, h1] using htail _ h (by simp [hfile])
    · simpa [ChannelLog.flushTail, hfile, h1] using h

/-! ### Sealing -/

def nextDescriptor (log : ChannelLog) (firstAt lastAt : Hlc) : SegmentDescriptor :=
  ⟨(firstAt, lastAt), log.tail.length % 2 ^ 32, .localFile (segmentRelPath log.nextIndex)⟩

def afterSeal (log : ChannelLog) (firstAt lastAt : Hlc) : ChannelLog :=
  { log with manifest := withSegment log.manifest (log.nextDescriptor firstAt lastAt), tail := [] }

section Seal

variable {firstAt lastAt : Hlc}

theorem mem_afterSeal_segments {seg : SegmentDescriptor} :
    seg ∈ (log.afterSeal firstAt lastAt).manifest.segments ↔
      seg ∈ log.manifest.segments ∨ seg = log.nextDescriptor firstAt lastAt := by
  change seg ∈ sortBy (fun d => d.range.1) _ ↔ _
  rw [mem_sortBy, List.mem_append, List.mem_singleton]

/-- The new segment holds what was in the tail. -/
theorem nextDescriptor_reads
    (hfile : dir (filePath (segmentRelPath log.nextIndex)) =
      some (log.sealedFile (segmentRelPath log.nextIndex) (.events log.tail))) :
    (log.afterSeal firstAt lastAt).readSegment dir (log.nextDescriptor firstAt lastAt) =
      .ok log.tail :=
  readSegment_sealed (log.afterSeal firstAt lastAt) (firstAt, lastAt)
    (log.tail.length % 2 ^ 32) hfile

theorem storedEvents_afterSeal (firstAt lastAt : Hlc)
    (hfile : dir (filePath (segmentRelPath log.nextIndex)) =
      some (log.sealedFile (segmentRelPath log.nextIndex) (.events log.tail))) :
    ((log.afterSeal firstAt lastAt).storedEvents dir).Perm (log.storedEvents dir) := by
  have hnew : (log.afterSeal firstAt lastAt).segmentEvents dir
      (log.nextDescriptor firstAt lastAt) = log.tail := by
    unfold segmentEvents
    rw [nextDescriptor_reads hfile]
  have hsort : ((log.afterSeal firstAt lastAt).manifest.segments.flatMap
      ((log.afterSeal firstAt lastAt).segmentEvents dir)).Perm
        ((log.manifest.segments ++ [log.nextDescriptor firstAt lastAt]).flatMap
          ((log.afterSeal firstAt lastAt).segmentEvents dir)) :=
    (sortBy_perm _).flatMap_right _
  rw [List.flatMap_append, List.flatMap_singleton, hnew] at hsort
  have hempty : (log.afterSeal firstAt lastAt).tail = [] := rfl
  rw [storedEvents, storedEvents, hempty, List.append_nil]
  exact hsort

end Seal

def segmentWritten (log : ChannelLog) (dir : ChannelDir) : ChannelDir :=
  log.writeChannelFile (segmentRelPath log.nextIndex) (.events log.tail) dir

def tailWritten (log : ChannelLog) (dir : ChannelDir) : ChannelDir :=
  log.writeChannelFile tailFilename (.events []) (log.segmentWritten dir)

def manifestWritten (log : ChannelLog) (firstAt lastAt : Hlc) (dir : ChannelDir) : ChannelDir :=
  log.writeChannelFile manifestFilename (.manifest (log.afterSeal firstAt lastAt).manifest)
    (log.tailWritten dir)

theorem tail_span {firstAt lastAt : Hlc}
    (hfirst : (log.tail.map SignedChannelEvent.at_).min? = some firstAt)
    (hlast : (log.tail.map SignedChannelEvent.at_).max? = some lastAt) :
    ∀ e ∈ log.tail, firstAt ≤ e.at_ ∧ e.at_ ≤ lastAt := fun _ he =>
  ⟨(List.min?_eq_some_iff.mp hfirst).2 _ (List.mem_map_of_mem he),
    (List.max?_eq_some_iff.mp hlast).2 _ (List.mem_map_of_mem he)⟩

/-- A seal of an empty tail does nothing; any other stops at the write that fails, or
writes all three files and commits. -/
theorem sealAndPersist_cases (written : ℕ → Bool) (log : ChannelLog) (dir : ChannelDir) :
    log.sealAndPersist written dir = (.ok (), log, dir) ∧ log.tail = [] ∨
      (∃ d, log.sealAndPersist written dir = (.error writeFailed, log, d) ∧
        ¬(written 0 ∧ written 1 ∧ written 2) ∧
        (d = dir ∨ d = log.segmentWritten dir ∨ d = log.tailWritten dir)) ∨
      ∃ firstAt lastAt, log.sealAndPersist written dir =
          (.ok (), log.afterSeal firstAt lastAt, log.manifestWritten firstAt lastAt dir) ∧
        (written 0 ∧ written 1 ∧ written 2) ∧ ∀ e ∈ log.tail, firstAt ≤ e.at_ ∧ e.at_ ≤ lastAt := by
  unfold ChannelLog.sealAndPersist
  cases hfirst : (log.tail.map SignedChannelEvent.at_).min? with
  | none => exact Or.inl ⟨rfl, List.map_eq_nil_iff.mp (List.min?_eq_none_iff.mp hfirst)⟩
  | some firstAt =>
    cases hlast : (log.tail.map SignedChannelEvent.at_).max? with
    | none => exact Or.inl ⟨rfl, List.map_eq_nil_iff.mp (List.max?_eq_none_iff.mp hlast)⟩
    | some lastAt =>
      dsimp only
      by_cases h0 : written 0 = true
      · rw [if_neg (not_not.mpr h0)]
        by_cases h1 : written 1 = true
        · rw [if_neg (not_not.mpr h1)]
          by_cases h2 : written 2 = true
          · rw [if_neg (not_not.mpr h2)]
            exact Or.inr (Or.inr ⟨firstAt, lastAt, rfl, ⟨h0, h1, h2⟩, tail_span hfirst hlast⟩)
          · rw [if_pos h2]
            exact Or.inr (Or.inl ⟨_, rfl, fun hw => h2 hw.2.2, Or.inr (Or.inr rfl)⟩)
        · rw [if_pos h1]
          exact Or.inr (Or.inl ⟨_, rfl, fun hw => h1 hw.2.1, Or.inr (Or.inl rfl)⟩)
      · rw [if_pos h0]
        exact Or.inr (Or.inl ⟨_, rfl, fun hw => h0 hw.1, Or.inl rfl⟩)

theorem Consistent.segmentWritten (h : Consistent sha256 communityId channelId log dir)
    (hroom : log.Room) : Consistent sha256 communityId channelId log (log.segmentWritten dir) :=
  h.of_filed (h.filed.write_segment hroom _) (storedEvents_congr fun _ hseg =>
    writeChannelFile_of_ne log _ dir (h.filed.indexed.nextPath_fresh hroom _ hseg))

theorem Consistent.tailWritten (h : Consistent sha256 communityId channelId log dir)
    (hroom : log.Room) : Consistent sha256 communityId channelId log (log.tailWritten dir) :=
  (h.segmentWritten hroom).of_filed
    ((h.segmentWritten hroom).filed.write_tail List.nil_prefix fun _ => rfl)
    (storedEvents_congr fun _ hseg =>
      writeChannelFile_of_ne log _ _ (h.filed.indexed.path_ne hseg).2)

/-- What the three writes of a seal leave on disk. -/
theorem manifestWritten_files (log : ChannelLog) (firstAt lastAt : Hlc) (dir : ChannelDir) :
    log.manifestWritten firstAt lastAt dir (filePath (segmentRelPath log.nextIndex)) =
        some (log.sealedFile (segmentRelPath log.nextIndex) (.events log.tail)) ∧
      log.manifestWritten firstAt lastAt dir (filePath tailFilename) =
        some (log.sealedFile tailFilename (.events [])) ∧
      log.manifestWritten firstAt lastAt dir (filePath manifestFilename) =
        some (log.sealedFile manifestFilename
          (.manifest (log.afterSeal firstAt lastAt).manifest)) := by
  refine ⟨?_, ?_, writeChannelFile_self log _ _ _⟩
  · unfold manifestWritten ChannelLog.tailWritten ChannelLog.segmentWritten
    rw [writeChannelFile_of_ne log _ _ (segmentPath_ne_manifest _),
      writeChannelFile_of_ne log _ _ (segmentPath_ne_tail _), writeChannelFile_self]
  · unfold manifestWritten ChannelLog.tailWritten
    rw [writeChannelFile_of_ne log _ _ tailPath_ne_manifest, writeChannelFile_self]

theorem Consistent.afterSeal (h : Consistent sha256 communityId channelId log dir) (hroom : log.Room)
    {firstAt lastAt : Hlc} (hspan : ∀ e ∈ log.tail, firstAt ≤ e.at_ ∧ e.at_ ≤ lastAt) :
    Consistent sha256 communityId channelId (log.afterSeal firstAt lastAt)
      (log.manifestWritten firstAt lastAt dir) := by
  obtain ⟨hfile, htail, hmanifest⟩ := manifestWritten_files log firstAt lastAt dir
  have hbefore := h.tailWritten hroom
  -- the segments already listed read as they did
  have hsame : ∀ seg ∈ log.manifest.segments,
      log.manifestWritten firstAt lastAt dir (filePath seg.handle.relPath) =
        log.tailWritten dir (filePath seg.handle.relPath) := fun seg hseg =>
    writeChannelFile_of_ne log _ _ (h.filed.indexed.path_ne hseg).1
  have hstored : log.storedEvents (log.manifestWritten firstAt lastAt dir) =
      log.storedEvents (log.tailWritten dir) := storedEvents_congr hsame
  have hperm := storedEvents_afterSeal firstAt lastAt hfile
  rw [hstored] at hperm
  obtain ⟨order, horder, hviews⟩ := hbefore.views
  refine ⟨h.community, h.channel, ⟨fun seg hseg => ?_, fun seg hseg => ?_, sortBy_sorted _,
    Or.inl hmanifest, [], List.prefix_refl _, Or.inl htail, fun _ => rfl⟩,
    hbefore.nodup.perm hperm, fun e he => hbefore.bound e (hperm.mem_iff.mp he),
    order, horder.trans hperm.symm, ⟨hviews.entries, hviews.chunks⟩, hviews.reactions,
    hviews.watermarks⟩
  · rcases mem_afterSeal_segments.mp hseg with hseg | rfl
    · exact h.filed.indexed seg hseg
    · exact ⟨log.nextIndex, (h.filed.indexed.index_lt_nextIndex hroom).1, rfl⟩
  · rcases mem_afterSeal_segments.mp hseg with hseg | rfl
    · obtain ⟨evs, hread, hevs⟩ := hbefore.filed.readable seg hseg
      exact ⟨evs, (readSegment_congr (hsame seg hseg)).trans hread, hevs⟩
    · exact ⟨log.tail, nextDescriptor_reads hfile, hspan⟩

theorem Consistent.sealAndPersist (h : Consistent sha256 communityId channelId log dir)
    (hroom : log.Room) (written : ℕ → Bool) :
    Consistent sha256 communityId channelId (log.sealAndPersist written dir).2.1
      (log.sealAndPersist written dir).2.2 := by
  rcases sealAndPersist_cases written log dir with
    ⟨hs, -⟩ | ⟨d, hs, -, rfl | rfl | rfl⟩ | ⟨firstAt, lastAt, hs, -, hspan⟩
  · rw [hs]
    exact h
  · rw [hs]
    exact h
  · rw [hs]
    exact h.segmentWritten hroom
  · rw [hs]
    exact h.tailWritten hroom
  · rw [hs]
    exact h.afterSeal hroom hspan

/-! ### Reloading -/

theorem sortBy_of_sorted {l : List SegmentDescriptor}
    (h : l.Pairwise fun a b => a.range.1 ≤ b.range.1) : sortBy (fun d => d.range.1) l = l :=
  haveI : Std.Total fun a b : SegmentDescriptor => a.range.1 ≤ b.range.1 :=
    ⟨fun a b => le_total a.range.1 b.range.1⟩
  List.Pairwise.insertionSort_eq h

/-- What `reload` reads of a manifest and a tail of this log. -/
theorem reload_eq (h : Consistent sha256 communityId channelId log dir) (renamed : Bool)
    (config : ChannelLogConfig) {t : List SignedChannelEvent} (ht : t <+: log.tail)
    (hfile : dir (filePath tailFilename) = some (log.sealedFile tailFilename (.events t)) ∨
      dir (filePath tailFilename) = none ∧ t = [])
    (hmanifest : dir (filePath manifestFilename) =
      some (log.sealedFile manifestFilename (.manifest log.manifest))) :
    ∃ log' total, ChannelLog.reload sha256 renamed communityId channelId config dir =
        (.ok (log', total), dir) ∧
      log'.manifest = log.manifest ∧ log'.tail = t := by
  have hload : loadTail renamed communityId channelId dir = (.ok t, dir) := by
    unfold loadTail readImage
    rcases hfile with hfile | ⟨hfile, rfl⟩
    · have hbind : eventsAllBind t communityId channelId = true := by
        refine List.all_eq_true.mpr fun e he => ?_
        simpa using h.bound e (List.mem_append_right _ (ht.subset he))
      simp [hfile, sealedFile, h.community, h.channel, hbind]
    · simp [hfile]
  have hread : readImage dir (filePath manifestFilename)
      (channelSealLabel communityId channelId manifestFilename) =
        .ok (some (.manifest log.manifest)) := by
    simp [readImage, hmanifest, sealedFile, h.community, h.channel]
  have hsorted : { log.manifest with
      segments := sortBy (fun d => d.range.1) log.manifest.segments } = log.manifest := by
    rw [sortBy_of_sorted h.filed.sorted]
  unfold ChannelLog.reload
  rw [hread]
  dsimp only
  rw [if_neg (not_not.mpr h.community), if_neg (not_not.mpr h.channel), hload, hsorted]
  exact ⟨_, _, rfl, rfl, rfl⟩

/-- After a crash the log is the manifest's segments and the tail that was last written. -/
theorem Consistent.reload (h : Consistent sha256 communityId channelId log dir) (renamed : Bool)
    (config : ChannelLogConfig) :
    ∃ log' total, ChannelLog.reload sha256 renamed communityId channelId config dir =
        (.ok (log', total), dir) ∧
      Consistent sha256 communityId channelId log' dir ∧
      log'.manifest.segments = log.manifest.segments ∧ log'.tail <+: log.tail ∧
      (dir (filePath tailFilename) = some (log.sealedFile tailFilename (.events log'.tail)) ∨
        dir (filePath tailFilename) = none ∧ log'.tail = []) := by
  obtain ⟨t, ht, hfile, hnone⟩ := h.filed.tailFile
  rcases h.filed.manifestFile with hmanifest | ⟨hmanifest, hsegs⟩
  · obtain ⟨log', total, hreload, hm, rfl⟩ := reload_eq h renamed config ht hfile hmanifest
    have hstored : log'.storedEvents dir =
        log.manifest.segments.flatMap (log.segmentEvents dir) ++ log'.tail := by
      unfold storedEvents segmentEvents readSegment
      rw [hm]
    have hsub : (log'.storedEvents dir).Sublist (log.storedEvents dir) := by
      rw [hstored]
      exact (List.Sublist.refl _).append ht.sublist
    obtain ⟨hc, hch, -, hviews⟩ := reload_ok hreload
    refine ⟨log', total, hreload, ⟨hc, hch, ?_, ?_, ?_, _, .refl _, hviews⟩,
      congrArg ChannelLogManifest.segments hm, ht, hfile⟩
    · refine ⟨?_, ?_, ?_, Or.inl ?_, log'.tail, List.prefix_refl _, ?_, hnone⟩
      · unfold Indexed
        rw [hm]
        exact h.filed.indexed
      · unfold readSegment
        rw [hm]
        exact h.filed.readable
      · rw [hm]
        exact h.filed.sorted
      · unfold sealedFile
        rw [hm]
        exact hmanifest
      · unfold sealedFile
        rw [hm]
        exact hfile
    · exact h.nodup.sublist (hsub.map _)
    · exact fun e he => h.bound e (hsub.subset he)
  · -- no manifest was ever written, and so no tail but an empty one
    obtain rfl := hnone hmanifest
    have hreload : ChannelLog.reload sha256 renamed communityId channelId config dir =
        (.ok (new communityId channelId config, 0), dir) := by
      unfold ChannelLog.reload readImage
      rw [hmanifest]
    refine ⟨_, _, hreload, ⟨rfl, rfl, ?_, List.nodup_nil, fun _ he => absurd he (by simp [storedEvents, new]),
      [], .refl _, rebuilt_new⟩, hsegs.symm, List.nil_prefix, hfile⟩
    refine ⟨fun _ hs => absurd hs (by simp [new]), fun _ hs => absurd hs (by simp [new]), .nil,
      Or.inr ⟨hmanifest, rfl⟩, [], List.prefix_refl _, ?_, fun _ => rfl⟩
    unfold sealedFile at hfile ⊢
    rw [h.community, h.channel] at hfile
    exact hfile

end ChannelLog

end Harmony.Channel
