import Harmony.Channel.Index

/-! What a reloaded log is: its four views are those of the events its files hold. -/

namespace Harmony.Channel

open Harmony.Lib Harmony.Reconcile
open Harmony.Membership (SpaceId ChannelId)

namespace ChannelLog

structure Listed (sha256 : SignedSet → ByteArr 32) (log : ChannelLog)
    (events : List SignedChannelEvent) : Prop where
  entries : log.reconcileEntries = sortDedup Prod.fst (events.map (entryOf sha256))
  chunks : log.chunkIndex = ChunkIndex.buildFromSorted log.reconcileEntries

structure Rebuilt (sha256 : SignedSet → ByteArr 32) (log : ChannelLog)
    (events : List SignedChannelEvent) : Prop extends Listed sha256 log events where
  reactions : log.reactionIndex = events.foldl ReactionIndex.apply {}
  watermarks : log.deviceWatermarks =
    events.foldl (fun idx ev => raiseWatermark idx ev.author ev.at_) ∅

variable {sha256 : SignedSet → ByteArr 32} {communityId : SpaceId} {channelId : ChannelId}
  {config : ChannelLogConfig} {dir : ChannelDir}

theorem rebuilt_new : Rebuilt sha256 (new communityId channelId config) [] :=
  ⟨⟨rfl, rfl⟩, rfl, rfl⟩

theorem entryOf_hash (events : List SignedChannelEvent) :
    ∀ a ∈ events.map (entryOf sha256), ∀ b ∈ events.map (entryOf sha256), a.1 = b.1 → a = b := by
  intro a ha b hb hab
  obtain ⟨x, -, rfl⟩ := List.mem_map.mp ha
  obtain ⟨y, -, rfl⟩ := List.mem_map.mp hb
  exact Prod.ext hab (congrArg ReconcileKey.elementHash hab)

theorem Listed.ascending {log : ChannelLog} {events : List SignedChannelEvent}
    (h : Listed sha256 log events) : Ascending Prod.fst log.reconcileEntries := by
  rw [h.entries]
  exact sortDedup_ascending _

theorem Listed.mem_keys {log : ChannelLog} {events : List SignedChannelEvent}
    (h : Listed sha256 log events) {k : ReconcileKey} :
    k ∈ log.reconcileEntries.map Prod.fst ↔ k ∈ events.map (reconcileKey sha256) := by
  rw [h.entries]
  constructor
  · intro hk
    obtain ⟨x, hx, rfl⟩ := List.mem_map.mp hk
    obtain ⟨e, he, rfl⟩ := List.mem_map.mp ((mem_sortDedup (entryOf_hash events)).mp hx)
    exact List.mem_map_of_mem he
  · intro hk
    obtain ⟨e, he, rfl⟩ := List.mem_map.mp hk
    exact List.mem_map.mpr ⟨entryOf sha256 e,
      (mem_sortDedup (entryOf_hash events)).mpr (List.mem_map_of_mem he), rfl⟩

theorem loadTail_bound {renamed : Bool} {tail : List SignedChannelEvent} {dir' : ChannelDir}
    (h : loadTail renamed communityId channelId dir = (.ok tail, dir')) :
    eventsAllBind tail communityId channelId = true := by
  unfold loadTail at h
  dsimp only at h
  split at h
  · cases h
    rfl
  · split_ifs at h with hb
    · cases h
      exact hb
    · cases h
      rfl
  · cases h
    rfl
  · cases h
  · cases h
    rfl

theorem freshAfterQuarantine_ok {renamed : Bool} {log : ChannelLog} {total : ℕ} {dir' : ChannelDir}
    (h : freshAfterQuarantine renamed communityId channelId config dir = (.ok (log, total), dir')) :
    log = new communityId channelId config := by
  unfold freshAfterQuarantine at h
  dsimp only at h
  split_ifs at h
  · cases h
    rfl
  · cases h

/-- A reloaded log is this channel's, and its views are rebuilt from what it reads. -/
theorem reload_ok {renamed : Bool} {log : ChannelLog} {total : ℕ} {dir' : ChannelDir}
    (h : reload sha256 renamed communityId channelId config dir = (.ok (log, total), dir')) :
    log.manifest.communityId = communityId ∧ log.manifest.channelId = channelId ∧
      eventsAllBind log.tail communityId channelId = true ∧
      Rebuilt sha256 log (log.storedEvents dir') := by
  have hfresh : ∀ l, l = new communityId channelId config → l.manifest.communityId = communityId ∧
      l.manifest.channelId = channelId ∧ eventsAllBind l.tail communityId channelId = true ∧
      Rebuilt sha256 l (l.storedEvents dir') := by
    rintro l rfl
    exact ⟨rfl, rfl, rfl, rebuilt_new⟩
  unfold reload at h
  split at h
  · cases h
    exact hfresh _ rfl
  · cases h
  · exact hfresh _ (freshAfterQuarantine_ok h)
  · split_ifs at h with hc hch
    · cases h
    · cases h
    split at h
    · cases h
    · rename_i tail dir'' htail
      cases h
      exact ⟨not_not.mp hc, not_not.mp hch, loadTail_bound htail, ⟨rfl, rfl⟩, rfl, rfl⟩
  · exact hfresh _ (freshAfterQuarantine_ok h)

end ChannelLog

end Harmony.Channel
