import Harmony.Channel.Quarantine
import Harmony.Channel.Views

/-! Runs of a channel log over calls whose writes may fail and over crashes: no event is
held twice, none that was sealed is lost, and every view is that of the events held. -/

namespace Harmony.Channel

open Harmony.Lib Harmony.Reconcile
open Harmony.Membership (SpaceId ChannelId)

inductive Call where
  | append (event : SignedChannelEvent)
  | flushTail
  | sealAndPersist

namespace ChannelLog

variable {sha256 : SignedSet → ByteArr 32} {communityId : SpaceId} {channelId : ChannelId}
  {log : ChannelLog} {dir : ChannelDir}

/-- What a call reports and leaves; `written n` is the fate of its `n`th write. -/
def perform (sha256 : SignedSet → ByteArr 32) (call : Call) (written : ℕ → Bool) (log : ChannelLog)
    (dir : ChannelDir) : Except ChannelLogPersistError Unit × ChannelLog × ChannelDir :=
  match call with
  | .append e =>
    match log.append sha256 e with
    | .ok (_, log') => (.ok (), log', dir)
    | .error err => (.error err, log, dir)
  | .flushTail => ((log.flushTail written dir).1, log, (log.flushTail written dir).2)
  | .sealAndPersist => log.sealAndPersist written dir

/-- The events that a call seals: those of the tail, once all three files are written. -/
def sealedBy (call : Call) (written : ℕ → Bool) (log : ChannelLog) : List SignedChannelEvent :=
  match call with
  | .sealAndPersist => if written 0 ∧ written 1 ∧ written 2 then log.tail else []
  | _ => []

/-- An appended reaction ties with none that is held, and a seal finds an index left. -/
def Admissible (call : Call) (log : ChannelLog) (dir : ChannelDir) : Prop :=
  match call with
  | .append e => ∀ e' ∈ log.storedEvents dir, ¬Tied e e' ∧ ¬Tied e' e
  | .flushTail => True
  | .sealAndPersist => log.Room

/-- A log, its directory and the events sealed so far, after calls and crashes. A crash
between two writes of a call is a call whose next write fails, then a reload. -/
inductive Run (sha256 : SignedSet → ByteArr 32) (communityId : SpaceId) (channelId : ChannelId)
    (config : ChannelLogConfig) : List SignedChannelEvent → ChannelLog → ChannelDir → Prop
  | start : Run sha256 communityId channelId config [] (new communityId channelId config) fun _ => none
  | call {sealedEvents : List SignedChannelEvent} {log : ChannelLog} {dir : ChannelDir}
      (h : Run sha256 communityId channelId config sealedEvents log dir) (call : Call)
      (written : ℕ → Bool) (hok : Admissible call log dir) :
      Run sha256 communityId channelId config (sealedEvents ++ sealedBy call written log)
        (perform sha256 call written log dir).2.1 (perform sha256 call written log dir).2.2
  | crash {sealedEvents : List SignedChannelEvent} {log log' : ChannelLog} {dir dir' : ChannelDir}
      {renamed : Bool} {total : ℕ}
      (h : Run sha256 communityId channelId config sealedEvents log dir) (call : Call)
      (written : ℕ → Bool) (hok : Admissible call log dir)
      (hreload : reload sha256 renamed communityId channelId config
        (perform sha256 call written log dir).2.2 = (.ok (log', total), dir')) :
      Run sha256 communityId channelId config (sealedEvents ++ sealedBy call written log) log' dir'

structure Faithful (sha256 : SignedSet → ByteArr 32) (log : ChannelLog) (dir : ChannelDir) :
    Prop where
  readable : ∀ seg ∈ log.manifest.segments, ∃ evs, log.readSegment dir seg = .ok evs
  distinct : KeyNodup (reconcileKey sha256) (log.storedEvents dir)
  ascending : Ascending Prod.fst log.reconcileEntries
  listed : ∀ x, x ∈ log.reconcileEntries ↔ x ∈ (log.storedEvents dir).map (entryOf sha256)
  chunks : log.chunkIndex = ChunkIndex.buildFromSorted log.reconcileEntries
  watermarks : ∀ lane, log.deviceWatermarks[lane]? =
    (((log.storedEvents dir).filter fun e => e.lane = lane).map fun e => e.at_.mark).max?
  reactions : ∀ order : List SignedChannelEvent, order.Perm (log.storedEvents dir) →
    ∀ encryptedFlag target me,
      (log.reactionIndex.reactionsFor encryptedFlag target me).map ReactionDto.withoutSize =
        ((order.foldl ReactionIndex.apply {}).reactionsFor encryptedFlag target me).map
          ReactionDto.withoutSize
  resolves : ∀ keys : List ReconcileKey,
    (∀ k ∈ keys, k ∈ (log.storedEvents dir).map (reconcileKey sha256)) →
    ∃ evs, log.eventsForKeys sha256 dir keys = .ok evs ∧ KeyNodup (reconcileKey sha256) evs ∧
      (∀ k, k ∈ evs.map (reconcileKey sha256) ↔ k ∈ keys) ∧ ∀ e ∈ evs, e ∈ log.storedEvents dir

/-- The segments of the last written manifest, and the events of the last written tail. -/
def lastManifest (dir : ChannelDir) : List SegmentDescriptor :=
  match dir (filePath manifestFilename) with
  | some (.sealed _ (.manifest m)) => m.segments
  | _ => []

def lastTail (dir : ChannelDir) : List SignedChannelEvent :=
  match dir (filePath tailFilename) with
  | some (.sealed _ (.events t)) => t
  | _ => []

theorem Consistent.perform (h : Consistent sha256 communityId channelId log dir) {call : Call}
    (hok : Admissible call log dir) (written : ℕ → Bool) :
    Consistent sha256 communityId channelId (perform sha256 call written log dir).2.1
      (perform sha256 call written log dir).2.2 := by
  cases call with
  | append e =>
    cases happ : log.append sha256 e with
    | error err =>
      simp only [ChannelLog.perform, happ]
      exact h
    | ok r =>
      simp only [ChannelLog.perform, happ]
      exact h.append happ
  | flushTail => exact h.flushTail written
  | sealAndPersist => exact h.sealAndPersist hok written

theorem perform_error {call : Call} {written : ℕ → Bool} {err : ChannelLogPersistError}
    (h : (perform sha256 call written log dir).1 = .error err) :
    (perform sha256 call written log dir).2.1 = log := by
  cases call with
  | append e =>
    cases happ : log.append sha256 e with
    | error err' => simp only [perform, happ]
    | ok r =>
      simp only [perform, happ] at h
      cases h
  | flushTail => rfl
  | sealAndPersist =>
    change (log.sealAndPersist written dir).1 = .error err at h
    change (log.sealAndPersist written dir).2.1 = log
    rcases sealAndPersist_cases written log dir with
      ⟨hs, -⟩ | ⟨d, hs, -⟩ | ⟨firstAt, lastAt, hs, -, -⟩
    · rw [hs]
    · rw [hs]
    · rw [hs] at h
      cases h

/-- Keys of the log are resolved: each lies in the tail, or in a segment whose span
covers its wall time. -/
theorem Consistent.resolves (h : Consistent sha256 communityId channelId log dir)
    {keys : List ReconcileKey}
    (hkeys : ∀ k ∈ keys, k ∈ (log.storedEvents dir).map (reconcileKey sha256)) :
    ∃ evs, log.eventsForKeys sha256 dir keys = .ok evs ∧ KeyNodup (reconcileKey sha256) evs ∧
      (∀ k, k ∈ evs.map (reconcileKey sha256) ↔ k ∈ keys) ∧ ∀ e ∈ evs, e ∈ log.storedEvents dir := by
  rcases eq_or_ne keys [] with rfl | hne
  · exact ⟨[], eventsForKeys_nil log dir, List.nodup_nil, fun k => by simp, by simp⟩
  obtain ⟨lo, hi, -, -, hspan, hspec⟩ :=
    eventsForKeys_spec sha256 log dir hne
  refine ⟨_, (hspec _).mpr ⟨fun seg hseg _ => ?_, rfl⟩, foldl_pick_keyNodup _ List.nodup_nil,
    fun k => ?_, fun e he => ?_⟩
  · obtain ⟨evs, hread, -⟩ := h.filed.readable seg hseg
    exact ⟨evs, hread⟩
  · rw [foldl_pick_keys]
    constructor
    · rintro (hk | hk)
      · exact absurd hk (by simp)
      · exact hk.1
    · intro hk
      obtain ⟨e, he, rfl⟩ := List.mem_map.mp (hkeys k hk)
      refine Or.inr ⟨hk, List.mem_map_of_mem ?_⟩
      rcases List.mem_append.mp he with he | he
      · obtain ⟨seg, hseg, he⟩ := List.mem_flatMap.mp he
        obtain ⟨evs, hread, hrange⟩ := h.filed.readable seg hseg
        obtain ⟨evs', hread', hmem⟩ := mem_segmentEvents.mp he
        rw [hread] at hread'
        cases hread'
        obtain ⟨hfirst, hlast⟩ := hrange e hmem
        have hwall : Overlaps seg lo hi := ⟨(hspan _ hk).1.trans (Hlc.wallMs_mono hlast),
          (Hlc.wallMs_mono hfirst).trans (hspan _ hk).2⟩
        exact List.mem_append_left _ (List.mem_flatMap.mpr
          ⟨seg, List.mem_filter.mpr ⟨hseg, by simpa using hwall⟩, he⟩)
      · exact List.mem_append_right _ he
  · rcases mem_foldl_pick he with he | he
    · exact absurd he (by simp)
    · rcases List.mem_append.mp he with he | he
      · obtain ⟨seg, hseg, he⟩ := List.mem_flatMap.mp he
        exact List.mem_append_left _ (List.mem_flatMap.mpr ⟨seg, (List.mem_filter.mp hseg).1, he⟩)
      · exact List.mem_append_right _ he

theorem Consistent.faithful (h : Consistent sha256 communityId channelId log dir)
    (huntied : ∀ a ∈ log.storedEvents dir, ∀ b ∈ log.storedEvents dir, ¬Tied a b) :
    Faithful sha256 log dir := by
  obtain ⟨order, hperm, hviews⟩ := h.views
  refine ⟨fun seg hseg => ?_, h.nodup, hviews.ascending, fun x => ?_, hviews.chunks, fun lane => ?_,
    fun order' hp flag target me => ?_, fun keys hkeys => h.resolves hkeys⟩
  · obtain ⟨evs, hread, -⟩ := h.filed.readable seg hseg
    exact ⟨evs, hread⟩
  · rw [hviews.mem_entries, (hperm.map _).mem_iff]
  · rw [hviews.watermarks, foldl_raiseWatermark]
    have hp := (hperm.filter fun e => decide (e.lane = lane)).map fun e => e.at_.mark
    exact max?_perm hp
  · rw [hviews.reactions]
    exact ReactionIndex.reactionsFor_perm flag (hp.trans hperm.symm)
      (fun a ha b hb => huntied a (hperm.mem_iff.mp ha) b (hperm.mem_iff.mp hb)) target me

/-! ### What a call does to the events -/

def sealedIn (log : ChannelLog) (dir : ChannelDir) : List SignedChannelEvent :=
  log.manifest.segments.flatMap (log.segmentEvents dir)

theorem storedEvents_eq (log : ChannelLog) (dir : ChannelDir) :
    log.storedEvents dir = log.sealedIn dir ++ log.tail := rfl

theorem sealedIn_flushTail (h : Filed log dir) (written : ℕ → Bool) :
    log.sealedIn (log.flushTail written dir).2 = log.sealedIn dir := by
  have hsame : ∀ seg ∈ log.manifest.segments,
      (log.flushTail written dir).2 (filePath seg.handle.relPath) =
        dir (filePath seg.handle.relPath) := by
    intro seg hseg
    obtain ⟨hm, ht⟩ := h.indexed.path_ne hseg
    unfold flushTail
    dsimp only
    split_ifs <;> simp only [writeChannelFile_of_ne log _ _ hm, writeChannelFile_of_ne log _ _ ht]
  exact List.append_cancel_right (storedEvents_congr hsame)

/-- A seal keeps what was sealed and adds the tail, if it completes; otherwise the
events stay where they are. -/
theorem sealedIn_sealAndPersist (h : Consistent sha256 communityId channelId log dir)
    (hroom : log.Room) (written : ℕ → Bool) :
    ((log.sealAndPersist written dir).2.1.storedEvents (log.sealAndPersist written dir).2.2).Perm
        (log.storedEvents dir) ∧
      ∀ e, e ∈ log.sealedIn dir ∨ e ∈ sealedBy .sealAndPersist written log →
        e ∈ (log.sealAndPersist written dir).2.1.sealedIn
          (log.sealAndPersist written dir).2.2 := by
  have hone : log.storedEvents (log.segmentWritten dir) = log.storedEvents dir :=
    storedEvents_congr fun _ hseg =>
      writeChannelFile_of_ne log _ dir (h.filed.indexed.nextPath_fresh hroom _ hseg)
  have htwo : log.storedEvents (log.tailWritten dir) = log.storedEvents (log.segmentWritten dir) :=
    storedEvents_congr fun _ hseg =>
      writeChannelFile_of_ne log _ _ (h.filed.indexed.path_ne hseg).2
  have hsealed : ∀ d, log.storedEvents d = log.storedEvents dir → log.sealedIn d = log.sealedIn dir :=
    fun d hd => List.append_cancel_right hd
  rcases sealAndPersist_cases written log dir with
    ⟨hs, hempty⟩ | ⟨d, hs, hw, hd⟩ | ⟨firstAt, lastAt, hs, hw, -⟩
  · rw [hs]
    refine ⟨.refl _, fun e he => he.resolve_right fun he => ?_⟩
    unfold sealedBy at he
    rw [hempty] at he
    simp at he
  · have hstored : log.storedEvents d = log.storedEvents dir := by
      rcases hd with rfl | rfl | rfl
      · rfl
      · exact hone
      · exact htwo.trans hone
    rw [hs]
    refine ⟨.of_eq hstored, fun e he => ?_⟩
    rw [hsealed d hstored]
    refine he.resolve_right fun he => ?_
    unfold sealedBy at he
    rw [if_neg hw] at he
    simp at he
  · have hthree : log.storedEvents (log.manifestWritten firstAt lastAt dir) =
        log.storedEvents (log.tailWritten dir) :=
      storedEvents_congr fun _ hseg =>
        writeChannelFile_of_ne log _ _ (h.filed.indexed.path_ne hseg).1
    have hperm := storedEvents_afterSeal firstAt lastAt
      (manifestWritten_files log firstAt lastAt dir).1
    rw [hthree, htwo, hone] at hperm
    rw [hs]
    refine ⟨hperm, fun e he => ?_⟩
    -- the tail in memory is empty, so all that is held is sealed
    have hall : (log.afterSeal firstAt lastAt).storedEvents
        (log.manifestWritten firstAt lastAt dir) =
          (log.afterSeal firstAt lastAt).sealedIn (log.manifestWritten firstAt lastAt dir) :=
      List.append_nil _
    rw [hall] at hperm
    refine hperm.mem_iff.mpr ?_
    rcases he with he | he
    · exact List.mem_append_left _ he
    · unfold sealedBy at he
      rw [if_pos hw] at he
      exact List.mem_append_right _ he

/-- After a call the log holds what it held and perhaps the appended event, and what was
sealed stays sealed. -/
theorem stored_perform (h : Consistent sha256 communityId channelId log dir) {call : Call}
    (hok : Admissible call log dir) (written : ℕ → Bool) :
    (∀ e ∈ (perform sha256 call written log dir).2.1.storedEvents
        (perform sha256 call written log dir).2.2,
      e ∈ log.storedEvents dir ∨ call = .append e) ∧
    ∀ e, e ∈ log.sealedIn dir ∨ e ∈ sealedBy call written log →
      e ∈ (perform sha256 call written log dir).2.1.sealedIn
        (perform sha256 call written log dir).2.2 := by
  cases call with
  | append x =>
    cases happ : log.append sha256 x with
    | error err =>
      simp only [ChannelLog.perform, happ]
      exact ⟨fun e he => Or.inl he, fun e he => he.resolve_right (by simp [sealedBy])⟩
    | ok r =>
      simp only [ChannelLog.perform, happ]
      obtain ⟨order, -, hviews⟩ := h.views
      rcases append_cases hviews x with ⟨err, herr⟩ | hskip | ⟨o, l, hokk, -, -, -, hm, ht, -⟩
      · rw [herr] at happ
        cases happ
      · rw [hskip] at happ
        cases happ
        exact ⟨fun e he => Or.inl he, fun e he => he.resolve_right (by simp [sealedBy])⟩
      · rw [hokk] at happ
        cases happ
        constructor
        · intro e he
          rw [storedEvents_append dir hm ht, List.mem_append, List.mem_singleton] at he
          exact he.imp id fun he => by rw [he]
        · intro e he
          unfold sealedIn segmentEvents readSegment
          rw [hm]
          exact he.resolve_right (by simp [sealedBy])
  | flushTail =>
    have hsealed := sealedIn_flushTail h.filed written
    constructor
    · intro e he
      rw [storedEvents_eq] at he ⊢
      change e ∈ log.sealedIn (log.flushTail written dir).2 ++ log.tail at he
      rw [hsealed] at he
      exact Or.inl he
    · intro e he
      change e ∈ log.sealedIn (log.flushTail written dir).2
      rw [hsealed]
      exact he.resolve_right (by simp [sealedBy])
  | sealAndPersist =>
    obtain ⟨hperm, hkept⟩ := sealedIn_sealAndPersist h hok written
    exact ⟨fun e he => Or.inl (hperm.mem_iff.mp he), hkept⟩

/-- What holds along a run. -/
structure Sound (sha256 : SignedSet → ByteArr 32) (communityId : SpaceId) (channelId : ChannelId)
    (sealedEvents : List SignedChannelEvent) (log : ChannelLog) (dir : ChannelDir) : Prop where
  consistent : Consistent sha256 communityId channelId log dir
  untied : ∀ a ∈ log.storedEvents dir, ∀ b ∈ log.storedEvents dir, ¬Tied a b
  kept : ∀ e ∈ sealedEvents, e ∈ log.sealedIn dir

theorem not_tied_self (a : SignedChannelEvent) : ¬Tied a a := by
  unfold Tied
  cases a.signed with
  | post f => exact id
  | react f => exact fun h => h.2.2.2.2 rfl

theorem Sound.perform {sealedEvents : List SignedChannelEvent}
    (h : Sound sha256 communityId channelId sealedEvents log dir) {call : Call}
    (hok : Admissible call log dir) (written : ℕ → Bool) :
    Sound sha256 communityId channelId (sealedEvents ++ sealedBy call written log)
      (perform sha256 call written log dir).2.1 (perform sha256 call written log dir).2.2 := by
  obtain ⟨hstored, hkept⟩ := stored_perform h.consistent hok written
  refine ⟨h.consistent.perform hok written, fun a ha b hb => ?_, fun e he => hkept e ?_⟩
  · rcases hstored a ha with hax | rfl
    · rcases hstored b hb with hbx | rfl
      · exact h.untied a hax b hbx
      · exact (hok a hax).2
    · rcases hstored b hb with hbx | heq
      · exact (hok b hbx).1
      · cases heq
        exact not_tied_self _
  · exact (List.mem_append.mp he).imp_left (h.kept e)

/-- A reloaded log holds the segments of the last written manifest and the events of the
last written tail. -/
theorem Sound.reload {sealedEvents : List SignedChannelEvent}
    (h : Sound sha256 communityId channelId sealedEvents log dir) (renamed : Bool)
    (config : ChannelLogConfig) :
    ∃ log' total, ChannelLog.reload sha256 renamed communityId channelId config dir =
        (.ok (log', total), dir) ∧
      Sound sha256 communityId channelId sealedEvents log' dir ∧
      log'.manifest.segments = lastManifest dir ∧ log'.tail = lastTail dir := by
  obtain ⟨log', total, hreload, hc, hsegs, htail, hfile⟩ := h.consistent.reload renamed config
  have hsealed : log'.sealedIn dir = log.sealedIn dir := by
    unfold sealedIn segmentEvents readSegment
    rw [hsegs, hc.community, hc.channel, h.consistent.community, h.consistent.channel]
  have hsub : ∀ e ∈ log'.storedEvents dir, e ∈ log.storedEvents dir := by
    intro e he
    rw [storedEvents_eq, hsealed] at he
    exact (List.mem_append.mp he).elim (List.mem_append_left _)
      fun he => List.mem_append_right _ (htail.subset he)
  refine ⟨log', total, hreload, ⟨hc, fun a ha b hb => h.untied a (hsub a ha) b (hsub b hb),
    fun e he => hsealed ▸ h.kept e he⟩, ?_, ?_⟩
  · unfold lastManifest
    rcases hc.filed.manifestFile with hm | ⟨hm, hnil⟩
    · rw [hm]
      rfl
    · rw [hm]
      exact hnil
  · unfold lastTail
    rcases hfile with hf | ⟨hf, hnil⟩
    · rw [hf]
      rfl
    · rw [hf]
      exact hnil

theorem Run.sound {config : ChannelLogConfig} {sealedEvents : List SignedChannelEvent}
    (h : Run sha256 communityId channelId config sealedEvents log dir) :
    Sound sha256 communityId channelId sealedEvents log dir := by
  induction h with
  | start => exact ⟨consistent_new config, fun a ha => absurd ha (by simp [storedEvents, new]), by simp⟩
  | call h call written hok ih => exact ih.perform hok written
  | crash h call written hok hreload ih =>
    obtain ⟨l, t, hr, hs, -, -⟩ := (ih.perform hok written).reload _ config
    rw [hr] at hreload
    cases hreload
    exact hs

/-- Along every run: the views match the content, what was sealed is still in a segment, a
call that fails leaves manifest and tail alone, and a crash leaves exactly the segments of
the last written manifest and the last written tail. -/
theorem channel_log_durable {config : ChannelLogConfig} {sealedEvents : List SignedChannelEvent}
    (h : Run sha256 communityId channelId config sealedEvents log dir) :
    Faithful sha256 log dir ∧ (∀ e ∈ sealedEvents, e ∈ log.sealedIn dir) ∧
      ∀ (call : Call) (written : ℕ → Bool),
        (∀ err, (perform sha256 call written log dir).1 = .error err →
          (perform sha256 call written log dir).2.1.manifest = log.manifest ∧
            (perform sha256 call written log dir).2.1.tail = log.tail) ∧
        (Admissible call log dir → ∀ renamed, ∃ log' total,
          reload sha256 renamed communityId channelId config
              (perform sha256 call written log dir).2.2 =
            (.ok (log', total), (perform sha256 call written log dir).2.2) ∧
          log'.manifest.segments = lastManifest (perform sha256 call written log dir).2.2 ∧
          log'.tail = lastTail (perform sha256 call written log dir).2.2 ∧
          ∀ e ∈ sealedEvents ++ sealedBy call written log,
            e ∈ log'.sealedIn (perform sha256 call written log dir).2.2) := by
  have hs := h.sound
  refine ⟨hs.consistent.faithful hs.untied, hs.kept, fun call written => ⟨fun err herr => ?_,
    fun hok renamed => ?_⟩⟩
  · rw [perform_error herr]
    exact ⟨rfl, rfl⟩
  · obtain ⟨log', total, hreload, hs', hm, ht⟩ := (hs.perform hok written).reload renamed config
    exact ⟨log', total, hreload, hm, ht, hs'.kept⟩

theorem untied_samplePost (id : ℕ) (e : SignedChannelEvent) :
    ¬Tied (samplePost 2 id) e ∧ ¬Tied e (samplePost 2 id) := by
  unfold Tied samplePost
  cases e.signed <;> exact ⟨fun h => h, fun h => h⟩

/-- One post is sealed and another is in the tail, which is written. -/
def flushedLog : ChannelLog × ChannelDir :=
  [.append (samplePost 2 1), .sealAndPersist, .append (samplePost 2 2), .flushTail].foldl
    (fun st call => (perform messageHash call (fun _ => true) st.1 st.2).2)
    (new 1 2 {}, fun _ => none)

theorem flushedLog_run : Run messageHash 1 2 {} [samplePost 2 1] flushedLog.1 flushedLog.2 := by
  have happend : Run messageHash 1 2 {} _ _ _ :=
    .call .start (.append (samplePost 2 1)) (fun _ => true) (fun e' he' => absurd he' (by
      simp [storedEvents, new]))
  have hseal : Run messageHash 1 2 {} [samplePost 2 1] _ _ :=
    .call happend .sealAndPersist (fun _ => true) (by
      change Room _
      decide +kernel)
  have hnext : Run messageHash 1 2 {} [samplePost 2 1] _ _ :=
    .call hseal (.append (samplePost 2 2)) (fun _ => true) fun e' _ => untied_samplePost 2 e'
  exact .call hnext .flushTail (fun _ => true) trivial

/-- The seal of the second post breaks off between its segment and its manifest, and the log
is loaded again. -/
theorem channel_log_durable_post : ∃ log dir,
    Run messageHash 1 2 {} [samplePost 2 1] log dir ∧ Faithful messageHash log dir ∧
      samplePost 2 1 ∈ log.sealedIn dir ∧ log.tail = [samplePost 2 2] := by
  have hroom : flushedLog.1.Room := by decide +kernel
  obtain ⟨-, -, hcalls⟩ := channel_log_durable flushedLog_run
  obtain ⟨log, total, hreload, -, htail, -⟩ :=
    (hcalls .sealAndPersist fun n => n = 0).2 hroom true
  have hcrash : Run messageHash 1 2 {} [samplePost 2 1] _ _ :=
    .crash flushedLog_run .sealAndPersist (fun n => n = 0) hroom hreload
  obtain ⟨hfaithful, hkept, -⟩ := channel_log_durable hcrash
  refine ⟨log, _, hcrash, hfaithful, hkept _ (by simp), htail.trans ?_⟩
  decide +kernel

/-! ### A tie -/

/-- Tells the two reactions below and the post apart. -/
def stampHash : SignedSet → ByteArr 32
  | .post f => .replicate 32 (Fin.ofNat 256 f.id)
  | .react f => .replicate 32 (if f.add then 200 else 201)

/-- An author adds and takes back a reaction to message 9 at one stamp. -/
def sampleReact (add : Bool) : SignedChannelEvent :=
  ⟨.react {
    add, at_ := ⟨5, 0, "desk"⟩, author := 7, channelId := 2, communityId := 1, emoji := "+",
    target := 9 }, 0⟩

/-- The addition is sealed first, then what takes it back, with an earlier post. -/
def tiedLog : ChannelLog × ChannelDir :=
  [.append (sampleReact true), .sealAndPersist, .append (sampleReact false),
      .append (samplePost 2 1), .sealAndPersist].foldl
    (fun st call => (perform stampHash call (fun _ => true) st.1 st.2).2)
    (new 1 2 {}, fun _ => none)

def reactionsAfterReload : List ReactionDto :=
  match reload stampHash true 1 2 {} tiedLog.2 with
  | (.ok (log, _), _) => log.reactionIndex.reactionsFor (fun _ => false) 9 7
  | _ => []

/-- In the order of arrival the addition wins, and the summary shows it. After a reload
the second segment is read first, and the summary is empty. -/
theorem tied_reaction_depends_on_order :
    (tiedLog.1.reactionIndex.reactionsFor (fun _ => false) 9 7).map ReactionDto.reactors = [[7]] ∧
      reactionsAfterReload = [] ∧
      (sampleReact false :: [samplePost 2 1, sampleReact true]).Perm
        (tiedLog.1.storedEvents tiedLog.2) ∧
      ((sampleReact false :: [samplePost 2 1, sampleReact true]).foldl ReactionIndex.apply
        {}).reactionsFor (fun _ => false) 9 7 = [] := by
  decide +kernel

end ChannelLog

end Harmony.Channel
