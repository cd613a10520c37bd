import Harmony.Channel.Crashes
import Harmony.Channel.Engine
import Harmony.Lib.Trace

/-! What one step of the engine keeps: the log in memory matches the files, the tracker
has reached every event held, and the client was told of exactly the events that came
since the start. -/

namespace Harmony.Channel

open Harmony.Lib Harmony.Reconcile
open Harmony.Membership (OwnerAddr SpaceId ChannelId)

namespace PacketTask

def event : PacketTask → SignedChannelEvent
  | .doubted e | .received e _ | .verified e _ | .committed e _ | .minted e | .recorded e => e

def own : PacketTask → Bool
  | .minted _ | .recorded _ => true
  | _ => false

def advanced : PacketTask → Bool
  | .committed _ _ | .recorded _ => true
  | _ => false

/-- The task is past the verification, or of an own event. -/
def cleared : PacketTask → Bool
  | .doubted _ | .received _ _ => false
  | _ => true

theorem own_of_not_cleared {task : PacketTask} (h : task.cleared = false) : task.own = false := by
  cases task <;> first | rfl | cases h

theorem advanced_of_not_cleared {task : PacketTask} (h : task.cleared = false) :
    task.advanced = false := by
  cases task <;> first | rfl | cases h

theorem cleared_of_advanced {task : PacketTask} (h : task.advanced = true) : task.cleared = true := by
  cases task <;> first | rfl | cases h

end PacketTask

namespace ChannelLogReplayTracker

variable {tracker : ChannelLogReplayTracker}

theorem record_head {e : SignedChannelEvent} {k : ChannelId ×ₗ Lane} {head : Hlc}
    (h : (tracker.record e).lastSeen[k]? = some head) :
    tracker.lastSeen[k]? = some head ∨ e.trackerKey = k ∧ e.at_ = head := by
  have hinsert : (tracker.lastSeen.insert e.trackerKey e.at_)[k]? = some head →
      tracker.lastSeen[k]? = some head ∨ e.trackerKey = k ∧ e.at_ = head := by
    intro h
    rw [BTreeMap.get_insert] at h
    split_ifs at h with hk
    · exact Or.inr ⟨hk, Option.some.inj h⟩
    · exact Or.inl h
  unfold record at h
  split at h
  · split_ifs at h
    · exact hinsert h
    · exact Or.inl h
  · exact hinsert h

theorem foldl_record_head (events : List SignedChannelEvent) {k : ChannelId ×ₗ Lane} {head : Hlc}
    (h : (events.foldl record tracker).lastSeen[k]? = some head) :
    tracker.lastSeen[k]? = some head ∨ ∃ e ∈ events, e.trackerKey = k ∧ e.at_ = head := by
  induction events generalizing tracker with
  | nil => exact Or.inl h
  | cons a events ih =>
    rcases ih h with h | ⟨e, he, hk⟩
    · rcases record_head h with h | hk
      · exact Or.inl h
      · exact Or.inr ⟨a, List.mem_cons_self, hk⟩
    · exact Or.inr ⟨e, List.mem_cons_of_mem _ he, hk⟩

end ChannelLogReplayTracker

/-! ### Appending and sealing -/

namespace ChannelLog

variable {sha256 : SignedSet → ByteArr 32} {communityId : SpaceId} {channelId : ChannelId}
  {log : ChannelLog} {dir : ChannelDir}

/-- An append that succeeds skips an event that is held, or pushes a new one. -/
theorem Consistent.append_ok (h : Consistent sha256 communityId channelId log dir)
    {e : SignedChannelEvent} {outcome : AppendOutcome} {log' : ChannelLog}
    (happ : log.append sha256 e = .ok (outcome, log')) :
    (outcome.newlyAppended = false ∧ log' = log ∧
      reconcileKey sha256 e ∈ (log.storedEvents dir).map (reconcileKey sha256)) ∨
    (outcome.newlyAppended = true ∧ log'.storedEvents dir = log.storedEvents dir ++ [e] ∧
      reconcileKey sha256 e ∉ (log.storedEvents dir).map (reconcileKey sha256)) := by
  obtain ⟨order, hperm, hviews⟩ := h.views
  have hcontains := (containsKey_iff hviews.ascending (reconcileKey sha256 e)).trans
    (hviews.mem_keys.trans (hperm.map _).mem_iff)
  unfold ChannelLog.append at happ
  dsimp only at happ
  split_ifs at happ with hbind hk
  · cases happ
    exact Or.inl ⟨rfl, rfl, hcontains.mp hk⟩
  · obtain ⟨hmanifest, htail, -⟩ := insertReconcileKey_frame { log with
        reactionIndex := log.reactionIndex.apply e
        deviceWatermarks := raiseWatermark log.deviceWatermarks e.author e.at_ }
      (reconcileKey sha256 e)
    cases happ
    exact Or.inr ⟨rfl, storedEvents_append dir hmanifest (congrArg (· ++ [e]) htail),
      fun hmem => hk (hcontains.mpr hmem)⟩

theorem storedEvents_flushTail (h : Filed log dir) (written : ℕ → Bool) :
    log.storedEvents (log.flushTail written dir).2 = log.storedEvents dir := by
  rw [storedEvents_eq, storedEvents_eq, sealedIn_flushTail h]

/-! ### Starting -/

theorem Consistent.readSegmentMigrating (h : Consistent sha256 communityId channelId log dir)
    {seg : SegmentDescriptor} (hseg : seg ∈ log.manifest.segments) :
    log.readSegmentMigrating dir seg = .ok (log.segmentEvents dir seg) := by
  obtain ⟨evs, hread, -⟩ := h.filed.readable seg hseg
  have hevents : log.segmentEvents dir seg = evs := by rw [segmentEvents, hread]
  have hbind : eventsAllBind evs log.manifest.communityId log.manifest.channelId = true := by
    refine List.all_eq_true.mpr fun e he => ?_
    rw [h.community, h.channel, decide_eq_true_iff]
    exact h.bound e (List.mem_append_left _ (List.mem_flatMap.mpr ⟨seg, hseg, hevents ▸ he⟩))
  rw [ChannelLog.readSegmentMigrating, hread, hevents, bind_eq_ok]
  exact ⟨evs, rfl, if_pos hbind⟩

/-- The walk notes nothing, and feeds every event of the segments to the tracker. -/
theorem Consistent.walk (h : Consistent sha256 communityId channelId log dir)
    (segs : List SegmentDescriptor) (hsegs : ∀ seg ∈ segs, seg ∈ log.manifest.segments) (k : ℕ)
    (tracker : ChannelLogReplayTracker) :
    (segs.zipIdx k).foldlM (log.walkSegment dir) (tracker, []) =
      .ok ((segs.flatMap (log.segmentEvents dir)).foldl ChannelLogReplayTracker.record tracker,
        []) := by
  induction segs generalizing k tracker with
  | nil => rfl
  | cons seg segs ih =>
    rw [List.zipIdx_cons, List.foldlM_cons, bind_eq_ok, List.flatMap_cons, List.foldl_append]
    refine ⟨((log.segmentEvents dir seg).foldl ChannelLogReplayTracker.record tracker, []), ?_,
      ih (fun s hs => hsegs s (List.mem_cons_of_mem _ hs)) _ _⟩
    rw [walkSegment, h.readSegmentMigrating (hsegs seg List.mem_cons_self)]

end ChannelLog

namespace ChannelLogEngine

variable {P : ChannelLogEngineParams} {engine : ChannelLogEngine}

def stored (engine : ChannelLogEngine) : List SignedChannelEvent :=
  engine.log.storedEvents engine.dir

/-- From files in order the engine starts with what they hold, all of it in the tracker. -/
theorem start_ok {log : ChannelLog} {dir : ChannelDir}
    (h : ChannelLog.Consistent P.sha256 P.communityId P.channelId log dir)
    (renamed written : Bool) :
    ∃ log', start P renamed written dir = (.ok {
        log := log', dir
        tracker := (log'.storedEvents dir).foldl ChannelLogReplayTracker.record {}
        booted := log'.storedEvents dir }, dir) ∧
      ChannelLog.Consistent P.sha256 P.communityId P.channelId log' dir ∧
      ∀ e ∈ log'.storedEvents dir, e ∈ log.storedEvents dir := by
  obtain ⟨log', total, hreload, hc, hsegs, htail, -⟩ := h.reload renamed P.config
  have hsealed : log'.sealedIn dir = log.sealedIn dir := by
    unfold ChannelLog.sealedIn ChannelLog.segmentEvents ChannelLog.readSegment
    rw [hsegs, hc.community, hc.channel, h.community, h.channel]
  refine ⟨log', ?_, hc, fun e he => ?_⟩
  · unfold start
    rw [hreload]
    dsimp only
    rw [hc.walk _ (fun _ hs => hs)]
    dsimp only [List.reverse_nil, ChannelLog.quarantineNoted]
    rw [ChannelLog.storedEvents, List.foldl_append]
  · rw [ChannelLog.storedEvents_eq, hsealed] at he
    exact (List.mem_append.mp he).elim (List.mem_append_left _)
      fun he => List.mem_append_right _ (htail.subset he)

theorem start_tasks {renamed written : Bool} {dir dir' : ChannelDir} {new : ChannelLogEngine}
    (h : start P renamed written dir = (.ok new, dir')) : new.tasks = [] := by
  unfold start at h
  split at h
  · cases h
  · split at h
    · cases h
    · split at h
      · cases h
      · cases h
        rfl

/-! ### Sections -/

/-- The membership of the author as of the event's stamp, in the log of a view. -/
def snapshotIn (P : ChannelLogEngineParams) (view : View) (e : SignedChannelEvent) :
    CommunityStateSnapshot :=
  snapshotAt P.crypto P.adminAddr view.members e.channelId e.author e.at_

def AdmittedIn (P : ChannelLogEngineParams) (view : View) (e : SignedChannelEvent) : Prop :=
  Admitted P.verifyStrict P.communityId P.channelId (snapshotIn P view e) view.nowMs e

inductive Section (P : ChannelLogEngineParams) (engine : ChannelLogEngine) (view : View) :
    PacketTask → AfterSection → Prop
  | held (e : SignedChannelEvent) (h : engine.log.containsReconcileKey P.sha256 e = true) :
      Section P engine view (.doubted e) (engine, none)
  | missing (e : SignedChannelEvent) (h : ¬engine.log.containsReconcileKey P.sha256 e = true) :
      Section P engine view (.doubted e) (engine, some (.received e .reconcile))
  | admitted (e : SignedChannelEvent) (provenance : IngestProvenance) (h : AdmittedIn P view e) :
      Section P engine view (.received e provenance) (engine, some (.verified e provenance))
  | refused (e : SignedChannelEvent) (provenance : IngestProvenance) (h : ¬AdmittedIn P view e) :
      Section P engine view (.received e provenance) (engine, none)
  | newer (e : SignedChannelEvent) (provenance : IngestProvenance)
      (h : ¬engine.tracker.Covers e) :
      Section P engine view (.verified e provenance)
        ({ engine with tracker := engine.tracker.record e }, some (.committed e provenance))
  | belowHead (e : SignedChannelEvent) (h : engine.tracker.Covers e) :
      Section P engine view (.verified e .reconcile) (engine, some (.committed e .reconcile))
  | replayed (e : SignedChannelEvent) (h : engine.tracker.Covers e) :
      Section P engine view (.verified e .live) (engine, none)
  | append (e : SignedChannelEvent) (provenance : IngestProvenance) :
      Section P engine view (.committed e provenance) (engine.append P e false, none)
  | record (e : SignedChannelEvent) :
      Section P engine view (.minted e)
        ({ engine with tracker := engine.tracker.record e }, some (.recorded e))
  | appendOwn (e : SignedChannelEvent) :
      Section P engine view (.recorded e) (engine.append P e true, none)

theorem not_covers_empty (e : SignedChannelEvent) : ¬({} : ChannelLogReplayTracker).Covers e := by
  rintro ⟨head, hhead, -⟩
  simp at hhead

theorem runSection_cases (P : ChannelLogEngineParams) (engine : ChannelLogEngine) (view : View)
    (task : PacketTask) : Section P engine view task (engine.runSection P view task) := by
  cases task with
  | doubted e =>
    by_cases h : engine.log.containsReconcileKey P.sha256 e = true
    · rw [runSection, if_pos h]
      exact .held e h
    · rw [runSection, if_neg h]
      exact .missing e h
  | received e provenance =>
    cases hv : verifyChannelEventAt P.verifyStrict e P.communityId P.channelId
        (snapshotIn P view e) {} view.nowMs with
    | ok tracker =>
      have hadmitted := (verifyChannelEventAt_eq_ok.mp hv).1
      unfold snapshotIn at hv
      simp only [runSection, hv]
      exact .admitted e provenance hadmitted
    | error err =>
      have hrefused : ¬AdmittedIn P view e := fun h => by
        rw [verifyChannelEventAt_eq_ok.mpr ⟨h, not_covers_empty e, rfl⟩] at hv
        cases hv
      unfold snapshotIn at hv
      simp only [runSection, hv]
      exact .refused e provenance hrefused
  | verified e provenance =>
    by_cases h : engine.tracker.Covers e
    · cases hc : engine.tracker.checkAndAdvance e with
      | ok tracker => exact absurd h (ChannelLogReplayTracker.checkAndAdvance_eq_ok.mp hc).1
      | error err =>
        cases provenance with
        | live =>
          simp only [runSection, hc]
          exact .replayed e h
        | reconcile =>
          simp only [runSection, hc]
          exact .belowHead e h
    · have hc := ChannelLogReplayTracker.checkAndAdvance_eq_ok.mpr ⟨h, rfl⟩
      simp only [runSection, hc]
      exact .newer e provenance h
  | committed e provenance => exact .append e provenance
  | minted e => exact .record e
  | recorded e => exact .appendOwn e

theorem append_cases (P : ChannelLogEngineParams) (engine : ChannelLogEngine)
    (e : SignedChannelEvent) (always : Bool) :
    engine.append P e always = engine ∨
      ∃ outcome log, engine.log.append P.sha256 e = .ok (outcome, log) ∧
        engine.append P e always = { engine with
          log
          shown := if outcome.newlyAppended || always then engine.shown ++ [e]
            else engine.shown } := by
  unfold append
  split_ifs
  · exact Or.inl rfl
  · cases happ : engine.log.append P.sha256 e with
    | error err => exact Or.inl rfl
    | ok r => exact Or.inr ⟨r.1, r.2, rfl, rfl⟩

/-- What an append leaves alone. -/
theorem append_frame (P : ChannelLogEngineParams) (engine : ChannelLogEngine)
    (e : SignedChannelEvent) (always : Bool) :
    (engine.append P e always).tasks = engine.tasks ∧
      (engine.append P e always).tracker = engine.tracker ∧
      (engine.append P e always).closing = engine.closing := by
  rcases append_cases P engine e always with heq | ⟨outcome, log, -, heq⟩ <;> rw [heq] <;>
    exact ⟨rfl, rfl, rfl⟩

theorem Section.frame {view : View} {task : PacketTask} {after : AfterSection}
    (h : Section P engine view task after) :
    after.1.tasks = engine.tasks ∧ after.1.closing = engine.closing := by
  cases h with
  | append e provenance =>
    obtain ⟨htasks, -, hclosing⟩ := append_frame P engine e false
    exact ⟨htasks, hclosing⟩
  | appendOwn e =>
    obtain ⟨htasks, -, hclosing⟩ := append_frame P engine e true
    exact ⟨htasks, hclosing⟩
  | _ => exact ⟨rfl, rfl⟩

/-! ### Steps -/

/-- The event a step of the client signs. -/
def authoredBy (P : ChannelLogEngineParams) : ChannelStep → Option SignedChannelEvent
  | .publish post id hlc => if post.accepted then some (P.postOf post id hlc) else none
  | .react reaction hlc => if reaction.accepted then some (P.reactionOf reaction hlc) else none
  | _ => none

inductive Stepped (P : ChannelLogEngineParams) (engine : ChannelLogEngine) :
    ChannelStep → ChannelLogEngine → Prop
  | idle {s : ChannelStep} : Stepped P engine s engine
  | arrived {event : SignedChannelEvent} {provenance : IngestProvenance} {task : PacketTask}
      (hevent : task.event = event) (hcleared : task.cleared = false) :
      Stepped P engine (.receive event provenance) (engine.spawn task)
  | minted {s : ChannelStep} {e : SignedChannelEvent} (h : authoredBy P s = some e) :
      Stepped P engine s (engine.spawn (.minted e))
  | went {i : ℕ} {view : View} {task : PacketTask} {after : AfterSection}
      (hi : engine.tasks[i]? = some task) (h : Section P engine view task after) :
      Stepped P engine (.advance i view) { after.1 with
        tasks := after.2.elim (after.1.tasks.eraseIdx i) fun next => after.1.tasks.set i next }
  | flushed (written : ℕ → Bool) : Stepped P engine (.flushTail written)
      { engine with dir := (engine.log.flushTail written engine.dir).2 }
  | sealed (written : ℕ → Bool) : Stepped P engine (.sealAndPersist written)
      { engine with
        log := (engine.log.sealAndPersist written engine.dir).2.1
        dir := (engine.log.sealAndPersist written engine.dir).2.2 }
  | closed : Stepped P engine .close { engine with closing := true }
  | restarted (renamed written : Bool) : Stepped P engine (.restart renamed written)
      (engine.step P (.restart renamed written))

theorem advance_stepped (P : ChannelLogEngineParams) (engine : ChannelLogEngine) (i : ℕ)
    (view : View) : Stepped P engine (.advance i view) (engine.advance P i view) := by
  unfold advance
  cases hi : engine.tasks[i]? with
  | none => exact .idle
  | some task =>
    have hwent := Stepped.went hi (runSection_cases P engine view task)
    dsimp only
    generalize engine.runSection P view task = after at hwent
    obtain ⟨after, next⟩ := after
    cases next <;> exact hwent

theorem step_cases (P : ChannelLogEngineParams) (engine : ChannelLogEngine) (s : ChannelStep) :
    Stepped P engine s (engine.step P s) := by
  cases s with
  | receive event provenance =>
    change Stepped P engine _ (engine.receive event provenance)
    unfold receive
    split
    · exact .arrived rfl rfl
    · exact .arrived rfl rfl
    · exact .idle
  | publish post id hlc =>
    unfold step
    dsimp only
    split_ifs with hok
    · exact .minted (if_pos hok)
    · exact .idle
  | react reaction hlc =>
    unfold step
    dsimp only
    split_ifs with hok
    · exact .minted (if_pos hok)
    · exact .idle
  | advance i view => exact advance_stepped P engine i view
  | flushTail written => exact .flushed written
  | sealAndPersist written =>
    unfold step
    dsimp only
    split_ifs
    · exact .sealed written
    · exact .idle
  | close => exact .closed
  | restart renamed written => exact .restarted renamed written

/-! ### The invariant -/

/-- What tells the tasks of two events apart. -/
def tag (P : ChannelLogEngineParams) (task : PacketTask) : Bool × ReconcileKey :=
  (task.own, reconcileKey P.sha256 task.event)

structure Sound (P : ChannelLogEngineParams) (engine : ChannelLogEngine) : Prop where
  consistent : ChannelLog.Consistent P.sha256 P.communityId P.channelId engine.log engine.dir
  /-- the tracker has reached what is held, and what is about to be appended -/
  covered : ∀ e ∈ engine.stored, engine.tracker.Covers e
  advanced : ∀ task ∈ engine.tasks, task.advanced = true → engine.tracker.Covers task.event
  /-- the log grew by what the client was told of -/
  grown : engine.stored.Perm (engine.booted ++ engine.shown)
  /-- nobody else has an own event before it is appended -/
  unsent : ∀ task ∈ engine.tasks, task.own = true →
    reconcileKey P.sha256 task.event ∉ engine.stored.map (reconcileKey P.sha256)
  apart : (engine.tasks.map (tag P)).Pairwise fun a b => (a.1 || b.1) = true → a.2 ≠ b.2

/-- A message id that was just drawn: no event with its key is about. -/
def Unheard (P : ChannelLogEngineParams) (engine : ChannelLogEngine) (e : SignedChannelEvent) :
    Prop :=
  reconcileKey P.sha256 e ∉ engine.stored.map (reconcileKey P.sha256) ∧
    ∀ task ∈ engine.tasks, reconcileKey P.sha256 task.event ≠ reconcileKey P.sha256 e

instance (e : SignedChannelEvent) : Decidable (Unheard P engine e) :=
  inferInstanceAs (Decidable (_ ∧ _))

/-- An own event reaches others only once it is appended, its message id is new, and a seal
finds an index left. -/
def SoundStep (P : ChannelLogEngineParams) (engine : ChannelLogEngine) : ChannelStep → Prop
  | .receive event _ => ∀ task ∈ engine.tasks, task.own = true →
      reconcileKey P.sha256 task.event ≠ reconcileKey P.sha256 event
  | .publish post id hlc => Unheard P engine (P.postOf post id hlc)
  | .react reaction hlc => Unheard P engine (P.reactionOf reaction hlc)
  | .sealAndPersist _ => engine.log.Room
  | _ => True

theorem unheard_of_authored {s : ChannelStep} {e : SignedChannelEvent} (hs : SoundStep P engine s)
    (h : authoredBy P s = some e) : Unheard P engine e := by
  cases s with
  | publish post id hlc =>
    unfold authoredBy at h
    dsimp only at h
    split_ifs at h
    cases h
    exact hs
  | react reaction hlc =>
    unfold authoredBy at h
    dsimp only at h
    split_ifs at h
    cases h
    exact hs
  | _ => cases h

theorem sound_fresh (P : ChannelLogEngineParams) : Sound P (fresh P) where
  consistent := ChannelLog.consistent_new P.config
  covered e he := by simp [stored, fresh, ChannelLog.storedEvents, ChannelLog.new] at he
  advanced task ht := by simp [fresh] at ht
  grown := by simp [stored, fresh, ChannelLog.storedEvents, ChannelLog.new]
  unsent task ht := by simp [fresh] at ht
  apart := List.Pairwise.nil

section Keeps

variable {e : SignedChannelEvent}

theorem Sound.of_stored (h : Sound P engine) {log : ChannelLog} {dir : ChannelDir}
    (hc : ChannelLog.Consistent P.sha256 P.communityId P.channelId log dir)
    (hperm : (log.storedEvents dir).Perm engine.stored) :
    Sound P { engine with log := log, dir := dir } where
  consistent := hc
  covered e he := h.covered e (hperm.mem_iff.mp he)
  advanced := h.advanced
  grown := hperm.trans h.grown
  unsent task ht hown hk := h.unsent task ht hown ((hperm.map _).mem_iff.mp hk)
  apart := h.apart

theorem Sound.of_tasks (h : Sound P engine) {tasks : List PacketTask}
    (hsub : (tasks.map (tag P)).Sublist (engine.tasks.map (tag P)))
    (hadvanced : ∀ task ∈ tasks, task.advanced = true → engine.tracker.Covers task.event) :
    Sound P { engine with tasks := tasks } where
  consistent := h.consistent
  covered := h.covered
  advanced := hadvanced
  grown := h.grown
  unsent task ht hown hk := by
    obtain ⟨old, hold, htag⟩ := List.mem_map.mp (hsub.subset (List.mem_map_of_mem ht))
    obtain ⟨hsame, hkey⟩ : old.own = task.own ∧
        reconcileKey P.sha256 old.event = reconcileKey P.sha256 task.event := Prod.ext_iff.mp htag
    refine h.unsent old hold (hsame.trans hown) ?_
    rw [hkey]
    exact hk
  apart := h.apart.sublist hsub

theorem Sound.spawn (h : Sound P engine) {task : PacketTask} (hadv : task.advanced = false)
    (hown : task.own = true →
      reconcileKey P.sha256 task.event ∉ engine.stored.map (reconcileKey P.sha256))
    (hapart : ∀ old ∈ engine.tasks, (old.own || task.own) = true →
      reconcileKey P.sha256 old.event ≠ reconcileKey P.sha256 task.event) :
    Sound P (engine.spawn task) where
  consistent := h.consistent
  covered := h.covered
  advanced old hold ha := by
    rcases List.mem_append.mp hold with hold | hold
    · exact h.advanced old hold ha
    · rw [List.mem_singleton.mp hold, hadv] at ha
      cases ha
  grown := h.grown
  unsent old hold ho := by
    rcases List.mem_append.mp hold with hold | hold
    · exact h.unsent old hold ho
    · rw [List.mem_singleton.mp hold] at ho ⊢
      exact hown ho
  apart := by
    rw [ChannelLogEngine.spawn, List.map_append, List.pairwise_append]
    refine ⟨h.apart, List.pairwise_singleton _ _, fun a ha b hb => ?_⟩
    obtain ⟨old, hold, rfl⟩ := List.mem_map.mp ha
    rw [List.map_singleton, List.mem_singleton] at hb
    subst hb
    exact hapart old hold

theorem Sound.record (h : Sound P engine) (e : SignedChannelEvent) :
    Sound P { engine with tracker := engine.tracker.record e } where
  consistent := h.consistent
  covered e' he := (h.covered e' he).record e
  advanced task ht ha := (h.advanced task ht ha).record e
  grown := h.grown
  unsent := h.unsent
  apart := h.apart

/-- An append skips what is held; anything else the log takes, and the client is told. -/
theorem Sound.append (h : Sound P engine) (hcover : engine.tracker.Covers e) {always : Bool}
    (hapart : ∀ task ∈ engine.tasks, task.own = true →
      reconcileKey P.sha256 task.event ≠ reconcileKey P.sha256 e)
    (hnew : always = true →
      reconcileKey P.sha256 e ∉ engine.stored.map (reconcileKey P.sha256)) :
    Sound P (engine.append P e always) := by
  rcases append_cases P engine e always with heq | ⟨outcome, log, happ, heq⟩
  · rwa [heq]
  rw [heq]
  rcases h.consistent.append_ok happ with ⟨hold, rfl, hmem⟩ | ⟨hnewly, hstored, hkey⟩
  · -- a duplicate: the client is not told
    have hquiet : always = false := by
      cases always with
      | false => rfl
      | true => exact absurd hmem (hnew rfl)
    simp only [hold, hquiet, Bool.or_false, Bool.false_eq_true, if_false]
    exact h
  · simp only [hnewly, Bool.true_or, if_true]
    change log.storedEvents engine.dir = engine.stored ++ [e] at hstored
    exact {
      consistent := h.consistent.append happ
      covered := fun e' (he' : e' ∈ log.storedEvents engine.dir) => by
        rw [hstored] at he'
        rcases List.mem_append.mp he' with he' | he'
        · exact h.covered e' he'
        · rwa [List.mem_singleton.mp he']
      advanced := h.advanced
      grown := by
        have hgrown := h.grown.append_right [e]
        rw [List.append_assoc] at hgrown
        exact (List.Perm.of_eq hstored).trans hgrown
      unsent := fun task ht hown (hk : reconcileKey P.sha256 task.event ∈
          (log.storedEvents engine.dir).map (reconcileKey P.sha256)) => by
        rw [hstored, List.map_append, List.mem_append, List.map_singleton,
          List.mem_singleton] at hk
        exact hk.elim (h.unsent task ht hown) (hapart task ht hown)
      apart := h.apart }

theorem Sound.append_stored (h : Sound P engine) (e : SignedChannelEvent) (always : Bool) :
    (engine.append P e always).stored = engine.stored ∨
      (engine.append P e always).stored = engine.stored ++ [e] := by
  rcases append_cases P engine e always with heq | ⟨outcome, log, happ, heq⟩
  · exact Or.inl (by rw [heq])
  · rw [heq]
    rcases h.consistent.append_ok happ with ⟨-, rfl, -⟩ | ⟨-, hstored, -⟩
    · exact Or.inl rfl
    · exact Or.inr hstored

end Keeps

/-! ### Tasks -/

section Tasks

variable {i : ℕ} {task next : PacketTask}

theorem mem_of_task (hi : engine.tasks[i]? = some task) : task ∈ engine.tasks :=
  List.mem_of_getElem? hi

theorem cons_eraseIdx_perm (hi : engine.tasks[i]? = some task) :
    (task :: engine.tasks.eraseIdx i).Perm engine.tasks := by
  obtain ⟨hlt, rfl⟩ := List.getElem?_eq_some_iff.mp hi
  exact List.getElem_cons_eraseIdx_perm hlt

theorem Sound.apart_from (h : Sound P engine) (hi : engine.tasks[i]? = some task)
    {other : PacketTask} (hother : other ∈ engine.tasks.eraseIdx i)
    (hown : (other.own || task.own) = true) :
    reconcileKey P.sha256 other.event ≠ reconcileKey P.sha256 task.event := by
  have hsymm : ∀ {a b : Bool × ReconcileKey}, ((a.1 || b.1) = true → a.2 ≠ b.2) →
      (b.1 || a.1) = true → b.2 ≠ a.2 := fun hab hba => (hab (by rwa [Bool.or_comm])).symm
  have hpair := (((cons_eraseIdx_perm hi).map (tag P)).pairwise_iff hsymm).mpr h.apart
  rw [List.map_cons, List.pairwise_cons] at hpair
  exact (hpair.1 _ (List.mem_map_of_mem hother) (by rwa [Bool.or_comm])).symm

theorem Sound.finish (h : Sound P engine) (i : ℕ) :
    Sound P { engine with tasks := engine.tasks.eraseIdx i } :=
  h.of_tasks ((List.eraseIdx_sublist engine.tasks i).map _) fun task ht =>
    h.advanced task (List.mem_of_mem_eraseIdx ht)

theorem Sound.proceed (h : Sound P engine) (hi : engine.tasks[i]? = some task)
    (hevent : next.event = task.event) (hown : next.own = task.own)
    (hadvanced : next.advanced = true → engine.tracker.Covers next.event) :
    Sound P { engine with tasks := engine.tasks.set i next } := by
  obtain ⟨hlt, hget⟩ := List.getElem?_eq_some_iff.mp hi
  have htag : (engine.tasks.set i next).map (tag P) = engine.tasks.map (tag P) := by
    have hlen : i < (engine.tasks.map (tag P)).length := by rwa [List.length_map]
    have hsame : tag P next = (engine.tasks.map (tag P))[i] := by
      rw [List.getElem_map, hget, tag, tag, hevent, hown]
    rw [List.map_set, hsame, List.set_getElem_self]
  refine h.of_tasks (htag ▸ List.Sublist.refl _) fun t ht ha => ?_
  rcases List.mem_or_eq_of_mem_set ht with ht | rfl
  · exact h.advanced t ht ha
  · exact hadvanced ha

theorem append_finish (engine : ChannelLogEngine) (e : SignedChannelEvent) (always : Bool) (i : ℕ) :
    { engine.append P e always with tasks := (engine.append P e always).tasks.eraseIdx i } =
      ChannelLogEngine.append P { engine with tasks := engine.tasks.eraseIdx i } e always := by
  unfold append
  split_ifs
  · rfl
  · cases engine.log.append P.sha256 e <;> rfl

theorem Sound.appendTask (h : Sound P engine) (hi : engine.tasks[i]? = some task)
    (hadvanced : task.advanced = true) {always : Bool} (halways : always = true → task.own = true) :
    Sound P { engine.append P task.event always with
      tasks := (engine.append P task.event always).tasks.eraseIdx i } := by
  rw [append_finish]
  exact (h.finish i).append (h.advanced task (mem_of_task hi) hadvanced)
    (fun other hother hown => h.apart_from hi hother (by rw [hown, Bool.true_or]))
    fun ha => h.unsent task (mem_of_task hi) (halways ha)

theorem Sound.went (h : Sound P engine) {view : View} {after : AfterSection}
    (hi : engine.tasks[i]? = some task) (hsection : Section P engine view task after) :
    Sound P { after.1 with
      tasks := after.2.elim (after.1.tasks.eraseIdx i) fun next => after.1.tasks.set i next } := by
  cases hsection with
  | held e hk => exact h.finish i
  | missing e hk => exact h.proceed hi rfl rfl fun ha => by cases ha
  | admitted e provenance ha => exact h.proceed hi rfl rfl fun ha => by cases ha
  | refused e provenance ha => exact h.finish i
  | newer e provenance hnew =>
    exact (h.record e).proceed hi rfl rfl fun _ => engine.tracker.record_self e
  | belowHead e hcover => exact h.proceed hi rfl rfl fun _ => hcover
  | replayed e hcover => exact h.finish i
  | append e provenance => exact h.appendTask hi rfl fun ha => by cases ha
  | record e => exact (h.record e).proceed hi rfl rfl fun _ => engine.tracker.record_self e
  | appendOwn e => exact h.appendTask hi rfl fun _ => rfl

end Tasks

theorem Sound.mint (h : Sound P engine) {e : SignedChannelEvent} (hnew : Unheard P engine e) :
    Sound P (engine.spawn (.minted e)) :=
  h.spawn rfl (fun _ => hnew.1) fun old hold _ => hnew.2 old hold

theorem Sound.restart (h : Sound P engine) (renamed written : Bool) :
    Sound P (engine.step P (.restart renamed written)) := by
  obtain ⟨log, hstart, hc, -⟩ := start_ok h.consistent renamed written
  simp only [step, hstart]
  exact {
    consistent := hc
    covered := fun e he => ChannelLogReplayTracker.covers_foldl_record _ (Or.inr he)
    advanced := fun task ht => absurd ht List.not_mem_nil
    grown := by simp [stored]
    unsent := fun task ht => absurd ht List.not_mem_nil
    apart := List.Pairwise.nil }

theorem Sound.step (h : Sound P engine) {s : ChannelStep} (hs : SoundStep P engine s) :
    Sound P (engine.step P s) := by
  have hcases := step_cases P engine s
  generalize engine.step P s = after at hcases
  cases hcases with
  | idle => exact h
  | arrived hevent hcleared =>
    have hown := PacketTask.own_of_not_cleared hcleared
    refine h.spawn (PacketTask.advanced_of_not_cleared hcleared)
      (fun ho => absurd ho (by simp [hown])) fun old hold ho => ?_
    rw [hevent]
    exact hs old hold (by simpa [hown] using ho)
  | minted hauthored => exact h.mint (unheard_of_authored hs hauthored)
  | went hi hsection => exact h.went hi hsection
  | flushed written =>
    exact h.of_stored (h.consistent.flushTail written)
      (.of_eq (ChannelLog.storedEvents_flushTail h.consistent.filed written))
  | sealed written =>
    exact h.of_stored (h.consistent.sealAndPersist hs written)
      (ChannelLog.sealedIn_sealAndPersist h.consistent hs written).1
  | closed => exact ⟨h.consistent, h.covered, h.advanced, h.grown, h.unsent, h.apart⟩
  | restarted renamed written => exact h.restart renamed written

theorem Sound.stored_step (h : Sound P engine) {s : ChannelStep} (hs : SoundStep P engine s)
    {e : SignedChannelEvent} (he : e ∈ (engine.step P s).stored) :
    e ∈ engine.stored ∨ ∃ task ∈ engine.tasks, task.advanced = true ∧ task.event = e := by
  have happend : ∀ {task : PacketTask}, task ∈ engine.tasks → task.advanced = true →
      ∀ always, e ∈ (engine.append P task.event always).stored →
      e ∈ engine.stored ∨ ∃ task ∈ engine.tasks, task.advanced = true ∧ task.event = e := by
    intro task htask hadvanced always he
    rcases h.append_stored task.event always with hstored | hstored
    · exact Or.inl (hstored ▸ he)
    · rw [hstored, List.mem_append, List.mem_singleton] at he
      exact he.imp_right fun he => ⟨task, htask, hadvanced, he.symm⟩
  have hcases := step_cases P engine s
  generalize engine.step P s = after at hcases he
  cases hcases with
  | idle => exact Or.inl he
  | arrived hevent hcleared => exact Or.inl he
  | minted hauthored => exact Or.inl he
  | went hi hsection =>
    cases hsection with
    | append event provenance => exact happend (mem_of_task hi) rfl false he
    | appendOwn event => exact happend (mem_of_task hi) rfl true he
    | _ => exact Or.inl he
  | flushed written =>
    change e ∈ engine.log.storedEvents (engine.log.flushTail written engine.dir).2 at he
    rw [ChannelLog.storedEvents_flushTail h.consistent.filed] at he
    exact Or.inl he
  | sealed written =>
    exact Or.inl ((ChannelLog.sealedIn_sealAndPersist h.consistent hs written).1.mem_iff.mp he)
  | closed => exact Or.inl he
  | restarted renamed written =>
    obtain ⟨log, hstart, -, hsub⟩ := start_ok h.consistent renamed written
    simp only [ChannelLogEngine.step, hstart] at he
    exact Or.inl (hsub e he)

end ChannelLogEngine

end Harmony.Channel
