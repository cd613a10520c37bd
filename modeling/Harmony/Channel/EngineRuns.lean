import Harmony.Channel.EngineSteps
import Harmony.Channel.Quarantine
import Harmony.Membership.Symbolic

/-! Runs of the engine over any packets, any interleaving of their tasks, and crashes: what
the log holds and what the tracker turns away was authorized, and the client is told of
each event once. -/

namespace Harmony.Channel

open Harmony.Lib Harmony.Reconcile
open Harmony.Membership (OwnerAddr SpaceId ChannelId)

namespace ChannelLogEngine

variable {P : ChannelLogEngineParams} {engine : ChannelLogEngine} {s : ChannelStep}
  {steps : List ChannelStep} {e : SignedChannelEvent}

/-- What a step lets a check look at. -/
def viewOf : ChannelStep → Option View
  | .advance _ view => some view
  | _ => none

/-- An own event of the run, or one admitted in a view that the run had. -/
def Authorized (P : ChannelLogEngineParams) (steps : List ChannelStep) (e : SignedChannelEvent) :
    Prop :=
  e ∈ steps.filterMap (authoredBy P) ∨ ∃ view ∈ steps.filterMap viewOf, AdmittedIn P view e

theorem Authorized.snoc (h : Authorized P steps e) (s : ChannelStep) :
    Authorized P (steps ++ [s]) e := by
  rcases h with h | ⟨view, hview, h⟩
  · exact Or.inl (by rw [List.filterMap_append]; exact List.mem_append_left _ h)
  · exact Or.inr ⟨view, by rw [List.filterMap_append]; exact List.mem_append_left _ hview, h⟩

theorem authorized_of_authored (h : authoredBy P s = some e) : Authorized P (steps ++ [s]) e :=
  Or.inl (List.mem_filterMap.mpr ⟨s, by simp, h⟩)

theorem authorized_of_admitted {view : View} (hview : viewOf s = some view)
    (h : AdmittedIn P view e) : Authorized P (steps ++ [s]) e :=
  Or.inr ⟨view, List.mem_filterMap.mpr ⟨s, by simp, hview⟩, h⟩

/-! ### One step -/

/-- Where a task of an engine after a step comes from. -/
inductive TaskOrigin (P : ChannelLogEngineParams) (engine : ChannelLogEngine) (s : ChannelStep) :
    PacketTask → Prop
  | kept {task : PacketTask} (h : task ∈ engine.tasks) : TaskOrigin P engine s task
  | arrived {task : PacketTask} (h : task.cleared = false) : TaskOrigin P engine s task
  | minted {e : SignedChannelEvent} (h : authoredBy P s = some e) :
      TaskOrigin P engine s (.minted e)
  | advanced {view : View} {old task : PacketTask} {after : ChannelLogEngine}
      (hview : viewOf s = some view) (hold : old ∈ engine.tasks)
      (hsection : Section P engine view old (after, some task)) : TaskOrigin P engine s task

theorem step_tasks {task : PacketTask} (h : task ∈ (engine.step P s).tasks) :
    TaskOrigin P engine s task := by
  have hspawn : ∀ {new : PacketTask}, task ∈ (engine.spawn new).tasks →
      TaskOrigin P engine s new → TaskOrigin P engine s task := by
    intro new h hnew
    rcases List.mem_append.mp h with h | h
    · exact .kept h
    · rwa [List.mem_singleton.mp h]
  have hcases := step_cases P engine s
  generalize engine.step P s = after at hcases h
  cases hcases with
  | idle => exact .kept h
  | arrived hevent hcleared => exact hspawn h (.arrived hcleared)
  | minted hauthored => exact hspawn h (.minted hauthored)
  | @went i view old after hi hsection =>
    obtain ⟨after, next⟩ := after
    have htasks : after.tasks = engine.tasks := hsection.frame.1
    dsimp only at h
    rw [htasks] at h
    cases next with
    | none => exact .kept (List.mem_of_mem_eraseIdx h)
    | some next =>
      rcases List.mem_or_eq_of_mem_set h with h | rfl
      · exact .kept h
      · exact .advanced rfl (mem_of_task hi) hsection
  | flushed written => exact .kept h
  | sealed written => exact .kept h
  | closed => exact .kept h
  | restarted renamed written =>
    unfold ChannelLogEngine.step at h
    dsimp only at h
    split at h
    · rename_i new _ hstart
      exact absurd h (by rw [start_tasks hstart]; exact List.not_mem_nil)
    · exact absurd h List.not_mem_nil

/-- A head of the tracker after a step is an old one, or the stamp of an event that had been
checked. -/
theorem step_heads (h : Sound P engine) {k : ChannelId ×ₗ Lane} {head : Hlc}
    (hhead : (engine.step P s).tracker.lastSeen[k]? = some head) :
    engine.tracker.lastSeen[k]? = some head ∨ ∃ e, e.trackerKey = k ∧ e.at_ = head ∧
      (e ∈ engine.stored ∨ ∃ task ∈ engine.tasks, task.cleared = true ∧ task.event = e) := by
  have hrecord : ∀ {task : PacketTask}, task ∈ engine.tasks → task.cleared = true →
      (engine.tracker.record task.event).lastSeen[k]? = some head →
      engine.tracker.lastSeen[k]? = some head ∨ ∃ e, e.trackerKey = k ∧ e.at_ = head ∧
        (e ∈ engine.stored ∨ ∃ task ∈ engine.tasks, task.cleared = true ∧ task.event = e) := by
    intro task htask hcleared hrec
    rcases ChannelLogReplayTracker.record_head hrec with hold | ⟨hk, hat⟩
    · exact Or.inl hold
    · exact Or.inr ⟨task.event, hk, hat, Or.inr ⟨task, htask, hcleared, rfl⟩⟩
  have hcases := step_cases P engine s
  generalize engine.step P s = after at hcases hhead
  cases hcases with
  | idle => exact Or.inl hhead
  | arrived hevent hcleared => exact Or.inl hhead
  | minted hauthored => exact Or.inl hhead
  | went hi hsection =>
    have htask := mem_of_task hi
    cases hsection with
    | newer e provenance hnew => exact hrecord htask rfl hhead
    | record e => exact hrecord htask rfl hhead
    | append e provenance =>
      obtain ⟨-, htracker, -⟩ := append_frame P engine e false
      exact Or.inl (htracker ▸ hhead)
    | appendOwn e =>
      obtain ⟨-, htracker, -⟩ := append_frame P engine e true
      exact Or.inl (htracker ▸ hhead)
    | _ => exact Or.inl hhead
  | flushed written => exact Or.inl hhead
  | sealed written => exact Or.inl hhead
  | closed => exact Or.inl hhead
  | restarted renamed written =>
    obtain ⟨log, hstart, -, hsub⟩ := start_ok h.consistent renamed written
    simp only [ChannelLogEngine.step, hstart] at hhead
    rcases ChannelLogReplayTracker.foldl_record_head _ hhead with hempty | ⟨e, he, hk⟩
    · simp at hempty
    · exact Or.inr ⟨e, hk.1, hk.2, Or.inl (hsub e he)⟩

/-! ### Runs -/

/-- Every step of a run is sound where it is taken. -/
def SoundRun (P : ChannelLogEngineParams) (steps : List ChannelStep) : Prop :=
  ∀ ns ∈ trace (step P) (fresh P) steps, SoundStep P ns.1 ns.2

theorem SoundRun.snoc (h : SoundRun P (steps ++ [s])) :
    SoundRun P steps ∧ SoundStep P (run P steps) s := by
  unfold SoundRun at h
  rw [trace_snoc] at h
  exact ⟨fun ns hns => h ns (List.mem_append_left _ hns), h (_, s) (by simp)⟩

@[simp] theorem run_snoc (P : ChannelLogEngineParams) (steps : List ChannelStep) (s : ChannelStep) :
    run P (steps ++ [s]) = (run P steps).step P s := by
  rw [run, List.foldl_append]
  rfl

theorem run_sound (h : SoundRun P steps) : Sound P (run P steps) := by
  induction steps using List.reverseRecOn with
  | nil => exact sound_fresh P
  | append_singleton steps s ih =>
    obtain ⟨hrun, hs⟩ := h.snoc
    rw [run_snoc]
    exact (ih hrun).step hs

/-- What is held, what is past its check, and what turns others away was authorized. -/
structure Vetted (P : ChannelLogEngineParams) (steps : List ChannelStep)
    (engine : ChannelLogEngine) : Prop where
  stored : ∀ e ∈ engine.stored, Authorized P steps e
  tasks : ∀ task ∈ engine.tasks, task.cleared = true → Authorized P steps task.event
  heads : ∀ k head, engine.tracker.lastSeen[k]? = some head →
    ∃ e, e.trackerKey = k ∧ e.at_ = head ∧ Authorized P steps e

theorem vetted_fresh (P : ChannelLogEngineParams) : Vetted P [] (fresh P) where
  stored e he := by simp [ChannelLogEngine.stored, fresh, ChannelLog.storedEvents, ChannelLog.new] at he
  tasks task ht := by simp [fresh] at ht
  heads k head hhead := by simp [fresh] at hhead

theorem Vetted.section (h : Vetted P steps engine) {view : View} {old next : PacketTask}
    {after : ChannelLogEngine} (hview : viewOf s = some view) (hold : old ∈ engine.tasks)
    (hsection : Section P engine view old (after, some next)) (hcleared : next.cleared = true) :
    Authorized P (steps ++ [s]) next.event := by
  cases hsection with
  | missing e _ => cases hcleared
  | admitted e provenance hadmitted => exact authorized_of_admitted hview hadmitted
  | newer e provenance _ => exact (h.tasks _ hold rfl).snoc s
  | belowHead e _ => exact (h.tasks _ hold rfl).snoc s
  | record e => exact (h.tasks _ hold rfl).snoc s

theorem Vetted.step (h : Vetted P steps engine) (hsound : Sound P engine)
    (hs : SoundStep P engine s) : Vetted P (steps ++ [s]) (engine.step P s) where
  stored e he := by
    rcases hsound.stored_step hs he with he | ⟨task, htask, hadvanced, rfl⟩
    · exact (h.stored e he).snoc s
    · exact (h.tasks task htask (PacketTask.cleared_of_advanced hadvanced)).snoc s
  tasks task ht hcleared := by
    cases step_tasks ht with
    | kept hold => exact (h.tasks task hold hcleared).snoc s
    | arrived hnew => exact absurd hcleared (by simp [hnew])
    | minted hauthored => exact authorized_of_authored hauthored
    | advanced hview hold hsection => exact h.section hview hold hsection hcleared
  heads k head hhead := by
    rcases step_heads hsound hhead with hold | ⟨e, hk, hat, hstored | ⟨task, htask, hcleared, rfl⟩⟩
    · obtain ⟨e, hk, hat, hauth⟩ := h.heads k head hold
      exact ⟨e, hk, hat, hauth.snoc s⟩
    · exact ⟨e, hk, hat, (h.stored e hstored).snoc s⟩
    · exact ⟨task.event, hk, hat, (h.tasks task htask hcleared).snoc s⟩

theorem run_vetted (h : SoundRun P steps) : Vetted P steps (run P steps) := by
  induction steps using List.reverseRecOn with
  | nil => exact vetted_fresh P
  | append_singleton steps s ih =>
    obtain ⟨hrun, hs⟩ := h.snoc
    rw [run_snoc]
    exact (ih hrun).step (run_sound hrun) hs

/-! ### A run -/

instance : DecidablePred (SoundStep P engine) := fun s => by
  unfold SoundStep
  split <;> infer_instance

instance (P : ChannelLogEngineParams) (steps : List ChannelStep) : Decidable (SoundRun P steps) :=
  inferInstanceAs (Decidable (∀ _ ∈ _, _))

/-- The key of an owner's device, repeated, is its signature. -/
def sampleParams (owner : OwnerAddr) : ChannelLogEngineParams where
  communityId := 7
  channelId := 2
  selfOwner := owner
  selfDeviceId := "desk"
  config := { sealThresholdEvents := 1 }
  sha256 := ChannelLog.messageHash
  verifyStrict key _ sig := ByteArr.replicate 64 (Fin.ofNat 256 key) = sig
  sign _ := .replicate 64 (Fin.ofNat 256 (100 * owner))
  crypto := Membership.symbolicCrypto
  adminAddr := 1

/-- Two owners have joined and there is a channel. -/
def sampleView : View where
  members := [Membership.signed 1 1 1 .join,
    Membership.signed 2 2 1 (.channelCreate 2 "general" 0 .text), Membership.signed 3 3 2 .join]
  nowMs := some 1000

def postFrom (owner : OwnerAddr) (id wallMs : ℕ) : SignedChannelEvent :=
  (sampleParams owner).postOf { body := "hello" } id ⟨Fin.ofNat _ wallMs, 0, "desk"⟩

/-- An own post is sealed, a post of the other owner comes, then one by a stranger, and the
node stops and starts again. -/
def sampleSteps : List ChannelStep :=
  [.publish { body := "hello" } 1 ⟨10, 0, "desk"⟩, .advance 0 sampleView, .advance 0 sampleView,
    .sealAndPersist fun _ => true, .receive (postFrom 2 2 20) .live, .advance 0 sampleView,
    .advance 0 sampleView, .advance 0 sampleView, .receive (postFrom 3 3 30) .live,
    .advance 0 sampleView, .flushTail fun _ => true, .close, .restart true true]

/-! ### Results -/

/-- Every event a log holds was signed by the node in the run, or was admitted by a check
in a view that the run had. -/
theorem stored_authorized (h : SoundRun P steps) (he : e ∈ (run P steps).stored) :
    Authorized P steps e :=
  (run_vetted h).stored e he

/-- The post of the other owner, which is held after the restart. -/
theorem stored_authorized_sample :
    Authorized (sampleParams 1) sampleSteps (postFrom 2 2 20) :=
  stored_authorized (by decide +kernel) (by decide +kernel)

/-- An authorized event of the same lane stands at or above it. -/
def Barred (P : ChannelLogEngineParams) (steps : List ChannelStep) (e : SignedChannelEvent) : Prop :=
  ∃ e', Authorized P steps e' ∧ e'.trackerKey = e.trackerKey ∧ e.at_ ≤ e'.at_

theorem barred_of_covers (h : SoundRun P steps) (hcovers : (run P steps).tracker.Covers e) :
    Barred P steps e := by
  obtain ⟨head, hhead, hle⟩ := hcovers
  obtain ⟨e', hkey, rfl, hauth⟩ := (run_vetted h).heads _ head hhead
  exact ⟨e', hauth, hkey, hle⟩

theorem receive_live_of_free (hfree : ¬engine.tracker.Covers e) :
    engine.receive e .live = engine.spawn (.received e .live) := by
  have hverdict : engine.tracker.wouldAccept e = .ok () :=
    ChannelLogReplayTracker.wouldAccept_eq_ok.mpr hfree
  simp only [receive, hverdict]

theorem receive_live_of_covers (hcovers : engine.tracker.Covers e) :
    engine.receive e .live = engine := by
  cases hverdict : engine.tracker.wouldAccept e with
  | ok u => exact absurd hcovers (ChannelLogReplayTracker.wouldAccept_eq_ok.mp hverdict)
  | error err => simp only [receive, hverdict]

theorem advance_verified_of_free {i : ℕ} {view : View} {provenance : IngestProvenance}
    (hi : engine.tasks[i]? = some (.verified e provenance)) (hfree : ¬engine.tracker.Covers e) :
    (engine.advance P i view).tasks = engine.tasks.set i (.committed e provenance) := by
  have hverdict : engine.tracker.checkAndAdvance e = .ok (engine.tracker.record e) :=
    ChannelLogReplayTracker.checkAndAdvance_eq_ok.mpr ⟨hfree, rfl⟩
  simp only [advance, hi, runSection, hverdict]

/-- A live packet of an event that is held changes nothing. One that is turned away, on its
way in or after its check, is at or below an authorized event of its lane: a packet that
fails its check bars no other. -/
theorem live_turned_away (h : SoundRun P steps) (e : SignedChannelEvent) :
    (e ∈ (run P steps).stored → run P (steps ++ [.receive e .live]) = run P steps) ∧
      (run P (steps ++ [.receive e .live]) ≠ (run P steps).spawn (.received e .live) →
        Barred P steps e) ∧
      ∀ i view, (run P steps).tasks[i]? = some (.verified e .live) →
        (run P (steps ++ [.advance i view])).tasks = (run P steps).tasks.eraseIdx i →
          Barred P steps e := by
  simp only [run_snoc]
  refine ⟨fun he => ?_, fun hne => ?_, fun i view hi hgone => ?_⟩
  · exact receive_live_of_covers ((run_sound h).covered e he)
  · refine barred_of_covers h (by_contra fun hfree => hne ?_)
    exact receive_live_of_free hfree
  · refine barred_of_covers h (by_contra fun hfree => ?_)
    have hkept : (run P steps).tasks.set i (.committed e .live) = (run P steps).tasks.eraseIdx i :=
      (advance_verified_of_free hi hfree).symm.trans hgone
    have hlength := congrArg List.length hkept
    obtain ⟨hlt, -⟩ := List.getElem?_eq_some_iff.mp hi
    rw [List.length_set, List.length_eraseIdx_of_lt hlt] at hlength
    omega

/-- The second of two copies that were checked side by side. -/
def besideSteps : List ChannelStep :=
  sampleSteps ++ [.receive (postFrom 2 5 40) .live, .receive (postFrom 2 5 40) .live,
    .advance 0 sampleView, .advance 1 sampleView, .advance 0 sampleView]

/-- The post again, one of an earlier stamp that never came, and a copy behind its check. -/
theorem live_turned_away_sample :
    run (sampleParams 1) (sampleSteps ++ [.receive (postFrom 2 2 20) .live]) =
        run (sampleParams 1) sampleSteps ∧
      Barred (sampleParams 1) sampleSteps (postFrom 2 4 15) ∧
      Barred (sampleParams 1) besideSteps (postFrom 2 5 40) := by
  have hsound : SoundRun (sampleParams 1) sampleSteps := by decide +kernel
  have hbeside : SoundRun (sampleParams 1) besideSteps := by decide +kernel
  have hearlier : (run (sampleParams 1) (sampleSteps ++ [.receive (postFrom 2 4 15) .live])).tasks =
      [] := by decide +kernel
  refine ⟨(live_turned_away hsound _).1 (by decide +kernel),
    (live_turned_away hsound _).2.1 fun hspawn => ?_,
    (live_turned_away hbeside _).2.2 1 sampleView (by decide +kernel) (by decide +kernel)⟩
  rw [hspawn] at hearlier
  simp [spawn] at hearlier

/-- What the log holds is what it held at the last start and what the client was told of
since, each event once. -/
theorem told_once (h : SoundRun P steps) :
    (run P steps).stored.Perm ((run P steps).booted ++ (run P steps).shown) ∧
      KeyNodup (reconcileKey P.sha256) ((run P steps).booted ++ (run P steps).shown) := by
  have hsound := run_sound h
  exact ⟨hsound.grown, (hsound.grown.map _).nodup_iff.mp hsound.consistent.nodup⟩

/-- The client is told of a post that came before the last start no more. -/
theorem told_once_sample :
    let engine := run (sampleParams 1) (sampleSteps ++ [.receive (postFrom 2 2 20) .reconcile,
      .advance 0 sampleView])
    engine.stored.Perm (engine.booted ++ engine.shown) ∧
      KeyNodup (reconcileKey (sampleParams 1).sha256) (engine.booted ++ engine.shown) :=
  told_once (by decide +kernel)

end ChannelLogEngine

end Harmony.Channel
