import Harmony.FleetSync.CrdtSync

/-! One fleet sync engine. Its task takes one arm of a `select!` at a time and each arm is
cut at its awaits, so that local writers, `notify_dirty` and `persist_now` run between any
two of its steps. What is lost on the way, fails to decrypt or is not admitted changes
nothing, and is no step. -/

namespace Harmony.FleetSync

open Harmony.Lib Std
open Harmony.Membership (Hlc)
open Harmony.Owner (isStrictlyNewerThan)

/-! ## Frames -/

def maxDevicesPerOwner : ℕ := 32

/-- `FleetRootPublish`, with the dataset that its content id names. -/
structure Frame (S : Type) where
  root : S
  stamp : Hlc
  seen : BTreeMap String Hlc

/-- The digest of a tracker: the most recently active devices. -/
def seenDigest (accepted : BTreeMap String Hlc) : BTreeMap String Hlc :=
  BTreeMap.ofEntries Prod.fst (fun p => some p.2)
    ((accepted.toList.insertionSort fun a b => b.2.wallMs ≤ a.2.wallMs).take maxDevicesPerOwner)

theorem seenDigest_sound {accepted : BTreeMap String Hlc} {d : String} {h : Hlc}
    (hd : (seenDigest accepted)[d]? = some h) : accepted[d]? = some h := by
  obtain ⟨p, hp, rfl, hh⟩ := BTreeMap.exists_of_get_ofEntries hd
  have hmem := (List.mem_insertionSort _).mp (List.mem_of_mem_take hp)
  rw [mem_toList_iff.mp hmem]
  exact hh

/-! ## Stamps -/

section Stamps

variable (K : CrdtSync)

def computeNextHlc (tracker : BTreeMap String Hlc) (deviceId : String) (wallMs : ℕ) : Hlc :=
  let tick := K.nextTick (tracker[deviceId]?.map fun h => (h.wallMs, h.logical)) wallMs
  { wallMs := tick.1, logical := tick.2, deviceId := deviceId }

/-- The wall time is that of the clock or of the adoption floor, whichever is later; it may
be anything. -/
def mintNextHlc (tracker : K.Tracker) (deviceId : String) (wallMs : ℕ) : Hlc × K.Tracker :=
  let now := computeNextHlc K (K.accepted tracker) deviceId wallMs
  (now, K.observeLocal tracker now)

variable {K}

theorem computeNextHlc_newer (hK : K.TracksStamps) (tracker : BTreeMap String Hlc) (deviceId : String)
    (wallMs : ℕ) : Newer tracker deviceId (computeNextHlc K tracker deviceId wallMs) := by
  intro g hg
  have htick := hK.nextTick_newer g.wallMs g.logical wallMs
  have hnext : computeNextHlc K tracker deviceId wallMs =
      ⟨(K.nextTick (some (g.wallMs, g.logical)) wallMs).1,
        (K.nextTick (some (g.wallMs, g.logical)) wallMs).2, deviceId⟩ := by
    rw [computeNextHlc, hg]
    rfl
  rw [hnext]
  change toLex (g.wallMs, toLex (g.logical, g.deviceId)) < toLex (_, toLex (_, deviceId))
  rw [Prod.Lex.toLex_lt_toLex] at htick ⊢
  refine htick.imp_right fun h => ⟨h.1, ?_⟩
  exact Prod.Lex.toLex_lt_toLex.mpr (Or.inl h.2)

theorem accepted_mintNextHlc (hK : K.TracksStamps) (tracker : K.Tracker) (deviceId : String)
    (wallMs : ℕ) :
    K.accepted (mintNextHlc K tracker deviceId wallMs).2 =
      (K.accepted tracker).insert deviceId (mintNextHlc K tracker deviceId wallMs).1 :=
  hK.accepted_observeLocal tracker _ (computeNextHlc_newer hK _ deviceId wallMs)

end Stamps

/-! ## The engine -/

structure Ctx (S : Type) where
  deviceId : String
  /-- fleet keys are installed -/
  keys : Bool
  publishSeen : Bool
  merger : S → S → S

/-- How far the signal of a mutation got: `notify_dirty` sets the flag, then notifies. -/
inductive Signal where
  | due
  | flagged
  | notified

/-- A local write. It may mint a stamp first; then it changes the state, as the
mutation of some number, and leaves some state behind. -/
inductive Write (S : Type) where
  | minted (stamp : Hlc)
  | done (stamp : Option Hlc) (number : ℕ) (after : S) (signal : Signal)

/-- How far `encode_root_wire` got. A snapshot holds the mutations below a number. -/
inductive Encoding (S : Type) where
  | start
  | snapped (snapshot : S) (upTo : ℕ)
  | stored (snapshot : S) (upTo : ℕ)
  | minted (snapshot : S) (upTo : ℕ) (stamp : Hlc)
  | built (frame : Frame S) (upTo : ℕ)

inductive Arm where
  | wake
  | flush
  | shutdown

/-- What a root is encoded for. -/
inductive Job (K : CrdtSync) where
  | publish (arm : Arm) (claim : K.Claim)
  | serve

inductive Task (K : CrdtSync) (S : Type) where
  | select
  | encode (job : Job K) (encoding : Encoding S)
  | settling (arm : Arm) (claim : K.Claim) (outcome : PublishOutcome)
  | fetching (frame : Frame S) (ticket : K.Ticket)
  | merging (frame : Frame S) (ticket : K.Ticket)
  | merged (frame : Frame S) (ticket : K.Ticket)
  | acking (frame : Frame S)
  | stopped

/-- The engine with the pair that was last handed to `FleetPersist`, and, for the record,
its local writes, the number of its mutations and of those in a frame that was sent. -/
structure Engine (K : CrdtSync) (S : Type) where
  state : S
  tracker : K.Tracker
  siblingAcks : BTreeMap String Hlc
  hasPendingDirty : Bool
  notify : K.Notify
  latch : K.Latch
  retry : K.Retry
  task : Task K S
  saved : S × BTreeMap String Hlc
  writes : List (Write S)
  mutations : ℕ
  sent : ℕ

namespace Engine

variable {K : CrdtSync} {S : Type}

def boot (deviceId : String) (saved : S × BTreeMap String Hlc) : Engine K S where
  state := saved.1
  tracker := K.restore deviceId saved.2
  siblingAcks := ∅
  hasPendingDirty := false
  notify := K.newNotify
  latch := K.newLatch
  retry := K.newRetry
  task := .select
  saved := saved
  writes := []
  mutations := 0
  sent := 0

def synced (deviceId : String) (e : Engine K S) : BTreeMap String Hlc :=
  match (K.accepted e.tracker)[deviceId]? with
  | none => ∅
  | some myLatest => e.siblingAcks.filter fun _ seenOfMe => !isStrictlyNewerThan myLatest seenOfMe

def syncedDeviceCount (deviceId : String) (e : Engine K S) : ℕ := (e.synced deviceId).size

def wakeAt (e : Engine K S) : Option ℕ :=
  match K.deadline e.latch, K.pendingAt e.retry with
  | some debounceAt, some retryAt => some (min debounceAt retryAt)
  | debounceAt, retryAt => debounceAt.or retryAt

def settlePublish (e : Engine K S) (claim : K.Claim) (outcome : PublishOutcome) (nowMs : ℕ) :
    Engine K S :=
  let e := match K.settle claim outcome with
    | .restore => { e with hasPendingDirty := true, retry := K.onFailure e.retry nowMs }
    | .spent => e
  if outcome = .succeeded then { e with retry := K.clear e.retry nowMs } else e

theorem settlePublish_eq (e : Engine K S) (claim : K.Claim) (outcome : PublishOutcome) (nowMs : ℕ) :
    ∃ flag retry, e.settlePublish claim outcome nowMs =
      { e with hasPendingDirty := flag, retry := retry } := by
  rw [settlePublish]
  cases K.settle claim outcome <;> simp only <;> split_ifs <;> exact ⟨_, _, rfl⟩

section

variable (e : Engine K S) (claim : K.Claim) (outcome : PublishOutcome) (nowMs : ℕ)

@[simp] theorem settlePublish_state : (e.settlePublish claim outcome nowMs).state = e.state := by
  obtain ⟨flag, retry, heq⟩ := e.settlePublish_eq claim outcome nowMs
  rw [heq]

@[simp] theorem settlePublish_tracker : (e.settlePublish claim outcome nowMs).tracker = e.tracker := by
  obtain ⟨flag, retry, heq⟩ := e.settlePublish_eq claim outcome nowMs
  rw [heq]

@[simp] theorem settlePublish_siblingAcks : (e.settlePublish claim outcome nowMs).siblingAcks = e.siblingAcks := by
  obtain ⟨flag, retry, heq⟩ := e.settlePublish_eq claim outcome nowMs
  rw [heq]

@[simp] theorem settlePublish_notify : (e.settlePublish claim outcome nowMs).notify = e.notify := by
  obtain ⟨flag, retry, heq⟩ := e.settlePublish_eq claim outcome nowMs
  rw [heq]

@[simp] theorem settlePublish_saved : (e.settlePublish claim outcome nowMs).saved = e.saved := by
  obtain ⟨flag, retry, heq⟩ := e.settlePublish_eq claim outcome nowMs
  rw [heq]

@[simp] theorem settlePublish_writes : (e.settlePublish claim outcome nowMs).writes = e.writes := by
  obtain ⟨flag, retry, heq⟩ := e.settlePublish_eq claim outcome nowMs
  rw [heq]

@[simp] theorem settlePublish_mutations : (e.settlePublish claim outcome nowMs).mutations = e.mutations := by
  obtain ⟨flag, retry, heq⟩ := e.settlePublish_eq claim outcome nowMs
  rw [heq]

@[simp] theorem settlePublish_sent : (e.settlePublish claim outcome nowMs).sent = e.sent := by
  obtain ⟨flag, retry, heq⟩ := e.settlePublish_eq claim outcome nowMs
  rw [heq]

end

def finish (e : Engine K S) (claim : K.Claim) (outcome : PublishOutcome) (nowMs : ℕ) : Arm → Engine K S
  | .shutdown => { e with task := .stopped }
  | .wake => { e.settlePublish claim outcome nowMs with task := .select }
  | .flush => { e.settlePublish claim outcome nowMs with task := .select }

def skip (e : Engine K S) : Job K → Engine K S
  | .publish arm claim => { e with task := .settling arm claim .succeeded }
  | .serve => { e with task := .select }

def giveUp (e : Engine K S) : Job K → Engine K S
  | .publish arm claim => { e with task := .settling arm claim .failed }
  | .serve => { e with task := .select }

/-- The local writes after the one at some place got further. -/
def advance (e : Engine K S) (before : List (Write S)) (w : Write S) (after : List (Write S)) :
    Engine K S :=
  { e with writes := before ++ w :: after }

end Engine

theorem mem_of_mem_advance {α : Type} {pre post : List α} {w w' x : α} (h : x ∈ pre ++ w' :: post) :
    x = w' ∨ x ∈ pre ++ w :: post := by
  simp only [List.mem_append, List.mem_cons] at h ⊢
  tauto

/-! ## Steps -/

/-- What happens in a step. The names of the first group are those of other tasks. -/
inductive Act (S : Type) where
  | mint
  | apply (state : S)
  | mutate (state : S)
  | flag
  | notify
  | persist
  | idle
  | notified
  | wake
  | flush
  | shutdown
  | serve
  | receive (frame : Frame S)
  | keyless
  | snapshot
  | store
  | mintRoot
  | build
  | send
  | reply
  | fail
  | settle
  | fetched
  | dropped
  | merge
  | commit
  | ack

/-- One step of an engine, with the frame that it emits. Frames that it may receive are
those for which `net` holds. -/
inductive Step {K : CrdtSync} {S : Type} (ctx : Ctx S) (net : Frame S → Prop) (e : Engine K S) :
    Act S → Option (Frame S) → Engine K S → Prop where
  | mint (wallMs : ℕ) : Step ctx net e .mint none
      { e with
        tracker := (mintNextHlc K e.tracker ctx.deviceId wallMs).2
        writes := e.writes ++ [.minted (mintNextHlc K e.tracker ctx.deviceId wallMs).1] }
  | apply {pre post : List (Write S)} {t : Hlc} (s : S) (h : e.writes = pre ++ .minted t :: post) :
      Step ctx net e (.apply s) none
        { e.advance pre (.done (some t) e.mutations s .due) post with
          state := s
          mutations := e.mutations + 1 }
  | mutate (s : S) : Step ctx net e (.mutate s) none
      { e with
        state := s
        mutations := e.mutations + 1
        writes := e.writes ++ [.done none e.mutations s .due] }
  | flag {pre post : List (Write S)} {t : Option Hlc} {i : ℕ} {s : S}
      (h : e.writes = pre ++ .done t i s .due :: post) : Step ctx net e .flag none
        { e.advance pre (.done t i s .flagged) post with hasPendingDirty := true }
  | notify {pre post : List (Write S)} {t : Option Hlc} {i : ℕ} {s : S}
      (h : e.writes = pre ++ .done t i s .flagged :: post) : Step ctx net e .notify none
        { e.advance pre (.done t i s .notified) post with notify := K.notifyOne e.notify }
  | persist : Step ctx net e .persist none { e with saved := (e.state, K.accepted e.tracker) }
  /- The arms of the task. -/
  | idle {n : K.Notify} (h : e.task = .select) (hpoll : K.poll e.notify = (false, n)) :
      Step ctx net e .idle none { e with notify := n }
  | notified {n : K.Notify} (nowMs : ℕ) (h : e.task = .select) (hpoll : K.poll e.notify = (true, n)) :
      Step ctx net e .notified none
        { e with
          notify := n
          latch := if e.hasPendingDirty then K.markDirty e.latch nowMs else e.latch }
  | wake (h : e.task = .select) (hwake : e.wakeAt.isSome) : Step ctx net e .wake none
      { e with
        hasPendingDirty := false
        latch := (K.onDeadline e.latch e.hasPendingDirty).1
        task := .encode (.publish .wake (K.onDeadline e.latch e.hasPendingDirty).2) .start }
  | flush (h : e.task = .select) : Step ctx net e .flush none
      { e with
        hasPendingDirty := false
        latch := (K.onFlush e.latch e.hasPendingDirty).1
        task := .encode (.publish .flush (K.onFlush e.latch e.hasPendingDirty).2) .start }
  | shutdown (h : e.task = .select) : Step ctx net e .shutdown none
      { e with
        latch := (K.onShutdown e.latch e.hasPendingDirty).1
        task :=
          if K.shouldPublish (K.onShutdown e.latch e.hasPendingDirty).2 then
            .encode (.publish .shutdown (K.onShutdown e.latch e.hasPendingDirty).2) .start
          else .stopped }
  | serve (h : e.task = .select) : Step ctx net e .serve none { e with task := .encode .serve .start }
  | receive {f : Frame S} {k : K.Ticket} (h : e.task = .select) (hkeys : ctx.keys = true) (hf : net f)
      (hk : K.admitStamp e.tracker f.stamp.deviceId f.stamp = .accept k) :
      Step ctx net e (.receive f) none { e with task := .fetching f k }
  /- `encode_root_wire`, and what becomes of the frame. Without keys a publish is skipped as
  if it had succeeded. -/
  | keyless {job : Job K} (h : e.task = .encode job .start) (hkeys : ctx.keys = false) :
      Step ctx net e .keyless none (e.skip job)
  | snapshot {job : Job K} (h : e.task = .encode job .start) (hkeys : ctx.keys = true) :
      Step ctx net e .snapshot none { e with task := .encode job (.snapped e.state e.mutations) }
  | store {job : Job K} {s : S} {n : ℕ} (h : e.task = .encode job (.snapped s n)) :
      Step ctx net e .store none { e with task := .encode job (.stored s n) }
  | mintRoot {job : Job K} {s : S} {n : ℕ} (wallMs : ℕ) (h : e.task = .encode job (.stored s n)) :
      Step ctx net e .mintRoot none
        { e with
          tracker := (mintNextHlc K e.tracker ctx.deviceId wallMs).2
          task := .encode job (.minted s n (mintNextHlc K e.tracker ctx.deviceId wallMs).1) }
  | build {job : Job K} {s : S} {n : ℕ} {t : Hlc} (h : e.task = .encode job (.minted s n t)) :
      Step ctx net e .build none
        { e with
          task := .encode job (.built
            { root := s
              stamp := t
              seen := if ctx.publishSeen then seenDigest (K.accepted e.tracker) else ∅ } n) }
  | send {arm : Arm} {claim : K.Claim} {f : Frame S} {n : ℕ}
      (h : e.task = .encode (.publish arm claim) (.built f n)) : Step ctx net e .send (some f)
        { e with sent := max e.sent n, task := .settling arm claim .succeeded }
  | reply {f : Frame S} {n : ℕ} (h : e.task = .encode .serve (.built f n)) :
      Step ctx net e .reply (some f) { e with task := .select }
  | fail {job : Job K} {encoding : Encoding S} (h : e.task = .encode job encoding)
      (hkeys : ctx.keys = true) : Step ctx net e .fail none (e.giveUp job)
  | settle {arm : Arm} {claim : K.Claim} {outcome : PublishOutcome} (nowMs : ℕ)
      (h : e.task = .settling arm claim outcome) : Step ctx net e .settle none
        (e.finish claim outcome nowMs arm)
  /- `handle_incoming_publish`. -/
  | fetched {f : Frame S} {k : K.Ticket} (h : e.task = .fetching f k) :
      Step ctx net e .fetched none { e with task := .merging f k }
  | dropped {f : Frame S} {k : K.Ticket} (h : e.task = .fetching f k) :
      Step ctx net e .dropped none { e with task := .select }
  | merge {f : Frame S} {k : K.Ticket} (h : e.task = .merging f k) : Step ctx net e .merge none
      { e with state := ctx.merger e.state f.root, task := .merged f k }
  | commit {f : Frame S} {k : K.Ticket} (h : e.task = .merged f k) : Step ctx net e .commit none
      { e with tracker := K.commit e.tracker k, task := .acking f }
  | ack {f : Frame S} (h : e.task = .acking f) : Step ctx net e .ack none
      { e with
        siblingAcks :=
          if ctx.publishSeen then
            f.seen[ctx.deviceId]?.elim e.siblingAcks (K.observe e.siblingAcks f.stamp.deviceId)
          else e.siblingAcks
        task := .select }

end Harmony.FleetSync
