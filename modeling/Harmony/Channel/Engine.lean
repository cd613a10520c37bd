import Harmony.Channel.Authz
import Harmony.Channel.Log
import Harmony.Reconcile.Moving

/-! The engine of one channel: packets from the network and from reconciliation, own posts
and reactions, and the disk. A packet is handled in sections between which locks are
released, so that tasks interleave. A crash or a stop is followed by a start from the
files. -/

namespace Harmony.Channel

open Harmony.Lib Harmony.Reconcile
open Harmony.Membership (OwnerAddr SpaceId ChannelId PubKey Crypto SignedMembershipEvent)

structure ChannelLogEngineParams where
  communityId : SpaceId
  channelId : ChannelId
  selfOwner : OwnerAddr
  selfDeviceId : String
  config : ChannelLogConfig := {}
  sha256 : SignedSet → ByteArr 32
  verifyStrict : PubKey → SignedSet → ByteArr 64 → Bool
  sign : SignedSet → ByteArr 64
  crypto : Crypto
  adminAddr : OwnerAddr

inductive IngestProvenance where
  | live
  | reconcile
deriving DecidableEq

/-- A task between two of its sections; the comment says which section is next. -/
inductive PacketTask where
  /-- `contains_reconcile_key`: the packet is at or below the head of its lane. -/
  | doubted (event : SignedChannelEvent)
  /-- `verify_channel_event` -/
  | received (event : SignedChannelEvent) (provenance : IngestProvenance)
  /-- `check_and_advance` -/
  | verified (event : SignedChannelEvent) (provenance : IngestProvenance)
  /-- `append` of a packet -/
  | committed (event : SignedChannelEvent) (provenance : IngestProvenance)
  /-- `record` of an own event -/
  | minted (event : SignedChannelEvent)
  /-- `append` of an own event, which is sent behind it -/
  | recorded (event : SignedChannelEvent)
deriving DecidableEq

structure ChannelLogEngine where
  log : ChannelLog
  dir : ChannelDir
  tracker : ChannelLogReplayTracker := {}
  closing : Bool := false
  tasks : List PacketTask := []
  /-- what the client was told of -/
  shown : List SignedChannelEvent := []
  /-- for the record, what the log held when the engine started -/
  booted : List SignedChannelEvent := []

structure NewPost where
  body : String
  replyTo : Option MessageId := none
  mentions : Option (List OwnerAddr) := none
  attachments : Option (List ChannelAttachment) := none

structure NewReaction where
  target : MessageId
  emoji : String
  add : Bool
  emojiAttachment : Option ChannelAttachment := none

/-- What a check of a packet looks at: the membership log of the node, and its clock. -/
structure View where
  members : List SignedMembershipEvent
  nowMs : Option ℕ

inductive ChannelStep where
  | receive (event : SignedChannelEvent) (provenance : IngestProvenance)
  | publish (post : NewPost) (id : MessageId) (hlc : Hlc)
  | react (reaction : NewReaction) (hlc : Hlc)
  /-- The next section of a task. -/
  | advance (task : ℕ) (view : View)
  /-- A pass of the flush loop, or `flush_now`. -/
  | flushTail (written : ℕ → Bool)
  | sealAndPersist (written : ℕ → Bool)
  /-- The first step of `shutdown`. -/
  | close
  /-- A crash or the end of a shutdown, and the next start. -/
  | restart (renamed written : Bool)

def maxBodyBytes : ℕ := 64 * 1024

namespace ChannelLogEngineParams

variable (P : ChannelLogEngineParams)

/-- What `publish` signs; an empty list is no list. -/
def postOf (post : NewPost) (id : MessageId) (hlc : Hlc) : SignedChannelEvent :=
  let signed : SignedSet := .post {
    at_ := hlc, author := P.selfOwner, body := post.body, channelId := P.channelId,
    communityId := P.communityId, id, contentKind := 0,
    mentions := post.mentions.filter (· ≠ []), attachments := post.attachments.filter (· ≠ []),
    replyTo := post.replyTo }
  ⟨signed, P.sign signed⟩

def reactionOf (reaction : NewReaction) (hlc : Hlc) : SignedChannelEvent :=
  let signed : SignedSet := .react {
    add := reaction.add, at_ := hlc, author := P.selfOwner, channelId := P.channelId,
    communityId := P.communityId, emojiAttachment := reaction.emojiAttachment,
    emoji := reaction.emoji, target := reaction.target }
  ⟨signed, P.sign signed⟩

end ChannelLogEngineParams

/-- The caps of `publish`. -/
def NewPost.accepted (post : NewPost) : Bool :=
  post.body.utf8ByteSize ≤ maxBodyBytes && (post.mentions.getD []).length ≤ maxMentions &&
    (post.attachments.getD []).length ≤ maxAttachments &&
    (post.attachments.getD []).all fun att => (checkDescriptor att).isOk

/-- The cap of `react`. -/
def NewReaction.accepted (reaction : NewReaction) : Bool :=
  reaction.emoji.utf8ByteSize ≤ maxReactionEmojiBytes

/-! ### Starting -/

namespace ChannelLog

/-- A segment feeds the tracker, or its index is noted where it cannot be used. -/
def walkSegment (log : ChannelLog) (dir : ChannelDir) (st : ChannelLogReplayTracker × List ℕ)
    (seg : SegmentDescriptor × ℕ) :
    Except ChannelLogPersistError (ChannelLogReplayTracker × List ℕ) :=
  match log.readSegmentMigrating dir seg.1 with
  | .ok events => .ok (events.foldl ChannelLogReplayTracker.record st.1, st.2)
  | .error (.io e) => .error (.io e)
  | .error _ => .ok (st.1, st.2 ++ [seg.2])

/-- The noted segments are set aside, the last one first; a failure ends the start. -/
def quarantineNoted (renamed written : Bool) (log : ChannelLog) (dir : ChannelDir) :
    List ℕ → Except ChannelLogPersistError ChannelLog × ChannelDir
  | [] => (.ok log, dir)
  | i :: noted =>
    match quarantineSegment renamed written i log dir with
    | (.ok (), log, dir) => quarantineNoted renamed written log dir noted
    | (.error e, _, dir) => (.error e, dir)

end ChannelLog

namespace ChannelLogEngine

variable (P : ChannelLogEngineParams)

/-- `ChannelLogEngine::new`: the log is reloaded, and the tracker rebuilt from it. -/
def start (renamed written : Bool) (dir : ChannelDir) :
    Except ChannelLogPersistError ChannelLogEngine × ChannelDir :=
  match ChannelLog.reload P.sha256 renamed P.communityId P.channelId P.config dir with
  | (.error e, dir) => (.error e, dir)
  | (.ok (log, _), dir) =>
    match log.manifest.segments.zipIdx.foldlM (log.walkSegment dir) ({}, []) with
    | .error e => (.error e, dir)
    | .ok (tracker, noted) =>
      match log.quarantineNoted renamed written dir noted.reverse with
      | (.error e, dir) => (.error e, dir)
      | (.ok log, dir) => (.ok {
          log, dir, tracker := log.tail.foldl ChannelLogReplayTracker.record tracker,
          booted := log.storedEvents dir }, dir)

/-! ### Running -/

def spawn (engine : ChannelLogEngine) (task : PacketTask) : ChannelLogEngine :=
  { engine with tasks := engine.tasks ++ [task] }

/-- The fast path of `process_inbound_packet`. -/
def receive (engine : ChannelLogEngine) (event : SignedChannelEvent)
    (provenance : IngestProvenance) : ChannelLogEngine :=
  match engine.tracker.wouldAccept event, provenance with
  | .ok (), _ => engine.spawn (.received event provenance)
  | .error _, .reconcile => engine.spawn (.doubted event)
  | .error _, .live => engine

/-- What is left of a task after a section, if it goes on. -/
abbrev AfterSection := ChannelLogEngine × Option PacketTask

/-- An engine that is closing appends nothing; `always` tells the client of a duplicate
too. -/
def append (engine : ChannelLogEngine) (event : SignedChannelEvent) (always : Bool) :
    ChannelLogEngine :=
  if engine.closing then engine
  else match engine.log.append P.sha256 event with
    | .error _ => engine
    | .ok (outcome, log) => { engine with
        log
        shown := if outcome.newlyAppended || always then engine.shown ++ [event] else engine.shown }

def runSection (engine : ChannelLogEngine) (view : View) : PacketTask → AfterSection
  | .doubted event =>
    (engine, if engine.log.containsReconcileKey P.sha256 event then none
      else some (.received event .reconcile))
  | .received event provenance =>
    (engine, match verifyChannelEventAt P.verifyStrict event P.communityId P.channelId
        (snapshotAt P.crypto P.adminAddr view.members event.channelId event.author event.at_) {}
        view.nowMs with
      | .ok _ => some (.verified event provenance)
      | .error _ => none)
  | .verified event provenance =>
    match engine.tracker.checkAndAdvance event, provenance with
    | .ok tracker, _ => ({ engine with tracker }, some (.committed event provenance))
    | .error _, .reconcile => (engine, some (.committed event .reconcile))
    | .error _, .live => (engine, none)
  | .committed event _ => (engine.append P event false, none)
  | .minted event => ({ engine with tracker := engine.tracker.record event }, some (.recorded event))
  | .recorded event => (engine.append P event true, none)

def advance (engine : ChannelLogEngine) (i : ℕ) (view : View) : ChannelLogEngine :=
  match engine.tasks[i]? with
  | none => engine
  | some task =>
    match engine.runSection P view task with
    | (engine, some task) => { engine with tasks := engine.tasks.set i task }
    | (engine, none) => { engine with tasks := engine.tasks.eraseIdx i }

def step (engine : ChannelLogEngine) : ChannelStep → ChannelLogEngine
  | .receive event provenance => engine.receive event provenance
  | .publish post id hlc =>
    if post.accepted then engine.spawn (.minted (P.postOf post id hlc)) else engine
  | .react reaction hlc =>
    if reaction.accepted then engine.spawn (.minted (P.reactionOf reaction hlc)) else engine
  | .advance task view => engine.advance P task view
  | .flushTail written => { engine with dir := (engine.log.flushTail written engine.dir).2 }
  | .sealAndPersist written =>
    if engine.log.sealReady then
      let sealed := (engine.log.sealAndPersist written engine.dir).2
      { engine with log := sealed.1, dir := sealed.2 }
    else engine
  | .close => { engine with closing := true }
  | .restart renamed written =>
    match start P renamed written engine.dir with
    | (.ok engine, _) => engine
    -- the channel stays without an engine
    | (.error _, dir) => { engine with dir, closing := true, tasks := [] }

/-- The engine of a channel with no files. -/
def fresh : ChannelLogEngine where
  log := ChannelLog.new P.communityId P.channelId P.config
  dir := fun _ => none

def run (steps : List ChannelStep) : ChannelLogEngine := steps.foldl (step P) (fresh P)

/-! ### Reconciling -/

/-- What a `Have` packet and the reply are once they are opened. -/
inductive RbsrFrame where
  | message (m : RbsrMessage)
  | packet (event : SignedChannelEvent)

section Rounds

-- the hash of a digest
variable (hash : List Byte → ByteArr 32)

/-- `rbsr_respond`: the reply, and an event for every key it hands over. -/
def rbsrRespond (request : RbsrMessage) (log : ChannelLog) (dir : ChannelDir) :
    Option (RbsrMessage × List SignedChannelEvent) :=
  let reply := respond hash request log
  match log.eventsForKeys P.sha256 dir reply.haveKeys with
  | .ok events => if events.length = reply.haveKeys.length then some (reply, events) else none
  | .error _ => none

def rbsrBuildInitial (engine : ChannelLogEngine) : RbsrMessage := initialRequest hash engine.log

/-- How `rbsr_ingest_and_next` sorts the frames of a round: the packets, beside one reply. -/
def rbsrFrames (frames : List RbsrFrame) : Option (RbsrMessage × List SignedChannelEvent) :=
  match frames.filterMap fun | .message m => some m | .packet _ => none with
  | [reply] => some (reply, frames.filterMap fun | .message _ => none | .packet event => some event)
  | _ => none

/-- How `rbsr_ingest_and_next` ends, once each packet is processed. -/
def rbsrNext (reply : RbsrMessage) (engine : ChannelLogEngine) : Option RbsrMessage :=
  (processReply hash reply engine.log).2

end Rounds

end ChannelLogEngine

end Harmony.Channel
