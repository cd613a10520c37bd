import Harmony.Channel.Events

/-! The segmented log of one channel: the tail in memory, the sealed segments and the
manifest on disk, and the views derived from them. A directory maps resolved paths to
files; which renames and writes succeed is decided by the environment. Resealing a
legacy file rewrites the same image and is left out. -/

namespace Harmony.Channel

open Harmony.Lib Harmony.Reconcile
open Harmony.Membership (OwnerAddr SpaceId ChannelId)

/-! ### Files -/

inductive SegmentHandle where
  | localFile (relPath : String)
deriving DecidableEq

def SegmentHandle.relPath : SegmentHandle → String
  | .localFile relPath => relPath

structure SegmentDescriptor where
  range : Hlc × Hlc
  count : ℕ
  handle : SegmentHandle
deriving DecidableEq

structure ChannelLogManifest where
  communityId : SpaceId
  channelId : ChannelId
  segments : List SegmentDescriptor := []
deriving DecidableEq

/-- The decoded inner image of a file; `other` decodes as neither. -/
inductive Inner where
  | manifest (m : ChannelLogManifest)
  | events (evs : List SignedChannelEvent)
  | other

/-- The label a file is sealed under: it binds both ids and the relative name. -/
structure SealLabel where
  communityId : SpaceId
  channelId : ChannelId
  rel : String
deriving DecidableEq

def channelSealLabel (communityId : SpaceId) (channelId : ChannelId) (rel : String) : SealLabel :=
  ⟨communityId, channelId, rel⟩

inductive StoredFile where
  | sealed (label : SealLabel) (inner : Inner)
  | legacy (inner : Inner)
  | damaged
  | unreadable (error : String)

abbrev FilePath := List (List Char)

abbrev ChannelDir := FilePath → Option StoredFile

inductive ImageError where
  | io (error : String)
  | crypto

inductive ChannelLogPersistError where
  | io (error : String)
  | cborEncode (error : String)
  | cborDecode (error : String)
  | manifest (expected got : String)
deriving DecidableEq

/-- The file a relative name denotes under the channel's root. -/
def filePath (rel : String) : FilePath :=
  let parts := (rel.toList.splitOn '/').filter fun part => part ≠ [] ∧ part ≠ ['.']
  if rel.toList.head? = some '/' then ['/'] :: parts else parts

def manifestFilename : String := "manifest.cbor"
def tailFilename : String := "tail.cbor"

def readImage (dir : ChannelDir) (path : FilePath) (label : SealLabel) :
    Except ImageError (Option Inner) :=
  match dir path with
  | none => .ok none
  | some (.unreadable e) => .error (.io e)
  | some .damaged => .error .crypto
  | some (.legacy inner) => .ok (some inner)
  | some (.sealed l inner) => if l = label then .ok (some inner) else .error .crypto

/-- Renames a file aside, or a directory with all it holds. -/
def quarantineAside (renamed : Bool) (path : FilePath) (dir : ChannelDir) : ChannelDir :=
  if renamed then fun p => if path <+: p then none else dir p else dir

/-- A normalized relative path under `segments/`. -/
def validSegmentPath (relPath : String) : Bool :=
  let parts := relPath.toList.splitOn '/'
  relPath.toList.head? ≠ some '/' ∧ parts.head? ≠ some ['.'] ∧ ['.', '.'] ∉ parts ∧
    (filePath relPath).head? = some "segments".toList

def eventsAllBind (events : List SignedChannelEvent) (communityId : SpaceId)
    (channelId : ChannelId) : Bool :=
  events.all fun e => e.communityId = communityId ∧ e.channelId = channelId

def decodeSegment (inner : Inner) (relPath : String) :
    Except ChannelLogPersistError (List SignedChannelEvent) :=
  match inner with
  | .events evs => .ok evs
  | _ => .error (.cborDecode ("segment " ++ relPath ++ " not supported"))

def openSegmentImage (communityId : SpaceId) (channelId : ChannelId) (dir : ChannelDir)
    (descriptor : SegmentDescriptor) : Except ChannelLogPersistError Inner :=
  let relPath := descriptor.handle.relPath
  if validSegmentPath relPath then
    match readImage dir (filePath relPath) (channelSealLabel communityId channelId relPath) with
    | .ok (some image) => .ok image
    | .ok none => .error (.cborDecode
        ("segment file " ++ relPath ++ " missing but referenced by the manifest"))
    | .error (.io e) => .error (.io e)
    | .error .crypto => .error (.cborDecode ("open " ++ relPath))
  else .error (.io ("invalid segment path " ++ relPath ++
    " (must be a normalized relative path under segments/)"))

def readSegmentAt (communityId : SpaceId) (channelId : ChannelId) (dir : ChannelDir)
    (descriptor : SegmentDescriptor) : Except ChannelLogPersistError (List SignedChannelEvent) := do
  decodeSegment (← openSegmentImage communityId channelId dir descriptor) descriptor.handle.relPath

/-- The index in `segments/{N:08x}.cbor`. -/
def segmentIndexOf (descriptor : SegmentDescriptor) : Option ℕ := do
  let rest ← descriptor.handle.relPath.toList.dropPrefix? "segments/".toList
  let hex ← rest.dropSuffix? ".cbor".toList
  u32FromHex hex

def segmentRelPath (index : ℕ) : String :=
  String.ofList ("segments/".toList ++ hexPad 8 index ++ ".cbor".toList)

/-! ### The log -/

structure ChannelLogConfig where
  sealThresholdEvents : ℕ := 1024

structure ChannelLog where
  manifest : ChannelLogManifest
  tail : List SignedChannelEvent := []
  config : ChannelLogConfig
  reactionIndex : ReactionIndex := {}
  deviceWatermarks : WatermarkVector := ∅
  reconcileEntries : List Entry := []
  chunkIndex : ChunkIndex := ChunkIndex.new

structure AppendOutcome where
  newlyAppended : Bool
  sealReady : Bool
deriving DecidableEq

namespace ChannelLog

def new (communityId : SpaceId) (channelId : ChannelId) (config : ChannelLogConfig) : ChannelLog where
  manifest := { communityId, channelId }
  config

def sealReady (log : ChannelLog) : Bool := log.config.sealThresholdEvents ≤ log.tail.length

/-- The entries of an inclusive span, cut out by binary search. -/
def spanOf (entries : List Entry) : ChunkEventReader := fun first last =>
  let s := partitionPoint (fun x => decide (x.1 < first)) entries
  let e := partitionPoint (fun x => decide (x.1 ≤ last)) entries
  (entries.take (max e s)).drop s

def containsKey (log : ChannelLog) (key : ReconcileKey) : Bool :=
  let pos := partitionPoint (fun x => decide (x.1 < key)) log.reconcileEntries
  log.reconcileEntries[pos]?.any fun x => x.1 = key

def insertReconcileKey (log : ChannelLog) (key : ReconcileKey) : ChannelLog :=
  let hash := key.elementHash
  let pos := partitionPoint (fun x => decide (x.1 < key)) log.reconcileEntries
  if log.reconcileEntries[pos]?.any fun x => x.1 = key then log
  else { log with
    chunkIndex := log.chunkIndex.insert key hash (spanOf log.reconcileEntries)
    reconcileEntries := log.reconcileEntries.insertIdx pos (key, hash) }

def readSegment (log : ChannelLog) (dir : ChannelDir) (descriptor : SegmentDescriptor) :
    Except ChannelLogPersistError (List SignedChannelEvent) :=
  readSegmentAt log.manifest.communityId log.manifest.channelId dir descriptor

def readSegmentMigrating (log : ChannelLog) (dir : ChannelDir) (descriptor : SegmentDescriptor) :
    Except ChannelLogPersistError (List SignedChannelEvent) := do
  let events ← log.readSegment dir descriptor
  if eventsAllBind events log.manifest.communityId log.manifest.channelId then pure events
  else throw (.cborDecode ("segment " ++ descriptor.handle.relPath ++
    " contains foreign-channel events"))

/-- The events of a segment; an unreadable one is skipped. -/
def segmentEvents (log : ChannelLog) (dir : ChannelDir) (seg : SegmentDescriptor) :
    List SignedChannelEvent :=
  match log.readSegment dir seg with
  | .ok events => events
  | .error _ => []

/-- What the rebuilds walk: every segment in manifest order, then the tail. -/
def storedEvents (log : ChannelLog) (dir : ChannelDir) : List SignedChannelEvent :=
  log.manifest.segments.flatMap (log.segmentEvents dir) ++ log.tail

def rebuildReactionIndex (log : ChannelLog) (dir : ChannelDir) : ChannelLog :=
  { log with reactionIndex := (log.storedEvents dir).foldl ReactionIndex.apply {} }

def rebuildDeviceWatermarks (log : ChannelLog) (dir : ChannelDir) : ChannelLog :=
  { log with deviceWatermarks :=
      (log.storedEvents dir).foldl (fun idx ev => raiseWatermark idx ev.author ev.at_) ∅ }

/-! ### Writing -/

def writeChannelFile (log : ChannelLog) (rel : String) (inner : Inner) (dir : ChannelDir) :
    ChannelDir :=
  Function.update dir (filePath rel) (some (.sealed
    (channelSealLabel log.manifest.communityId log.manifest.channelId rel) inner))

def writeFailed : ChannelLogPersistError := .io "write failed"

/-- `flush_tail`; `written n` says whether its `n`th write succeeds. -/
def flushTail (written : ℕ → Bool) (log : ChannelLog) (dir : ChannelDir) :
    Except ChannelLogPersistError Unit × ChannelDir :=
  let stub := (dir (filePath manifestFilename)).isNone
  if stub ∧ ¬written 0 then (.error writeFailed, dir)
  else
    let dir := if stub then log.writeChannelFile manifestFilename (.manifest log.manifest) dir else dir
    if written 1 then (.ok (), log.writeChannelFile tailFilename (.events log.tail) dir)
    else (.error writeFailed, dir)

/-- One past the largest index in the manifest, as a `u32`. -/
def nextIndex (log : ChannelLog) : ℕ :=
  (log.manifest.segments.filterMap segmentIndexOf).max?.elim 0 fun m => (m + 1) % 2 ^ 32

/-- The segment list with a new descriptor, ascending by the first stamp. -/
def withSegment (m : ChannelLogManifest) (descriptor : SegmentDescriptor) : ChannelLogManifest :=
  { m with segments := sortBy (fun d => d.range.1) (m.segments ++ [descriptor]) }

/-- `seal_and_persist`: the segment, the empty tail and the manifest are written in
this order, and memory follows once all three are. -/
def sealAndPersist (written : ℕ → Bool) (log : ChannelLog) (dir : ChannelDir) :
    Except ChannelLogPersistError Unit × ChannelLog × ChannelDir :=
  match (log.tail.map SignedChannelEvent.at_).min?, (log.tail.map SignedChannelEvent.at_).max? with
  | some firstAt, some lastAt =>
    let relPath := segmentRelPath log.nextIndex
    let descriptor : SegmentDescriptor :=
      ⟨(firstAt, lastAt), log.tail.length % 2 ^ 32, .localFile relPath⟩
    let newManifest := withSegment log.manifest descriptor
    let dir₁ := log.writeChannelFile relPath (.events log.tail) dir
    let dir₂ := log.writeChannelFile tailFilename (.events []) dir₁
    let dir₃ := log.writeChannelFile manifestFilename (.manifest newManifest) dir₂
    if ¬written 0 then (.error writeFailed, log, dir)
    else if ¬written 1 then (.error writeFailed, log, dir₁)
    else if ¬written 2 then (.error writeFailed, log, dir₂)
    else (.ok (), { log with manifest := newManifest, tail := [] }, dir₃)
  | _, _ => (.ok (), log, dir)

/-- `quarantine_segment`; neither a failed rename nor a failed write keeps the
descriptor. -/
def quarantineSegment (renamed written : Bool) (segIndex : ℕ) (log : ChannelLog) (dir : ChannelDir) :
    Except ChannelLogPersistError Unit × ChannelLog × ChannelDir :=
  match log.manifest.segments[segIndex]? with
  | none => (.ok (), log, dir)
  | some seg =>
    let dir := quarantineAside renamed (filePath seg.handle.relPath) dir
    let log := { log with
      manifest := { log.manifest with segments := log.manifest.segments.eraseIdx segIndex } }
    if written then
      (.ok (), log, log.writeChannelFile manifestFilename (.manifest log.manifest) dir)
    else (.error writeFailed, log, dir)

section Hash

variable (sha256 : SignedSet → ByteArr 32)

def append (log : ChannelLog) (event : SignedChannelEvent) :
    Except ChannelLogPersistError (AppendOutcome × ChannelLog) :=
  if event.communityId ≠ log.manifest.communityId ∨ event.channelId ≠ log.manifest.channelId then
    .error (.manifest (toString log.manifest.communityId ++ "/" ++ toString log.manifest.channelId)
      (toString event.communityId ++ "/" ++ toString event.channelId))
  else
    let key := reconcileKey sha256 event
    if log.containsKey key then .ok (⟨false, log.sealReady⟩, log)
    else
      let log := { log with
        reactionIndex := log.reactionIndex.apply event
        deviceWatermarks := raiseWatermark log.deviceWatermarks event.author event.at_ }
      let log := log.insertReconcileKey key
      let log := { log with tail := log.tail ++ [event] }
      .ok (⟨true, log.sealReady⟩, log)

def containsReconcileKey (log : ChannelLog) (event : SignedChannelEvent) : Bool :=
  log.containsKey (reconcileKey sha256 event)

/-- The pair the reconcile index lists an event under. -/
def entryOf (ev : SignedChannelEvent) : Entry :=
  (reconcileKey sha256 ev, (reconcileKey sha256 ev).elementHash)

def rebuildReconcileIndex (log : ChannelLog) (dir : ChannelDir) : ChannelLog :=
  let entries := sortDedup Prod.fst ((log.storedEvents dir).map (entryOf sha256))
  { log with chunkIndex := ChunkIndex.buildFromSorted entries, reconcileEntries := entries }

/-- The tail on disk; one that does not decode or is not this channel's is set aside. -/
def loadTail (renamed : Bool) (communityId : SpaceId) (channelId : ChannelId) (dir : ChannelDir) :
    Except ChannelLogPersistError (List SignedChannelEvent) × ChannelDir :=
  let aside := quarantineAside renamed (filePath tailFilename) dir
  match readImage dir (filePath tailFilename)
      (channelSealLabel communityId channelId tailFilename) with
  | .ok none => (.ok [], dir)
  | .ok (some (.events t)) =>
    if eventsAllBind t communityId channelId then (.ok t, dir) else (.ok [], aside)
  | .ok (some _) => (.ok [], aside)
  | .error (.io e) => (.error (.io e), dir)
  | .error .crypto => (.ok [], aside)

/-- `quarantine_channel_dir`, then a fresh log. -/
def freshAfterQuarantine (renamed : Bool) (communityId : SpaceId) (channelId : ChannelId)
    (config : ChannelLogConfig) (dir : ChannelDir) :
    Except ChannelLogPersistError (ChannelLog × ℕ) × ChannelDir :=
  let aside := quarantineAside renamed [] dir
  if renamed then (.ok (new communityId channelId config, 0), aside)
  else (.error (.io "failed to quarantine corrupt channel dir"), aside)

/-- `reload`: the log on disk and the number of events its files claim. -/
def reload (renamed : Bool) (communityId : SpaceId) (channelId : ChannelId)
    (config : ChannelLogConfig) (dir : ChannelDir) :
    Except ChannelLogPersistError (ChannelLog × ℕ) × ChannelDir :=
  match readImage dir (filePath manifestFilename)
      (channelSealLabel communityId channelId manifestFilename) with
  | .ok none => (.ok (new communityId channelId config, 0), dir)
  | .error (.io e) => (.error (.io e), dir)
  | .error .crypto => freshAfterQuarantine renamed communityId channelId config dir
  | .ok (some (.manifest m)) =>
    if m.communityId ≠ communityId then
      (.error (.manifest (toString communityId) (toString m.communityId)), dir)
    else if m.channelId ≠ channelId then
      (.error (.manifest (toString channelId) (toString m.channelId)), dir)
    else
      let m := { m with segments := sortBy (fun d => d.range.1) m.segments }
      match loadTail renamed communityId channelId dir with
      | (.error e, dir) => (.error e, dir)
      | (.ok tail, dir) =>
        let total := (m.segments.map SegmentDescriptor.count).sum + tail.length
        let log : ChannelLog := { manifest := m, tail, config }
        let log := ((log.rebuildReactionIndex dir).rebuildDeviceWatermarks dir).rebuildReconcileIndex
          sha256 dir
        (.ok (log, total), dir)
  | .ok (some _) => freshAfterQuarantine renamed communityId channelId config dir

/-- One event of the scan of `events_for_keys`: a wanted key is resolved once. -/
def pick (wanted : List ReconcileKey) (out : List SignedChannelEvent) (ev : SignedChannelEvent) :
    List SignedChannelEvent :=
  let key := reconcileKey sha256 ev
  if key ∈ wanted ∧ key ∉ out.map (reconcileKey sha256) then out ++ [ev] else out

/-- A segment whose wall span lies outside the requested one is not read. -/
def scanSegment (log : ChannelLog) (dir : ChannelDir) (wanted : List ReconcileKey)
    (lo hi : Fin (2 ^ 64)) (out : List SignedChannelEvent) (seg : SegmentDescriptor) :
    Except ChannelLogPersistError (List SignedChannelEvent) :=
  if seg.range.2.wallMs < lo ∨ hi < seg.range.1.wallMs then .ok out
  else do
    let events ← log.readSegment dir seg
    pure (events.foldl (pick sha256 wanted) out)

def eventsForKeys (log : ChannelLog) (dir : ChannelDir) (keys : List ReconcileKey) :
    Except ChannelLogPersistError (List SignedChannelEvent) :=
  match (keys.map ReconcileKey.wallMs).min?, (keys.map ReconcileKey.wallMs).max? with
  | some lo, some hi => do
    let out ← log.manifest.segments.foldlM (scanSegment sha256 log dir keys lo hi) []
    pure (log.tail.foldl (pick sha256 keys) out)
  | _, _ => .ok []

end Hash

instance : RangeReconcileSource ChannelLog where
  rangeFingerprint log lo hi := log.chunkIndex.rangeFingerprint lo hi (spanOf log.reconcileEntries)
  rangeCount log lo hi :=
    partitionPoint (fun x => decide (x.1 < hi)) log.reconcileEntries -
      partitionPoint (fun x => decide (x.1 < lo)) log.reconcileEntries
  keysInRange log lo hi := (slice Prod.fst lo hi log.reconcileEntries).map Prod.fst
  splitKey log lo hi :=
    let s := partitionPoint (fun x => decide (x.1 < lo)) log.reconcileEntries
    let e := partitionPoint (fun x => decide (x.1 < hi)) log.reconcileEntries
    if e - s < 2 then none else log.reconcileEntries[s + (e - s) / 2]?.map Prod.fst

end ChannelLog

end Harmony.Channel
