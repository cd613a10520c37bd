import Harmony.Voting.Log

/-! Concrete wire data at which the model is evaluated: the CBOR of signing bytes and
of the small payloads, a codec that decodes nothing yet and a one-point group. -/

namespace Harmony.Voting.Sample

open Harmony.Lib Harmony.Voting
open Harmony.Membership (OwnerAddr Digest Bytes Hlc)

/-- Major type and argument of a CBOR item. -/
def cborHead (major n : ℕ) : Bytes :=
  if n < 24 then [32 * major + n]
  else if n < 2 ^ 8 then (32 * major + 24) :: beBytes 1 n
  else if n < 2 ^ 16 then (32 * major + 25) :: beBytes 2 n
  else if n < 2 ^ 32 then (32 * major + 26) :: beBytes 4 n
  else (32 * major + 27) :: beBytes 8 n

def cborBytes (bytes : Bytes) : Bytes := cborHead 2 bytes.length ++ bytes

/-- The text is ASCII. -/
def cborText (text : String) : Bytes := cborHead 3 text.length ++ text.toList.map Char.toNat

def tierCode : Tier → ℕ
  | .approval => 1
  | .conviction => 2
  | .sortition => 3

def kindCode : PollEventKindCode → String
  | .pollCreate => "cr"
  | .pollOpen => "op"
  | .pollExtend => "xt"
  | .pollClose => "cl"
  | .ballotCast => "bl"
  | .pollResult => "rs"
  | .signal => "sg"
  | .delegate => "dg"
  | .undelegate => "ud"
  | .sortitionSelection => "ss"
  | .deliberationStatement => "ds"
  | .deliberationVote => "dv"
  | .miniPublicDecline => "md"
  | .draftCandidate => "dc"
  | .draftApproval => "da"
  | .sortitionFailed => "sf"
  | .ratificationBallot => "rb"
  | .tallyShare => "ts"

/-- The bytes a signature covers. -/
def sigInputBytes (e : SigInput) : Bytes :=
  cborHead 5 7 ++
    cborText "tg" ++ cborText (String.singleton e.tag) ++
    cborText "vr" ++ cborHead 0 e.version ++
    cborText "tr" ++ cborHead 0 (tierCode e.tier) ++
    cborText "kd" ++ cborText (kindCode e.kind) ++
    cborText "hc" ++ cborHead 5 3 ++
      cborText "w" ++ cborHead 0 e.hlc.wallMs ++
      cborText "l" ++ cborHead 0 e.hlc.logical ++
      cborText "d" ++ cborText e.hlc.deviceId ++
    cborText "ac" ++ cborBytes (beBytes 16 e.actor) ++
    cborText "pd" ++ cborBytes e.payload

def refPayload (pid : PollId) : Bytes :=
  cborHead 5 1 ++ cborText "pi" ++ cborBytes (beBytes 32 pid)

def signalPayload (pid : PollId) (support : Bool) : Bytes :=
  cborHead 5 2 ++ cborText "pr" ++ cborBytes (beBytes 32 pid) ++
    cborText "sp" ++ [if support then 0xf5 else 0xf4]

/-- An event of version 1; its signature plays no part in the log. -/
def event (tier : Tier) (kind : PollEventKindCode) (wallMs : ℕ) (device : String)
    (actor : OwnerAddr) (payload : Bytes) : SignedVotingEvent where
  tag := 'p'
  version := 1
  tier := tier
  kind := kind
  hlc := ⟨wallMs, 0, device⟩
  actor := actor
  payload := payload
  sig := []

/-- A codec with the real signing bytes and no decoder. -/
def bareCodec (sha256 : Bytes → Digest) : Codec where
  signingBytes e := .ok (sigInputBytes e)
  sha256 := sha256
  pollIdRef _ := none
  tier1Config _ := .error "missing field"
  tier2Config _ := .error "missing field"
  tier3Config _ := .error "missing field"
  signal _ := .error "missing field"
  delegate _ := .error "missing field"
  undelegate _ := .error "missing field"
  sortitionSelection _ := .error "missing field"
  deliberationStatement _ := .error "missing field"
  deliberationVote _ := .error "missing field"
  miniPublicDecline _ := .error "missing field"
  draftCandidate _ := .error "missing field"
  draftApproval _ := .error "missing field"
  sortitionFailed _ := .error "missing field"
  ratificationBallot _ := .error "missing field"
  tallyShare _ := .error "missing field"
  tier3PollResult _ := .error "missing field"

/-- No public poll touches the group. -/
def onePointCurve : Curve where
  Point := Unit
  DleqProof := Unit
  zero := ()
  basepoint := ()
  add _ _ := ()
  sub _ _ := ()
  compressPoint _ := 0
  decompressPoint _ := none
  verifyBallotBundle _ _ _ _ := false
  dleqFromBytes _ := none
  dleqVerify _ _ _ _ _ := false
  combineShares _ _ := none
  bsgs _ _ := none

/-- Decodes exactly the payload given. -/
def only {α : Type} (bytes : Bytes) (payload : α) (input : Bytes) : Except String α :=
  if input = bytes then .ok payload else .error "missing field"

/-! ### A conviction poll -/

def convictionConfigBytes : Bytes :=
  cborHead 5 8 ++ cborText "pt" ++ cborText "p" ++ cborText "hl" ++ cborHead 0 1 ++
    cborText "tn" ++ cborHead 0 0 ++ cborText "tx" ++ cborHead 0 0 ++ cborText "bb" ++ cborHead 0 1 ++
    cborText "dl" ++ [0xf4] ++ cborText "ax" ++ cborHead 5 1 ++ cborText "kk" ++ cborText "n" ++
    cborText "el" ++ cborHead 5 1 ++ cborText "mp" ++ cborHead 0 0

def convictionConfig : Tier2PollConfig where
  proposalText := "p"
  halfLifeSeconds := 1
  thresholdMinQ32 := 0
  thresholdMaxQ32 := 0
  beta := 1
  delegationAllowed := false
  autoExec := .none
  eligibility := ⟨0, none, none⟩

def convictionCreate : SignedVotingEvent :=
  event .conviction .pollCreate 1 "a" 1 convictionConfigBytes

/-- `SHA-256(community_id || signing bytes)` of `convictionCreate`. -/
def convictionPoll : PollId := 0x47a8395f4d2667bf1c9046880d6a9b3dd343493280385b4ba43c960fd4e2eb52

/-- Decodes the payloads that name `convictionPoll`; SHA-256 is only asked for its id. -/
def convictionCodec : Codec :=
  { bareCodec (fun _ => convictionPoll) with
    tier2Config := only convictionConfigBytes convictionConfig
    pollIdRef := fun bytes => if bytes = refPayload convictionPoll then some convictionPoll else none
    signal := fun bytes =>
      if bytes = signalPayload convictionPoll true then .ok ⟨convictionPoll, true⟩
      else only (signalPayload convictionPoll false) ⟨convictionPoll, false⟩ bytes }

/-! ### A sortition poll -/

def sortitionConfigBytes : Bytes :=
  cborHead 5 8 ++ cborText "pt" ++ cborText "p" ++ cborText "ss" ++ cborHead 0 20 ++
    cborText "dw" ++ cborHead 0 60 ++ cborText "fw" ++ cborHead 0 60 ++
    cborText "rw" ++ cborHead 0 60 ++ cborText "pm" ++ cborText "pu" ++
    cborText "im" ++ cborText "a" ++
    cborText "el" ++ cborHead 5 1 ++ cborText "mp" ++ cborHead 0 0

/-- A public poll with windows of one minute. -/
def sortitionConfig : Tier3PollConfigPayload where
  proposalText := "p"
  sortitionSize := 20
  deliberationWindowSeconds := 60
  draftingWindowSeconds := 60
  ratificationWindowSeconds := 60
  privacyMode := "pu"
  incentiveMode := "a"
  eligibility := ⟨0, none, none⟩
  retryOf := none
  predecessor := none
  ce := none

/-- Its PollCreate in community 7. -/
def sortitionCreate : SignedVotingEvent :=
  event .sortition .pollCreate 1 "a" 1 sortitionConfigBytes

/-- `SHA-256(community_id || signing bytes)` of `sortitionCreate`. -/
def sortitionPoll : PollId := 0x8c8a133f5b3bba45cd164c1522a32ecdd8a12b76f3ebcc3a7aeee35a47c55113

/-- `{ "pi": pid, "tx": "x" }`. -/
def draftPayload : Bytes :=
  cborHead 5 2 ++ cborText "pi" ++ cborBytes (beBytes 32 sortitionPoll) ++
    cborText "tx" ++ cborText "x"

def draft : SignedVotingEvent := event .sortition .draftCandidate 60002 "b" 2 draftPayload

/-- `SHA-256(signing bytes)` of `draft`. -/
def draftHash : Digest := 0xa08146e778100fc6e7d488e355f672d47e08a3c1b9df05f66e28e5be9d351509

/-- `{ "pi": pid, "ch": hash }`. -/
def approvalPayload : Bytes :=
  cborHead 5 2 ++ cborText "pi" ++ cborBytes (beBytes 32 sortitionPoll) ++
    cborText "ch" ++ cborBytes (beBytes 32 draftHash)

def approval : SignedVotingEvent := event .sortition .draftApproval 60003 "c" 3 approvalPayload

/-- `{ "pi": pid, "sc": [score] }`. -/
def ballotPayload (score : ℕ) : Bytes :=
  cborHead 5 2 ++ cborText "pi" ++ cborBytes (beBytes 32 sortitionPoll) ++
    cborText "sc" ++ cborBytes [score]

def ballot (wallMs score : ℕ) : SignedVotingEvent :=
  event .sortition .ratificationBallot wallMs "b" 2 (ballotPayload score)

/-- What `sha256` is asked for in runs of these events. -/
def sortitionDigests : List (Bytes × Digest) :=
  [(beBytes 16 7 ++ sigInputBytes sortitionCreate.toSigInput, sortitionPoll),
   (sigInputBytes sortitionCreate.toSigInput,
    0x710fed5cf4533a25be7f5f66771c196094407d80e062711961bd3f2182026f1b),
   (beBytes 32 sortitionPoll ++ "status_quo".toUTF8.toList.map UInt8.toNat,
    0x13d3d105b2e3f53b6bf7acef637bec48e4238dfeef81371870b18a76f4170cfc),
   (sigInputBytes draft.toSigInput, draftHash),
   (sigInputBytes approval.toSigInput,
    0xf4c049fe21f03ccf823cfbeeafcbf98c4f147fceba6e010568e31f80d4cbd07b),
   (sigInputBytes (ballot 120002 5).toSigInput,
    0xe68de2a6f4928248247a298c4e043dc43f68cb06d0ed7f0507d807f32b2615d2),
   (sigInputBytes (ballot 120003 0).toSigInput,
    0x44e1b76c05876621ed0d7759489d93f821127dc5c6998a2cf766367d3138f7bd)]

/-- Decodes the payloads of these events. -/
def sortitionCodec : Codec :=
  { bareCodec (fun bytes => ((sortitionDigests.find? (·.1 = bytes)).map Prod.snd).getD 0) with
    tier3Config := only sortitionConfigBytes sortitionConfig
    pollIdRef := fun bytes =>
      if bytes ∈ [draftPayload, approvalPayload, ballotPayload 5, ballotPayload 0] then
        some sortitionPoll
      else none
    draftCandidate := only draftPayload ⟨sortitionPoll, "x"⟩
    draftApproval := only approvalPayload ⟨sortitionPoll, draftHash⟩
    ratificationBallot := fun bytes =>
      if bytes = ballotPayload 5 then .ok ⟨sortitionPoll, some [5], none, none, none⟩
      else only (ballotPayload 0) ⟨sortitionPoll, some [0], none, none, none⟩ bytes }

end Harmony.Voting.Sample
