import Harmony.Lib.Hex
import Harmony.Lib.TreeMap
import Harmony.Membership.Types
import Harmony.Reconcile.ChunkIndex

/-! The signed events of a channel and what is folded from them: the reaction summary
of a message, the catch-up watermark of each lane, and the keys under which events are
reconciled. SHA-256 and the flags of a content id are parameters. -/

namespace Harmony.Channel

open Harmony.Lib Harmony.Reconcile
open Harmony.Membership (OwnerAddr SpaceId ChannelId)

abbrev MessageId := ℕ

/-- `Hlc`, at the widths of a reconcile key. -/
structure Hlc where
  wallMs : Fin (2 ^ 64)
  logical : Fin (2 ^ 32)
  deviceId : String
deriving DecidableEq

namespace Hlc

def key (h : Hlc) : Fin (2 ^ 64) ×ₗ Fin (2 ^ 32) ×ₗ String :=
  toLex (h.wallMs, toLex (h.logical, h.deviceId))

theorem key_injective : Function.Injective key := by
  rintro ⟨_, _, _⟩ ⟨_, _, _⟩ h
  simpa [key] using h

instance : LinearOrder Hlc := LinearOrder.lift' key key_injective

def isStrictlyNewerThan (a b : Hlc) : Bool := b < a

@[simp] theorem isStrictlyNewerThan_iff {a b : Hlc} : a.isStrictlyNewerThan b = true ↔ b < a := by
  simp [isStrictlyNewerThan]

theorem wallMs_mono {a b : Hlc} (h : a ≤ b) : a.wallMs ≤ b.wallMs := by
  rcases Prod.Lex.le_iff.mp (show a.key ≤ b.key from h) with h | h
  · exact h.le
  · exact h.1.le

end Hlc

structure ChannelAttachment where
  cid : ByteArr 32
  mime : String
  name : String
  size : Fin (2 ^ 64)
deriving DecidableEq

structure ChannelPostSignedSet where
  at_ : Hlc
  author : OwnerAddr
  body : String
  channelId : ChannelId
  communityId : SpaceId
  id : MessageId
  contentKind : Byte
  mentions : Option (List OwnerAddr) := none
  attachments : Option (List ChannelAttachment) := none
  replyTo : Option MessageId := none
deriving DecidableEq

structure ChannelReactSignedSet where
  add : Bool
  at_ : Hlc
  author : OwnerAddr
  channelId : ChannelId
  communityId : SpaceId
  emojiAttachment : Option ChannelAttachment := none
  emoji : String
  target : MessageId
deriving DecidableEq

inductive SignedSet where
  | post (fields : ChannelPostSignedSet)
  | react (fields : ChannelReactSignedSet)
deriving DecidableEq

/-- An event carries the fields of its signed set, and the signature over them. -/
structure SignedChannelEvent where
  signed : SignedSet
  sig : ByteArr 64
deriving DecidableEq

namespace SignedChannelEvent

def communityId (e : SignedChannelEvent) : SpaceId :=
  match e.signed with
  | .post f => f.communityId
  | .react f => f.communityId

def channelId (e : SignedChannelEvent) : ChannelId :=
  match e.signed with
  | .post f => f.channelId
  | .react f => f.channelId

def author (e : SignedChannelEvent) : OwnerAddr :=
  match e.signed with
  | .post f => f.author
  | .react f => f.author

def at_ (e : SignedChannelEvent) : Hlc :=
  match e.signed with
  | .post f => f.at_
  | .react f => f.at_

end SignedChannelEvent

/-! ### Reactions -/

abbrev ReactionAuthorCell := Hlc × Bool

structure ReactionKeyState where
  descriptor : Option ChannelAttachment := none
  authors : BTreeMap OwnerAddr ReactionAuthorCell := ∅

abbrev ReactionEmojiMap := BTreeMap String ReactionKeyState

/-- The leading NUL keeps the key apart from any well-formed emoji. -/
def customEmojiKey (cid : ByteArr 32) : String :=
  String.ofList (Char.ofNat 0 :: "cid:".toList ++ hexEncode cid.1)

theorem customEmojiKey_injective : Function.Injective customEmojiKey := by
  intro a b h
  have hl := String.ofList_injective h
  exact Subtype.ext (hexEncode_injective (List.append_cancel_left hl))

def ChannelReactSignedSet.groupingKey (f : ChannelReactSignedSet) : String :=
  match f.emojiAttachment with
  | some att => customEmojiKey att.cid
  | none => f.emoji

structure ReactionIndex where
  byTarget : BTreeMap MessageId ReactionEmojiMap := ∅

/-- What a reaction does to the state of its key: the first descriptor is retained,
and only the strictly newest stamp of an author wins. -/
def ReactionKeyState.apply (state : ReactionKeyState) (f : ChannelReactSignedSet) :
    ReactionKeyState where
  descriptor := if state.descriptor.isNone then f.emojiAttachment else state.descriptor
  authors :=
    match state.authors[f.author]? with
    | some (prevHlc, _) =>
      if f.at_.isStrictlyNewerThan prevHlc then state.authors.insert f.author (f.at_, f.add)
      else state.authors
    | none => state.authors.insert f.author (f.at_, f.add)

def ReactionIndex.apply (ix : ReactionIndex) (event : SignedChannelEvent) : ReactionIndex :=
  match event.signed with
  | .post _ => ix
  | .react f => ⟨ix.byTarget.alter f.target fun byKey => some ((byKey.getD ∅).alter f.groupingKey
      fun state => some ((state.getD {}).apply f))⟩

/-- `ReactionDto`; addresses and content ids stand for their hex text. -/
structure ReactionDto where
  emoji : String
  count : ℕ
  mine : Bool
  reactors : List OwnerAddr
  emojiCid : Option (ByteArr 32)
  emojiSize : Option (Fin (2 ^ 64))
  encrypted : Option Bool
deriving DecidableEq

/-- The summary of one key, or nothing where nobody reacts with it now. -/
def ReactionKeyState.dto (encryptedFlag : ByteArr 32 → Bool) (me : OwnerAddr) (key : String)
    (state : ReactionKeyState) : Option ReactionDto :=
  let present := (state.authors.toList.filter fun a => a.2.2).map Prod.fst
  if present.isEmpty then none
  else
    let common : ReactionDto := ⟨key, present.length % 2 ^ 32, present.contains me, present, none,
      none, none⟩
    match state.descriptor with
    | some att => some { common with
        emoji := "", emojiCid := some att.cid, emojiSize := some att.size,
        encrypted := some (encryptedFlag att.cid) }
    | none => some common

def ReactionIndex.reactionsFor (encryptedFlag : ByteArr 32 → Bool) (ix : ReactionIndex)
    (target : MessageId) (me : OwnerAddr) : List ReactionDto :=
  match ix.byTarget[target]? with
  | none => []
  | some byKey => byKey.toList.filterMap fun p => p.2.dto encryptedFlag me p.1

/-! ### Watermarks and keys -/

/-- `device_id`s belong to an author: a lane is the pair. -/
abbrev Lane := OwnerAddr ×ₗ String

abbrev WatermarkVector := BTreeMap Lane (Fin (2 ^ 64) ×ₗ Fin (2 ^ 32))

def SignedChannelEvent.lane (e : SignedChannelEvent) : Lane := toLex (e.author, e.at_.deviceId)

def Hlc.mark (h : Hlc) : Fin (2 ^ 64) ×ₗ Fin (2 ^ 32) := toLex (h.wallMs, h.logical)

def raiseWatermark (idx : WatermarkVector) (author : OwnerAddr) (at_ : Hlc) : WatermarkVector :=
  idx.alter (toLex (author, at_.deviceId)) fun entry =>
    let entry := entry.getD (toLex (0, 0))
    some (if entry < at_.mark then at_.mark else entry)

section Hash

variable (sha256 : SignedSet → ByteArr 32)

/-- The digest of the canonical signed set: what the signature covers. -/
def eventElementHash (event : SignedChannelEvent) : ByteArr 32 := sha256 event.signed

def reconcileKey (e : SignedChannelEvent) : ReconcileKey :=
  ⟨e.at_.wallMs, e.at_.logical, e.at_.deviceId, eventElementHash sha256 e⟩

end Hash

end Harmony.Channel
