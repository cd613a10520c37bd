import Harmony.Channel.Events
import Harmony.Lib.Checks
import Harmony.Membership.Materialize
import Harmony.Owner.Types

/-! What a channel event must pass before it reaches a log: the caps on its fields, the
replay tracker, and the membership of its author as of its stamp. The signature check is
a parameter. -/

namespace Harmony.Channel

open Harmony.Lib
open Harmony.Membership (OwnerAddr SpaceId ChannelId ChannelInfo PubKey Crypto
  SignedMembershipEvent MaterializedMembership materializeWithNow saturatingAdd rejectFuture
  maxForwardSkewMs)

def maxMentions : ℕ := 64
def maxAttachments : ℕ := 16
def maxAttachmentFieldBytes : ℕ := 255
def maxAttachmentSize : ℕ := 1024 * 1024 * 1024
def maxReactionEmojiBytes : ℕ := 32
def maxCustomEmojiBytes : ℕ := 256 * 1024

def Hlc.widen (h : Hlc) : Membership.Hlc := ⟨h.wallMs, h.logical, h.deviceId⟩

/-- The texts of `NotAuthorized`, by what they print. -/
inductive Denial where
  | channelMissing (channelId : ChannelId) (at_ : Hlc)
  | channelDeleted (deletedAt clamped : Membership.Hlc) (at_ : Hlc)
  | notJoined (author : OwnerAddr) (at_ : Hlc)
  | powerBelow (authorPower writePower : ℕ)
deriving DecidableEq

/-- The variants of `ChannelEventError` raised behind the decryption. -/
inductive ChannelEventError where
  | badSignature
  | misroute (expectedCommunity : SpaceId) (expectedChannel : ChannelId) (gotCommunity : SpaceId)
      (gotChannel : ChannelId)
  | unknownAuthor (author : OwnerAddr)
  | replay (author : OwnerAddr) (deviceId : String) (at_ : Hlc)
  | notAuthorized (why : Denial)
  | tooManyMentions (count max : ℕ)
  | tooManyAttachments (count max : ℕ)
  | emojiTooLarge (len max : ℕ)
  | emojiContainsNul
  | customEmojiTooLarge (size max : ℕ)
  | customEmojiNotImage (mime : String)
  | customEmojiWithUnicode
  | attachmentFieldTooLong (max : ℕ)
  | attachmentTooLarge (size max : ℕ)
  | futureSkew (wallMs nowMs toleranceMs : ℕ)
deriving DecidableEq

/-! ### The replay tracker -/

/-- The newest stamp seen of each author and device in a channel. -/
structure ChannelLogReplayTracker where
  lastSeen : BTreeMap (ChannelId ×ₗ Lane) Hlc := ∅

def SignedChannelEvent.trackerKey (e : SignedChannelEvent) : ChannelId ×ₗ Lane :=
  toLex (e.channelId, e.lane)

namespace ChannelLogReplayTracker

def wouldAccept (tracker : ChannelLogReplayTracker) (event : SignedChannelEvent) :
    Except ChannelEventError Unit :=
  match tracker.lastSeen[event.trackerKey]? with
  | some prev => ensure (event.at_.isStrictlyNewerThan prev)
      (.replay event.author event.at_.deviceId event.at_)
  | none => .ok ()

def record (tracker : ChannelLogReplayTracker) (event : SignedChannelEvent) :
    ChannelLogReplayTracker :=
  match tracker.lastSeen[event.trackerKey]? with
  | some prev =>
    if event.at_.isStrictlyNewerThan prev then
      ⟨tracker.lastSeen.insert event.trackerKey event.at_⟩
    else tracker
  | none => ⟨tracker.lastSeen.insert event.trackerKey event.at_⟩

def checkAndAdvance (tracker : ChannelLogReplayTracker) (event : SignedChannelEvent) :
    Except ChannelEventError ChannelLogReplayTracker := do
  tracker.wouldAccept event
  pure (tracker.record event)

def Covers (tracker : ChannelLogReplayTracker) (event : SignedChannelEvent) : Prop :=
  ∃ head, tracker.lastSeen[event.trackerKey]? = some head ∧ event.at_ ≤ head

variable {tracker : ChannelLogReplayTracker} {e e' : SignedChannelEvent}

theorem wouldAccept_eq_ok {u : Unit} : tracker.wouldAccept e = .ok u ↔ ¬tracker.Covers e := by
  unfold wouldAccept Covers
  cases tracker.lastSeen[e.trackerKey]? with
  | none => simp
  | some head => simp

theorem record_self (tracker : ChannelLogReplayTracker) (e : SignedChannelEvent) :
    (tracker.record e).Covers e := by
  unfold record Covers
  cases h : tracker.lastSeen[e.trackerKey]? with
  | none => exact ⟨e.at_, by simp, le_rfl⟩
  | some head =>
    dsimp only
    split_ifs with hnew
    · exact ⟨e.at_, by simp, le_rfl⟩
    · exact ⟨head, h, by simpa using hnew⟩

theorem Covers.record (h : tracker.Covers e') (e : SignedChannelEvent) :
    (tracker.record e).Covers e' := by
  obtain ⟨head, hhead, hle⟩ := h
  have hinsert : ∀ prev, tracker.lastSeen[e.trackerKey]? = some prev → prev < e.at_ →
      (⟨tracker.lastSeen.insert e.trackerKey e.at_⟩ : ChannelLogReplayTracker).Covers e' := by
    intro prev hprev hlt
    unfold Covers
    rw [BTreeMap.get_insert]
    by_cases hk : e.trackerKey = e'.trackerKey
    · rw [← hk, hprev] at hhead
      cases hhead
      exact ⟨e.at_, if_pos hk, hle.trans hlt.le⟩
    · exact ⟨head, by rw [if_neg hk, hhead], hle⟩
  unfold ChannelLogReplayTracker.record
  cases hprev : tracker.lastSeen[e.trackerKey]? with
  | none =>
    have hk : e.trackerKey ≠ e'.trackerKey := by
      intro hk
      rw [hk, hhead] at hprev
      cases hprev
    refine ⟨head, ?_, hle⟩
    rw [BTreeMap.get_insert, if_neg hk, hhead]
  | some prev =>
    dsimp only
    split_ifs with hnew
    · exact hinsert prev hprev (by simpa using hnew)
    · exact ⟨head, hhead, hle⟩

theorem covers_foldl_record (events : List SignedChannelEvent) (h : tracker.Covers e ∨ e ∈ events) :
    (events.foldl record tracker).Covers e := by
  induction events generalizing tracker with
  | nil => exact h.resolve_right (by simp)
  | cons a events ih =>
    refine ih ?_
    rcases h with h | h
    · exact Or.inl (h.record a)
    · rcases List.mem_cons.mp h with rfl | h
      · exact Or.inl (tracker.record_self e)
      · exact Or.inr h

theorem checkAndAdvance_eq_ok {tracker' : ChannelLogReplayTracker} :
    tracker.checkAndAdvance e = .ok tracker' ↔ ¬tracker.Covers e ∧ tracker.record e = tracker' := by
  simp [checkAndAdvance, wouldAccept_eq_ok]

end ChannelLogReplayTracker

/-! ### The membership as of a stamp -/

structure CommunityStateSnapshot where
  channel : Option ChannelInfo
  authorPower : Option ℕ
  authorEnrolledKeys : Finset PubKey

/-- `prior_state_at_hlc`: the events strictly before the stamp, aged to its wall. -/
def priorStateAtHlc (C : Crypto) (allEvents : List SignedMembershipEvent)
    (targetHlc : Membership.Hlc) (adminAddr : OwnerAddr) : MaterializedMembership :=
  materializeWithNow C (allEvents.filter fun e => e.hlc < targetHlc) adminAddr
    (some targetHlc.wallMs)

/-- `CommunityStateAtHlcAdapter::snapshot_at`, over the membership log of the node. -/
def snapshotAt (C : Crypto) (adminAddr : OwnerAddr) (allEvents : List SignedMembershipEvent)
    (channelId : ChannelId) (author : OwnerAddr) (at_ : Hlc) : CommunityStateSnapshot :=
  let state := priorStateAtHlc C allEvents at_.widen adminAddr
  { channel := state.channels[channelId]?
    authorPower := state.members[author]?.bind fun member =>
      if member.status = .joined then some (state.powerLevels[author]?.getD 0) else none
    authorEnrolledKeys := (state.members[author]?.map (·.enrolledDeviceKeys)).getD ∅ }

/-! ### The checks -/

/-- What every descriptor of a blob is held to. -/
def checkDescriptor (att : ChannelAttachment) : Except ChannelEventError Unit :=
  ensure (att.name.utf8ByteSize ≤ maxAttachmentFieldBytes ∧
    att.mime.utf8ByteSize ≤ maxAttachmentFieldBytes) (.attachmentFieldTooLong maxAttachmentFieldBytes)

def checkAttachment (att : ChannelAttachment) : Except ChannelEventError Unit := do
  checkDescriptor att
  ensure (att.size.val ≤ maxAttachmentSize) (.attachmentTooLarge att.size maxAttachmentSize)

/-- The first layer of the clock bound; a receiver without a clock applies all. -/
def checkClock (event : SignedChannelEvent) (nowMs : Option ℕ) : Except ChannelEventError Unit :=
  match nowMs with
  | none => .ok ()
  | some now => ensure (!rejectFuture event.at_.wallMs now maxForwardSkewMs)
      (.futureSkew event.at_.wallMs now maxForwardSkewMs)

def checkPost (event : SignedChannelEvent) : Except ChannelEventError Unit :=
  match event.signed with
  | .post f => do
    let mentions := f.mentions.getD []
    ensure (mentions.length ≤ maxMentions) (.tooManyMentions mentions.length maxMentions)
    let attachments := f.attachments.getD []
    ensure (attachments.length ≤ maxAttachments)
      (.tooManyAttachments attachments.length maxAttachments)
    attachments.forM checkAttachment
  | .react _ => .ok ()

def checkRoute (event : SignedChannelEvent) (communityId : SpaceId) (channelId : ChannelId) :
    Except ChannelEventError Unit :=
  ensure (event.communityId = communityId ∧ event.channelId = channelId)
    (.misroute communityId channelId event.communityId event.channelId)

/-- A custom emoji excludes a unicode one, and must be an image. -/
def checkReact (event : SignedChannelEvent) : Except ChannelEventError Unit :=
  match event.signed with
  | .post _ => .ok ()
  | .react f => do
    ensure (f.emoji.utf8ByteSize ≤ maxReactionEmojiBytes)
      (.emojiTooLarge f.emoji.utf8ByteSize maxReactionEmojiBytes)
    ensure (Char.ofNat 0 ∉ f.emoji.toList) .emojiContainsNul
    match f.emojiAttachment with
    | none => .ok ()
    | some att =>
      ensure (f.emoji = "") .customEmojiWithUnicode
      checkDescriptor att
      ensure (att.size.val ≤ maxCustomEmojiBytes) (.customEmojiTooLarge att.size maxCustomEmojiBytes)
      ensure ("image/".toList <+: att.mime.toList) (.customEmojiNotImage att.mime)

/-- A deletion in the future of the receiver is cut down to its horizon. -/
def effectiveDeletion (nowMs : Option ℕ) (deletedAt : Membership.Hlc) : Membership.Hlc :=
  match nowMs with
  | none => deletedAt
  | some now => { deletedAt with
      wallMs := min deletedAt.wallMs (saturatingAdd now maxForwardSkewMs) }

/-- A channel that was deleted takes what is not after the deletion. -/
def checkDeletion (event : SignedChannelEvent) (info : ChannelInfo) (nowMs : Option ℕ) :
    Except ChannelEventError Unit :=
  match info.deletedAt with
  | none => .ok ()
  | some deletedAt =>
    ensure (!Owner.isStrictlyNewerThan event.at_.widen (effectiveDeletion nowMs deletedAt))
      (.notAuthorized (.channelDeleted deletedAt (effectiveDeletion nowMs deletedAt) event.at_))

def checkAccess (event : SignedChannelEvent) (snapshot : CommunityStateSnapshot)
    (nowMs : Option ℕ) : Except ChannelEventError Unit :=
  match snapshot.channel with
  | none => .error (.notAuthorized (.channelMissing event.channelId event.at_))
  | some info => do
    checkDeletion event info nowMs
    match snapshot.authorPower with
    | none => .error (.notAuthorized (.notJoined event.author event.at_))
    | some power =>
      ensure (info.writePower ≤ power) (.notAuthorized (.powerBelow power info.writePower))

section Verify

-- a key, the signed set and a signature over it
variable (verifyStrict : PubKey → SignedSet → ByteArr 64 → Bool)

def checkSignature (event : SignedChannelEvent) (snapshot : CommunityStateSnapshot) :
    Except ChannelEventError Unit := do
  ensure (snapshot.authorEnrolledKeys ≠ ∅) (.unknownAuthor event.author)
  ensure (∃ key ∈ snapshot.authorEnrolledKeys, verifyStrict key event.signed event.sig)
    .badSignature

/-- The tracker advances only behind every check. -/
def verifyChannelEventAt (event : SignedChannelEvent) (communityId : SpaceId)
    (channelId : ChannelId) (snapshot : CommunityStateSnapshot)
    (tracker : ChannelLogReplayTracker) (nowMs : Option ℕ) :
    Except ChannelEventError ChannelLogReplayTracker := do
  checkClock event nowMs
  checkPost event
  checkRoute event communityId channelId
  checkReact event
  tracker.wouldAccept event
  checkAccess event snapshot nowMs
  checkSignature verifyStrict event snapshot
  pure (tracker.record event)

/-! ### What passed -/

def ChannelAttachment.Small (att : ChannelAttachment) : Prop :=
  att.name.utf8ByteSize ≤ maxAttachmentFieldBytes ∧ att.mime.utf8ByteSize ≤ maxAttachmentFieldBytes

def SignedChannelEvent.WithinCaps (event : SignedChannelEvent) : Prop :=
  match event.signed with
  | .post f => (f.mentions.getD []).length ≤ maxMentions ∧
      (f.attachments.getD []).length ≤ maxAttachments ∧
      ∀ att ∈ f.attachments.getD [], att.Small ∧ att.size.val ≤ maxAttachmentSize
  | .react f => f.emoji.utf8ByteSize ≤ maxReactionEmojiBytes ∧ Char.ofNat 0 ∉ f.emoji.toList ∧
      ∀ att, f.emojiAttachment = some att → f.emoji = "" ∧ att.Small ∧
        att.size.val ≤ maxCustomEmojiBytes ∧ "image/".toList <+: att.mime.toList

/-- The author may write: the channel is there and not deleted before the stamp, and the
author has joined with power enough. -/
structure MayWrite (snapshot : CommunityStateSnapshot) (nowMs : Option ℕ)
    (event : SignedChannelEvent) (info : ChannelInfo) (power : ℕ) : Prop where
  channel : snapshot.channel = some info
  joined : snapshot.authorPower = some power
  power : info.writePower ≤ power
  open_ : ∀ deletedAt, info.deletedAt = some deletedAt →
    event.at_.widen ≤ effectiveDeletion nowMs deletedAt

structure Admitted (communityId : SpaceId) (channelId : ChannelId)
    (snapshot : CommunityStateSnapshot) (nowMs : Option ℕ) (event : SignedChannelEvent) : Prop where
  community : event.communityId = communityId
  channel : event.channelId = channelId
  timely : ∀ now, nowMs = some now → event.at_.wallMs.val ≤ now + maxForwardSkewMs
  caps : event.WithinCaps
  access : ∃ info power, MayWrite snapshot nowMs event info power
  signed : ∃ key ∈ snapshot.authorEnrolledKeys, verifyStrict key event.signed event.sig

variable {verifyStrict} {event : SignedChannelEvent} {snapshot : CommunityStateSnapshot}
  {nowMs : Option ℕ} {u : Unit}

theorem checkDescriptor_eq_ok {att : ChannelAttachment} :
    checkDescriptor att = .ok u ↔ att.Small := by
  simp [checkDescriptor, ChannelAttachment.Small]

theorem checkClock_eq_ok : checkClock event nowMs = .ok u ↔
    ∀ now, nowMs = some now → event.at_.wallMs.val ≤ now + maxForwardSkewMs := by
  cases nowMs with
  | none => simp [checkClock]
  | some now =>
    have hsub : (event.at_.wallMs.val - now ≤ maxForwardSkewMs) ↔
        event.at_.wallMs.val ≤ now + maxForwardSkewMs := by omega
    simp [checkClock, rejectFuture, hsub]

theorem checkPost_checkReact_eq_ok :
    checkPost event = .ok u ∧ checkReact event = .ok u ↔ event.WithinCaps := by
  unfold checkPost checkReact SignedChannelEvent.WithinCaps
  cases event.signed with
  | post f => simp [checkAttachment, checkDescriptor_eq_ok]
  | react f =>
    cases hatt : f.emojiAttachment with
    | none => simp [hatt]
    | some att => simp [hatt, checkDescriptor_eq_ok]

theorem checkDeletion_eq_ok {info : ChannelInfo} : checkDeletion event info nowMs = .ok u ↔
    ∀ deletedAt, info.deletedAt = some deletedAt →
      event.at_.widen ≤ effectiveDeletion nowMs deletedAt := by
  unfold checkDeletion
  cases info.deletedAt with
  | none => simp
  | some deletedAt => simp [Owner.isStrictlyNewerThan]

theorem checkAccess_eq_ok : checkAccess event snapshot nowMs = .ok u ↔
    ∃ info power, MayWrite snapshot nowMs event info power := by
  constructor
  · intro h
    unfold checkAccess at h
    split at h
    · cases h
    · rename_i info hchannel
      rw [bind_eq_ok] at h
      obtain ⟨_, hdel, h⟩ := h
      split at h
      · cases h
      · rename_i power hpower
        exact ⟨info, power, hchannel, hpower, by simpa using h, checkDeletion_eq_ok.mp hdel⟩
  · rintro ⟨info, power, h⟩
    unfold checkAccess
    rw [h.channel]
    dsimp only
    rw [h.joined, bind_eq_ok]
    exact ⟨(), checkDeletion_eq_ok.mpr h.open_, by simpa using h.power⟩

theorem checkSignature_eq_ok : checkSignature verifyStrict event snapshot = .ok u ↔
    ∃ key ∈ snapshot.authorEnrolledKeys, verifyStrict key event.signed event.sig := by
  simp only [checkSignature, bind_eq_ok, ensure_eq_ok, decide_eq_true_eq]
  constructor
  · rintro ⟨-, -, h⟩
    exact h
  · rintro ⟨key, hkey, h⟩
    exact ⟨(), Finset.ne_empty_of_mem hkey, key, hkey, h⟩

/-- An event is accepted if it is admitted and newer than the head of its lane. -/
theorem verifyChannelEventAt_eq_ok {communityId : SpaceId} {channelId : ChannelId}
    {tracker tracker' : ChannelLogReplayTracker} :
    verifyChannelEventAt verifyStrict event communityId channelId snapshot tracker nowMs =
        .ok tracker' ↔
      Admitted verifyStrict communityId channelId snapshot nowMs event ∧ ¬tracker.Covers event ∧
        tracker.record event = tracker' := by
  simp only [verifyChannelEventAt, checkRoute, bind_eq_ok, pure_eq_ok, ensure_eq_ok,
    decide_eq_true_eq, checkClock_eq_ok, checkAccess_eq_ok, checkSignature_eq_ok,
    ChannelLogReplayTracker.wouldAccept_eq_ok]
  constructor
  · rintro ⟨_, htime, _, hpost, _, ⟨hc, hch⟩, _, hreact, _, hfresh, _, haccess, _, hsig, hrec⟩
    exact ⟨⟨hc, hch, htime, checkPost_checkReact_eq_ok.mp ⟨hpost, hreact⟩, haccess, hsig⟩, hfresh,
      hrec⟩
  · rintro ⟨h, hfresh, hrec⟩
    obtain ⟨hpost, hreact⟩ := checkPost_checkReact_eq_ok (u := ()).mpr h.caps
    exact ⟨(), h.timely, (), hpost, (), ⟨h.community, h.channel⟩, (), hreact, (), hfresh, (),
      h.access, (), h.signed, hrec⟩

end Verify

end Harmony.Channel
