import Harmony.Lib.Keyed
import Harmony.Owner.Types

/-! The kernel under fleet sync: replay trackers, the tick of a stamp, the debounce latch
and the retry backoff, and the `Notify` that wakes the task. They come from crates of their
own, so they are a parameter here, with the part of their documentation that fleet sync
relies on. -/

namespace Harmony.FleetSync

open Harmony.Lib Std
open Harmony.Membership (Hlc)

inductive Admission (T : Type) where
  | echo
  | duplicate
  | accept (ticket : T)

inductive PublishOutcome where
  | succeeded
  | failed
deriving DecidableEq

inductive DirtySignal where
  | restore
  | spent
deriving DecidableEq

structure CrdtSync where
  Tracker : Type
  Ticket : Type
  /-- a tracker of a device with the stamps it accepted -/
  restore : String → BTreeMap String Hlc → Tracker
  own : Tracker → String
  accepted : Tracker → BTreeMap String Hlc
  admitStamp : Tracker → String → Hlc → Admission Ticket
  commit : Tracker → Ticket → Tracker
  observeLocal : Tracker → Hlc → Tracker
  /-- `HlcTick::next`: the wall time and the counter of the next stamp -/
  nextTick : Option (ℕ × ℕ) → ℕ → ℕ × ℕ
  /-- `MonotoneMap::observe` -/
  observe : BTreeMap String Hlc → String → Hlc → BTreeMap String Hlc
  Latch : Type
  Claim : Type
  newLatch : Latch
  deadline : Latch → Option ℕ
  markDirty : Latch → ℕ → Latch
  onDeadline : Latch → Bool → Latch × Claim
  onFlush : Latch → Bool → Latch × Claim
  onShutdown : Latch → Bool → Latch × Claim
  shouldPublish : Claim → Bool
  settle : Claim → PublishOutcome → DirtySignal
  Retry : Type
  newRetry : Retry
  pendingAt : Retry → Option ℕ
  onFailure : Retry → ℕ → Retry
  clear : Retry → ℕ → Retry
  /-- a `Notify` with the future that the task keeps pinned -/
  Notify : Type
  newNotify : Notify
  notifyOne : Notify → Notify
  /-- whether the future is ready, and what the poll leaves; a ready one is replaced -/
  poll : Notify → Bool × Notify

def Newer (m : BTreeMap String Hlc) (d : String) (h : Hlc) : Prop :=
  ∀ g, m[d]? = some g → g < h

namespace CrdtSync

/-- What is documented of stamps and trackers. -/
structure TracksStamps (K : CrdtSync) : Prop where
  own_restore : ∀ d m, K.own (K.restore d m) = d
  own_commit : ∀ t k, K.own (K.commit t k) = K.own t
  own_observeLocal : ∀ t h, K.own (K.observeLocal t h) = K.own t
  accepted_restore : ∀ d m, K.accepted (K.restore d m) = m
  /-- only stamps strictly newer than the stored one, and never one's own -/
  admit_accept : ∀ t d h k, K.admitStamp t d h = .accept k → d ≠ K.own t ∧ Newer (K.accepted t) d h
  admit_duplicate : ∀ t d h, K.admitStamp t d h = .duplicate → ∃ g, (K.accepted t)[d]? = some g ∧ h ≤ g
  /-- a ticket stores the stamp it was given for -/
  accepted_commit : ∀ t d h k, K.admitStamp t d h = .accept k → ∀ t', Newer (K.accepted t') d h →
    K.accepted (K.commit t' k) = (K.accepted t').insert d h
  accepted_observeLocal : ∀ t h, Newer (K.accepted t) h.deviceId h →
    K.accepted (K.observeLocal t h) = (K.accepted t).insert h.deviceId h
  nextTick_newer : ∀ w l wallMs, toLex (w, l) < toLex (K.nextTick (some (w, l)) wallMs)
  /-- a stamp is replaced by a strictly newer one -/
  observe_get : ∀ m d h a, (K.observe m d h)[a]? =
    if d = a then some (m[d]?.elim h fun g => if g < h then h else g) else m[a]?

/-- What is documented of the two schedules and the `Notify`. -/
structure Schedules (K : CrdtSync) : Prop where
  deadline_markDirty : ∀ l now, (K.deadline (K.markDirty l now)).isSome
  /-- a claim gives back the dirty signal that it took if and only if the publish failed -/
  settle_onDeadline : ∀ l flag, K.settle (K.onDeadline l flag).2 .failed = .restore ↔ flag = true
  settle_onFlush : ∀ l flag, K.settle (K.onFlush l flag).2 .failed = .restore ↔ flag = true
  shouldPublish_onShutdown : ∀ l flag, K.shouldPublish (K.onShutdown l flag).2 = flag
  pendingAt_onFailure : ∀ r now, (K.pendingAt (K.onFailure r now)).isSome
  /-- a notification wakes the future that waits, or the next one -/
  poll_notifyOne : ∀ n, (K.poll (K.notifyOne n)).1 = true

end CrdtSync

/-! ## A kernel that does what is documented -/

structure Claimed where
  publish : Bool
  dirty : Bool

def admitNewer (t : String × BTreeMap String Hlc) (d : String) (h : Hlc) : Admission (String × Hlc) :=
  if d = t.1 then .echo else if t.2[d]?.any (h ≤ ·) then .duplicate else .accept (d, h)

/-- The pinned future: not polled yet, registered, or woken. -/
inductive Waiter where
  | fresh
  | waiting
  | woken

/-- One permit at most, and the pinned future. -/
structure PinnedNotify where
  permit : Bool := false
  waiter : Waiter := .fresh

def PinnedNotify.notifyOne (n : PinnedNotify) : PinnedNotify :=
  match n.waiter with
  | .waiting => { n with waiter := .woken }
  | _ => { n with permit := true }

def PinnedNotify.poll (n : PinnedNotify) : Bool × PinnedNotify :=
  match n.waiter with
  | .woken => (true, { n with waiter := .fresh })
  | .waiting => (false, n)
  | .fresh => if n.permit then (true, { permit := false }) else (false, { n with waiter := .waiting })

/-- Stamps tick as a hybrid clock does, the latch holds its deadline and the backoff its
next attempt. -/
def kernel : CrdtSync where
  Tracker := String × BTreeMap String Hlc
  Ticket := String × Hlc
  restore d m := (d, m)
  own := Prod.fst
  accepted := Prod.snd
  admitStamp := admitNewer
  commit t k := (t.1, t.2.insert k.1 k.2)
  observeLocal t h := (t.1, t.2.insert h.deviceId h)
  nextTick last wallMs :=
    match last with
    | none => (wallMs, 0)
    | some (w, l) => if w < wallMs then (wallMs, 0) else (w, l + 1)
  observe m d h := m.alter d fun g => some (g.elim h fun g => if g < h then h else g)
  Latch := Option ℕ
  Claim := Claimed
  newLatch := none
  deadline := id
  markDirty _ now := some (now + 250)
  onDeadline _ flag := (none, ⟨true, flag⟩)
  onFlush _ flag := (none, ⟨true, flag⟩)
  onShutdown _ flag := (none, ⟨flag, flag⟩)
  shouldPublish := Claimed.publish
  settle c o := if o = .failed ∧ c.dirty then .restore else .spent
  Retry := Option ℕ
  newRetry := none
  pendingAt := id
  onFailure _ now := some (now + 30000)
  clear _ _ := none
  Notify := PinnedNotify
  newNotify := {}
  notifyOne := PinnedNotify.notifyOne
  poll := PinnedNotify.poll

theorem kernel_tracksStamps : kernel.TracksStamps where
  own_restore _ _ := rfl
  own_commit _ _ := rfl
  own_observeLocal _ _ := rfl
  accepted_restore _ _ := rfl
  admit_accept t d h k hk := by
    replace hk : admitNewer t d h = .accept k := hk
    unfold admitNewer at hk
    split_ifs at hk with hown hdup
    refine ⟨hown, fun g hg => ?_⟩
    change t.2[d]? = some g at hg
    rw [hg] at hdup
    simpa using hdup
  admit_duplicate t d h hk := by
    replace hk : admitNewer t d h = .duplicate := hk
    unfold admitNewer at hk
    split_ifs at hk with hown hdup
    obtain ⟨g, hg, hle⟩ := (Option.any_eq_true _ _).mp hdup
    exact ⟨g, hg, of_decide_eq_true hle⟩
  accepted_commit t d h k hk t' _ := by
    replace hk : admitNewer t d h = .accept k := hk
    unfold admitNewer at hk
    split_ifs at hk
    cases hk
    rfl
  accepted_observeLocal _ _ _ := rfl
  nextTick_newer w l wallMs := by
    change toLex (w, l) < toLex (if w < wallMs then (wallMs, 0) else (w, l + 1))
    split_ifs with hw
    · exact Prod.Lex.toLex_lt_toLex.mpr (Or.inl hw)
    · exact Prod.Lex.toLex_lt_toLex.mpr (Or.inr ⟨rfl, Nat.lt_succ_self l⟩)
  observe_get m d h a := by
    refine (BTreeMap.get_alter m d a _).trans ?_
    split_ifs with hda
    · rw [hda]
    · rfl

theorem kernel_schedules : kernel.Schedules where
  deadline_markDirty _ _ := rfl
  settle_onDeadline _ flag := by cases flag <;> simp [kernel]
  settle_onFlush _ flag := by cases flag <;> simp [kernel]
  shouldPublish_onShutdown _ _ := rfl
  pendingAt_onFailure _ _ := rfl
  poll_notifyOne n := by
    rcases n with ⟨permit, waiter⟩
    cases waiter <;> rfl

end Harmony.FleetSync
