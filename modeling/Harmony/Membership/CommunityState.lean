import Harmony.Lib.VerifiedLog
import Harmony.Membership.Order

/-! `CommunityState::insert_event` over the verified log, and when replicas that
receive the same events in different orders end up with the same community. -/

namespace Harmony.Membership

open Harmony.Lib

/-- `MembershipPolicy`: the log's verdict is `verify_event` against the events
sorting before the candidate, materialized at the candidate's own wall. -/
def membershipPolicy (C : Crypto) (ctx : VerifyContext) :
    LogPolicy SignedMembershipEvent EventId (ℕ ×ₗ ℕ ×ₗ String ×ₗ ℕ ×ₗ ℕ) where
  id := (·.id)
  key := eventSortKey
  accepts prior e :=
    accepted C ctx (materializeWithNow C prior ctx.adminAddr (some e.hlc.wallMs)) e
  id_of_key := id_eq_of_sortKey
  accepts_perm e hids hp := by simp only [materializeWithNow_perm hids hp]

inductive InsertOutcome where
  | inserted
  | alreadyKnown
  | rejected (error : VerifyError)
deriving DecidableEq

structure CommunityState where
  communityId : SpaceId
  adminQuorum : ℕ
  log : List SignedMembershipEvent

def CommunityState.new (communityId : SpaceId) : CommunityState := ⟨communityId, 1, []⟩

/-- `receiverNowMs` is the clock the cached quorum is refreshed with. -/
def CommunityState.insertEvent (C : Crypto) (ctx : VerifyContext) (receiverNowMs : Option ℕ)
    (state : CommunityState) (event : SignedMembershipEvent) : CommunityState × InsertOutcome :=
  if event.id ∈ state.log.map (·.id) then (state, .alreadyKnown)
  else match verifyEvent C ctx (priorStateAtEvent C state.log event ctx.adminAddr) event with
    | .error err => (state, .rejected err)
    | .ok _ =>
      let log := state.log ++ [event]
      ({ state with
        log := log
        adminQuorum := (materializeWithBounds C log ctx.adminAddr none receiverNowMs).adminQuorum },
        .inserted)

def CommunityState.deliver (C : Crypto) (ctx : VerifyContext) (state : CommunityState)
    (deliveries : List (SignedMembershipEvent × Option ℕ)) : CommunityState :=
  deliveries.foldl (fun s d => (s.insertEvent C ctx d.2 d.1).1) state

variable {C : Crypto} {ctx : VerifyContext}

theorem insertEvent_cases (state : CommunityState) (event : SignedMembershipEvent)
    (receiverNowMs : Option ℕ) :
    ((state.insertEvent C ctx receiverNowMs event).1.log =
        (membershipPolicy C ctx).insert state.log event) ∧
      ((state.insertEvent C ctx receiverNowMs event).2 = .inserted ↔
        (membershipPolicy C ctx).insert state.log event = state.log ++ [event]) := by
  have hinsert : (membershipPolicy C ctx).insert state.log event =
      if event.id ∈ state.log.map (·.id) then state.log
      else if accepted C ctx (priorStateAtEvent C state.log event ctx.adminAddr) event then
        state.log ++ [event] else state.log := rfl
  rw [hinsert, CommunityState.insertEvent]
  by_cases hid : event.id ∈ state.log.map (·.id)
  · simp only [hid, if_true]
    simp
  · simp only [hid, if_false]
    by_cases hacc : accepted C ctx (priorStateAtEvent C state.log event ctx.adminAddr) event
    · simp [hacc, accepted_iff.mp hacc]
    · obtain ⟨err, herr⟩ := exists_error hacc
      simp [hacc, herr]

theorem insertEvent_log (state : CommunityState) (event : SignedMembershipEvent)
    (receiverNowMs : Option ℕ) :
    (state.insertEvent C ctx receiverNowMs event).1.log =
      (membershipPolicy C ctx).insert state.log event :=
  (insertEvent_cases state event receiverNowMs).1

theorem deliver_log (deliveries : List (SignedMembershipEvent × Option ℕ))
    (communityId : SpaceId) :
    ((CommunityState.new communityId).deliver C ctx deliveries).log =
      (membershipPolicy C ctx).run (deliveries.map (·.1)) := by
  have gen : ∀ (ds : List (SignedMembershipEvent × Option ℕ)) (state : CommunityState),
      (state.deliver C ctx ds).log =
        (ds.map (·.1)).foldl (membershipPolicy C ctx).insert state.log := by
    intro ds
    induction ds with
    | nil => intro state; rfl
    | cons d ds ih =>
      intro state
      rw [List.map_cons, List.foldl_cons, ← insertEvent_log _ _ d.2]
      exact ih _
  exact gen deliveries _

/-- A log of distinct events, each accepted against what sorts before it. -/
def VerifiedLog (C : Crypto) (ctx : VerifyContext) (log : List SignedMembershipEvent) : Prop :=
  (membershipPolicy C ctx).Verified log

instance (log : List SignedMembershipEvent) : Decidable (VerifiedLog C ctx log) :=
  inferInstanceAs (Decidable ((membershipPolicy C ctx).Verified log))

theorem VerifiedLog.distinct {log : List SignedMembershipEvent} (h : VerifiedLog C ctx log) :
    DistinctIds log := h.1

theorem VerifiedLog.accepted {log : List SignedMembershipEvent} (h : VerifiedLog C ctx log)
    {e : SignedMembershipEvent} (he : e ∈ log) :
    verifyEvent C ctx (priorStateAtEvent C log e ctx.adminAddr) e = .ok () :=
  accepted_iff.mp (h.2 e he)

/-- No delivery of the run makes a stored event that sorts after it unacceptable. -/
def NoOvertaking (C : Crypto) (ctx : VerifyContext)
    (deliveries : List (SignedMembershipEvent × Option ℕ)) : Prop :=
  (membershipPolicy C ctx).HarmlessRun [] (deliveries.map (·.1))

instance (deliveries : List (SignedMembershipEvent × Option ℕ)) :
    Decidable (NoOvertaking C ctx deliveries) :=
  inferInstanceAs (Decidable ((membershipPolicy C ctx).HarmlessRun _ _))

/-- No insertion is accepted any more. -/
def Exhausted (C : Crypto) (ctx : VerifyContext) (events : List SignedMembershipEvent)
    (state : CommunityState) : Prop :=
  ∀ e ∈ events, (state.insertEvent C ctx none e).2 ≠ .inserted

instance (events : List SignedMembershipEvent) (state : CommunityState) :
    Decidable (Exhausted C ctx events state) := inferInstanceAs (Decidable (∀ e ∈ events, _))

theorem Exhausted.saturated {events : List SignedMembershipEvent} {state : CommunityState}
    (h : Exhausted C ctx events state) : (membershipPolicy C ctx).Saturated events state.log := by
  intro e he
  rcases LogPolicy.insert_cases (P := membershipPolicy C ctx) state.log e with hsame | ⟨-, -, hnew⟩
  · exact hsame
  · exact absurd ((insertEvent_cases state e none).2.mpr hnew) (h e he)

/-- Replicas converge on runs in which no insertion invalidates an event admitted
earlier that sorts after it. -/
theorem replicas_converge (C : Crypto) (ctx : VerifyContext) (communityId : SpaceId)
    (events : List SignedMembershipEvent) (hids : DistinctIds events)
    (d d' : List (SignedMembershipEvent × Option ℕ))
    (hd : d.map (·.1) ⊆ events) (hd' : d'.map (·.1) ⊆ events)
    (hex : Exhausted C ctx events ((CommunityState.new communityId).deliver C ctx d))
    (hex' : Exhausted C ctx events ((CommunityState.new communityId).deliver C ctx d'))
    (hno : NoOvertaking C ctx d) (hno' : NoOvertaking C ctx d') :
    ((CommunityState.new communityId).deliver C ctx d).log.Perm
        ((CommunityState.new communityId).deliver C ctx d').log ∧
      ∀ nowMs,
        materializeWithNow C ((CommunityState.new communityId).deliver C ctx d).log
            ctx.adminAddr nowMs =
          materializeWithNow C ((CommunityState.new communityId).deliver C ctx d').log
            ctx.adminAddr nowMs := by
  have hs := hex.saturated
  have hs' := hex'.saturated
  rw [deliver_log] at hs hs'
  have hv := LogPolicy.verified_run hno
  have hv' := LogPolicy.verified_run hno'
  have hperm := LogPolicy.perm_of_saturated (P := membershipPolicy C ctx) hids
    (LogPolicy.run_subset hd) (LogPolicy.run_subset hd') hv hv' hs hs'
  rw [deliver_log, deliver_log]
  exact ⟨hperm, fun nowMs => materializeWithNow_perm hv'.1 hperm C ctx.adminAddr nowMs⟩

/-- Owner 1 promotes owner 2 to moderator; owners 2 and 3 are members. -/
def moderatedLog : List SignedMembershipEvent :=
  [signed 1 1 1 .join, signed 2 2 2 .join, signed 3 3 1 (.setPower 2 50), signed 4 4 3 .join]

/-- At 10 the admin kicks the moderator, at 20 the moderator kicks owner 3. -/
def kickOfModerator : SignedMembershipEvent := signed 5 10 1 (.kick 2 none)
def kickByModerator : SignedMembershipEvent := signed 6 20 2 (.kick 3 none)

/-- A replica of community 7 that receives `events` in the given order. -/
def replicaOf (events : List SignedMembershipEvent) : CommunityState :=
  (CommunityState.new 7).deliver symbolicCrypto openContext (events.map (·, none))

theorem replicas_converge_moderated :
    (replicaOf (moderatedLog ++ [kickByModerator])).log.Perm
        (replicaOf (moderatedLog.rotate 3 ++ kickByModerator :: moderatedLog ++ [kickByModerator])).log ∧
      ∀ nowMs,
        materializeWithNow symbolicCrypto (replicaOf (moderatedLog ++ [kickByModerator])).log 1
            nowMs =
          materializeWithNow symbolicCrypto
            (replicaOf (moderatedLog.rotate 3 ++ kickByModerator :: moderatedLog ++ [kickByModerator])).log 1
            nowMs :=
  replicas_converge symbolicCrypto openContext 7 (moderatedLog ++ [kickByModerator]) (by decide)
    _ _ (by decide) (by decide) (by decide) (by decide) (by decide) (by decide)

/-- The later kick is admitted when it arrives first and refused when it arrives
second: the replicas keep different logs and disagree on owner 3. -/
theorem replicas_diverge :
    DistinctIds (moderatedLog ++ [kickOfModerator, kickByModerator]) ∧
      Exhausted symbolicCrypto openContext (moderatedLog ++ [kickOfModerator, kickByModerator])
        (replicaOf (moderatedLog ++ [kickOfModerator, kickByModerator])) ∧
      Exhausted symbolicCrypto openContext (moderatedLog ++ [kickOfModerator, kickByModerator])
        (replicaOf (moderatedLog ++ [kickByModerator, kickOfModerator])) ∧
      kickByModerator ∉ (replicaOf (moderatedLog ++ [kickOfModerator, kickByModerator])).log ∧
      kickByModerator ∈ (replicaOf (moderatedLog ++ [kickByModerator, kickOfModerator])).log ∧
      (materializeWithNow symbolicCrypto
        (replicaOf (moderatedLog ++ [kickOfModerator, kickByModerator])).log 1 none).status 3 =
          some .joined ∧
      (materializeWithNow symbolicCrypto
        (replicaOf (moderatedLog ++ [kickByModerator, kickOfModerator])).log 1 none).status 3 =
          some .banned := by
  decide

end Harmony.Membership
