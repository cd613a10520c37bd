import Harmony.Lib.Deferral
import Harmony.Membership.CommunityState

/-! The cached view of a community. It is keyed by a version, the admin address and whether
the clock was readable, and it expires when the earliest event held back comes due; as long
as the clock does not run back it is the view computed afresh. -/

namespace Harmony.Membership

open Harmony.Lib

/-! ### The cache -/

structure MaterializedCache where
  version : ℕ
  cachedVersion : Option ℕ
  cachedAdminAddr : Option OwnerAddr
  cached : Option MaterializedMembership
  recomputeAfterMs : Option ℕ
  cachedCeilingEnabled : Option Bool

def MaterializedCache.default : MaterializedCache where
  version := 0
  cachedVersion := none
  cachedAdminAddr := none
  cached := none
  recomputeAfterMs := none
  cachedCeilingEnabled := none

def cacheTimeStillValid (recomputeAfterMs receiverNowMs : Option ℕ) : Bool :=
  match recomputeAfterMs with
  | none => true
  | some t => receiverNowMs.all fun rn => rn < t

def cachePolicyStillValid (cachedCeilingEnabled : Option Bool) (nowCeilingEnabled : Bool)
    (recomputeAfterMs receiverNowMs : Option ℕ) : Bool :=
  cachedCeilingEnabled = some nowCeilingEnabled &&
    cacheTimeStillValid recomputeAfterMs receiverNowMs

/-- When the earliest event held back enters the skew window. -/
def recomputeAfter (log : List SignedMembershipEvent) (receiverNow : Option ℕ) : Option ℕ :=
  receiverNow.bind fun rn =>
    (((log.map (·.hlc.wallMs)).filter fun w => rejectFuture w rn maxForwardSkewMs).min?).map
      (· - maxForwardSkewMs)

/-- A community with its cache and the view seeded by the invite. -/
structure CachedCommunity extends CommunityState where
  cache : MaterializedCache
  bootstrapHint : Option MaterializedMembership

inductive CoreOutcome where
  | inserted
  | alreadyKnown
  | superseded
  | rejected (error : VerifyError)

/-- The event log under the community: an outcome other than inserted leaves it as it was. -/
structure LogEngine where
  insert : VerifyContext → List SignedMembershipEvent → SignedMembershipEvent →
    CoreOutcome × List SignedMembershipEvent
  unchanged : ∀ ctx log e, (insert ctx log e).1 ≠ .inserted → (insert ctx log e).2 = log

namespace CachedCommunity

/-- The cached view, or none where the cache would hold a version without a view. -/
def materialized (C : Crypto) (receiverNow : Option ℕ) (state : CachedCommunity)
    (adminAddr : OwnerAddr) : Option (MaterializedMembership × CachedCommunity) :=
  match if state.cache.version = 0 && state.log.isEmpty then state.bootstrapHint else none with
  | some hint => some (hint, state)
  | none =>
    let nowCeilingEnabled := receiverNow.isSome
    let cacheHit := state.cache.cachedVersion = some state.cache.version &&
      state.cache.cachedAdminAddr = some adminAddr &&
      cachePolicyStillValid state.cache.cachedCeilingEnabled nowCeilingEnabled
        state.cache.recomputeAfterMs receiverNow
    if !cacheHit then
      let m := materializeWithBounds C state.log adminAddr none receiverNow
      some (m, { state with
        cache := {
          version := state.cache.version
          cachedVersion := some state.cache.version
          cachedAdminAddr := some adminAddr
          cached := some m
          recomputeAfterMs := recomputeAfter state.log receiverNow
          cachedCeilingEnabled := some nowCeilingEnabled } })
    else state.cache.cached.map fun m => (m, state)

def syncAdminQuorum (C : Crypto) (receiverNow : Option ℕ) (state : CachedCommunity)
    (adminAddr : OwnerAddr) : CachedCommunity :=
  { state with
    adminQuorum := (materializeWithBounds C state.log adminAddr none receiverNow).adminQuorum }

/-- `receiverNow` is read only where the quorum is refreshed. -/
def insertEventInner (E : LogEngine) (C : Crypto) (ctx : VerifyContext) (receiverNow : Option ℕ)
    (state : CachedCommunity) (event : SignedMembershipEvent) (syncQuorum : Bool) :
    CachedCommunity × InsertOutcome :=
  match E.insert ctx state.log event with
  | (.alreadyKnown, log) => ({ state with log := log }, .alreadyKnown)
  | (.superseded, log) => ({ state with log := log }, .alreadyKnown)
  | (.rejected err, log) => ({ state with log := log }, .rejected err)
  | (.inserted, log) =>
    let state := { state with
      log := log
      cache := { state.cache with version := state.cache.version + 1 } }
    (if syncQuorum then state.syncAdminQuorum C receiverNow ctx.adminAddr else state, .inserted)

def insertEvent (E : LogEngine) (C : Crypto) (ctx : VerifyContext) (receiverNow : Option ℕ)
    (state : CachedCommunity) (event : SignedMembershipEvent) : CachedCommunity × InsertOutcome :=
  state.insertEventInner E C ctx receiverNow event true

def insertEventNoQuorumSync (E : LogEngine) (C : Crypto) (ctx : VerifyContext)
    (state : CachedCommunity) (event : SignedMembershipEvent) : CachedCommunity × InsertOutcome :=
  state.insertEventInner E C ctx none event false

end CachedCommunity

/-- A call on a community, with the reading of the clock it makes. -/
inductive Call where
  | insertEvent (ctx : VerifyContext) (event : SignedMembershipEvent) (receiverNow : Option ℕ)
  | insertEventNoQuorumSync (ctx : VerifyContext) (event : SignedMembershipEvent)
  | syncAdminQuorum (adminAddr : OwnerAddr) (receiverNow : Option ℕ)
  | materialized (adminAddr : OwnerAddr) (receiverNow : Option ℕ)

def Call.reading : Call → Option ℕ
  | .insertEvent _ _ receiverNow => receiverNow
  | .insertEventNoQuorumSync _ _ => none
  | .syncAdminQuorum _ receiverNow => receiverNow
  | .materialized _ receiverNow => receiverNow

def CachedCommunity.perform (E : LogEngine) (C : Crypto) (state : CachedCommunity) :
    Call → Option CachedCommunity
  | .insertEvent ctx event receiverNow => some (state.insertEvent E C ctx receiverNow event).1
  | .insertEventNoQuorumSync ctx event => some (state.insertEventNoQuorumSync E C ctx event).1
  | .syncAdminQuorum adminAddr receiverNow => some (state.syncAdminQuorum C receiverNow adminAddr)
  | .materialized adminAddr receiverNow =>
    (state.materialized C receiverNow adminAddr).map Prod.snd

def CachedCommunity.run (E : LogEngine) (C : Crypto) (state : CachedCommunity)
    (calls : List Call) : Option CachedCommunity :=
  calls.foldlM (fun state call => state.perform E C call) state

/-! ### The engine of the verified log -/

/-- Dedup by id, judge against what sorts before, append what is accepted. -/
def verifiedLogEngine (C : Crypto) : LogEngine where
  insert ctx log event :=
    if event.id ∈ log.map (·.id) then (.alreadyKnown, log)
    else match verifyEvent C ctx (priorStateAtEvent C log event ctx.adminAddr) event with
      | .error err => (.rejected err, log)
      | .ok _ => (.inserted, log ++ [event])
  unchanged ctx log e h := by
    revert h
    split
    · exact fun _ => rfl
    · split
      · exact fun _ => rfl
      · exact fun h => absurd rfl h

/-- Over the verified log an insertion is that of the community without a cache. -/
theorem insertEvent_toCommunityState (C : Crypto) (ctx : VerifyContext) (receiverNow : Option ℕ)
    (state : CachedCommunity) (event : SignedMembershipEvent) :
    ((state.insertEvent (verifiedLogEngine C) C ctx receiverNow event).1.toCommunityState,
        (state.insertEvent (verifiedLogEngine C) C ctx receiverNow event).2) =
      state.toCommunityState.insertEvent C ctx receiverNow event := by
  simp only [CachedCommunity.insertEvent, CachedCommunity.insertEventInner, verifiedLogEngine,
    CommunityState.insertEvent]
  split_ifs with hid
  · rfl
  · cases verifyEvent C ctx (priorStateAtEvent C state.log event ctx.adminAddr) event with
    | error err => rfl
    | ok _ => rfl

/-! ### What a view depends on -/

def admittedEvents (log : List SignedMembershipEvent) (receiverNow : Option ℕ) :
    List SignedMembershipEvent := admittedAt (·.hlc.wallMs) maxForwardSkewMs log receiverNow

theorem materializeWithBounds_admitted (C : Crypto) (log : List SignedMembershipEvent)
    (adminAddr : OwnerAddr) (nowMs receiverNow : Option ℕ) :
    materializeWithBounds C log adminAddr nowMs receiverNow =
      materializeWithNow C (admittedEvents log receiverNow) adminAddr nowMs := by
  cases receiverNow <;> rfl

theorem recomputeAfter_eq (log : List SignedMembershipEvent) (receiverNow : Option ℕ) :
    recomputeAfter log receiverNow = nextDue (·.hlc.wallMs) maxForwardSkewMs log receiverNow := rfl

/-- A view whose policy is still valid is the view of the present reading. -/
theorem view_of_valid {C : Crypto} {log : List SignedMembershipEvent} {adminAddr : OwnerAddr}
    {built now : Option ℕ} (hle : ∀ t t', built = some t → now = some t' → t ≤ t')
    (hvalid : cachePolicyStillValid (some built.isSome) now.isSome (recomputeAfter log built) now =
      true) :
    materializeWithBounds C log adminAddr none built =
      materializeWithBounds C log adminAddr none now := by
  simp only [cachePolicyStillValid, Bool.and_eq_true, decide_eq_true_eq, Option.some.injEq] at hvalid
  obtain ⟨hmode, htime⟩ := hvalid
  rw [materializeWithBounds_admitted, materializeWithBounds_admitted]
  cases built with
  | none =>
    cases now with
    | none => rfl
    | some t => cases hmode
  | some t =>
    cases now with
    | none => cases hmode
    | some t' =>
      have hsame : admittedEvents log (some t') = admittedEvents log (some t) := by
        refine admitted_until (hle t t' rfl rfl) fun due hdue => ?_
        rw [← recomputeAfter_eq] at hdue
        simpa only [cacheTimeStillValid, hdue, Option.all_some, decide_eq_true_eq] using htime
      rw [hsame]

/-! ### Along a run -/

/-- A cache of the current version holds the view of some reading not after `last`. -/
structure CacheSound (C : Crypto) (last : ℕ) (state : CachedCommunity) : Prop where
  version_le : ∀ v, state.cache.cachedVersion = some v → v ≤ state.cache.version
  view : state.cache.cachedVersion = some state.cache.version → ∃ adminAddr built,
    state.cache.cachedAdminAddr = some adminAddr ∧
      state.cache.cached = some (materializeWithBounds C state.log adminAddr none built) ∧
      state.cache.recomputeAfterMs = recomputeAfter state.log built ∧
      state.cache.cachedCeilingEnabled = some built.isSome ∧ ∀ t, built = some t → t ≤ last

section Run

variable {E : LogEngine} {C : Crypto} {last last' : ℕ} {state : CachedCommunity}
  {adminAddr : OwnerAddr} {now : Option ℕ}

theorem cacheSound_default (h : state.cache = .default) : CacheSound C 0 state := by
  constructor <;> rw [h] <;> simp [MaterializedCache.default]

theorem CacheSound.mono (h : CacheSound C last state) (hle : last ≤ last') :
    CacheSound C last' state := by
  refine ⟨h.version_le, fun hversion => ?_⟩
  obtain ⟨adminAddr, built, haddr, hview, hdue, hmode, hbuilt⟩ := h.view hversion
  exact ⟨adminAddr, built, haddr, hview, hdue, hmode, fun t ht => (hbuilt t ht).trans hle⟩

/-- A read returns the view computed afresh and leaves the cache sound. -/
theorem CacheSound.materialized (h : CacheSound C last state) (adminAddr : OwnerAddr)
    (hnow : ∀ t, now = some t → last ≤ t) :
    ∃ m state', state.materialized C now adminAddr = some (m, state') ∧
      state'.log = state.log ∧ state'.adminQuorum = state.adminQuorum ∧
      CacheSound C (now.getD last) state' ∧
      (state.log ≠ [] → m = materializeWithBounds C state.log adminAddr none now) := by
  have hlast : last ≤ now.getD last := by
    cases hn : now with
    | none => exact le_rfl
    | some t => exact hnow t hn
  unfold CachedCommunity.materialized
  split
  · rename_i hint hhint
    refine ⟨hint, state, rfl, rfl, rfl, h.mono hlast, fun hne => ?_⟩
    simp [hne] at hhint
  · dsimp only
    split_ifs with hit
    · refine ⟨_, _, rfl, rfl, rfl, ⟨fun v hv => (Option.some.inj hv).ge, fun _ => ?_⟩, fun _ => rfl⟩
      refine ⟨adminAddr, now, rfl, rfl, rfl, rfl, fun t ht => ?_⟩
      rw [ht, Option.getD_some]
    · simp only [Bool.not_eq_true', Bool.not_eq_false, Bool.and_eq_true, decide_eq_true_eq] at hit
      obtain ⟨⟨hversion, haddr⟩, hpolicy⟩ := hit
      obtain ⟨addr, built, haddr', hview, hdue, hmode, hbuilt⟩ := h.view hversion
      obtain rfl : addr = adminAddr := Option.some.inj (haddr'.symm.trans haddr)
      rw [hdue, hmode] at hpolicy
      refine ⟨_, state, by rw [hview, Option.map_some], rfl, rfl, h.mono hlast, fun _ => ?_⟩
      exact view_of_valid (fun t t' ht ht' => (hbuilt t ht).trans (hnow t' ht')) hpolicy

theorem CacheSound.syncAdminQuorum (h : CacheSound C last state) :
    CacheSound C last (state.syncAdminQuorum C now adminAddr) := ⟨h.version_le, h.view⟩

theorem CacheSound.insertEventInner (h : CacheSound C last state) (ctx : VerifyContext)
    (event : SignedMembershipEvent) (syncQuorum : Bool) :
    CacheSound C last (state.insertEventInner E C ctx now event syncQuorum).1 := by
  have hsame : ∀ log, log = state.log → CacheSound C last { state with log := log } := by
    rintro log rfl
    exact h
  have hunchanged := E.unchanged ctx state.log event
  unfold CachedCommunity.insertEventInner
  rcases hinsert : E.insert ctx state.log event with ⟨outcome, log⟩
  rw [hinsert] at hunchanged
  cases outcome with
  | alreadyKnown => exact hsame log (hunchanged nofun)
  | superseded => exact hsame log (hunchanged nofun)
  | rejected err => exact hsame log (hunchanged nofun)
  | inserted =>
    have hnext : CacheSound C last { state with
        log := log
        cache := { state.cache with version := state.cache.version + 1 } } := by
      refine ⟨fun v hv => (h.version_le v hv).trans (Nat.le_succ _), fun hversion => ?_⟩
      exact absurd (h.version_le _ hversion) (Nat.not_succ_le_self _)
    cases syncQuorum with
    | true => exact hnext.syncAdminQuorum
    | false => exact hnext

theorem CacheSound.perform (h : CacheSound C last state) (call : Call)
    (hnow : ∀ t, call.reading = some t → last ≤ t) :
    ∃ state', state.perform E C call = some state' ∧
      CacheSound C (call.reading.getD last) state' := by
  have hlast : last ≤ call.reading.getD last := by
    cases hn : call.reading with
    | none => exact le_rfl
    | some t => exact hnow t hn
  cases call with
  | insertEvent ctx event receiverNow =>
    exact ⟨_, rfl, (h.insertEventInner ctx event true).mono hlast⟩
  | insertEventNoQuorumSync ctx event =>
    exact ⟨_, rfl, (h.insertEventInner ctx event false).mono hlast⟩
  | syncAdminQuorum addr receiverNow => exact ⟨_, rfl, h.syncAdminQuorum.mono hlast⟩
  | materialized addr receiverNow =>
    obtain ⟨m, state', hread, -, -, hsound, -⟩ := h.materialized addr hnow
    exact ⟨state', congrArg (Option.map Prod.snd) hread, hsound⟩

/-- Every run whose readings do not run back succeeds and keeps the cache sound. -/
theorem CacheSound.run (h : CacheSound C last state) (calls : List Call)
    (hfrom : ∀ t ∈ calls.filterMap Call.reading, last ≤ t)
    (hclock : (calls.filterMap Call.reading).Pairwise (· ≤ ·)) :
    ∃ state', state.run E C calls = some state' ∧
      ∃ last', CacheSound C last' state' ∧ ∀ bound, last ≤ bound →
        (∀ t ∈ calls.filterMap Call.reading, t ≤ bound) → last' ≤ bound := by
  induction calls generalizing state last with
  | nil => exact ⟨state, rfl, last, h, fun bound hbound _ => hbound⟩
  | cons call calls ih =>
    have hnow : ∀ t, call.reading = some t → last ≤ t := by
      intro t ht
      exact hfrom t (List.mem_filterMap.mpr ⟨call, by simp, ht⟩)
    obtain ⟨next, hperform, hnext⟩ := h.perform (E := E) call hnow
    have hsub : ∀ t ∈ calls.filterMap Call.reading,
        t ∈ (call :: calls).filterMap Call.reading := by
      intro t ht
      obtain ⟨c, hc, hct⟩ := List.mem_filterMap.mp ht
      exact List.mem_filterMap.mpr ⟨c, List.mem_cons_of_mem _ hc, hct⟩
    have hfrom' : ∀ t ∈ calls.filterMap Call.reading, call.reading.getD last ≤ t := by
      intro t ht
      cases hr : call.reading with
      | none => exact hfrom t (hsub t ht)
      | some r =>
        rw [List.filterMap_cons_some hr] at hclock
        exact (List.pairwise_cons.mp hclock).1 t ht
    have hclock' : (calls.filterMap Call.reading).Pairwise (· ≤ ·) := by
      refine hclock.sublist ?_
      exact (List.sublist_cons_self call calls).filterMap _
    obtain ⟨state', hrun, last', hsound, hbound⟩ := ih hnext hfrom' hclock'
    refine ⟨state', ?_, last', hsound, fun bound hle hall => ?_⟩
    · rw [CachedCommunity.run, List.foldlM_cons, hperform]
      exact hrun
    · refine hbound bound ?_ fun t ht => hall t (hsub t ht)
      cases hr : call.reading with
      | none => exact hle
      | some r => exact hall r (List.mem_filterMap.mpr ⟨call, by simp, hr⟩)

end Run

/-! ### The cached quorum -/

/-- The admin address and reading a call refreshes the quorum with: a sync does, and an
insertion that takes place. -/
def CachedCommunity.syncsQuorum (E : LogEngine) (C : Crypto) (state : CachedCommunity) :
    Call → Option (OwnerAddr × Option ℕ)
  | .insertEvent ctx event receiverNow =>
    if (state.insertEvent E C ctx receiverNow event).2 = .inserted then
      some (ctx.adminAddr, receiverNow)
    else none
  | .syncAdminQuorum adminAddr receiverNow => some (adminAddr, receiverNow)
  | _ => none

/-- The cached quorum is that of the log materialized at `now`. -/
def QuorumOf (C : Crypto) (adminAddr : OwnerAddr) (now : Option ℕ) (state : CachedCommunity) :
    Prop :=
  state.adminQuorum = (materializeWithBounds C state.log adminAddr none now).adminQuorum

section Quorum

variable {E : LogEngine} {C : Crypto} {state next : CachedCommunity} {adminAddr : OwnerAddr}
  {now : Option ℕ}

theorem quorumOf_sync {call : Call} (hsync : state.syncsQuorum E C call = some (adminAddr, now))
    (h : state.perform E C call = some next) : QuorumOf C adminAddr now next := by
  cases call with
  | insertEvent ctx event receiverNow =>
    simp only [CachedCommunity.syncsQuorum] at hsync
    split_ifs at hsync with hinserted
    obtain ⟨rfl, rfl⟩ := Prod.mk.inj (Option.some.inj hsync)
    obtain rfl := Option.some.inj h
    unfold CachedCommunity.insertEvent CachedCommunity.insertEventInner at hinserted ⊢
    split at hinserted
    · cases hinserted
    · cases hinserted
    · cases hinserted
    · rfl
  | syncAdminQuorum addr receiverNow =>
    obtain ⟨rfl, rfl⟩ := Prod.mk.inj (Option.some.inj hsync)
    obtain rfl := Option.some.inj h
    rfl
  | insertEventNoQuorumSync ctx event => cases hsync
  | materialized addr receiverNow => cases hsync

theorem perform_materialized {addr : OwnerAddr} {reading : Option ℕ}
    (h : state.perform E C (.materialized addr reading) = some next) :
    next.log = state.log ∧ next.adminQuorum = state.adminQuorum := by
  obtain ⟨⟨m, after⟩, hread, rfl⟩ := Option.map_eq_some_iff.mp h
  unfold CachedCommunity.materialized at hread
  split at hread
  · obtain ⟨-, rfl⟩ := Prod.mk.inj (Option.some.inj hread)
    exact ⟨rfl, rfl⟩
  · dsimp only at hread
    split_ifs at hread
    · obtain ⟨-, rfl⟩ := Prod.mk.inj (Option.some.inj hread)
      exact ⟨rfl, rfl⟩
    · obtain ⟨_, -, hpair⟩ := Option.map_eq_some_iff.mp hread
      obtain ⟨-, rfl⟩ := Prod.mk.inj hpair
      exact ⟨rfl, rfl⟩

theorem QuorumOf.reads (h : QuorumOf C adminAddr now state) {reads : List Call}
    (hreads : ∀ c ∈ reads, ∃ addr reading, c = .materialized addr reading)
    (hrun : state.run E C reads = some next) : QuorumOf C adminAddr now next := by
  induction reads generalizing state with
  | nil =>
    obtain rfl := Option.some.inj hrun
    exact h
  | cons call reads ih =>
    obtain ⟨addr, reading, rfl⟩ := hreads call (by simp)
    rw [CachedCommunity.run, List.foldlM_cons] at hrun
    obtain ⟨mid, hmid, hrest⟩ := Option.bind_eq_some_iff.mp hrun
    obtain ⟨hlog, hquorum⟩ := perform_materialized hmid
    have hkeep : QuorumOf C adminAddr now mid := by rw [QuorumOf, hlog, hquorum, h]
    exact ih hkeep (fun c hc => hreads c (List.mem_cons_of_mem _ hc)) hrest

end Quorum

/-- After the calls, which all succeed, a read of a community with events is the view
computed afresh at its reading, and what synced the quorum last, reads apart, left it that
of the view at its own reading. -/
structure FreshAfter (E : LogEngine) (C : Crypto) (start : CachedCommunity) (calls : List Call)
    (adminAddr : OwnerAddr) (now : Option ℕ) (state : CachedCommunity) : Prop where
  run : start.run E C calls = some state
  view : state.log ≠ [] → ∃ state', state.materialized C now adminAddr =
    some (materializeWithBounds C state.log adminAddr none now, state')
  quorum : ∀ before call reads mid addr reading, calls = before ++ call :: reads →
    start.run E C before = some mid → mid.syncsQuorum E C call = some (addr, reading) →
      (∀ c ∈ reads, ∃ addr' reading', c = Call.materialized addr' reading') →
        QuorumOf C addr reading state

/-- However the calls are mixed, as long as the readings of the clock do not run back, the
cached view is the fresh one. -/
theorem materialized_fresh (E : LogEngine) (C : Crypto) (start : CachedCommunity)
    (hcache : start.cache = .default) (calls : List Call) (adminAddr : OwnerAddr)
    (now : Option ℕ)
    (hclock : ((calls ++ [Call.materialized adminAddr now]).filterMap Call.reading).Pairwise
      (· ≤ ·)) : ∃ state, FreshAfter E C start calls adminAddr now state := by
  rw [List.filterMap_append, List.pairwise_append] at hclock
  obtain ⟨hcalls, -, hfinal⟩ := hclock
  obtain ⟨state, hrun, last, hsound, hbound⟩ :=
    (cacheSound_default (C := C) hcache).run (E := E) calls (fun t _ => Nat.zero_le t) hcalls
  have hnow : ∀ t, now = some t → last ≤ t := by
    intro t ht
    refine hbound t (Nat.zero_le t) fun u hu => hfinal u hu t ?_
    simp [Call.reading, ht]
  refine ⟨state, hrun, fun hne => ?_, ?_⟩
  · obtain ⟨m, state', hread, -, -, -, hfresh⟩ := hsound.materialized adminAddr hnow
    exact ⟨state', by rw [hread, hfresh hne]⟩
  · rintro before call reads mid addr reading rfl hbefore hsync hreads
    rw [CachedCommunity.run, List.foldlM_append] at hrun
    obtain ⟨mid', hmid', hrest⟩ := Option.bind_eq_some_iff.mp hrun
    obtain rfl : mid' = mid := Option.some.inj (hmid'.symm.trans hbefore)
    rw [List.foldlM_cons] at hrest
    obtain ⟨next, hnext, hreadsRun⟩ := Option.bind_eq_some_iff.mp hrest
    exact (quorumOf_sync hsync hnext).reads hreads hreadsRun

/-- A join stamped ahead of the clock, read just before it comes due, without a clock, and
at the millisecond at which it does. -/
def heldBackCalls : List Call :=
  [.insertEvent openContext (signed 1 1 1 .join) (some 0),
    .insertEventNoQuorumSync openContext (signed 2 900000 2 .join),
    .syncAdminQuorum 1 (some 599998), .materialized 1 (some 599999), .materialized 1 none,
    .materialized 1 (some 599999)]

theorem materialized_fresh_held_back :
    ∃ state, FreshAfter (verifiedLogEngine symbolicCrypto) symbolicCrypto
      ⟨CommunityState.new 7, .default, none⟩ heldBackCalls 1 (some 600000) state :=
  materialized_fresh (verifiedLogEngine symbolicCrypto) symbolicCrypto
    ⟨CommunityState.new 7, .default, none⟩ rfl heldBackCalls 1 (some 600000) (by decide)

end Harmony.Membership
