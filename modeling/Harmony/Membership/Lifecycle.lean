import Harmony.Membership.Governance

/-! The life of one member record. A record is opened by a Join, an Invite or a
visible PendingJoin and never disappears within a replay; a ban is left only by an
Unban, and a tombstoned device key stays out of the enrolled set. Whether a
PendingJoin is visible depends on the time reference, so a Kick or a DeviceRetire
takes effect exactly when some event before it opens the record. -/

namespace Harmony.Membership

open Harmony.Lib

/-- `e` gives `x` a record, in a log with these canonical PendingJoins and this
time reference. -/
def opensRecord (canonical : Finset EventId) (timeRefMs : ℕ) (x : OwnerAddr)
    (e : SignedMembershipEvent) : Bool :=
  match e.kind with
  | .join => e.actor = x
  | .invite target => target = x
  | .pendingJoin _ => e.actor = x &&
    (e.id ∈ canonical || timeRefMs - e.hlc.wallMs ≤ materializePendingExpiryMs)
  | _ => false

/-- Some event sorting before `k` opens the record of `x`. -/
def RecordSource (events : List SignedMembershipEvent) (nowMs : Option ℕ) (x : OwnerAddr)
    (k : SignedMembershipEvent) : Prop :=
  ∃ e ∈ before eventSortKey events k,
    opensRecord (canonicalPendingIds events) (currentMaxWallMs events nowMs) x e = true

instance (events : List SignedMembershipEvent) (nowMs : Option ℕ) (x : OwnerAddr)
    (k : SignedMembershipEvent) : Decidable (RecordSource events nowMs x k) :=
  inferInstanceAs (Decidable (∃ e ∈ before eventSortKey events k, _))

/-! ### The status machine -/

/-- Joined and Banned shadow a Join and a PendingJoin. -/
def admits (old : Option MemberStatus) : Bool := old ≠ some .joined && old ≠ some .banned

/-- How an event moves the status of `x`; device events and the record's other
fields do not enter. -/
def statusUpdate (env : ReplayEnv) (kicked : Option OwnerAddr) (e : SignedMembershipEvent)
    (x : OwnerAddr) (old : Option MemberStatus) : Option MemberStatus :=
  match e.kind with
  | .join => if e.actor = x ∧ admits old then some .joined else old
  | .leave => if e.actor = x ∧ old ≠ none ∧ old ≠ some .banned then some .left else old
  | .invite target => if target = x ∧ (old = none ∨ old = some .left) then some .invited else old
  | .unban target _ => if target = x ∧ old = some .banned then some .left else old
  | .pendingJoin _ =>
    if e.actor = x ∧ admits old then
      if e.id ∈ env.canonicalPendingIds then some .joined
      else if pendingExpired env e then old
      else some .pendingJoin
    else old
  | .deviceAnnounce => old
  | .deviceRetire _ _ => old
  | _ => if kicked = some x ∧ old ≠ none then some .banned else old

section Record

variable {env : ReplayEnv} {e : SignedMembershipEvent} {x : OwnerAddr}
  {kicked : Option OwnerAddr}

theorem admits_eq (old : Option MemberState) :
    admits (old.map (·.status)) = !shadowed old := by
  cases old <;> simp [admits, shadowed]

theorem insertEnrolledKeyUnlessRetired_status (s : MemberState) (key : PubKey) :
    (insertEnrolledKeyUnlessRetired s key).status = s.status := by
  unfold insertEnrolledKeyUnlessRetired
  split_ifs <;> rfl

theorem onDeviceAnnounce_status (old : Option MemberState) :
    (onDeviceAnnounce e old).map (·.status) = old.map (·.status) := by
  cases old with
  | none => rfl
  | some s =>
    simp only [onDeviceAnnounce, Option.map_some]
    split_ifs
    · cases e.enrollment <;> simp [insertEnrolledKeyUnlessRetired_status]
    · rfl

theorem memberUpdate_status (old : Option MemberState) :
    (memberUpdate env kicked e x old).map (·.status) =
      statusUpdate env kicked e x (old.map (·.status)) := by
  unfold memberUpdate statusUpdate
  cases e.kind with
  | join =>
    simp only [admits_eq, onJoin]
    by_cases h : e.actor = x <;> by_cases hs : shadowed old <;> simp [h, hs, admitted]
  | leave =>
    by_cases h : e.actor = x <;> cases old <;> simp [h, onLeave]
    split_ifs <;> simp_all
  | invite target =>
    by_cases h : target = x <;> cases old <;> simp [h, onInvite]
    split_ifs <;> simp_all
  | unban target reason =>
    by_cases h : target = x <;> cases old <;> simp [h, onUnban]
    split_ifs <;> simp_all
  | pendingJoin token =>
    simp only [admits_eq, onPendingJoin]
    by_cases h : e.actor = x <;> by_cases hs : shadowed old <;> simp [h, hs]
    split_ifs <;> simp [admitted]
  | deviceAnnounce => by_cases h : e.actor = x <;> simp [h, onDeviceAnnounce_status]
  | deviceRetire revocation cert =>
    by_cases h : e.actor = x <;> cases old <;> simp [h, onDeviceRetire]
  | _ => by_cases h : kicked = some x <;> cases old <;> simp [h, onKick]

theorem step_status (env : ReplayEnv) (st : ReplayState) (e : SignedMembershipEvent)
    (x : OwnerAddr) :
    (step env st e).m.status x =
      statusUpdate env (kickedBy env.proposalsIndex st.governance e) e x (st.m.status x) := by
  simp only [MaterializedMembership.status, step_members, memberUpdate_status]

theorem statusUpdate_isSome {old : Option MemberStatus} :
    (statusUpdate env kicked e x old).isSome =
      (old.isSome || opensRecord env.canonicalPendingIds env.currentMaxWallMs x e) := by
  unfold statusUpdate opensRecord
  cases e.kind with
  | join =>
    by_cases h : e.actor = x <;> cases old <;> simp [h, admits]
    split_ifs <;> rfl
  | leave =>
    by_cases h : e.actor = x <;> cases old <;> simp [h]
    split_ifs <;> rfl
  | invite target =>
    by_cases h : target = x <;> cases old <;> simp [h]
    split_ifs <;> rfl
  | unban target reason =>
    by_cases h : target = x <;> cases old <;> simp [h]
    split_ifs <;> rfl
  | pendingJoin token =>
    by_cases h : e.actor = x <;> cases old <;> simp [h, admits, pendingExpired]
    · by_cases hc : e.id ∈ env.canonicalPendingIds
      · simp [hc]
      · by_cases hx : materializePendingExpiryMs < env.currentMaxWallMs - e.hlc.wallMs
        · simp only [hc, hx, if_true, if_false, Option.isSome_none]
          exact (decide_eq_false (by omega)).symm
        · simp only [hc, hx, if_false, Option.isSome_some]
          exact (decide_eq_true (by omega)).symm
    · split_ifs <;> rfl
  | deviceAnnounce => simp
  | deviceRetire revocation cert => simp
  | _ => by_cases h : kicked = some x <;> cases old <;> simp [h]

theorem statusUpdate_banned (hu : ∀ r, e.kind ≠ .unban x r) :
    statusUpdate env kicked e x (some .banned) = some .banned := by
  unfold statusUpdate
  cases hk : e.kind with
  | unban target reason =>
    have hne : target ≠ x := fun ht => hu reason (by rw [hk, ht])
    simp [hne]
  | _ => simp [admits]

theorem onDerivedKick_banned {b : Bool} {derivedAt : Hlc} {old : Option MemberState}
    (h : old.map (·.status) = some .banned) :
    (onDerivedKick b derivedAt old).map (·.status) = some .banned := by
  obtain ⟨s, rfl, hs⟩ := Option.map_eq_some_iff.mp h
  simp [onDerivedKick, hs]

end Record

theorem record_exists_iff (env : ReplayEnv) (sorted : List SignedMembershipEvent)
    (x : OwnerAddr) :
    ((replay env sorted).m.status x).isSome ↔
      ∃ e ∈ sorted, opensRecord env.canonicalPendingIds env.currentMaxWallMs x e = true := by
  induction sorted using List.reverseRecOn with
  | nil => simp [replay, ReplayState.init, MaterializedMembership.default,
      MaterializedMembership.status]
  | append_singleton sorted e ih =>
    simp only [replay, List.foldl_append, List.foldl_cons, List.foldl_nil, step_status,
      statusUpdate_isSome, Bool.or_eq_true]
    rw [← replay, ih]
    simp [or_and_right, exists_or]

/-! ### Bans -/

section Ban

variable {C : Crypto} {events : List SignedMembershipEvent} {adminAddr : OwnerAddr}
  {nowMs : Option ℕ} {k : SignedMembershipEvent} {x : OwnerAddr} {reason : Option String}

theorem recordSource_iff (C : Crypto) (adminAddr : OwnerAddr) :
    RecordSource events nowMs x k ↔
      ((stateBefore C events adminAddr nowMs k).m.status x).isSome := by
  rw [stateBefore, record_exists_iff]
  simp only [sortEvents, mem_sortBy]
  rfl

theorem kick_bans_iff (hkind : k.kind = .kick x reason) :
    (stateAfter C events adminAddr nowMs k).m.status x = some .banned ↔
      RecordSource events nowMs x k := by
  rw [recordSource_iff C adminAddr, stateAfter, step_status]
  cases (stateBefore C events adminAddr nowMs k).m.status x <;>
    simp [statusUpdate, hkind, kickedBy]

theorem view_banned {env : ReplayEnv} {st : ReplayState} (h : st.m.status x = some .banned) :
    (postPass env st).status x = some .banned :=
  view_record (P := fun r => r.map (·.status) = some .banned) h fun _ _ _ => onDerivedKick_banned

/-- No Unban behind `k` finds its target banned. -/
def NoUnbanApplied (C : Crypto) (events : List SignedMembershipEvent) (adminAddr : OwnerAddr)
    (nowMs : Option ℕ) (x : OwnerAddr) (k : SignedMembershipEvent) : Prop :=
  ∀ u ∈ events, eventSortKey k < eventSortKey u → ∀ r, u.kind = .unban x r →
    (stateBefore C events adminAddr nowMs u).m.status x ≠ some .banned

theorem banned_from (hids : DistinctIds events) (hk : k ∈ events)
    (hban : (stateAfter C events adminAddr nowMs k).m.status x = some .banned)
    (hno : NoUnbanApplied C events adminAddr nowMs x k) :
    (∀ p ∈ events, eventSortKey k ≤ eventSortKey p →
      (stateAfter C events adminAddr nowMs p).m.status x = some .banned) ∧
      (finalState C events adminAddr nowMs).m.status x = some .banned := by
  refine holds_from (P := fun st => st.m.status x = some .banned) hids hk hban ?_
  intro e he hlt hst
  have hu : ∀ r, e.kind ≠ .unban x r := fun r hkind => hno e he hlt r hkind hst
  rw [stateAfter, step_status, hst, statusUpdate_banned hu]

theorem status_of_view {env : ReplayEnv} {st : ReplayState} {s : MemberStatus}
    (h : (postPass env st).status x = some s) (hs : s ≠ .banned) : st.m.status x = some s := by
  revert h
  refine view_record (P := fun r => r.map (·.status) = some s → st.m.status x = some s) id ?_
  intro b derivedAt r hr hd
  refine hr ?_
  unfold onDerivedKick at hd
  split at hd
  · split_ifs at hd
    · exact hd
    · exact absurd (Option.some.inj hd).symm hs
  · split_ifs at hd
    · exact absurd (Option.some.inj hd).symm hs
    · exact hd

end Ban

/-! ### Two clocks over one prefix -/

def isRequest (x : OwnerAddr) (e : SignedMembershipEvent) : Prop :=
  (∃ token, e.kind = .pendingJoin token) ∧ e.actor = x

def passesBy (kicked : Option OwnerAddr) (x : OwnerAddr) (e : SignedMembershipEvent) : Prop :=
  match e.kind with
  | .join => e.actor ≠ x
  | .leave => e.actor ≠ x
  | .invite _ => True
  | .unban _ _ => True
  | .pendingJoin _ => True
  | .deviceAnnounce => True
  | .deviceRetire _ _ => True
  | _ => kicked ≠ some x

section Request

variable {env env' : ReplayEnv} {x : OwnerAddr}

theorem statusUpdate_pending_iff {kicked : Option OwnerAddr} {e : SignedMembershipEvent}
    {old : Option MemberStatus} (hreq : ¬isRequest x e) :
    statusUpdate env kicked e x old = some .pendingJoin ↔
      old = some .pendingJoin ∧ passesBy kicked x e := by
  unfold statusUpdate passesBy
  cases hk : e.kind with
  | join =>
    by_cases hx : e.actor = x
    · by_cases ha : admits old = true
      · simp [hx, ha]
      · have hne : old ≠ some .pendingJoin := by
          rintro rfl
          exact ha rfl
        simp [hx, ha, hne]
    · simp [hx]
  | leave =>
    by_cases hx : e.actor = x <;> cases old <;> simp [hx]
    intro hl
    split_ifs at hl <;> simp_all
  | invite target =>
    simp only [and_true]
    split_ifs with hi
    · rcases hi.2 with h | h <;> simp [h]
    · rfl
  | unban target r =>
    simp only [and_true]
    split_ifs with hu
    · simp [hu.2]
    · rfl
  | pendingJoin token =>
    have hx : e.actor ≠ x := fun hx => hreq ⟨⟨token, hk⟩, hx⟩
    simp [hx]
  | deviceAnnounce => simp
  | deviceRetire revocation cert => simp
  | _ => by_cases hx : kicked = some x <;> cases old <;> simp [hx]

/-- A request is shown while it is open and meets no terminal record; an expired one
leaves the record as it was. -/
theorem statusUpdate_request_iff {kicked : Option OwnerAddr} {e : SignedMembershipEvent}
    {old : Option MemberStatus} (hreq : isRequest x e) :
    statusUpdate env kicked e x old = some .pendingJoin ↔
      admits old = true ∧ e.id ∉ env.canonicalPendingIds ∧
        (pendingExpired env e = true → old = some .pendingJoin) := by
  obtain ⟨⟨token, hk⟩, hx⟩ := hreq
  simp only [statusUpdate, hk, hx, true_and]
  by_cases ha : admits old = true
  · by_cases hc : e.id ∈ env.canonicalPendingIds
    · simp [ha, hc]
    · cases hexp : pendingExpired env e <;> simp [ha, hc]
  · have hne : old ≠ some .pendingJoin := by
      rintro rfl
      exact ha rfl
    simp [ha, hne]

theorem exists_request {sorted : List SignedMembershipEvent}
    (h : (replay env sorted).m.status x = some .pendingJoin) :
    ∃ p ∈ sorted, isRequest x p ∧ pendingExpired env p = false := by
  induction sorted using List.reverseRecOn with
  | nil => simp [replay, ReplayState.init, MaterializedMembership.default,
      MaterializedMembership.status] at h
  | append_singleton sorted e ih =>
    have hearlier : (replay env sorted).m.status x = some .pendingJoin →
        ∃ p ∈ sorted ++ [e], isRequest x p ∧ pendingExpired env p = false := by
      intro hst
      obtain ⟨p, hp, hopen⟩ := ih hst
      exact ⟨p, List.mem_append_left _ hp, hopen⟩
    rw [replay_snoc, step_status] at h
    by_cases hreq : isRequest x e
    · obtain ⟨-, -, hexp⟩ := (statusUpdate_request_iff hreq).mp h
      cases hx : pendingExpired env e with
      | true => exact hearlier (hexp hx)
      | false => exact ⟨e, by simp, hreq, hx⟩
    · exact hearlier ((statusUpdate_pending_iff hreq).mp h).1

/-- Two replays of one list kick alike. So once both have met the last request, a
record that is pending at the end of the one is pending at the end of the other
exactly when the request made it so there. -/
theorem pending_iff_after_request (hadmin : env.adminAddr = env'.adminAddr)
    (pre later : List SignedMembershipEvent) (hlater : ∀ e ∈ later, ¬isRequest x e)
    (hidx : ∀ e ∈ pre ++ later, ∀ kind, e.kind = .adminProposal kind →
      env.proposalsIndex[e.id]? = env'.proposalsIndex[e.id]?)
    (hpend : (replay env' (pre ++ later)).m.status x = some .pendingJoin) :
    (replay env (pre ++ later)).m.status x = some .pendingJoin ↔
      (replay env pre).m.status x = some .pendingJoin := by
  induction later using List.reverseRecOn with
  | nil => rw [List.append_nil]
  | append_singleton later e ih =>
    have hreq : ¬isRequest x e := hlater e (by simp)
    rw [← List.append_assoc] at hidx hpend ⊢
    rw [replay_snoc, step_status, statusUpdate_pending_iff hreq] at hpend ⊢
    have hprev := ih (fun a ha => hlater a (List.mem_append_left _ ha))
      (fun a ha => hidx a (List.mem_append_left _ ha)) hpend.1
    rw [hprev, replay_kickedBy_congr hadmin hidx]
    exact and_iff_left hpend.2

end Request

section Ban

variable {C : Crypto} {events : List SignedMembershipEvent} {adminAddr : OwnerAddr}
  {nowMs : Option ℕ} {k : SignedMembershipEvent} {x : OwnerAddr} {reason : Option String}

/-- The last request of `x` before `k` is neither approved nor expired in the log as
it is read, and met no terminal record there. -/
def RequestStands (C : Crypto) (events : List SignedMembershipEvent) (adminAddr : OwnerAddr)
    (nowMs : Option ℕ) (x : OwnerAddr) (k : SignedMembershipEvent) : Prop :=
  ∃ p ∈ before eventSortKey events k, isRequest x p ∧
    (∀ q ∈ before eventSortKey events k, isRequest x q → eventSortKey q ≤ eventSortKey p) ∧
    p.id ∉ canonicalPendingIds events ∧
    currentMaxWallMs events nowMs - p.hlc.wallMs ≤ materializePendingExpiryMs ∧
    admits ((stateBefore C events adminAddr nowMs p).m.status x) = true

theorem exists_last_request {sorted : List SignedMembershipEvent}
    (h : ∃ p ∈ sorted, isRequest x p) :
    ∃ pre p later, sorted = pre ++ p :: later ∧ isRequest x p ∧ ∀ e ∈ later, ¬isRequest x e := by
  induction sorted with
  | nil => simp at h
  | cons a sorted ih =>
    by_cases hrest : ∃ p ∈ sorted, isRequest x p
    · obtain ⟨pre, p, later, rfl, hp, hlater⟩ := ih hrest
      exact ⟨a :: pre, p, later, rfl, hp, hlater⟩
    · obtain ⟨p, hp, hreq⟩ := h
      rcases List.mem_cons.mp hp with rfl | hp
      · exact ⟨[], p, sorted, rfl, hreq, fun e he hreq => hrest ⟨e, he, hreq⟩⟩
      · exact absurd ⟨p, hp, hreq⟩ hrest

/-- Whether the joiner whom the Kick was admitted against is still pending in the log
as it is read is decided by the last request. -/
theorem pending_in_replay_iff (hids : DistinctIds events) (hk : k ∈ events)
    (hprior : (priorStateAtEvent C events k adminAddr).status x = some .pendingJoin) :
    (stateBefore C events adminAddr nowMs k).m.status x = some .pendingJoin ↔
      RequestStands C events adminAddr nowMs x k := by
  let prior := before eventSortKey events k
  let env := prePass C events adminAddr nowMs
  let env' := prePass C prior adminAddr (some k.hlc.wallMs)
  have hids' : DistinctIds prior := hids.filter _
  have hpend : (replay env' (sortEvents prior)).m.status x = some .pendingJoin :=
    status_of_view hprior (by simp)
  obtain ⟨p₀, hp₀, hreq₀, -⟩ := exists_request hpend
  obtain ⟨pre, p, later, hsplit, hreq, hlater⟩ := exists_last_request ⟨p₀, hp₀, hreq₀⟩
  have hmem : ∀ e, e ∈ prior ↔ e ∈ pre ++ p :: later := fun e => by
    rw [← hsplit, sortEvents, mem_sortBy]
  have hidx : ∀ e ∈ (pre ++ [p]) ++ later, ∀ kind, e.kind = .adminProposal kind →
      env.proposalsIndex[e.id]? = env'.proposalsIndex[e.id]? := by
    intro e he kind hkind
    have hep : e ∈ prior := (hmem e).mpr (by simpa using he)
    simp only [env, env', prePass]
    rw [proposalsIndex_get hids (List.mem_filter.mp hep).1 hkind,
      proposalsIndex_get hids' hep hkind]
  have hsplit' : sortEvents prior = (pre ++ [p]) ++ later := by simp [hsplit]
  rw [hsplit'] at hpend
  have hafter : (replay env (pre ++ [p] ++ later)).m.status x = some .pendingJoin ↔
      (replay env (pre ++ [p])).m.status x = some .pendingJoin :=
    pending_iff_after_request (show env.adminAddr = env'.adminAddr from rfl) (pre ++ [p]) later
      hlater hidx hpend
  have hp : p ∈ prior := (hmem p).mpr (by simp)
  have hbefore : stateBefore C events adminAddr nowMs p = replay env pre := by
    have hs := sortBy_split hids.keyNodup hk
    rw [show sortBy eventSortKey (before eventSortKey events k) = pre ++ p :: later from hsplit] at hs
    have hsorted : sortEvents events =
        pre ++ p :: (later ++ k :: sortBy eventSortKey (after eventSortKey events k)) := by
      simpa [sortEvents] using hs
    exact stateBefore_eq hids hsorted
  have hlast : ∀ q ∈ prior, isRequest x q → eventSortKey q ≤ eventSortKey p := by
    intro q hq hreqq
    have hsorted : (sortBy eventSortKey prior).Pairwise fun a b =>
        eventSortKey a ≤ eventSortKey b := sortBy_sorted prior
    rw [show sortBy eventSortKey prior = _ from hsplit, List.pairwise_append] at hsorted
    rcases List.mem_append.mp ((hmem q).mp hq) with hq | hq
    · exact hsorted.2.2 q hq p (by simp)
    · rcases List.mem_cons.mp hq with rfl | hq
      · exact le_rfl
      · exact absurd hreqq (hlater q hq)
  rw [stateBefore, hsplit', hafter, replay_snoc, step_status, statusUpdate_request_iff hreq]
  constructor
  · rintro ⟨ha, hc, hexp⟩
    refine ⟨p, hp, hreq, hlast, hc, ?_, hbefore ▸ ha⟩
    by_contra hage
    -- an older request, still open, would be younger than this one
    obtain ⟨q, hq, -, hopen⟩ := exists_request (hexp (decide_eq_true (not_le.mp hage)))
    have hwalls := sorted_walls prior
    rw [hsplit, List.pairwise_append] at hwalls
    have hle : q.hlc.wallMs ≤ p.hlc.wallMs := hwalls.2.2 q hq p (by simp)
    have hqage := of_decide_eq_false hopen
    have henv : env.currentMaxWallMs = currentMaxWallMs events nowMs := rfl
    omega
  · rintro ⟨q, hq, hreqq, hqlast, hc, hage, ha⟩
    have hkeys : eventSortKey q = eventSortKey p :=
      le_antisymm (hlast q hq hreqq) (hqlast p hp hreq)
    obtain rfl := hids'.keyNodup.inj hq hp hkeys
    have hopen : pendingExpired env q = false := decide_eq_false (not_lt.mpr hage)
    exact ⟨hbefore ▸ ha, hc, fun hexp => absurd hexp (by simp [hopen])⟩

/-- A direct Kick marks its target for a rotation unless the record is pending. -/
theorem kick_marks_iff (hkind : k.kind = .kick x reason) :
    (stateAfter C events adminAddr nowMs k).m.pendingRotationFor =
        (stateBefore C events adminAddr nowMs k).m.pendingRotationFor ↔
      x ∈ (stateBefore C events adminAddr nowMs k).m.pendingRotationFor ∨
        (stateBefore C events adminAddr nowMs k).m.status x = some .pendingJoin := by
  have hafter : (stateAfter C events adminAddr nowMs k).m.pendingRotationFor =
      if (stateBefore C events adminAddr nowMs k).m.status x = some .pendingJoin then
        (stateBefore C events adminAddr nowMs k).m.pendingRotationFor
      else insert x (stateBefore C events adminAddr nowMs k).m.pendingRotationFor := by
    simp [stateAfter, step, applyEvent, hkind, kickMember, refreshNewAdmin]
  rw [hafter]
  split_ifs with hst
  · simp [hst]
  · simp [hst, Finset.insert_eq_self]

/-- A Kick lasts until an Unban finds its target banned exactly when an event before
it opens the target's record in the log as it is read. A Kick of a joiner who was
pending when it was admitted leaves the rotation markers alone exactly when the joiner
is marked already or the last request still stands there. -/
theorem ban_lasts_iff (C : Crypto) (events : List SignedMembershipEvent) (adminAddr : OwnerAddr)
    (nowMs : Option ℕ) (k : SignedMembershipEvent) (x : OwnerAddr) (reason : Option String)
    (hids : DistinctIds events) (hk : k ∈ events) (hkind : k.kind = .kick x reason) :
    (NoUnbanApplied C events adminAddr nowMs x k →
      ((∀ p ∈ events, eventSortKey k ≤ eventSortKey p →
            (stateAfter C events adminAddr nowMs p).m.status x = some .banned) ∧
          (materializeWithNow C events adminAddr nowMs).status x = some .banned ↔
        RecordSource events nowMs x k)) ∧
    ((priorStateAtEvent C events k adminAddr).status x = some .pendingJoin →
      ((stateAfter C events adminAddr nowMs k).m.pendingRotationFor =
          (stateBefore C events adminAddr nowMs k).m.pendingRotationFor ↔
        x ∈ (stateBefore C events adminAddr nowMs k).m.pendingRotationFor ∨
          RequestStands C events adminAddr nowMs x k)) := by
  refine ⟨fun hno => ⟨fun h => ?_, fun h => ?_⟩, fun hprior => ?_⟩
  · exact (kick_bans_iff hkind).mp (h.1 k hk le_rfl)
  · obtain ⟨hall, hfinal⟩ := banned_from hids hk ((kick_bans_iff hkind).mpr h) hno
    exact ⟨hall, view_banned hfinal⟩
  · rw [kick_marks_iff hkind, pending_in_replay_iff hids hk hprior]

/-- Owner 2 asks to join with an invite of the admin, who kicks the request. -/
def kickedRequest : List SignedMembershipEvent :=
  [signed 1 1 1 .join, signed 2 2 2 (.pendingJoin (tokenOf 1)), signed 3 3 1 (.kick 2 none)]

/-- The first request of owner 2 has lapsed when the second is kicked. -/
def kickedAgain : List SignedMembershipEvent :=
  [signed 1 1 1 .join, signed 2 2 2 (.pendingJoin (tokenOf 1)),
    signed 3 (materializePendingExpiryMs + 3) 2 (.pendingJoin (tokenOf 1)),
    signed 4 (materializePendingExpiryMs + 4) 1 (.kick 2 none)]

theorem ban_lasts_iff_kickedAgain :
    VerifiedLog symbolicCrypto openContext kickedAgain ∧
      (materializeWithNow symbolicCrypto kickedAgain 1 none).status 2 = some .banned ∧
      2 ∉ (stateAfter symbolicCrypto kickedAgain 1 none
        (signed 4 (materializePendingExpiryMs + 4) 1 (.kick 2 none))).m.pendingRotationFor := by
  have hlasts := ban_lasts_iff symbolicCrypto kickedAgain 1 none
    (signed 4 (materializePendingExpiryMs + 4) 1 (.kick 2 none)) 2 none (by decide) (by decide) rfl
  refine ⟨by decide, ((hlasts.1 ?_).mpr (by decide)).2, ?_⟩
  · intro u hu hlt r
    simp only [kickedAgain, List.mem_cons, List.not_mem_nil, or_false] at hu
    rcases hu with rfl | rfl | rfl | rfl <;> simp [signed, signedWith]
  · rw [(hlasts.2 (by decide)).mpr (Or.inr ?_)]
    · decide
    · have hlast : ∀ q ∈ before eventSortKey kickedAgain
          (signed 4 (materializePendingExpiryMs + 4) 1 (.kick 2 none)),
          eventSortKey q ≤ eventSortKey
            (signed 3 (materializePendingExpiryMs + 3) 2 (.pendingJoin (tokenOf 1))) := by decide
      exact ⟨_, by decide, ⟨⟨_, rfl⟩, rfl⟩, fun q hq _ => hlast q hq, by decide, by decide, by decide⟩

/-- Thirty days later the request is hidden: the Kick bans nobody and asks for a
rotation instead. -/
theorem kickedRequest_forgotten :
    VerifiedLog symbolicCrypto openContext kickedRequest ∧
      (stateAfter symbolicCrypto kickedRequest 1 none (signed 3 3 1 (.kick 2 none))).m.status 2 =
        some .banned ∧
      (priorStateAtEvent symbolicCrypto kickedRequest (signed 3 3 1 (.kick 2 none)) 1).status 2 =
        some .pendingJoin ∧
      (∀ u ∈ kickedRequest, ∀ r, u.kind ≠ .unban 2 r) ∧
      (materializeWithNow symbolicCrypto kickedRequest 1
        (some (materializePendingExpiryMs + 3))).status 2 = none ∧
      2 ∈ (materializeWithNow symbolicCrypto kickedRequest 1
        (some (materializePendingExpiryMs + 3))).pendingRotationFor := by
  refine ⟨by decide, by decide, by decide, ?_, by decide, by decide⟩
  intro u hu r
  simp only [kickedRequest, List.mem_cons, List.not_mem_nil, or_false] at hu
  rcases hu with rfl | rfl | rfl <;> simp [signed, signedWith]

end Ban

end Harmony.Membership
