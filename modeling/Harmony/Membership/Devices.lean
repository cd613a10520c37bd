import Harmony.Membership.Lifecycle

/-! Enrolled and retired device keys. The arms that write a member record keep its
tombstones and never enroll a tombstoned key, so within a replay a retired key stays
retired; a DeviceRetire that reaches a hidden record leaves no tombstone. -/

namespace Harmony.Membership

open Harmony.Lib

theorem insertEnrolledKeyCapped_card {set : Finset PubKey} {key : PubKey}
    (h : set.card ≤ maxEnrolledDeviceKeys) :
    (insertEnrolledKeyCapped set key).card ≤ maxEnrolledDeviceKeys := by
  unfold insertEnrolledKeyCapped
  split_ifs with hk
  · rcases hk with hk | hk
    · rwa [Finset.insert_eq_of_mem hk]
    · exact (Finset.card_insert_le _ _).trans hk
  · exact h

theorem mem_insertEnrolledKeyCapped {set : Finset PubKey} {key k : PubKey}
    (h : k ∈ insertEnrolledKeyCapped set key) : k = key ∨ k ∈ set := by
  unfold insertEnrolledKeyCapped at h
  split_ifs at h
  · exact Finset.mem_insert.mp h
  · exact Or.inr h

/-- A property of a record's enrolled and retired keys that the log cannot break:
enrolling a key that is not tombstoned, dropping all enrolled keys, retiring a key. -/
structure KeyInvariant (Q : Finset PubKey → Finset PubKey → Prop) : Prop where
  enroll : ∀ {enrolled revoked key}, key ∉ revoked → Q enrolled revoked →
    Q (insertEnrolledKeyCapped enrolled key) revoked
  clear : ∀ {enrolled revoked}, Q enrolled revoked → Q ∅ revoked
  retire : ∀ {enrolled revoked key}, Q enrolled revoked →
    Q (enrolled.erase key) (insert key revoked)

section Record

variable {env : ReplayEnv} {e : SignedMembershipEvent} {x : OwnerAddr}
  {kicked : Option OwnerAddr} {old : Option MemberState}
  {Q : Finset PubKey → Finset PubKey → Prop}

def KeysHold (Q : Finset PubKey → Finset PubKey → Prop) (old : Option MemberState) : Prop :=
  Q (old.elim ∅ (·.enrolledDeviceKeys)) (old.elim ∅ (·.revokedDeviceKeys))

theorem KeyInvariant.admitted (hQ : KeyInvariant Q) (h : KeysHold Q old) (status : MemberStatus)
    (e : SignedMembershipEvent) : KeysHold Q (some (admitted status e old)) := by
  simp only [KeysHold, Membership.admitted, Option.elim_some]
  cases e.enrollment with
  | none => exact h
  | some cert =>
    simp only
    split_ifs with hrev
    · exact h
    · exact hQ.enroll hrev h

theorem KeyInvariant.onJoin (hQ : KeyInvariant Q) (h : KeysHold Q old) :
    KeysHold Q (onJoin e old) := by
  unfold Membership.onJoin
  split_ifs
  · exact h
  · exact hQ.admitted h _ _

theorem KeyInvariant.onPendingJoin (hQ : KeyInvariant Q) (h : KeysHold Q old)
    (countersigned expired : Bool) : KeysHold Q (onPendingJoin countersigned expired e old) := by
  unfold Membership.onPendingJoin
  split_ifs
  · exact h
  · exact hQ.admitted h _ _
  · exact h
  · exact hQ.admitted h _ _

theorem KeyInvariant.onInvite (hQ : KeyInvariant Q) (h : KeysHold Q old) :
    KeysHold Q (onInvite e old) := by
  unfold Membership.onInvite
  split
  · exact h
  · split_ifs
    · exact hQ.clear h
    · exact h

theorem KeyInvariant.onDeviceAnnounce (hQ : KeyInvariant Q) (h : KeysHold Q old) :
    KeysHold Q (onDeviceAnnounce e old) := by
  cases old with
  | none => exact h
  | some s =>
    simp only [Membership.onDeviceAnnounce, Option.map_some, insertEnrolledKeyUnlessRetired]
    split_ifs
    · cases e.enrollment with
      | none => exact h
      | some cert =>
        simp only
        split_ifs with hrev
        · exact h
        · exact hQ.enroll hrev h
    · exact h

theorem keysHold_onLeave (h : KeysHold Q old) : KeysHold Q (onLeave e old) := by
  cases old with
  | none => exact h
  | some s =>
    simp only [onLeave, Option.map_some]
    split_ifs <;> exact h

theorem keysHold_onUnban (h : KeysHold Q old) : KeysHold Q (onUnban old) := by
  cases old with
  | none => exact h
  | some s =>
    simp only [onUnban, Option.map_some]
    split_ifs <;> exact h

theorem keysHold_onKick {leftAt : Hlc} (h : KeysHold Q old) : KeysHold Q (onKick leftAt old) := by
  cases old <;> exact h

theorem keysHold_onDerivedKick {b : Bool} {derivedAt : Hlc} (h : KeysHold Q old) :
    KeysHold Q (onDerivedKick b derivedAt old) := by
  cases old with
  | none => cases b <;> exact h
  | some s =>
    simp only [onDerivedKick]
    split_ifs <;> exact h

theorem KeyInvariant.memberUpdate (hQ : KeyInvariant Q) (h : KeysHold Q old) : KeysHold Q (memberUpdate env kicked e x old) := by
  unfold Membership.memberUpdate
  cases e.kind with
  | join => simp only; split_ifs; exacts [hQ.onJoin h, h]
  | leave => simp only; split_ifs; exacts [keysHold_onLeave h, h]
  | invite target => simp only; split_ifs; exacts [hQ.onInvite h, h]
  | unban target reason => simp only; split_ifs; exacts [keysHold_onUnban h, h]
  | pendingJoin token => simp only; split_ifs; exacts [hQ.onPendingJoin h _ _, h]
  | deviceAnnounce => simp only; split_ifs; exacts [hQ.onDeviceAnnounce h, h]
  | deviceRetire revocation cert =>
    simp only
    split_ifs
    · cases old with
      | none => exact h
      | some s => exact hQ.retire h
    · exact h
  | _ => simp only; split_ifs; exacts [keysHold_onKick h, h]

end Record

/-- Enrolled and retired keys are disjoint and the enrolled ones are capped. -/
def KeysOk (enrolled revoked : Finset PubKey) : Prop :=
  Disjoint enrolled revoked ∧ enrolled.card ≤ maxEnrolledDeviceKeys

theorem keyInvariant_keysOk : KeyInvariant KeysOk where
  enroll hk h := by
    refine ⟨Finset.disjoint_left.mpr fun k hmem => ?_, insertEnrolledKeyCapped_card h.2⟩
    rcases mem_insertEnrolledKeyCapped hmem with rfl | hmem
    · exact hk
    · exact Finset.disjoint_left.mp h.1 hmem
  clear _ := ⟨Finset.disjoint_empty_left _, by simp⟩
  retire h := by
    refine ⟨Finset.disjoint_left.mpr fun k hmem => ?_, (Finset.card_erase_le).trans h.2⟩
    obtain ⟨hne, hmem⟩ := Finset.mem_erase.mp hmem
    simpa [hne] using Finset.disjoint_left.mp h.1 hmem

def Retired (key : PubKey) (enrolled revoked : Finset PubKey) : Prop :=
  key ∈ revoked ∧ key ∉ enrolled

theorem keyInvariant_retired (key : PubKey) : KeyInvariant (Retired key) where
  enroll hk h := by
    refine ⟨h.1, fun hmem => ?_⟩
    rcases mem_insertEnrolledKeyCapped hmem with rfl | hmem
    · exact hk h.1
    · exact h.2 hmem
  clear h := ⟨h.1, by simp⟩
  retire h := ⟨Finset.mem_insert_of_mem h.1, fun hmem => h.2 (Finset.mem_of_mem_erase hmem)⟩

section Log

variable {C : Crypto} {events : List SignedMembershipEvent} {adminAddr : OwnerAddr}
  {nowMs : Option ℕ}

theorem KeyInvariant.view {Q : Finset PubKey → Finset PubKey → Prop} (hQ : KeyInvariant Q)
    (h0 : Q ∅ ∅) (x : OwnerAddr) :
    KeysHold Q (materializeWithNow C events adminAddr nowMs).members[x]? := by
  rw [materializeWithNow_eq]
  refine view_record ?_ fun _ _ _ => keysHold_onDerivedKick
  refine List.foldlRecOn (motive := fun st : ReplayState => KeysHold Q st.m.members[x]?)
    (sortEvents events) (step _) ?_ fun st hst e _ => ?_
  · simpa [KeysHold, ReplayState.init, MaterializedMembership.default] using h0
  · rw [step_members]
    exact hQ.memberUpdate hst

theorem exists_of_keysHold_retired {key : PubKey} {r : Option MemberState}
    (h : KeysHold (Retired key) r) :
    ∃ s, r = some s ∧ key ∈ s.revokedDeviceKeys ∧ key ∉ s.enrolledDeviceKeys := by
  cases r with
  | none => simp [KeysHold, Retired] at h
  | some s => exact ⟨s, rfl, h⟩

/-- The DeviceRetire leaves its tombstone exactly when the owner has a record. -/
theorem retire_takes_iff (C : Crypto) (adminAddr : OwnerAddr) {r : SignedMembershipEvent} {rev : RevocationCert}
    {cert : EnrollmentCert} (hkind : r.kind = .deviceRetire rev cert) :
    KeysHold (Retired cert.deviceKey)
        (stateAfter C events adminAddr nowMs r).m.members[r.actor]? ↔
      RecordSource events nowMs r.actor r := by
  rw [recordSource_iff C adminAddr, stateAfter, step_members,
    MaterializedMembership.status]
  cases (stateBefore C events adminAddr nowMs r).m.members[r.actor]? <;>
    simp [memberUpdate, hkind, onDeviceRetire, KeysHold, Retired]

/-- Retired keys stay retired. In every log the keys of a record are disjoint and
capped; a retire keeps its key out of the record from then on exactly when an event
before it opens the record in the log as it is read. -/
theorem retired_key_stays_retired (C : Crypto) (events : List SignedMembershipEvent)
    (adminAddr : OwnerAddr) (nowMs : Option ℕ) :
    (∀ (x : OwnerAddr) (s : MemberState),
      (materializeWithNow C events adminAddr nowMs).members[x]? = some s →
      Disjoint s.enrolledDeviceKeys s.revokedDeviceKeys ∧
        s.enrolledDeviceKeys.card ≤ maxEnrolledDeviceKeys) ∧
    (DistinctIds events → ∀ r ∈ events, ∀ rev cert, r.kind = .deviceRetire rev cert →
      ((∀ p ∈ events, eventSortKey r ≤ eventSortKey p →
            ∃ s : MemberState, (stateAfter C events adminAddr nowMs p).m.members[r.actor]? = some s ∧
              cert.deviceKey ∈ s.revokedDeviceKeys ∧ cert.deviceKey ∉ s.enrolledDeviceKeys) ∧
          (∃ s : MemberState,
            (materializeWithNow C events adminAddr nowMs).members[r.actor]? = some s ∧
            cert.deviceKey ∈ s.revokedDeviceKeys ∧ cert.deviceKey ∉ s.enrolledDeviceKeys) ↔
        RecordSource events nowMs r.actor r)) := by
  refine ⟨fun x s hs => ?_, fun hids r hr rev cert hkind => ⟨fun h => ?_, fun h => ?_⟩⟩
  · have hview : KeysHold KeysOk (materializeWithNow C events adminAddr nowMs).members[x]? :=
      keyInvariant_keysOk.view ⟨Finset.disjoint_empty_left _, by simp⟩ x
    rwa [hs] at hview
  · obtain ⟨s, hs, hrevoked, -⟩ := h.1 r hr le_rfl
    refine (retire_takes_iff C adminAddr hkind).mp ?_
    rw [hs]
    exact (h.1 r hr le_rfl).elim fun s' hs' => by simp_all [KeysHold, Retired]
  · obtain ⟨hall, hfinal⟩ := holds_from
      (P := fun st => KeysHold (Retired cert.deviceKey) st.m.members[r.actor]?) hids hr
      ((retire_takes_iff C adminAddr hkind).mpr h)
      fun e _ _ hst => by
        rw [stateAfter, step_members]
        exact (keyInvariant_retired _).memberUpdate hst
    exact ⟨fun p hp hle => exists_of_keysHold_retired (hall p hp hle),
      exists_of_keysHold_retired (view_record hfinal fun _ _ _ => keysHold_onDerivedKick)⟩

end Log

/-- Owner 2 asks to join with key 200, retires that key, and once the request has
expired joins with the same key. -/
def retiredThenRejoined : List SignedMembershipEvent :=
  [signed 1 1 1 .join, signed 2 2 2 (.pendingJoin (tokenOf 1)),
    signed 3 3 2 (.deviceRetire ⟨2, 200, 0, .lost, []⟩ (certFor 2 200)),
    signed 4 (materializePendingExpiryMs + 3) 2 .join]

theorem retired_key_stays_retired_request :
    ∃ s : MemberState,
      (materializeWithNow symbolicCrypto (retiredThenRejoined.take 3) 1 none).members[2]? =
        some s ∧ 200 ∈ s.revokedDeviceKeys ∧ 200 ∉ s.enrolledDeviceKeys :=
  (((retired_key_stays_retired symbolicCrypto (retiredThenRejoined.take 3) 1 none).2 (by decide)
    (signed 3 3 2 (.deviceRetire ⟨2, 200, 0, .lost, []⟩ (certFor 2 200))) (by decide) _ _ rfl).mpr
      (by decide)).2

/-- The tombstone went with the hidden record: the retired key is enrolled again. -/
theorem retiredThenRejoined_enrolled :
    VerifiedLog symbolicCrypto openContext retiredThenRejoined ∧
      ∃ s : MemberState,
        (materializeWithNow symbolicCrypto retiredThenRejoined 1 none).members[2]? = some s ∧
          200 ∈ s.enrolledDeviceKeys := by
  refine ⟨by decide, ?_⟩
  exact ⟨(materializeWithNow symbolicCrypto retiredThenRejoined 1 none).members[2]?.get (by decide),
    by simp, by decide⟩

end Harmony.Membership
