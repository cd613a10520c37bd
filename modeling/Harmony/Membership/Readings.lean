import Harmony.Membership.Execution

/-! Two readings of one log, the second under a later clock. A join request that is
visible to the first may have lapsed for the second, which then misses what happened to
the record it opened; as long as no request is approved in between and every event was
accepted where it stands, the two agree on who is Joined and on every recovery. -/

namespace Harmony.Membership

open Harmony.Lib

/-! ### Lapsed requests -/

def sameProposals (env env' : ReplayEnv) (sorted : List SignedMembershipEvent) : Prop :=
  ∀ a ∈ sorted, ∀ kind, a.kind = .adminProposal kind →
    env.proposalsIndex[a.id]? = env'.proposalsIndex[a.id]?

def everyReading (env : ReplayEnv) (sorted : List SignedMembershipEvent) (x : OwnerAddr)
    (P : Option MemberStatus → Prop) : Prop :=
  ∀ early : ReplayEnv, early.adminAddr = env.adminAddr →
    early.currentMaxWallMs ≤ env.currentMaxWallMs → sameProposals early env sorted →
    P ((replay early sorted).m.status x)

section EveryReading

variable {env : ReplayEnv} {sorted : List SignedMembershipEvent} {e : SignedMembershipEvent}
  {x : OwnerAddr}

theorem sameProposals.init {env env' : ReplayEnv} (h : sameProposals env env' (sorted ++ [e])) :
    sameProposals env env' sorted := fun a ha => h a (by simp [ha])

theorem replay_snoc_status (env : ReplayEnv) (sorted : List SignedMembershipEvent)
    (e : SignedMembershipEvent) (x : OwnerAddr) :
    (replay env (sorted ++ [e])).m.status x =
      statusUpdate env (kickedBy env.proposalsIndex (replay env sorted).governance e) e x
        ((replay env sorted).m.status x) := by
  rw [replay_snoc, step_status]

theorem everyReading.record_snoc (h : everyReading env sorted x (·.isSome = true)) :
    everyReading env (sorted ++ [e]) x (·.isSome = true) := by
  intro early hadmin htime hidx
  have hold := h early hadmin htime hidx.init
  rw [replay_snoc_status, statusUpdate_isSome, hold, Bool.true_or]

theorem everyReading_of_request {tok : InviteToken} (hk : e.kind = .pendingJoin tok)
    (hx : e.actor = x) (hvisible : pendingExpired env e = false) :
    everyReading env (sorted ++ [e]) x (·.isSome = true) := by
  intro early hadmin htime hidx
  rw [replay_snoc_status, statusUpdate_isSome, Bool.or_eq_true]
  right
  simp only [pendingExpired, decide_eq_false_iff_not] at hvisible
  simp only [opensRecord, hk, hx, decide_true, Bool.true_and, Bool.or_eq_true, decide_eq_true_eq]
  right
  omega

theorem everyReading.banned_snoc (h : everyReading env sorted x (· = some .banned))
    (hu : ∀ r, e.kind ≠ .unban x r) : everyReading env (sorted ++ [e]) x (· = some .banned) := by
  intro early hadmin htime hidx
  have hold := h early hadmin htime hidx.init
  rw [replay_snoc_status, hold, statusUpdate_banned hu]

theorem everyReading.of_banned (h : everyReading env sorted x (· = some .banned)) :
    everyReading env sorted x (·.isSome = true) := by
  intro early hadmin htime hidx
  have hold := h early hadmin htime hidx
  rw [hold]
  rfl

/-- A kick bans in every reading in which it meets a record. -/
theorem everyReading.banned_of_kick (h : everyReading env sorted x (·.isSome = true))
    (hkick : ∀ early : ReplayEnv, ∀ s : Option MemberStatus, s.isSome = true →
      statusUpdate early (kickedBy env.proposalsIndex (replay env sorted).governance e) e x s =
        some .banned) :
    everyReading env (sorted ++ [e]) x (· = some .banned) := by
  intro early hadmin htime hidx
  have hold := h early hadmin htime hidx.init
  rw [replay_snoc_status, replay_kickedBy_congr hadmin hidx]
  exact hkick early _ hold

end EveryReading

/-- What a later reading makes of a status: the same, or less, where the earlier one still
sees a request that has lapsed since. -/
inductive Faded (env : ReplayEnv) (sorted : List SignedMembershipEvent) (x : OwnerAddr) :
    Option MemberStatus → Option MemberStatus → Prop
  | same (s : Option MemberStatus) : Faded env sorted x s s
  | request (s : Option MemberStatus) : everyReading env sorted x (·.isSome = true) →
      admits s = true → Faded env sorted x (some .pendingJoin) s
  | gone : everyReading env sorted x (·.isSome = true) → Faded env sorted x (some .left) none
  | banned : everyReading env sorted x (· = some .banned) → Faded env sorted x (some .banned) none

def readmits (e : SignedMembershipEvent) (x : OwnerAddr) : Prop :=
  e.kind = .join ∧ e.actor = x ∨ (∃ tok, e.kind = .pendingJoin tok) ∧ e.actor = x ∨
    e.kind = .invite x

section Faded

variable {env env' : ReplayEnv} {sorted : List SignedMembershipEvent} {e : SignedMembershipEvent}
  {x : OwnerAddr}

/-- The two readings treat the request `e` alike, except that it may lapse. -/
def lapses (env env' : ReplayEnv) (e : SignedMembershipEvent) : Prop :=
  ∀ tok, e.kind = .pendingJoin tok →
    (e.id ∈ env'.canonicalPendingIds ↔ e.id ∈ env.canonicalPendingIds) ∧
      (pendingExpired env e = true → pendingExpired env' e = true)

theorem Faded.same_snoc (hlapse : lapses env env' e) (kicked : Option OwnerAddr)
    (s : Option MemberStatus) :
    Faded env (sorted ++ [e]) x (statusUpdate env kicked e x s)
      (statusUpdate env' kicked e x s) := by
  cases hk : e.kind with
  | pendingJoin tok =>
    obtain ⟨hcanonical, hexpired⟩ := hlapse tok hk
    simp only [statusUpdate, hk, hcanonical]
    split_ifs with hadmit hc hexp hexp' hexp'
    · exact .same _
    · exact .same _
    · exact absurd (hexpired hexp) hexp'
    · exact .request s (everyReading_of_request hk hadmit.1 (by simpa using hexp)) hadmit.2
    · exact .same _
    · exact .same _
  | _ =>
    have hsame : statusUpdate env kicked e x s = statusUpdate env' kicked e x s := by
      simp only [statusUpdate, hk]
    rw [hsame]
    exact .same _

/-- A request lapses: the later reading has whatever `x` had before it. -/
theorem Faded.request_snoc (hlapse : lapses env env' e)
    (hrecord : everyReading env sorted x (·.isSome = true)) {s : Option MemberStatus}
    (hs : admits s = true) :
    Faded env (sorted ++ [e]) x
      (statusUpdate env (kickedBy env.proposalsIndex (replay env sorted).governance e) e x
        (some .pendingJoin))
      (statusUpdate env' (kickedBy env.proposalsIndex (replay env sorted).governance e) e x s) := by
  have hnext : everyReading env (sorted ++ [e]) x (·.isSome = true) := hrecord.record_snoc
  have hjoined : s ≠ some .joined := by rintro rfl; simp [admits] at hs
  have hbanned : s ≠ some .banned := by rintro rfl; simp [admits] at hs
  cases hk : e.kind with
  | join =>
    by_cases hx : e.actor = x
    · simp only [statusUpdate, hk]
      rw [if_pos ⟨hx, rfl⟩, if_pos ⟨hx, hs⟩]
      exact .same _
    · simp only [statusUpdate, hk, hx, false_and, if_false]
      exact .request s hnext hs
  | leave =>
    by_cases hx : e.actor = x
    · by_cases hnone : s = none
      · simp only [statusUpdate, hk, hx, hnone]
        exact .gone hnext
      · simp only [statusUpdate, hk]
        rw [if_pos ⟨hx, by simp, by simp⟩, if_pos ⟨hx, hnone, hbanned⟩]
        exact .same _
    · simp only [statusUpdate, hk, hx, false_and, if_false]
      exact .request s hnext hs
  | invite target =>
    simp only [statusUpdate, hk]
    rw [if_neg (by simp)]
    split_ifs
    · exact .request _ hnext rfl
    · exact .request s hnext hs
  | unban target reason =>
    simp only [statusUpdate, hk, hbanned, and_false, if_false]
    rw [if_neg (by simp)]
    exact .request s hnext hs
  | pendingJoin tok =>
    obtain ⟨hcanonical, -⟩ := hlapse tok hk
    by_cases hx : e.actor = x
    · simp only [statusUpdate, hk, hx, hs, hcanonical, true_and, if_true]
      rw [if_pos (by rfl)]
      split_ifs
      · exact .same _
      · exact .request s hnext hs
      · exact .same _
      · exact .request s hnext hs
      · exact .same _
    · simp only [statusUpdate, hk, hx, false_and, if_false]
      exact .request s hnext hs
  | deviceAnnounce => simpa only [statusUpdate, hk] using .request s hnext hs
  | deviceRetire revocation cert => simpa only [statusUpdate, hk] using .request s hnext hs
  | _ =>
    by_cases hx : kickedBy env.proposalsIndex (replay env sorted).governance e = some x
    · by_cases hnone : s = none
      · simp only [statusUpdate, hk, hx, hnone]
        refine .banned (hrecord.banned_of_kick fun early s' hs' => ?_)
        simp [statusUpdate, hk, hx, Option.isSome_iff_ne_none.mp hs']
      · simp only [statusUpdate, hk]
        rw [if_pos ⟨hx, by simp⟩, if_pos ⟨hx, hnone⟩]
        exact .same _
    · simp only [statusUpdate, hk, hx, false_and, if_false]
      exact .request s hnext hs

/-- The author of a lapsed request left: the later reading never knew `x`. -/
theorem Faded.gone_snoc (hlapse : lapses env env' e)
    (hrecord : everyReading env sorted x (·.isSome = true)) :
    Faded env (sorted ++ [e]) x
      (statusUpdate env (kickedBy env.proposalsIndex (replay env sorted).governance e) e x
        (some .left))
      (statusUpdate env' (kickedBy env.proposalsIndex (replay env sorted).governance e) e x
        none) := by
  have hnext : everyReading env (sorted ++ [e]) x (·.isSome = true) := hrecord.record_snoc
  cases hk : e.kind with
  | join =>
    by_cases hx : e.actor = x
    · simp only [statusUpdate, hk]
      rw [if_pos ⟨hx, rfl⟩, if_pos ⟨hx, rfl⟩]
      exact .same _
    · simp only [statusUpdate, hk, hx, false_and, if_false]
      exact .gone hnext
  | leave =>
    simp only [statusUpdate, hk]
    rw [if_neg (by simp : ¬(e.actor = x ∧ (none : Option MemberStatus) ≠ none ∧ _)), ite_self]
    exact .gone hnext
  | invite target =>
    by_cases hx : target = x
    · simp only [statusUpdate, hk]
      rw [if_pos ⟨hx, by simp⟩, if_pos ⟨hx, by simp⟩]
      exact .same _
    · simp only [statusUpdate, hk, hx, false_and, if_false]
      exact .gone hnext
  | unban target reason =>
    simp only [statusUpdate, hk]
    rw [if_neg (by simp), if_neg (by simp)]
    exact .gone hnext
  | pendingJoin tok =>
    obtain ⟨hcanonical, hexpired⟩ := hlapse tok hk
    by_cases hx : e.actor = x
    · have hleft : admits (some .left) = true := rfl
      have hnone : admits none = true := rfl
      simp only [statusUpdate, hk, hx, hcanonical, hleft, hnone, true_and, if_true]
      split_ifs with hc hexp hexp' hexp'
      · exact .same _
      · exact .gone hnext
      · exact absurd (hexpired hexp) hexp'
      · exact .request _ hnext rfl
      · exact .same _
    · simp only [statusUpdate, hk, hx, false_and, if_false]
      exact .gone hnext
  | deviceAnnounce => simpa only [statusUpdate, hk] using .gone hnext
  | deviceRetire revocation cert => simpa only [statusUpdate, hk] using .gone hnext
  | _ =>
    by_cases hx : kickedBy env.proposalsIndex (replay env sorted).governance e = some x
    · simp only [statusUpdate, hk]
      rw [if_pos ⟨hx, by simp⟩, if_neg (by simp)]
      refine .banned (hrecord.banned_of_kick fun early s' hs' => ?_)
      simp [statusUpdate, hk, hx, Option.isSome_iff_ne_none.mp hs']
    · simp only [statusUpdate, hk, hx, false_and, if_false]
      exact .gone hnext

/-- The author of a lapsed request was kicked: until an Unban nothing lets `x` back in. -/
theorem Faded.banned_snoc (hban : everyReading env sorted x (· = some .banned))
    (hbar : ¬readmits e x) :
    Faded env (sorted ++ [e]) x
      (statusUpdate env (kickedBy env.proposalsIndex (replay env sorted).governance e) e x
        (some .banned))
      (statusUpdate env' (kickedBy env.proposalsIndex (replay env sorted).governance e) e x
        none) := by
  have hmiss : statusUpdate env' (kickedBy env.proposalsIndex (replay env sorted).governance e)
      e x none = none := by
    rw [← Option.not_isSome_iff_eq_none, statusUpdate_isSome, Option.isSome_none, Bool.false_or]
    unfold opensRecord
    unfold readmits at hbar
    split
    · rename_i hk
      simpa [hk] using hbar
    · rename_i target hk
      simpa [hk] using hbar
    · rename_i tok hk
      have hx : e.actor ≠ x := by simpa [hk] using hbar
      simp [hx]
    · simp
  rw [hmiss]
  by_cases hu : ∃ r, e.kind = .unban x r
  · obtain ⟨r, hk⟩ := hu
    have hleft : statusUpdate env (kickedBy env.proposalsIndex (replay env sorted).governance e)
        e x (some .banned) = some .left := by
      simp [statusUpdate, hk]
    rw [hleft]
    exact .gone hban.of_banned.record_snoc
  · rw [statusUpdate_banned (not_exists.mp hu)]
    exact .banned (hban.banned_snoc (not_exists.mp hu))

/-- Along a log in which nobody banned in every earlier reading is let back in, the later
reading of every status is faded. -/
theorem replay_faded (hadmin : env.adminAddr = env'.adminAddr)
    (hidx : sameProposals env env' sorted) (hlapse : ∀ a ∈ sorted, lapses env env' a)
    (hbar : ∀ pre a post, sorted = pre ++ a :: post → everyReading env pre x (· = some .banned) →
      ¬readmits a x) :
    Faded env sorted x ((replay env sorted).m.status x) ((replay env' sorted).m.status x) := by
  induction sorted using List.reverseRecOn with
  | nil => exact .same _
  | append_singleton sorted e ih =>
    have hprev := ih hidx.init (fun a ha => hlapse a (by simp [ha]))
      fun pre a post hsplit => hbar pre a (post ++ [e]) (by simp [hsplit])
    rw [replay_snoc_status, replay_snoc_status, ← replay_kickedBy_congr hadmin hidx]
    generalize (replay env sorted).m.status x = s at hprev ⊢
    generalize (replay env' sorted).m.status x = s' at hprev ⊢
    cases hprev with
    | same => exact .same_snoc (hlapse e (by simp)) _ _
    | request _ hrecord hs => exact .request_snoc (hlapse e (by simp)) hrecord hs
    | gone hrecord => exact .gone_snoc (hlapse e (by simp)) hrecord
    | banned hban => exact .banned_snoc hban (hbar sorted e [] rfl hban)

theorem Faded.joined {s s' : Option MemberStatus} (h : Faded env sorted x s s') :
    s = some .joined ↔ s' = some .joined := by
  cases h with
  | same => rfl
  | request _ _ hs =>
    refine iff_of_false (by simp) ?_
    rintro rfl
    simp [admits] at hs
  | gone => simp
  | banned => simp

/-- Two readings that treat every request of `x` alike give `x` the same status. -/
theorem replay_status_congr (hadmin : env.adminAddr = env'.adminAddr)
    (hidx : sameProposals env env' sorted)
    (hrequest : ∀ a ∈ sorted, ∀ tok, a.kind = .pendingJoin tok → a.actor = x →
      (a.id ∈ env'.canonicalPendingIds ↔ a.id ∈ env.canonicalPendingIds) ∧
        (a.id ∉ env.canonicalPendingIds → pendingExpired env' a = pendingExpired env a)) :
    (replay env' sorted).m.status x = (replay env sorted).m.status x := by
  induction sorted using List.reverseRecOn with
  | nil => rfl
  | append_singleton sorted e ih =>
    rw [replay_snoc_status, replay_snoc_status, ← replay_kickedBy_congr hadmin hidx,
      ih hidx.init fun a ha => hrequest a (by simp [ha])]
    cases hk : e.kind with
    | pendingJoin tok =>
      by_cases hx : e.actor = x
      · obtain ⟨hcanonical, hexpired⟩ := hrequest e (by simp) tok hk hx
        by_cases hc : e.id ∈ env.canonicalPendingIds
        · simp only [statusUpdate, hk, hcanonical, hc, if_true]
        · simp only [statusUpdate, hk, hcanonical, hc, if_false, hexpired hc]
      · simp only [statusUpdate, hk, hx, false_and, if_false]
    | _ => simp only [statusUpdate, hk]

end Faded

/-! ### Recoveries in two readings -/

structure Alike (adminAddr : OwnerAddr) (st st' : ReplayState) : Prop where
  governance : st'.governance = st.governance
  joined : ∀ x, isJoinedMember st'.m x = isJoinedMember st.m x
  admin : st'.m.status adminAddr = st.m.status adminAddr
  recoveryLog : st'.recoveryLog = st.recoveryLog

section Recoveries

variable {env env' : ReplayEnv} {st st' : ReplayState} {e : SignedMembershipEvent}

def touched (env : ReplayEnv) (st : ReplayState) (e : SignedMembershipEvent) : RecoveryLog :=
  ((applyEvent env st e).getD st).recoveryLog

theorem touched_quiet (hk : isRecoveryEvent e = false) : touched env st e = st.recoveryLog := by
  unfold touched
  cases ha : applyEvent env st e with
  | none => rfl
  | some st' => exact applyEvent_recoveryLog hk ha

theorem Alike.runningDigest (h : Alike env.adminAddr st st') (C : Crypto) :
    runningRecoveryDigest C st'.m = runningRecoveryDigest C st.m := by
  have hconfig : st'.m.recoveryDesignates = st.m.recoveryDesignates :=
    congrArg Governance.recoveryDesignates h.governance
  simp only [runningRecoveryDigest, hconfig]

theorem Alike.queuedCosign (h : Alike env.adminAddr st st') (hcrypto : env'.crypto = env.crypto) :
    queuedCosign env' st' e = queuedCosign env st e := by
  simp only [Membership.queuedCosign, hcrypto, h.runningDigest, h.joined]

theorem Alike.vetoQualifies (h : Alike env.adminAddr st st') (actor : OwnerAddr) :
    vetoQualifies env.adminAddr st'.m actor = vetoQualifies env.adminAddr st.m actor := by
  have hpower : st'.m.power actor = st.m.power actor := by
    have hlevels : st'.m.powerLevels = st.m.powerLevels :=
      congrArg Governance.powerLevels h.governance
    simp only [MaterializedMembership.power, hlevels]
  by_cases hactor : actor = env.adminAddr
  · subst hactor
    simp only [Membership.vetoQualifies, hpower, h.joined, h.admin]
  · simp [Membership.vetoQualifies, hpower, h.joined, hactor]

theorem Alike.touched (h : Alike env.adminAddr st st') (hcrypto : env'.crypto = env.crypto)
    (hadmin : env'.adminAddr = env.adminAddr) (e : SignedMembershipEvent) :
    touched env' st' e = touched env st e := by
  have hproposals : st'.recProposals = st.recProposals :=
    congrArg RecoveryLog.proposals h.recoveryLog
  have hpending : st'.recPendingCosigns = st.recPendingCosigns :=
    congrArg RecoveryLog.pendingCosigns h.recoveryLog
  have hvetoes : st'.recVetoes = st.recVetoes := congrArg RecoveryLog.vetoes h.recoveryLog
  cases hk : e.kind with
  | recoveryProposal lostAdmin newAdmin configDigest =>
    have hconfig : st'.m.recoveryDesignates = st.m.recoveryDesignates :=
      congrArg Governance.recoveryDesignates h.governance
    simp only [Membership.touched, applyEvent, hk, applyRecoveryProposal, hconfig, hcrypto,
      h.runningDigest, h.joined, hpending, hproposals]
    split
    · exact h.recoveryLog
    · split_ifs
      · exact h.recoveryLog
      · exact h.recoveryLog
      · simp [ReplayState.recoveryLog, hvetoes]
  | recoveryCosign target =>
    simp only [Membership.touched, applyEvent, hk, applyRecoveryCosign, hproposals, hpending,
      h.queuedCosign hcrypto]
    split <;> simp [ReplayState.recoveryLog, hvetoes]
  | recoveryVeto target =>
    simp only [Membership.touched, applyEvent, hk, applyRecoveryVeto, hadmin, h.vetoQualifies,
      hvetoes]
    split_ifs <;> simp [ReplayState.recoveryLog, hproposals, hpending, hvetoes]
  | _ =>
    have hquiet : isRecoveryEvent e = false := by simp [isRecoveryEvent, hk]
    rw [touched_quiet hquiet, touched_quiet hquiet, h.recoveryLog]

/-- A step is the event and then the note on the new admin, taken also when the event is
dropped: the note is current. -/
theorem step_recoveryLog (hcur : Current st e.hlc.wallMs) :
    (step env st e).recoveryLog =
      { touched env st e with
        proposals := (touched env st e).proposals.map fun _ => refreshed e (step env st e).m } := by
  unfold touched
  cases ha : applyEvent env st e with
  | none =>
    rw [(step_of_none ha).2, (step_of_none ha).1, Option.getD_none]
    have hsame : st.recProposals = st.recProposals.map fun _ => refreshed e st.m := by
      refine Std.ExtTreeMap.ext_getElem? fun id => ?_
      rw [Std.ExtTreeMap.getElem?_map]
      cases hw : st.recProposals[id]? with
      | none => rfl
      | some work =>
        rw [Option.map_some, Option.some.injEq]
        unfold refreshed
        split_ifs with hopen
        · rw [← hcur id work hw hopen]
        · rfl
    simp only [ReplayState.recoveryLog]
    rw [← hsame]
  | some st' =>
    obtain ⟨hm, hpending, hvetoes, hget⟩ := step_of_some ha
    have hproposals : (step env st e).recProposals =
        st'.recProposals.map fun _ => refreshed e st'.m := by
      refine Std.ExtTreeMap.ext_getElem? fun id => ?_
      rw [hget, Std.ExtTreeMap.getElem?_map]
    simp only [ReplayState.recoveryLog, Option.getD_some, hproposals, hpending, hvetoes, hm]

theorem refreshed_congr {m m' : MaterializedMembership}
    (h : ∀ x, isJoinedMember m' x = isJoinedMember m x) : refreshed e m' = refreshed e m := by
  funext work
  simp only [refreshed, h]

/-- Two readings of a log agree on its recoveries when they agree, position by position,
on who is Joined and on the bootstrap admin. -/
theorem replay_alike (hcrypto : env'.crypto = env.crypto) (hadmin : env'.adminAddr = env.adminAddr)
    {sorted : List SignedMembershipEvent}
    (hs : sorted.Pairwise fun a b => a.hlc.wallMs ≤ b.hlc.wallMs)
    (hidx : sameProposals env env' sorted)
    (hjoined : ∀ pre post, sorted = pre ++ post → ∀ x,
      isJoinedMember (replay env' pre).m x = isJoinedMember (replay env pre).m x)
    (hstatus : ∀ pre post, sorted = pre ++ post →
      (replay env' pre).m.status env.adminAddr = (replay env pre).m.status env.adminAddr) :
    Alike env.adminAddr (replay env sorted) (replay env' sorted) := by
  refine ⟨?_, hjoined sorted [] (by simp), hstatus sorted [] (by simp), ?_⟩
  · rw [replay_governance, replay_governance, hadmin]
    exact (govRun_congr env.adminAddr sorted hidx).1.symm
  · induction sorted using List.reverseRecOn with
    | nil => rfl
    | append_singleton sorted e ih =>
      have hle : ∀ a ∈ sorted, a.hlc.wallMs ≤ e.hlc.wallMs :=
        fun a ha => (List.pairwise_append.mp hs).2.2 a ha e (by simp)
      have hs' := (List.pairwise_append.mp hs).1
      have hprev : Alike env.adminAddr (replay env sorted) (replay env' sorted) := by
        refine ⟨?_, hjoined sorted [e] rfl, hstatus sorted [e] rfl, ?_⟩
        · rw [replay_governance, replay_governance, hadmin]
          exact (govRun_congr env.adminAddr sorted hidx.init).1.symm
        · exact ih hs' hidx.init
            (fun pre post hsplit => hjoined pre (post ++ [e]) (by simp [hsplit]))
            (fun pre post hsplit => hstatus pre (post ++ [e]) (by simp [hsplit]))
      have hnote : ∀ x, isJoinedMember (step env' (replay env' sorted) e).m x =
          isJoinedMember (step env (replay env sorted) e).m x := by
        intro x
        rw [← replay_snoc, ← replay_snoc]
        exact hjoined (sorted ++ [e]) [] (by simp) x
      rw [replay_snoc, replay_snoc, step_recoveryLog (replay_current hs' hle),
        step_recoveryLog (replay_current hs' hle), hprev.touched hcrypto hadmin,
        refreshed_congr hnote]

end Recoveries

/-! ### A log and an extension of it -/

section Extension

variable {C : Crypto} {ctx : VerifyContext} {events added : List SignedMembershipEvent}
  {adminAddr : OwnerAddr} {nowMs nowMs' : Option ℕ} {e : SignedMembershipEvent} {x : OwnerAddr}

theorem sameProposals_sublog {events' sorted : List SignedMembershipEvent}
    (hids : DistinctIds events) (hids' : DistinctIds events') (hs : sorted ⊆ events)
    (hs' : sorted ⊆ events') :
    sameProposals (prePass C events adminAddr nowMs) (prePass C events' adminAddr nowMs')
      sorted := by
  intro a ha kind hk
  simp only [prePass]
  rw [proposalsIndex_get hids (hs ha) hk, proposalsIndex_get hids' (hs' ha) hk]

theorem not_readmits_of_verified (hv : VerifiedLog C ctx events) (he : e ∈ events)
    (hban : everyReading (prePass C events ctx.adminAddr nowMs)
      (sortEvents (before eventSortKey events e)) x (· = some .banned)) : ¬readmits e x := by
  have hprior : (priorStateAtEvent C events e ctx.adminAddr).status x = some .banned := by
    refine view_banned (hban (prePass C (before eventSortKey events e) ctx.adminAddr
      (some e.hlc.wallMs)) rfl ?_ ?_)
    · simp only [prePass, currentMaxWallMs_before]
      exact le_currentMaxWallMs nowMs he
    · refine sameProposals_sublog (hv.distinct.filter _) hv.distinct (fun a ha => ?_) fun a ha => ?_
      · exact mem_sortBy.mp ha
      · exact (List.mem_filter.mp (mem_sortBy.mp ha)).1
  obtain ⟨hnotBanned, hrules, signer, hpower⟩ := verifyEvent_rules (hv.accepted he)
  rintro (⟨hk, rfl⟩ | ⟨⟨tok, hk⟩, rfl⟩ | hk)
  · simp [verifyNotBanned, hk, hprior] at hnotBanned
  · simp [verifyMembershipRules, hk, verifyPendingJoin, hprior] at hrules
  · simp [verifyPowerRules, hk, hprior] at hpower

/-- The longer log approves no join request of `events` that stood unapproved, and none of
the bootstrap admin lapses between the two time references. -/
def RequestsStand (events added : List SignedMembershipEvent) (adminAddr : OwnerAddr)
    (timeRefMs timeRefMs' : ℕ) : Prop :=
  ∀ p ∈ events, ∀ tok, p.kind = .pendingJoin tok →
    (p.id ∈ canonicalPendingIds (events ++ added) ↔ p.id ∈ canonicalPendingIds events) ∧
      (p.actor = adminAddr → p.id ∉ canonicalPendingIds events →
        timeRefMs - p.hlc.wallMs ≤ materializePendingExpiryMs →
        timeRefMs' - p.hlc.wallMs ≤ materializePendingExpiryMs)

/-- Reading the longer log later, the replay of `events` sees the same recoveries. -/
theorem extension_alike (hv : VerifiedLog C ctx events) (hids : DistinctIds (events ++ added))
    (htime : currentMaxWallMs events nowMs ≤ currentMaxWallMs (events ++ added) nowMs')
    (hstand : RequestsStand events added ctx.adminAddr (currentMaxWallMs events nowMs)
      (currentMaxWallMs (events ++ added) nowMs'))
    {sorted rest : List SignedMembershipEvent} (hsorted : sortEvents events = sorted ++ rest) :
    Alike ctx.adminAddr (replay (prePass C events ctx.adminAddr nowMs) sorted)
      (replay (prePass C (events ++ added) ctx.adminAddr nowMs') sorted) := by
  set env := prePass C events ctx.adminAddr nowMs with henv
  set env' := prePass C (events ++ added) ctx.adminAddr nowMs' with henv'
  have hmem : ∀ {pre post}, sorted = pre ++ post → pre ⊆ events := by
    intro pre post hsplit a ha
    refine mem_sortBy.mp (?_ : a ∈ sortEvents events)
    rw [hsorted, hsplit]
    simp [ha]
  have hidx : ∀ {pre post}, sorted = pre ++ post → sameProposals env env' pre := by
    intro pre post hsplit
    exact sameProposals_sublog hv.distinct hids (hmem hsplit)
      fun a ha => List.mem_append_left _ (hmem hsplit ha)
  have hexpired : ∀ a : SignedMembershipEvent,
      pendingExpired env a = true → pendingExpired env' a = true := by
    intro a ha
    simp only [pendingExpired, henv, henv', prePass, decide_eq_true_eq] at ha ⊢
    omega
  have hwalls : sorted.Pairwise fun a b => a.hlc.wallMs ≤ b.hlc.wallMs := by
    have hall := sorted_walls events
    rw [hsorted] at hall
    exact (List.pairwise_append.mp hall).1
  change Alike env.adminAddr (replay env sorted) (replay env' sorted)
  have hcrypto : env'.crypto = env.crypto := rfl
  refine replay_alike hcrypto rfl hwalls (hidx (List.append_nil _).symm)
    (fun pre post hsplit x => ?_) fun pre post hsplit => ?_
  · have hfaded : Faded env pre x ((replay env pre).m.status x) ((replay env' pre).m.status x) := by
      refine replay_faded rfl (hidx hsplit) (fun a ha tok hk => ?_) fun l a r hl hban => ?_
      · exact ⟨(hstand a (hmem hsplit ha) tok hk).1, hexpired a⟩
      · have ha : a ∈ events := hmem hsplit (by rw [hl]; simp)
        have hpos : sortBy eventSortKey events = l ++ a :: (r ++ post ++ rest) := by
          rw [← sortEvents, hsorted, hsplit, hl]
          simp
        have hprefix : sortEvents (before eventSortKey events a) = l :=
          sortBy_before_eq hv.distinct.keyNodup hpos
        rw [← hprefix] at hban
        exact not_readmits_of_verified hv ha hban
    rw [Bool.eq_iff_iff, isJoinedMember_iff, isJoinedMember_iff]
    exact hfaded.joined.symm
  · refine replay_status_congr rfl (hidx hsplit) fun a ha tok hk hactor => ?_
    obtain ⟨hcanonical, hlapse⟩ := hstand a (hmem hsplit ha) tok hk
    refine ⟨hcanonical, fun hc => ?_⟩
    have hstays := hlapse hactor hc
    simp only [pendingExpired, henv, henv', prePass]
    rw [decide_eq_decide]
    omega

end Extension

end Harmony.Membership
