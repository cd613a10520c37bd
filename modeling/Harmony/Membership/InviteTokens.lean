import Harmony.Membership.Lifecycle
import Harmony.Membership.Works

/-! Single use of an invite token. The claimant of a token is the PendingJoin that its
earliest countersign targets, where a countersign counts unless it is backdated before its
target. Later or backdated countersigns cannot take the token over; a PendingJoin for which
an earlier countersign is waiting can. -/

namespace Harmony.Membership

open Harmony.Lib

/-! ### The guard of a second claimant -/

/-- PendingJoin id to its invite-token signature, actor and wall. -/
def pendingMeta (events : List SignedMembershipEvent) : BTreeMap EventId (Sig × OwnerAddr × ℕ) :=
  BTreeMap.ofEntries (·.id) (fun e : SignedMembershipEvent =>
    match e.kind with
    | .pendingJoin inviteToken => some (inviteToken.sig, e.actor, e.hlc.wallMs)
    | _ => none) events

def inviteTokenClaimedByOtherActor (events : List SignedMembershipEvent) (pendingId : EventId) :
    Bool :=
  let this := events.findSome? fun e =>
    match e.kind with
    | .pendingJoin inviteToken => if e.id = pendingId then some (inviteToken.sig, e.actor) else none
    | _ => none
  match this with
  | none => false
  | some (thisTok, thisActor) =>
    events.any fun c =>
      match countersignTarget c with
      | none => false
      | some target =>
        match (pendingMeta events)[target]? with
        | none => false
        | some (tok, actor, pendingWall) => decide (tok = thisTok) && decide (actor ≠ thisActor) &&
            countersignPassesCausalityGuard c.hlc.wallMs pendingWall

/-! ### Claims and claimants -/

def CarriesToken (tok : Sig) (p : SignedMembershipEvent) : Prop :=
  ∃ token, p.kind = .pendingJoin token ∧ token.sig = tok

structure Claims (events : List SignedMembershipEvent) (tok : Sig) (c p : SignedMembershipEvent) :
    Prop where
  countersign : c ∈ events
  pending : p ∈ events
  token : CarriesToken tok p
  target : countersignTarget c = some p.id
  guard : countersignPassesCausalityGuard c.hlc.wallMs p.hlc.wallMs = true

def FirstClaim (events : List SignedMembershipEvent) (tok : Sig) (c p : SignedMembershipEvent) :
    Prop :=
  Claims events tok c p ∧ ∀ c' p', Claims events tok c' p' → eventSortKey c ≤ eventSortKey c'

/-- The PendingJoin `p` carries the token and is treated as countersigned. -/
def Claimant (events : List SignedMembershipEvent) (tok : Sig) (p : SignedMembershipEvent) : Prop :=
  p ∈ events ∧ CarriesToken tok p ∧ p.id ∈ canonicalPendingIds events

section Claimants

variable {events : List SignedMembershipEvent} {tok tok' : Sig} {c c' p p' : SignedMembershipEvent}

theorem CarriesToken.unique (h : CarriesToken tok p) (h' : CarriesToken tok' p) : tok = tok' := by
  obtain ⟨token, hk, rfl⟩ := h
  obtain ⟨token', hk', rfl⟩ := h'
  rw [hk] at hk'
  cases hk'
  rfl

theorem pendingToken_get (hids : DistinctIds events) (hp : p ∈ events) (ht : CarriesToken tok p) :
    (pendingToken events)[p.id]? = some (tok, p.hlc.wallMs) := by
  obtain ⟨token, hk, rfl⟩ := ht
  rw [pendingToken, BTreeMap.get_ofEntries _ _ hids hp, hk]

theorem exists_of_pendingToken {id : EventId} {w : ℕ}
    (h : (pendingToken events)[id]? = some (tok, w)) :
    ∃ p ∈ events, p.id = id ∧ CarriesToken tok p ∧ p.hlc.wallMs = w := by
  obtain ⟨p, hp, hid, hentry⟩ := BTreeMap.exists_of_get_ofEntries h
  cases hk : p.kind with
  | pendingJoin token =>
    simp only [hk, Option.some.injEq, Prod.mk.injEq] at hentry
    exact ⟨p, hp, hid, ⟨token, hk, hentry.1⟩, hentry.2⟩
  | _ => simp [hk] at hentry

theorem claimedToken_iff (hids : DistinctIds events) (hc : c ∈ events) :
    claimedToken (pendingToken events) c = some tok ↔ ∃ p, Claims events tok c p := by
  unfold claimedToken
  constructor
  · intro h
    obtain ⟨⟨tok', w⟩, hget, hguard⟩ := Option.bind_eq_some_iff.mp h
    obtain ⟨target, htarget, hpending⟩ := Option.bind_eq_some_iff.mp hget
    split_ifs at hguard with hpass
    cases hguard
    obtain ⟨p, hp, rfl, htok, rfl⟩ := exists_of_pendingToken hpending
    exact ⟨p, hc, hp, htok, htarget, hpass⟩
  · rintro ⟨p, -, hp, htok, htarget, hguard⟩
    rw [htarget, Option.bind_some, pendingToken_get hids hp htok, Option.bind_some, if_pos hguard]

/-- The fold keeps the contestant that sorts first. -/
theorem foldl_bestStep {pending : BTreeMap EventId (Sig × ℕ)} {l : List SignedMembershipEvent} :
    (∀ c, (l.foldl (bestStep pending) ∅)[tok]? = some c →
      c ∈ l ∧ claimedToken pending c = some tok ∧
        ∀ c' ∈ l, claimedToken pending c' = some tok → eventSortKey c ≤ eventSortKey c') ∧
    ((l.foldl (bestStep pending) ∅)[tok]? = none → ∀ c ∈ l, claimedToken pending c ≠ some tok) := by
  induction l using List.reverseRecOn with
  | nil => simp
  | append_singleton l a ih =>
    simp only [List.foldl_append, List.foldl_cons, List.foldl_nil, bestStep_get]
    by_cases hclaim : claimedToken pending a = some tok
    · rw [if_pos hclaim]
      refine ⟨fun c hc => ?_, by simp⟩
      obtain rfl := Option.some.inj hc
      cases hbest : (l.foldl (bestStep pending) ∅)[tok]? with
      | none =>
        refine ⟨by simp [keepBest], hclaim, fun c' hc' hc'claim => ?_⟩
        rcases List.mem_append.mp hc' with hc' | hc'
        · exact absurd hc'claim (ih.2 hbest c' hc')
        · rw [List.mem_singleton.mp hc']
          rfl
      | some cur =>
        obtain ⟨hcur, hcurClaim, hleast⟩ := ih.1 cur hbest
        by_cases hle : eventSortKey cur ≤ eventSortKey a
        · simp only [keepBest, hle, if_true]
          refine ⟨by simp [hcur], hcurClaim, fun c' hc' hc'claim => ?_⟩
          rcases List.mem_append.mp hc' with hc' | hc'
          · exact hleast c' hc' hc'claim
          · rwa [List.mem_singleton.mp hc']
        · simp only [keepBest, hle, if_false]
          refine ⟨by simp, hclaim, fun c' hc' hc'claim => ?_⟩
          rcases List.mem_append.mp hc' with hc' | hc'
          · exact (not_le.mp hle).le.trans (hleast c' hc' hc'claim)
          · rw [List.mem_singleton.mp hc']
    · rw [if_neg hclaim]
      constructor
      · intro c hc
        obtain ⟨hmem, hclaim', hleast⟩ := ih.1 c hc
        refine ⟨by simp [hmem], hclaim', fun c' hc' hc'claim => ?_⟩
        rcases List.mem_append.mp hc' with hc' | hc'
        · exact hleast c' hc' hc'claim
        · rw [List.mem_singleton.mp hc'] at hc'claim
          exact absurd hc'claim hclaim
      · intro hnone c hc
        rcases List.mem_append.mp hc with hc | hc
        · exact ih.2 hnone c hc
        · rwa [List.mem_singleton.mp hc]

theorem bestCountersigns_first (hids : DistinctIds events)
    (h : (bestCountersigns events)[tok]? = some c) : ∃ p, FirstClaim events tok c p := by
  obtain ⟨hc, hclaim, hleast⟩ := foldl_bestStep.1 c h
  obtain ⟨p, hp⟩ := (claimedToken_iff hids hc).mp hclaim
  exact ⟨p, hp, fun c' p' hc' =>
    hleast c' hc'.countersign ((claimedToken_iff hids hc'.countersign).mpr ⟨p', hc'⟩)⟩

theorem Claims.unique (hids : DistinctIds events) (h : Claims events tok c p)
    (h' : Claims events tok' c p') : p = p' :=
  hids.inj h.pending h'.pending (Option.some.inj (h.target.symm.trans h'.target))

theorem FirstClaim.unique (hids : DistinctIds events) (h : FirstClaim events tok c p)
    (h' : FirstClaim events tok c' p') : c = c' ∧ p = p' := by
  have hkey := le_antisymm (h.2 c' p' h'.1) (h'.2 c p h.1)
  obtain rfl := hids.keyNodup.inj h.1.countersign h'.1.countersign hkey
  exact ⟨rfl, h.1.unique hids h'.1⟩

theorem claimant_iff (hids : DistinctIds events) :
    Claimant events tok p ↔ ∃ c, FirstClaim events tok c p := by
  constructor
  · rintro ⟨hp, htok, hcanonical⟩
    rw [canonicalPendingIds, List.mem_toFinset, List.mem_filterMap] at hcanonical
    obtain ⟨⟨tok', c⟩, hmem, htarget⟩ := hcanonical
    obtain ⟨q, hq⟩ :=
      bestCountersigns_first hids (Std.ExtTreeMap.mem_toList_iff_getElem?_eq_some.mp hmem)
    obtain rfl := hids.inj hp hq.1.pending (Option.some.inj (htarget.symm.trans hq.1.target))
    obtain rfl := htok.unique hq.1.token
    exact ⟨c, hq⟩
  · rintro ⟨c, hc⟩
    refine ⟨hc.1.pending, hc.1.token, ?_⟩
    rw [canonicalPendingIds, List.mem_toFinset, List.mem_filterMap]
    cases hbest : (bestCountersigns events)[tok]? with
    | none =>
      exact absurd ((claimedToken_iff hids hc.1.countersign).mpr ⟨p, hc.1⟩)
        (foldl_bestStep.2 hbest c hc.1.countersign)
    | some c' =>
      obtain ⟨p', hc'⟩ := bestCountersigns_first hids hbest
      obtain ⟨rfl, rfl⟩ := hc.unique hids hc'
      exact ⟨(tok, c), Std.ExtTreeMap.mem_toList_iff_getElem?_eq_some.mpr hbest, hc.1.target⟩

theorem Claimant.unique (hids : DistinctIds events) (h : Claimant events tok p)
    (h' : Claimant events tok p') : p = p' := by
  obtain ⟨c, hc⟩ := (claimant_iff hids).mp h
  obtain ⟨c', hc'⟩ := (claimant_iff hids).mp h'
  exact (hc.unique hids hc').2

theorem claimedByOtherActor_iff (hids : DistinctIds events) (hp : p ∈ events)
    (htok : CarriesToken tok p) :
    inviteTokenClaimedByOtherActor events p.id = true ↔
      ∃ c q, Claims events tok c q ∧ q.actor ≠ p.actor := by
  have hthis : (events.findSome? fun e => match e.kind with
      | .pendingJoin inviteToken => if e.id = p.id then some (inviteToken.sig, e.actor) else none
      | _ => none) = some (tok, p.actor) := by
    obtain ⟨token, hk, rfl⟩ := htok
    cases hfind : events.findSome? fun e => match e.kind with
        | .pendingJoin inviteToken => if e.id = p.id then some (inviteToken.sig, e.actor) else none
        | _ => none with
    | none =>
      have hnone := List.findSome?_eq_none_iff.mp hfind p hp
      simp [hk] at hnone
    | some found =>
      obtain ⟨l, e, r, rfl, he, -⟩ := List.findSome?_eq_some_iff.mp hfind
      cases hke : e.kind with
      | pendingJoin token' =>
        simp only [hke] at he
        split_ifs at he with hid
        obtain rfl := hids.inj (by simp) hp hid
        rw [hk] at hke
        cases hke
        exact he.symm
      | _ => simp [hke] at he
  have hmeta : ∀ {id : EventId} {found : Sig × OwnerAddr × ℕ},
      (pendingMeta events)[id]? = some found ↔ ∃ q ∈ events, q.id = id ∧
        CarriesToken found.1 q ∧ q.actor = found.2.1 ∧ q.hlc.wallMs = found.2.2 := by
    intro id found
    constructor
    · intro h
      obtain ⟨q, hq, hid, hentry⟩ := BTreeMap.exists_of_get_ofEntries h
      cases hk : q.kind with
      | pendingJoin token =>
        simp only [hk, Option.some.injEq] at hentry
        subst hentry
        exact ⟨q, hq, hid, ⟨token, hk, rfl⟩, rfl, rfl⟩
      | _ => simp [hk] at hentry
    · obtain ⟨foundTok, actor, wall⟩ := found
      rintro ⟨q, hq, rfl, ⟨token, hk, rfl⟩, rfl, rfl⟩
      rw [pendingMeta, BTreeMap.get_ofEntries _ _ hids hq, hk]
  unfold inviteTokenClaimedByOtherActor
  simp only [hthis, List.any_eq_true]
  constructor
  · rintro ⟨c, hc, hclaims⟩
    cases htarget : countersignTarget c with
    | none => simp [htarget] at hclaims
    | some target =>
      cases hget : (pendingMeta events)[target]? with
      | none => simp [htarget, hget] at hclaims
      | some found =>
        obtain ⟨q, hq, rfl, hqtok, hactor, hwall⟩ := hmeta.mp hget
        simp only [htarget, hget, Bool.and_eq_true, decide_eq_true_eq] at hclaims
        obtain ⟨⟨rfl, hne⟩, hguard⟩ := hclaims
        exact ⟨c, q, ⟨hc, hq, hqtok, htarget, hwall ▸ hguard⟩, hactor ▸ hne⟩
  · rintro ⟨c, q, hclaim, hne⟩
    have hget : (pendingMeta events)[q.id]? = some (tok, q.actor, q.hlc.wallMs) :=
      hmeta.mpr ⟨q, hclaim.pending, rfl, hclaim.token, rfl, rfl⟩
    refine ⟨c, hclaim.countersign, ?_⟩
    simp [hclaim.target, hget, hne, hclaim.guard]

end Claimants

/-! ### Admission -/

def admitsPending (env : ReplayEnv) (st : ReplayState) (p : SignedMembershipEvent) : Prop :=
  st.m.status p.actor ≠ some .joined ∧ (step env st p).m.status p.actor = some .joined

theorem canonical_of_admitsPending {env : ReplayEnv} {st : ReplayState} {p : SignedMembershipEvent}
    {tok : Sig} (htok : CarriesToken tok p) (h : admitsPending env st p) :
    p.id ∈ env.canonicalPendingIds := by
  obtain ⟨token, hk, -⟩ := htok
  obtain ⟨hbefore, hafter⟩ := h
  rw [step_status, statusUpdate, hk] at hafter
  by_contra hnot
  simp only [hnot, if_false, true_and] at hafter
  split_ifs at hafter
  · exact hbefore hafter
  · cases hafter
  · exact hbefore hafter

/-! ### What is added later -/

/-- The additions that should leave the claim `c` alone: countersigns that sort after it,
backdated countersigns, and PendingJoins. -/
def LeavesClaim (all : List SignedMembershipEvent) (c a : SignedMembershipEvent) : Prop :=
  (∃ target, countersignTarget a = some target ∧ (eventSortKey c < eventSortKey a ∨
    ∃ tok, ∃ q ∈ all, q.id = target ∧ CarriesToken tok q ∧ a.hlc.wallMs < q.hlc.wallMs)) ∨
  ∃ tok, CarriesToken tok a

section Added

variable {events added all : List SignedMembershipEvent} {tok : Sig} {c p : SignedMembershipEvent}

theorem countersignTarget_of_pending {a : SignedMembershipEvent} (h : CarriesToken tok a) :
    countersignTarget a = none := by
  obtain ⟨token, hk, -⟩ := h
  rw [countersignTarget, hk]

/-- An earlier claim that the additions bring is one of a waiting countersign for an added
PendingJoin. -/
theorem waiting_of_earlier (hp : all.Perm (events ++ added)) (hids : DistinctIds all)
    (hfirst : FirstClaim events tok c p) (hadded : ∀ a ∈ added, LeavesClaim all c a)
    {c' p' : SignedMembershipEvent} (hclaim : Claims all tok c' p')
    (hearlier : eventSortKey c' < eventSortKey c) : c' ∈ events ∧ p' ∈ added := by
  have hc' : c' ∈ events := by
    rcases List.mem_append.mp (hp.mem_iff.mp hclaim.countersign) with h | h
    · exact h
    · exfalso
      rcases hadded c' h with ⟨target, htarget, hlater | ⟨tok', q, hq, hid, -, hback⟩⟩ | ⟨tok', hpend⟩
      · exact absurd hlater hearlier.not_gt
      · obtain rfl := hids.inj hq hclaim.pending
          (hid.trans (Option.some.inj (htarget.symm.trans hclaim.target)))
        have hguard := hclaim.guard
        rw [countersignPassesCausalityGuard, decide_eq_true_eq] at hguard
        exact absurd hback (Nat.not_lt.mpr hguard)
      · have htarget := hclaim.target
        rw [countersignTarget_of_pending hpend] at htarget
        cases htarget
  refine ⟨hc', ?_⟩
  rcases List.mem_append.mp (hp.mem_iff.mp hclaim.pending) with h | h
  · exact absurd hearlier (not_lt.mpr (hfirst.2 c' p' ⟨hc', h, hclaim.token, hclaim.target, hclaim.guard⟩))
  · exact h

theorem Claims.mono (hp : all.Perm (events ++ added)) {c p : SignedMembershipEvent}
    (h : Claims events tok c p) : Claims all tok c p :=
  ⟨hp.mem_iff.mpr (by simp [h.countersign]), hp.mem_iff.mpr (by simp [h.pending]), h.token,
    h.target, h.guard⟩

/-- The claimant stays exactly when no countersign that sorts before its own was waiting for
one of the added PendingJoins. -/
theorem claimant_stays_iff (hp : all.Perm (events ++ added)) (hids : DistinctIds all)
    (hfirst : FirstClaim events tok c p) (hadded : ∀ a ∈ added, LeavesClaim all c a) :
    (∀ q, Claimant all tok q ↔ q = p) ↔
      ∀ c' ∈ events, ∀ q ∈ added, Claims all tok c' q → eventSortKey c < eventSortKey c' := by
  constructor
  · intro hstays c' hc' q hq hclaim
    obtain ⟨c'', hc''⟩ := (claimant_iff hids).mp ((hstays p).mpr rfl)
    by_contra hnot
    have hle : eventSortKey c'' ≤ eventSortKey c' := hc''.2 c' q hclaim
    have hpend : p ∉ added := by
      have hnodup : DistinctIds (events ++ added) := hids.perm hp.symm
      exact fun h => hnodup.ne_of_append hfirst.1.pending h rfl
    have hsame : eventSortKey c ≤ eventSortKey c'' := by
      by_contra hlt
      exact hpend (waiting_of_earlier hp hids hfirst hadded hc''.1 (not_le.mp hlt)).2
    have hkey : eventSortKey c = eventSortKey c' :=
      le_antisymm (hsame.trans hle) (not_lt.mp hnot)
    obtain rfl := hids.keyNodup.inj (hfirst.1.mono hp).countersign hclaim.countersign hkey
    exact hpend ((hfirst.1.mono hp).unique hids hclaim ▸ hq)
  · intro hwaiting q
    have hfirst' : FirstClaim all tok c p := by
      refine ⟨hfirst.1.mono hp, fun c' p' hclaim => ?_⟩
      by_contra hnot
      obtain ⟨hc', hp'⟩ := waiting_of_earlier hp hids hfirst hadded hclaim (not_le.mp hnot)
      exact hnot (hwaiting c' hc' p' hp' hclaim).le
    constructor
    · intro hq
      exact hq.unique hids ((claimant_iff hids).mpr ⟨c, hfirst'⟩)
    · rintro rfl
      exact (claimant_iff hids).mpr ⟨c, hfirst'⟩

/-- An invite token admits one person. Its claimant stays under later and backdated
countersigns and under further PendingJoins, unless an earlier countersign was waiting for
one of these; and the guard against a second claimant counts the same countersigns. -/
theorem invite_token_admits_one (C : Crypto) (adminAddr : OwnerAddr) (nowMs : Option ℕ)
    (hp : all.Perm (events ++ added)) (hids : DistinctIds all) (tok : Sig) :
    (∀ p q, Claimant all tok p → Claimant all tok q → p = q) ∧
      (∀ st p, (st, p) ∈ positions (prePass C all adminAddr nowMs) (sortEvents all) →
        CarriesToken tok p → admitsPending (prePass C all adminAddr nowMs) st p →
          Claimant all tok p) ∧
      (∀ c p, FirstClaim events tok c p → (∀ a ∈ added, LeavesClaim all c a) →
        ((∀ q, Claimant all tok q ↔ q = p) ↔
          ∀ c' ∈ events, ∀ q ∈ added, Claims all tok c' q → eventSortKey c < eventSortKey c')) ∧
      ∀ p ∈ all, CarriesToken tok p → (inviteTokenClaimedByOtherActor all p.id = true ↔
        ∃ c q, Claims all tok c q ∧ q.actor ≠ p.actor) := by
  refine ⟨fun p q hclaim hclaim' => hclaim.unique hids hclaim', fun st p hpos htok hadmits => ?_,
    fun c p hfirst hadded => claimant_stays_iff hp hids hfirst hadded,
    fun p hmem htok => claimedByOtherActor_iff hids hmem htok⟩
  exact ⟨mem_sortBy.mp (mem_of_position hpos), htok, canonical_of_admitsPending htok hadmits⟩

end Added

/-- Owner 2 redeems the invite of owner 1, who countersigns it after having countersigned
a PendingJoin that the log does not hold. -/
def tokenLog : List SignedMembershipEvent :=
  [signed 1 1 1 .join, signed 2 2 2 (.pendingJoin (tokenOf 1)), signed 3 4 1 (.joinCountersign 5),
    signed 4 5 1 (.joinCountersign 2)]

def secondClaimant : SignedMembershipEvent := signed 5 3 3 (.pendingJoin (tokenOf 1))

theorem tokenLog_first :
    FirstClaim tokenLog 100 (signed 4 5 1 (.joinCountersign 2))
      (signed 2 2 2 (.pendingJoin (tokenOf 1))) := by
  have hbest : (bestCountersigns tokenLog)[(100 : Sig)]? =
      some (signed 4 5 1 (.joinCountersign 2)) := by decide
  obtain ⟨p, hp⟩ := bestCountersigns_first (by decide) hbest
  have hclaim : Claims tokenLog 100 (signed 4 5 1 (.joinCountersign 2))
      (signed 2 2 2 (.pendingJoin (tokenOf 1))) :=
    ⟨by decide, by decide, ⟨tokenOf 1, rfl, rfl⟩, rfl, by decide⟩
  rwa [hp.1.unique (by decide) hclaim] at hp

/-- The PendingJoin that arrives last takes the token over: its countersign was waiting. -/
theorem waiting_countersign_takes_token :
    VerifiedLog symbolicCrypto openContext (tokenLog ++ [secondClaimant]) ∧
      FirstClaim tokenLog 100 (signed 4 5 1 (.joinCountersign 2))
        (signed 2 2 2 (.pendingJoin (tokenOf 1))) ∧
      (∀ a ∈ [secondClaimant],
        LeavesClaim (tokenLog ++ [secondClaimant]) (signed 4 5 1 (.joinCountersign 2)) a) ∧
      ¬Claimant (tokenLog ++ [secondClaimant]) 100 (signed 2 2 2 (.pendingJoin (tokenOf 1))) ∧
      Claimant (tokenLog ++ [secondClaimant]) 100 secondClaimant := by
  refine ⟨by decide, tokenLog_first, fun a ha => ?_, fun h => absurd h.2.2 (by decide),
    by decide, ⟨tokenOf 1, rfl, rfl⟩, by decide⟩
  rw [List.mem_singleton.mp ha]
  exact Or.inr ⟨100, tokenOf 1, rfl, rfl⟩

def countersignedAgain : List SignedMembershipEvent :=
  tokenLog ++ [signed 6 6 1 (.joinCountersign 2)]

theorem invite_token_admits_one_again :
    (∀ p q, Claimant countersignedAgain 100 p → Claimant countersignedAgain 100 q → p = q) ∧
      (∀ st p, (st, p) ∈ positions (prePass symbolicCrypto countersignedAgain 1 none)
          (sortEvents countersignedAgain) → CarriesToken 100 p →
        admitsPending (prePass symbolicCrypto countersignedAgain 1 none) st p →
          Claimant countersignedAgain 100 p) ∧
      (∀ c p, FirstClaim tokenLog 100 c p →
        (∀ a ∈ [signed 6 6 1 (.joinCountersign 2)], LeavesClaim countersignedAgain c a) →
        ((∀ q, Claimant countersignedAgain 100 q ↔ q = p) ↔
          ∀ c' ∈ tokenLog, ∀ q ∈ [signed 6 6 1 (.joinCountersign 2)],
            Claims countersignedAgain 100 c' q → eventSortKey c < eventSortKey c')) ∧
      ∀ p ∈ countersignedAgain, CarriesToken 100 p →
        (inviteTokenClaimedByOtherActor countersignedAgain p.id = true ↔
          ∃ c q, Claims countersignedAgain 100 c q ∧ q.actor ≠ p.actor) :=
  invite_token_admits_one symbolicCrypto 1 none (List.Perm.refl _) (by decide) 100

end Harmony.Membership
