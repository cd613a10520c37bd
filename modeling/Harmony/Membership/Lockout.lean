import Harmony.Membership.LiveAdmins

/-! Decisions of the admins against their own quorum. A proposal is checked against the state
it is authored in and applied to the state its last signature finds, and what follows in the
log follows without another look: the community stays governable exactly while no step takes
an admin that the quorum needs or raises the quorum over the admins that are left. -/

namespace Harmony.Membership

open Harmony.Lib

/-! ### One effect -/

/-- The quorum is among the live admins. -/
def quorumHeld (m : MaterializedMembership) : Prop := m.adminQuorum ≤ liveAdminCount m

instance (m : MaterializedMembership) : Decidable (quorumHeld m) :=
  inferInstanceAs (Decidable (_ ≤ _))

def leavesQuorum (m : MaterializedMembership) (kind : ProposalKind) : Prop :=
  quorumAfter m kind ≤ (liveAfter m kind).card

instance (m : MaterializedMembership) (kind : ProposalKind) : Decidable (leavesQuorum m kind) :=
  inferInstanceAs (Decidable (_ ≤ _))

/-- What an effect must not do in a state whose quorum is held. -/
def sparesQuorum (m : MaterializedMembership) (kind : ProposalKind) : Prop :=
  match kind with
  | .setPower target level =>
    target ∈ liveAdmins m → level ≠ 100 → ¬promotedIn m target → m.adminQuorum < liveAdminCount m
  | .kick target _ => target ∈ liveAdmins m → m.adminQuorum < liveAdminCount m
  | .changeQuorum newQuorum => newQuorum ≤ liveAdminCount m
  | _ => True

section Held

variable {m : MaterializedMembership} {kind : ProposalKind}

theorem quorum_le_erase_iff (hheld : quorumHeld m) (x : OwnerAddr) :
    m.adminQuorum ≤ ((liveAdmins m).erase x).card ↔
      (x ∈ liveAdmins m → m.adminQuorum < liveAdminCount m) := by
  rw [quorumHeld, ← liveAdmins_card] at hheld
  rw [← liveAdmins_card]
  by_cases hx : x ∈ liveAdmins m
  · have hpos := Finset.card_pos.mpr ⟨x, hx⟩
    rw [Finset.card_erase_of_mem hx]
    simp only [hx, forall_const]
    omega
  · rw [Finset.erase_eq_of_notMem hx]
    exact iff_of_true hheld fun h => absurd h hx

theorem leavesQuorum_iff (hheld : quorumHeld m) : leavesQuorum m kind ↔ sparesQuorum m kind := by
  have hcard : m.adminQuorum ≤ (liveAdmins m).card := by rwa [liveAdmins_card]
  cases kind with
  | setPower target level =>
    simp only [leavesQuorum, quorumAfter, liveAfter, sparesQuorum]
    split_ifs with hset
    · refine iff_of_true (hcard.trans (Finset.card_le_card (Finset.subset_insert _ _))) ?_
      intro _ hlevel hpromoted
      rcases hset.2 with h | h
      · exact absurd h hlevel
      · exact absurd h hpromoted
    · rw [quorum_le_erase_iff hheld]
      refine imp_congr_right fun hlive => ?_
      -- a live admin is Joined, so it is the level that takes the power
      have hjoined := (mem_liveAdmins.mp hlive).2
      have hlevel : ¬(level = 100 ∨ promotedIn m target) := fun h => hset ⟨hjoined, h⟩
      rw [not_or] at hlevel
      simp [hlevel.1, hlevel.2]
  | kick target reason => exact quorum_le_erase_iff hheld target
  | changeQuorum newQuorum =>
    simp only [leavesQuorum, quorumAfter, liveAfter, sparesQuorum, liveAdmins_card]
  | changeThresholds t => exact iff_of_true hcard trivial
  | setRecoveryDesignates designates threshold window => exact iff_of_true hcard trivial

end Held

/-! ### The states of a run -/

section Run

variable (C : Crypto) (events : List SignedMembershipEvent) (adminAddr : OwnerAddr)

def stateMet (p : SignedMembershipEvent) : MaterializedMembership :=
  viewAt (prePass C events adminAddr none) p.hlc.wallMs (stateBefore C events adminAddr none p)

def stateLeft (p : SignedMembershipEvent) : MaterializedMembership :=
  viewAt (prePass C events adminAddr none) p.hlc.wallMs (stateAfter C events adminAddr none p)

/-- What `p` does to the admins spares the quorum of the state it meets. -/
def eventSpares (p : SignedMembershipEvent) : Prop :=
  ∀ kind, effectAt (proposalsIndex events) (stateBefore C events adminAddr none p).governance p =
    some kind → sparesQuorum (stateMet C events adminAddr p) kind

/-- Recoveries that execute between `q` and `p` and take an admin leave the quorum. -/
def recoveriesSpare (q p : SignedMembershipEvent) : Prop :=
  (∃ x ∈ liveAdmins (stateLeft C events adminAddr q), deposedIn (stateMet C events adminAddr p) x) →
    quorumHeld (stateMet C events adminAddr p)

variable {C events adminAddr} {k q p : SignedMembershipEvent}

theorem position_sorted (hids : DistinctIds events) (hp : p ∈ events) :
    ((sortEvents (before eventSortKey events p) ++ [p]).Pairwise fun a b =>
        a.hlc.wallMs ≤ b.hlc.wallMs) ∧
      KeyNodup (·.id) (sortEvents (before eventSortKey events p) ++ [p]) := by
  have hsplit : sortEvents events = (sortEvents (before eventSortKey events p) ++ [p]) ++
      sortEvents (after eventSortKey events p) := by
    simpa [sortEvents] using sortBy_split hids.keyNodup hp
  have hwalls := sorted_walls events
  have hnodup : KeyNodup (·.id) (sortEvents events) := hids.perm (sortBy_perm events)
  rw [hsplit] at hwalls hnodup
  exact ⟨(List.pairwise_append.mp hwalls).1, hnodup.of_append⟩

theorem stateLeft_eq (p : SignedMembershipEvent) :
    stateLeft C events adminAddr p =
      viewAt (prePass C events adminAddr none) p.hlc.wallMs (replay (prePass C events adminAddr none)
        (sortEvents (before eventSortKey events p) ++ [p])) := by
  rw [replay_snoc]
  rfl

theorem held_of_effect (hids : DistinctIds events) (hp : p ∈ events) {kind : ProposalKind}
    (he : effectAt (proposalsIndex events) (stateBefore C events adminAddr none p).governance p =
      some kind) :
    quorumHeld (stateLeft C events adminAddr p) ↔
      leavesQuorum (stateMet C events adminAddr p) kind := by
  obtain ⟨hs, hnodup⟩ := position_sorted hids hp
  have hlive : liveAdmins (stateLeft C events adminAddr p) =
      liveAfter (stateMet C events adminAddr p) kind := by
    rw [stateLeft_eq]
    exact liveAdmins_effect hs hnodup he
  have heffect : (stateAfter C events adminAddr none p).m.adminQuorum =
      quorumAfter (stateBefore C events adminAddr none p).m kind := effect_quorum he
  have hquorum : (stateLeft C events adminAddr p).adminQuorum =
      quorumAfter (stateMet C events adminAddr p) kind := by
    simp only [stateLeft, stateMet, viewAt, postPass_adminQuorum, heffect]
    cases kind <;> simp only [quorumAfter, postPass_adminQuorum]
  rw [quorumHeld, leavesQuorum, hquorum, ← liveAdmins_card, hlive]

theorem held_of_no_effect (hids : DistinctIds events) (hp : p ∈ events)
    (he : effectAt (proposalsIndex events) (stateBefore C events adminAddr none p).governance p =
      none) (hheld : quorumHeld (stateMet C events adminAddr p)) :
    quorumHeld (stateLeft C events adminAddr p) := by
  obtain ⟨hs, hnodup⟩ := position_sorted hids hp
  have hlive : liveAdmins (stateMet C events adminAddr p) ⊆
      liveAdmins (stateLeft C events adminAddr p) := by
    rw [stateLeft_eq]
    exact liveAdmins_no_effect hs hnodup he
  obtain ⟨-, heffect, -⟩ : (stateAfter C events adminAddr none p).m.powerLevels =
      (stateBefore C events adminAddr none p).m.powerLevels ∧ _ := no_effect he 0
  have hquorum : (stateLeft C events adminAddr p).adminQuorum =
      (stateMet C events adminAddr p).adminQuorum := by
    simp only [stateLeft, stateMet, viewAt, postPass_adminQuorum, stateAfter, heffect]
  rw [quorumHeld, ← liveAdmins_card] at hheld ⊢
  rw [hquorum]
  exact hheld.trans (Finset.card_le_card hlive)

theorem held_of_next (hids : DistinctIds events) (h : Next events q p)
    (hheld : quorumHeld (stateLeft C events adminAddr q))
    (hspares : recoveriesSpare C events adminAddr q p) :
    quorumHeld (stateMet C events adminAddr p) := by
  by_cases htaken : ∃ x ∈ liveAdmins (stateLeft C events adminAddr q),
      deposedIn (stateMet C events adminAddr p) x
  · exact hspares htaken
  · have hle : q.hlc.wallMs ≤ p.hlc.wallMs := wall_le_of_sortKey_lt (h.lt hids)
    obtain ⟨hs, hnodup⟩ := position_sorted hids h.mem.1
    have hsame : stateMet C events adminAddr p = viewAt (prePass C events adminAddr none)
        p.hlc.wallMs (stateAfter C events adminAddr none q) := by
      rw [stateMet, h.stateBefore hids]
    have hlive : liveAdmins (stateLeft C events adminAddr q) ⊆
        liveAdmins (stateMet C events adminAddr p) := by
      intro x hx
      have hkept : ¬deposedIn (stateMet C events adminAddr p) x := fun hd => htaken ⟨x, hx, hd⟩
      have hx' := hx
      rw [stateLeft, mem_liveAdmins_viewAt] at hx'
      rw [hsame] at hkept ⊢
      rw [mem_liveAdmins_viewAt]
      refine ⟨hx'.1.imp_left fun hpromoted => ?_, hkept, hx'.2.2⟩
      rw [stateAfter, stateBefore, ← replay_snoc] at hpromoted ⊢
      exact promotedIn_later hs hnodup hle hpromoted
    have hquorum : (stateMet C events adminAddr p).adminQuorum =
        (stateLeft C events adminAddr q).adminQuorum := by
      rw [hsame]
      simp only [stateLeft, viewAt, postPass_adminQuorum]
    rw [quorumHeld, ← liveAdmins_card] at hheld ⊢
    rw [hquorum]
    exact hheld.trans (Finset.card_le_card hlive)

/-- In every state that is met or left from `k` on the quorum is among the live admins
exactly when it is right after `k` and every step from there spares it. -/
theorem held_from_iff (hids : DistinctIds events) (hk : k ∈ events) :
    ((∀ p ∈ events, eventSortKey k ≤ eventSortKey p → quorumHeld (stateLeft C events adminAddr p)) ∧
        ∀ p ∈ events, eventSortKey k < eventSortKey p →
          quorumHeld (stateMet C events adminAddr p)) ↔
      quorumHeld (stateLeft C events adminAddr k) ∧
        ∀ q p, Next events q p → eventSortKey k ≤ eventSortKey q →
          recoveriesSpare C events adminAddr q p ∧ eventSpares C events adminAddr p := by
  constructor
  · rintro ⟨hleft, hmet⟩
    refine ⟨hleft k hk le_rfl, fun q p hnext hle => ?_⟩
    have hp : p ∈ events := hnext.mem.2
    have hlt : eventSortKey k < eventSortKey p := hle.trans_lt (hnext.lt hids)
    refine ⟨fun _ => hmet p hp hlt, fun kind he => ?_⟩
    exact (leavesQuorum_iff (hmet p hp hlt)).mp ((held_of_effect hids hp he).mp (hleft p hp hlt.le))
  · rintro ⟨hfirst, hsteps⟩
    have hall := positions_from (P := fun p => quorumHeld (stateLeft C events adminAddr p) ∧
        (eventSortKey k < eventSortKey p → quorumHeld (stateMet C events adminAddr p))) hids hk
      ⟨hfirst, fun h => absurd h (lt_irrefl _)⟩ ?_
    · exact ⟨fun p hp hle => (hall p hp hle).1, fun p hp hlt => (hall p hp hlt.le).2 hlt⟩
    · rintro q p hnext hle ⟨hq, -⟩
      obtain ⟨hrecoveries, hspares⟩ := hsteps q p hnext hle
      have hmet := held_of_next hids hnext hq hrecoveries
      refine ⟨?_, fun _ => hmet⟩
      have hp : p ∈ events := hnext.mem.2
      cases he : effectAt (proposalsIndex events)
          (stateBefore C events adminAddr none p).governance p with
      | none => exact held_of_no_effect hids hp he hmet
      | some kind =>
        exact (held_of_effect hids hp he).mpr ((leavesQuorum_iff hmet).mpr (hspares kind he))

end Run

/-! ### What admission and the run ensure -/

/-- The community can still decide: the quorum is among its live admins, the thresholds are
in order and no power exceeds them. -/
structure Governable (m : MaterializedMembership) : Prop where
  quorum_pos : 1 ≤ m.adminQuorum
  live : m.adminQuorum ≤ liveAdminCount m
  invite_le : m.powerThresholds.invite ≤ m.powerThresholds.kick
  kick_le : m.powerThresholds.kick ≤ m.powerThresholds.setPower
  setPower_le : m.powerThresholds.setPower ≤ m.powerThresholds.max
  max_eq : m.powerThresholds.max = 100
  power_le : ∀ x : OwnerAddr, m.power x ≤ 100

section Admitted

variable {C : Crypto} {ctx : VerifyContext} {events : List SignedMembershipEvent}

def PowerThresholds.ordered (t : PowerThresholds) : Prop :=
  t.invite ≤ t.kick ∧ t.kick ≤ t.setPower ∧ t.setPower ≤ t.max ∧ t.max = 100

theorem accepted_ordered {prior : MaterializedMembership} {f : SignedMembershipEvent}
    (h : verifyEvent C ctx prior f = .ok ()) {t : PowerThresholds}
    (hk : f.kind = .adminProposal (.changeThresholds t)) : t.ordered := by
  obtain ⟨-, hrules, -⟩ := verifyEvent_rules h
  simp only [verifyMembershipRules, hk, verifyAdminProposal, verifyProposalKind, bind_eq_ok,
    ensure_eq_ok, Bool.and_eq_true, decide_eq_true_eq] at hrules
  obtain ⟨_, -, _, -, ⟨⟨⟨hinvite, hkick⟩, hset⟩, hmax⟩⟩ := hrules
  exact ⟨hinvite, hkick, hset, hmax⟩

structure Admissible (f : SignedMembershipEvent) : Prop where
  levels : levelsOk f
  ordered : ∀ t, f.kind = .adminProposal (.changeThresholds t) → t.ordered
  quorum_pos : ∀ q, f.kind = .adminProposal (.changeQuorum q) → 0 < q

theorem admissible_of_accepted {prior : MaterializedMembership} {f : SignedMembershipEvent}
    (hmax : prior.powerThresholds.max = 100) (h : verifyEvent C ctx prior f = .ok ()) :
    Admissible f :=
  ⟨⟨fun _ _ hk => accepted_level h hmax hk, fun _ hk => accepted_thresholds h hk⟩,
    fun _ hk => accepted_ordered h hk, fun _ hk => accepted_quorum h hk⟩

theorem VerifiedLog.prior_max (h : VerifiedLog C ctx events) (f : SignedMembershipEvent) :
    (priorStateAtEvent C events f ctx.adminAddr).powerThresholds.max = 100 :=
  view_max fun _ ha _ hk => accepted_thresholds (h.accepted (List.mem_filter.mp ha).1) hk

theorem VerifiedLog.admissible (h : VerifiedLog C ctx events) {f : SignedMembershipEvent}
    (hf : f ∈ events) : Admissible f := admissible_of_accepted (h.prior_max f) (h.accepted hf)

/-- In a state of admissible events only the number of live admins can be wrong. -/
theorem governable_iff_held {adminAddr : OwnerAddr} {nowMs : Option ℕ} {env : ReplayEnv}
    (h : ∀ f ∈ events, Admissible f) {sorted : List SignedMembershipEvent} (hsub : sorted ⊆ events) :
    Governable (postPass env (replay (prePass C events adminAddr nowMs) sorted)) ↔
      quorumHeld (postPass env (replay (prePass C events adminAddr nowMs) sorted)) := by
  refine ⟨Governable.live, fun hlive => ?_⟩
  have hgov := replay_governance (prePass C events adminAddr nowMs) sorted
  have hthresholds : (replay (prePass C events adminAddr nowMs) sorted).m.powerThresholds =
      (govRun (proposalsIndex events) adminAddr sorted).powerThresholds :=
    congrArg Governance.powerThresholds hgov
  have hquorum : (replay (prePass C events adminAddr nowMs) sorted).m.adminQuorum =
      (govRun (proposalsIndex events) adminAddr sorted).adminQuorum :=
    congrArg Governance.adminQuorum hgov
  have hordered : (postPass env
      (replay (prePass C events adminAddr nowMs) sorted)).powerThresholds.ordered := by
    have hdefault : powerThresholds.ordered := ⟨by decide, by decide, by decide, rfl⟩
    rw [postPass_powerThresholds, hthresholds]
    exact govRun_thresholds adminAddr hdefault fun f hf t hk => (h f hf).ordered t hk
  have hpos : 1 ≤ (postPass env (replay (prePass C events adminAddr nowMs) sorted)).adminQuorum := by
    rw [postPass_adminQuorum, hquorum]
    exact govRun_quorum_pos fun f hf q hk => (h f hf).quorum_pos q hk
  obtain ⟨hinvite, hkick, hset, hmax⟩ := hordered
  exact ⟨hpos, hlive, hinvite, hkick, hset, hmax,
    fun x => postPass_power_le rfl hsub (fun f hf => (h f hf).levels) x⟩

theorem governable_view_iff (h : VerifiedLog C ctx events) (nowMs : Option ℕ) :
    Governable (materializeWithNow C events ctx.adminAddr nowMs) ↔
      quorumHeld (materializeWithNow C events ctx.adminAddr nowMs) :=
  governable_iff_held (fun _ hf => h.admissible hf) fun _ ha => mem_sortBy.mp ha

end Admitted

/-- Every state from `k` on that an event leaves or a later one meets is governable. -/
def GovernableFrom (C : Crypto) (events : List SignedMembershipEvent) (adminAddr : OwnerAddr)
    (k : SignedMembershipEvent) : Prop :=
  (∀ p ∈ events, eventSortKey k ≤ eventSortKey p → Governable (stateLeft C events adminAddr p)) ∧
    ∀ p ∈ events, eventSortKey k < eventSortKey p → Governable (stateMet C events adminAddr p)

theorem exists_stateLeft_view {C : Crypto} {events : List SignedMembershipEvent}
    (adminAddr : OwnerAddr) {k : SignedMembershipEvent} (hids : DistinctIds events) (hk : k ∈ events) :
    ∃ z ∈ events, eventSortKey k ≤ eventSortKey z ∧
      materializeWithNow C events adminAddr none = stateLeft C events adminAddr z := by
  obtain ⟨z, hz, hlast, hfinal⟩ : ∃ z ∈ events, (∀ a ∈ events, eventSortKey a ≤ eventSortKey z) ∧
      finalState C events adminAddr none = stateAfter C events adminAddr none z :=
    exists_last_position hids hk
  have htime : z.hlc.wallMs = currentMaxWallMs events none := by
    refine le_antisymm (le_currentMaxWallMs none hz) ?_
    refine List.foldrRecOn (motive := (· ≤ z.hlc.wallMs)) _ _ (Nat.zero_le _) fun w hw a ha => ?_
    obtain ⟨b, hb, rfl⟩ := List.mem_map.mp ha
    refine max_le ?_ hw
    rcases (hlast b hb).eq_or_lt with heq | hlt
    · rw [hids.keyNodup.inj hb hz heq]
    · exact wall_le_of_sortKey_lt hlt
  refine ⟨z, hz, hlast k hk, ?_⟩
  rw [materializeWithNow_eq, hfinal, stateLeft, viewAt, htime]
  rfl

def loneAdmin : List SignedMembershipEvent := [signed 1 1 1 .join]

def abdication : SignedMembershipEvent := signed 2 2 1 (.adminProposal (.setPower 1 0))

/-- Of three admins under a quorum of two, one has proposed a quorum of three before he is
kicked. -/
def shrunkAdmins : List SignedMembershipEvent :=
  [signed 1 1 1 .join, signed 2 2 2 .join, signed 3 3 3 .join, signed 4 4 1 (.setPower 2 100),
    signed 5 5 1 (.setPower 3 100), signed 6 6 1 (.adminProposal (.changeQuorum 2)),
    signed 7 7 3 (.adminProposal (.changeQuorum 3)),
    signed 8 8 1 (.adminProposal (.kick 3 none)), signed 9 9 2 (.adminCountersign 8)]

def lateSignature : SignedMembershipEvent := signed 10 10 2 (.adminCountersign 7)

def departingAdmin : List SignedMembershipEvent :=
  [signed 1 1 1 .join, signed 2 2 2 .join, signed 3 3 3 .join, signed 4 4 1 (.setPower 2 100),
    signed 5 5 1 (.setPower 3 100), signed 9 9 3 .leave]

/-- Before that, and later than its arrival, the quorum is set to the two that stay. -/
def raisedQuorum : SignedMembershipEvent := signed 7 7 1 (.adminProposal (.changeQuorum 2))

end Harmony.Membership
