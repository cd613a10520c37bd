import Harmony.Membership.Readings
import Harmony.Membership.TimeLock

/-! Finality of an executed recovery. Past its deadline an entry is frozen, and no later
veto, config change or rival reaches it, so an execution seen at one position of a replay
stands to its end. Two readings of one log see the same recoveries as long as they read
its join requests alike. -/

namespace Harmony.Membership

open Harmony.Lib

/-! ### What only grows -/

section Grows

variable {env : ReplayEnv} {st : ReplayState} {e : SignedMembershipEvent} {id : EventId}

theorem step_recVetoes_grow (env : ReplayEnv) (st : ReplayState) (e : SignedMembershipEvent) :
    ∃ more, (step env st e).recVetoes = st.recVetoes ++ more ∧
      ∀ v ∈ more, v.2.1 = e.hlc.wallMs := by
  rw [step_recVetoes]
  split
  · split_ifs
    · exact ⟨_, rfl, by simp⟩
    · exact ⟨[], by simp, by simp⟩
  · exact ⟨[], by simp, by simp⟩

theorem mem_configChange {w : ℕ} {idx : ProposalsIndex} {g : Governance}
    (h : w ∈ configChange idx g e) : w = e.hlc.wallMs := by
  unfold configChange at h
  split at h
  · exact List.mem_singleton.mp h
  · simp at h

theorem step_keeps_entry (h : st.recProposals[id]?.isSome) :
    (step env st e).recProposals[id]?.isSome := by
  cases ha : applyEvent env st e with
  | none =>
    have hlog : (step env st e).recProposals = st.recProposals :=
      congrArg RecoveryLog.proposals (step_of_none ha).2
    rwa [hlog]
  | some st' =>
    rw [(step_of_some ha).2.2.2, Option.isSome_map]
    cases hk : e.kind with
    | recoveryProposal lostAdmin newAdmin configDigest =>
      simp only [applyEvent, hk] at ha
      rcases applyRecoveryProposal_cases env st e lostAdmin newAdmin configDigest with
        hnone | ⟨config, -, hsome⟩
      · simp [hnone] at ha
      · rw [hsome, Option.some.injEq] at ha
        rw [← ha, BTreeMap.get_insert]
        split_ifs
        · rfl
        · exact h
    | recoveryCosign target =>
      simp only [applyEvent, hk, Option.some.injEq, applyRecoveryCosign] at ha
      split at ha
      · rw [← ha, BTreeMap.get_insert]
        split_ifs
        · rfl
        · exact h
      · rwa [← ha]
    | recoveryVeto target =>
      simp only [applyEvent, hk, Option.some.injEq, applyRecoveryVeto] at ha
      split_ifs at ha <;> rwa [← ha]
    | _ =>
      have hlog : st'.recProposals = st.recProposals :=
        congrArg RecoveryLog.proposals (applyEvent_recoveryLog (by simp [isRecoveryEvent, hk]) ha)
      rwa [hlog]

end Grows

/-! ### Settled entries -/

/-- The recovery `id` reached its threshold in time at `tr`, its window closed at `d`
with the new admin Joined, and nothing recorded so far stopped it. -/
structure Settled (st : ReplayState) (id : EventId) (b : Bound) (tr d : ℕ) : Prop where
  frozen : Frozen st id b tr d true
  inTime : tr - b.t0WallMs ≤ adminProposalExpiryMs
  deadline : checkedAdd tr b.vetoWindowMs = some d
  unvetoed : ∀ v ∈ st.recVetoes, v.1 = id → inRecoveryWindow b.t0WallMs (some d) v.2.1 = false
  unchanged : ∀ w ∈ st.recConfigChangeWalls, inRecoveryWindow b.t0WallMs (some d) w = false

theorem not_inRecoveryWindow {t0 d w : ℕ} (h : d < w) : inRecoveryWindow t0 (some d) w = false := by
  rw [← Bool.not_eq_true, inRecoveryWindow_some]
  omega

section Settled

variable {env : ReplayEnv} {st : ReplayState} {e : SignedMembershipEvent} {id : EventId}
  {b : Bound} {tr d t : ℕ}

theorem rivalKey_of_deadline {work : RecoveryWork} {o : RecoveryOutcome}
    (hadd : checkedAdd tr work.vetoWindowMs = some d) (ho : o.deadlineMs = some d) :
    rivalKey id work o = toLex (tr, id) := by
  have hsum := le_of_checkedAdd hadd
  simp only [rivalKey, ho, Option.getD_some]
  congr 2
  omega

theorem Settled.executable (h : Settled st id b tr d) (hlate : d < t) :
    ∃ work, work.bound = b ∧ Executable st t id work ∧
      (outcomeOf st t id work).deadlineMs = some d ∧
      rivalKey id work (outcomeOf st t id work) = toLex (tr, id) := by
  obtain ⟨work, hget, rfl, hreached, -, hjoined⟩ := h.frozen
  have hdeadline : recoveryDeadline work t = (some d, false) := by
    have hadd : checkedAdd tr work.vetoWindowMs = some d := h.deadline
    have hage : tr - work.t0WallMs ≤ adminProposalExpiryMs := h.inTime
    simp only [recoveryDeadline, hreached, hage, if_true, hadd]
  have hveto : (st.recVetoes.find? fun v =>
      decide (v.1 = id) && inRecoveryWindow work.t0WallMs (some d) v.2.1) = none := by
    rw [List.find?_eq_none]
    intro v hv hwin
    rw [Bool.and_eq_true, decide_eq_true_eq] at hwin
    exact absurd hwin.2 (Bool.eq_false_iff.mp (h.unvetoed v hv hwin.1))
  have hconfig : st.recConfigChangeWalls.any (inRecoveryWindow work.t0WallMs (some d)) = false := by
    rw [List.any_eq_false]
    exact fun w hw => Bool.eq_false_iff.mp (h.unchanged w hw)
  have hphase : (outcomeOf st t id work).phase = .executed ∧
      (outcomeOf st t id work).deadlineMs = some d := by
    simp [outcomeOf, recoveryOutcome, hdeadline, hveto, hconfig, hlate, hjoined]
  exact ⟨work, rfl, ⟨hget, hphase.1⟩, hphase.2, rivalKey_of_deadline h.deadline hphase.2⟩

theorem replay_clock {sorted : List SignedMembershipEvent}
    (hs : sorted.Pairwise fun a b => a.hlc.wallMs ≤ b.hlc.wallMs) {work : RecoveryWork}
    (hget : (replay env sorted).recProposals[id]? = some work) (htr : work.tRReached = some tr) :
    work.t0WallMs ≤ tr ∧ work.deadlineAtReplay = checkedAdd tr work.vetoWindowMs := by
  obtain ⟨h0, -, hd, -⟩ := (replay_backed hs hget fun a ha => le_eventsMaxWallMs ha).reached tr htr
  exact ⟨h0, hd⟩

/-- What executes was settled, and `t` is past its deadline. -/
theorem settled_of_executable {sorted : List SignedMembershipEvent}
    (hs : sorted.Pairwise fun a b => a.hlc.wallMs ≤ b.hlc.wallMs) {work : RecoveryWork}
    (h : Executable (replay env sorted) t id work) :
    ∃ tr d, Settled (replay env sorted) id work.bound tr d ∧ work.t0WallMs ≤ tr ∧ d < t ∧
      (outcomeOf (replay env sorted) t id work).deadlineMs = some d ∧
      rivalKey id work (outcomeOf (replay env sorted) t id work) = toLex (tr, id) := by
  obtain ⟨tr, d, hreached, hage, hadd, hd, hlate, hjoined, hvetoes, hconfig⟩ :=
    executable_deadline h.2
  obtain ⟨h0, hclock⟩ := replay_clock hs h.1 hreached
  exact ⟨tr, d, ⟨⟨work, h.1, rfl, hreached, hclock.trans hadd, hjoined⟩, hage, hadd, hvetoes,
    hconfig⟩, h0, hlate, hd, rivalKey_of_deadline hadd hd⟩

theorem Frozen.step {joined : Bool} (h : Frozen st id b tr d joined) (hlate : d < e.hlc.wallMs)
    (hfresh : e.id ≠ id) : Frozen (step env st e) id b tr d joined := by
  obtain ⟨old, hold, rfl, hreached, hdeadline, rfl⟩ := h
  have hkept : (Membership.step env st e).recProposals[id]?.isSome :=
    step_keeps_entry (by rw [hold]; rfl)
  obtain ⟨work', hget⟩ := Option.isSome_iff_exists.mp hkept
  rcases step_work_cases hget with ⟨-, hkeep⟩ | ⟨work, rfl, hkeep | ⟨old', hold', -, rfl⟩ | hopened⟩
  · obtain rfl := Option.some.inj (hkeep.symm.trans hold)
    exact ⟨work', hget, rfl, hreached, hdeadline, rfl⟩
  · obtain rfl := Option.some.inj (hkeep.symm.trans hold)
    rw [refreshed_late hdeadline hlate] at hget
    exact ⟨work, hget, rfl, hreached, hdeadline, rfl⟩
  · obtain rfl := Option.some.inj (hold'.symm.trans hold)
    obtain ⟨hnote, ⟨hr, hd⟩ | ⟨hnone, -⟩⟩ :=
      foldRecoveryCosign_clock old' (queuedCosign env st e) e.hlc.wallMs
    · rw [refreshed_late (hd.trans hdeadline) hlate] at hget
      exact ⟨_, hget, foldRecoveryCosign_bound _ _ _, hr.trans hreached, hd.trans hdeadline, hnote⟩
    · rw [hnone] at hreached
      simp at hreached
  · obtain ⟨_, _, _, _, -, hid, -⟩ := hopened
    exact absurd hid.symm hfresh

theorem Settled.step (h : Settled st id b tr d) (hlate : d < e.hlc.wallMs) (hfresh : e.id ≠ id) :
    Settled (step env st e) id b tr d := by
  refine ⟨h.frozen.step hlate hfresh, h.inTime, h.deadline, fun v hv hid => ?_, fun w hw => ?_⟩
  · obtain ⟨more, hmore, hwall⟩ := step_recVetoes_grow env st e
    rw [hmore, List.mem_append] at hv
    rcases hv with hv | hv
    · exact h.unvetoed v hv hid
    · rw [hwall v hv]
      exact not_inRecoveryWindow hlate
  · rw [step_configChangeWalls, List.mem_append] at hw
    rcases hw with hw | hw
    · exact h.unchanged w hw
    · rw [mem_configChange hw]
      exact not_inRecoveryWindow hlate

theorem settled_of_step (htr : tr ≤ d) (hlate : d < e.hlc.wallMs)
    (h : Settled (Membership.step env st e) id b tr d) : Settled st id b tr d := by
  refine ⟨frozen_of_step htr hlate h.frozen, h.inTime, h.deadline, fun v hv => h.unvetoed v ?_,
    fun w hw => h.unchanged w ?_⟩
  · obtain ⟨more, hmore, -⟩ := step_recVetoes_grow env st e
    rw [hmore]
    exact List.mem_append_left _ hv
  · rw [step_configChangeWalls]
    exact List.mem_append_left _ hw

theorem Settled.run (h : Settled st id b tr d) {late : List SignedMembershipEvent}
    (hlate : ∀ a ∈ late, d < a.hlc.wallMs) (hfresh : ∀ a ∈ late, a.id ≠ id) :
    Settled (late.foldl (Membership.step env) st) id b tr d :=
  List.foldlRecOn (motive := fun s => Settled s id b tr d) late _ h
    fun _ hs a ha => hs.step (hlate a ha) (hfresh a ha)

theorem settled_of_run (htr : tr ≤ d) {late : List SignedMembershipEvent}
    (hlate : ∀ a ∈ late, d < a.hlc.wallMs)
    (h : Settled (late.foldl (Membership.step env) st) id b tr d) : Settled st id b tr d := by
  induction late using List.reverseRecOn with
  | nil => exact h
  | append_singleton late e ih =>
    rw [List.foldl_append, List.foldl_cons, List.foldl_nil] at h
    exact ih (fun a ha => hlate a (by simp [ha])) (settled_of_step htr (hlate e (by simp)) h)

end Settled

/-! ### Config generations -/

section Generations

variable {env : ReplayEnv} {sorted : List SignedMembershipEvent}

theorem govStep_recoveryDesignates {idx : ProposalsIndex} {g : Governance}
    {e : SignedMembershipEvent}
    (h : (govStep idx g e).recoveryDesignates ≠ g.recoveryDesignates) :
    e.hlc.wallMs ∈ configChange idx g e := by
  have hrecord : (recordSigner idx g e).recoveryDesignates = g.recoveryDesignates := by
    unfold recordSigner
    split
    · rfl
    · split_ifs <;> rfl
    · rfl
  cases ht : tipped idx g e with
  | some p =>
    obtain ⟨id, kind⟩ := p
    rw [govStep_of_tipped ht] at h
    cases kind with
    | setRecoveryDesignates designates threshold vetoWindowMs => simp [configChange, ht]
    | _ => exact absurd hrecord h
  | none =>
    refine absurd ?_ h
    unfold govStep
    split
    · rfl
    · rw [ht, Option.elim_none, hrecord]

theorem run_configChangeWalls_mono (st : ReplayState) (run : List SignedMembershipEvent) :
    st.recConfigChangeWalls ⊆ (run.foldl (step env) st).recConfigChangeWalls := by
  refine List.foldlRecOn (motive := fun s : ReplayState =>
    st.recConfigChangeWalls ⊆ s.recConfigChangeWalls) _ _ (List.Subset.refl _) fun s hs e _ => ?_
  rw [step_configChangeWalls]
  exact List.subset_append_of_subset_left _ hs

theorem exists_configChange (pre mid : List SignedMembershipEvent)
    (h : (replay env (pre ++ mid)).m.recoveryDesignates ≠
      (replay env pre).m.recoveryDesignates) :
    ∃ f ∈ mid, f.hlc.wallMs ∈ (replay env (pre ++ mid)).recConfigChangeWalls := by
  rw [replay, List.foldl_append, ← replay] at h ⊢
  obtain ⟨a, f, post, rfl, hbefore, hafter⟩ := exists_crossing
    (P := fun s : ReplayState => s.m.recoveryDesignates ≠ (replay env pre).m.recoveryDesignates)
    (not_not.mpr rfl) h
  refine ⟨f, by simp, ?_⟩
  rw [List.foldl_append, List.foldl_cons]
  refine run_configChangeWalls_mono _ _ ?_
  rw [step_configChangeWalls]
  refine List.mem_append_right _ (govStep_recoveryDesignates ?_)
  rw [← step_governance]
  rw [not_not] at hbefore
  intro hsame
  exact hafter (hsame.trans hbefore)

/-- Two entries with different windows have a config change between them. -/
theorem generations_apart_of_prefix
    (hs : sorted.Pairwise fun a b => a.hlc.wallMs ≤ b.hlc.wallMs)
    {pre pre' post post' : List SignedMembershipEvent} {p p' : SignedMembershipEvent}
    (hp : sorted = pre ++ p :: post) (hp' : sorted = pre' ++ p' :: post') (hle : pre <+: pre')
    (hne : (replay env pre').m.recoveryDesignates ≠ (replay env pre).m.recoveryDesignates) :
    ∃ c ∈ (replay env sorted).recConfigChangeWalls, p.hlc.wallMs ≤ c ∧ c ≤ p'.hlc.wallMs := by
  obtain ⟨mid, rfl⟩ := hle
  obtain ⟨f, hf, hwall⟩ := exists_configChange pre mid hne
  refine ⟨f.hlc.wallMs, ?_, ?_, ?_⟩
  · rw [hp', replay, List.foldl_append]
    exact run_configChangeWalls_mono _ _ hwall
  · -- `p` is the first event of the stretch
    have htail : p :: post = mid ++ p' :: post' := by
      rw [hp, List.append_assoc] at hp'
      exact List.append_cancel_left hp'
    rw [hp, htail, List.pairwise_append, List.pairwise_append] at hs
    cases mid with
    | nil => simp at hf
    | cons a mid =>
      obtain ⟨rfl, -⟩ := List.cons.inj htail
      rcases List.mem_cons.mp hf with rfl | hf
      · exact le_rfl
      · exact (List.pairwise_cons.mp hs.2.1.1).1 f hf
  · rw [hp', List.pairwise_append] at hs
    exact hs.2.2 f (List.mem_append_right _ hf) p' (by simp)

theorem generations_apart (hs : sorted.Pairwise fun a b => a.hlc.wallMs ≤ b.hlc.wallMs)
    {id id' : EventId} {work work' : RecoveryWork}
    (hget : (replay env sorted).recProposals[id]? = some work)
    (hget' : (replay env sorted).recProposals[id']? = some work')
    (hne : work.vetoWindowMs ≠ work'.vetoWindowMs) :
    ∃ c ∈ (replay env sorted).recConfigChangeWalls,
      work.t0WallMs ≤ c ∧ c ≤ work'.t0WallMs ∨ work'.t0WallMs ≤ c ∧ c ≤ work.t0WallMs := by
  obtain ⟨s, p, config, hpos, -, -, hopens, hbound⟩ := replay_openedBy hs hget
  obtain ⟨s', p', config', hpos', -, -, hopens', hbound'⟩ := replay_openedBy hs hget'
  have ht0 : work.t0WallMs = p.hlc.wallMs := congrArg Bound.t0WallMs hbound
  have ht0' : work'.t0WallMs = p'.hlc.wallMs := congrArg Bound.t0WallMs hbound'
  have hwindow : work.vetoWindowMs = config.vetoWindowMs := congrArg Bound.vetoWindowMs hbound
  have hwindow' : work'.vetoWindowMs = config'.vetoWindowMs := congrArg Bound.vetoWindowMs hbound'
  have hconfig : config ≠ config' := by
    rintro rfl
    exact hne (hwindow.trans hwindow'.symm)
  obtain ⟨pre, post, hsplit, rfl⟩ := mem_positions.mp hpos
  obtain ⟨pre', post', hsplit', rfl⟩ := mem_positions.mp hpos'
  rw [ht0, ht0']
  have hprefix : pre <+: sorted := ⟨_, hsplit.symm⟩
  rcases List.prefix_or_prefix_of_prefix hprefix ⟨_, hsplit'.symm⟩ with hle | hle
  · obtain ⟨c, hc, hin⟩ := generations_apart_of_prefix hs hsplit hsplit' hle (by
      rw [hopens.1, hopens'.1]
      exact fun h => hconfig (Option.some.inj h).symm)
    exact ⟨c, hc, Or.inl hin⟩
  · obtain ⟨c, hc, hin⟩ := generations_apart_of_prefix hs hsplit' hsplit hle (by
      rw [hopens.1, hopens'.1]
      exact fun h => hconfig (Option.some.inj h))
    exact ⟨c, hc, Or.inr hin⟩

end Generations

/-! ### An execution stands -/

section Persist

variable {env : ReplayEnv} {pre rest : List SignedMembershipEvent} {id : EventId} {w t d : ℕ}

/-- No rival of an execution overtakes it: one with an earlier threshold was executable
then, or a config change lies between the two. -/
theorem rival_behind (hs : (pre ++ rest).Pairwise fun a b => a.hlc.wallMs ≤ b.hlc.wallMs)
    (hrest : ∀ a ∈ rest, w ≤ a.hlc.wallMs) {b : Bound} {tr : ℕ} (ht0 : b.t0WallMs ≤ tr)
    (hlate : d < w) (hsettled : Settled (replay env (pre ++ rest)) id b tr d)
    (hleast : ∀ id' b' tr' d', Settled (replay env pre) id' b' tr' d' → d' < w →
      b'.lostAdmin = b.lostAdmin → (toLex (tr, id) : ℕ ×ₗ ℕ) ≤ toLex (tr', id'))
    {id' : EventId} {work' : RecoveryWork}
    (hex' : Executable (replay env (pre ++ rest)) t id' work')
    (hlost : work'.lostAdmin = b.lostAdmin) :
    (toLex (tr, id) : ℕ ×ₗ ℕ) ≤
      rivalKey id' work' (outcomeOf (replay env (pre ++ rest)) t id' work') := by
  obtain ⟨tr', d', hsettled', ht0', -, -, hkey⟩ := settled_of_executable hs hex'
  rw [hkey]
  rcases lt_or_ge tr tr' with hlt | hge
  · exact (Prod.Lex.lt_iff.mpr (Or.inl hlt)).le
  · have hsum := le_of_checkedAdd hsettled.deadline
    have hsum' : tr' + work'.vetoWindowMs = d' := le_of_checkedAdd hsettled'.deadline
    rcases lt_or_ge d' w with hlate' | hopen
    · refine hleast id' work'.bound tr' d' ?_ hlate' hlost
      rw [replay, List.foldl_append] at hsettled'
      exact settled_of_run (by omega) (fun a ha => hlate'.trans_le (hrest a ha)) hsettled'
    · -- the rival's window is still open at `w`, so the two windows differ
      exfalso
      obtain ⟨work, hget, rfl, -⟩ := hsettled.frozen
      have hne : work.vetoWindowMs ≠ work'.vetoWindowMs := by
        intro hsame
        have : tr + work.vetoWindowMs = d := hsum
        omega
      have ht0 : work.t0WallMs ≤ tr := ht0
      obtain ⟨c, hc, ⟨hlo, hhi⟩ | ⟨hlo, hhi⟩⟩ := generations_apart hs hget hex'.1 hne
      · refine Bool.eq_false_iff.mp (hsettled.unchanged c hc) (inRecoveryWindow_some.mpr ⟨hlo, ?_⟩)
        omega
      · refine Bool.eq_false_iff.mp (hsettled'.unchanged c hc)
          (inRecoveryWindow_some.mpr ⟨hlo, ?_⟩)
        omega

/-- An execution seen at wall `w` stands at every later time reference, whatever follows
in the log. -/
theorem executed_persists (hs : (pre ++ rest).Pairwise fun a b => a.hlc.wallMs ≤ b.hlc.wallMs)
    (hids : KeyNodup (·.id) (pre ++ rest)) {work : RecoveryWork}
    (hex : Executed (replay env pre) w id work d) (hrest : ∀ a ∈ rest, w ≤ a.hlc.wallMs)
    (ht : w ≤ t) : ∃ work', Executed (replay env (pre ++ rest)) t id work' d := by
  have hspre := (List.pairwise_append.mp hs).1
  obtain ⟨hexec, hd, hleast⟩ := executed_iff_least.mp hex
  obtain ⟨tr, d', hsettled, ht0, hlate, hd', hkey⟩ := settled_of_executable hspre hexec
  obtain rfl : d' = d := Option.some.inj (hd'.symm.trans hd)
  have hfresh : ∀ a ∈ rest, a.id ≠ id := fresh_of_entry hspre hids hexec.1
  have hend : Settled (replay env (pre ++ rest)) id work.bound tr d' := by
    rw [replay, List.foldl_append]
    exact hsettled.run (fun a ha => hlate.trans_le (hrest a ha)) hfresh
  obtain ⟨work', hbound, hexec', hdeadline, hkey'⟩ := hend.executable (hlate.trans_le ht)
  refine ⟨work', executed_iff_least.mpr ⟨hexec', hdeadline, fun id'' work'' hex'' hlost => ?_⟩⟩
  rw [hkey']
  refine rival_behind hs hrest ht0 hlate hend ?_ hex'' (hlost.trans (congrArg Bound.lostAdmin hbound))
  intro id₀ b₀ tr₀ d₀ hsettled₀ hlate₀ hlost₀
  obtain ⟨work₀, rfl, hexec₀, -, hkey₀⟩ := hsettled₀.executable hlate₀
  rw [← hkey, ← hkey₀]
  exact hleast id₀ work₀ hexec₀ hlost₀

end Persist

/-! ### Rotations built on a recovery -/

theorem executed_of_rotation {env : ReplayEnv} {st : ReplayState} {e : SignedMembershipEvent}
    {x newAdmin : OwnerAddr} (h : appliedRotation env st e = some (x, some newAdmin)) :
    ∃ work d, Executed st e.hlc.wallMs (cites e) work d := by
  unfold appliedRotation at h
  split at h
  · rename_i priorEpoch triggeredBy recipients hk
    obtain ⟨-, htrigger, -⟩ := rotationVerdict_eq_some.mp h
    have hcites : cites e = triggeredBy := by simp only [cites, hk]
    unfold rotationTrigger at htrigger
    split at htrigger
    · simp at htrigger
    · split at htrigger
      · simp at htrigger
      · simp at htrigger
      · split at htrigger
        · rename_i o ho
          split_ifs at htrigger with hdone
          have hentry := ho
          rw [← recoveryOutcomesAt, outcomes_get, Option.map_eq_some_iff] at hentry
          obtain ⟨work, hget, -⟩ := hentry
          obtain ⟨d, -, hex⟩ := exists_executed hget ho hdone.1
          exact ⟨work, d, hcites ▸ hex⟩
        · simp at htrigger
      · simp at htrigger
  · simp at h

section Rotations

variable {C : Crypto} {ctx : VerifyContext} {events added : List SignedMembershipEvent}
  {nowMs nowMs' : Option ℕ} {e : SignedMembershipEvent}

theorem sortEvents_extended (hids : DistinctIds (events ++ added))
    (hlater : ∀ a ∈ events, ∀ b ∈ added, a.hlc.wallMs < b.hlc.wallMs) (he : e ∈ events) :
    sortEvents (events ++ added) = sortEvents (before eventSortKey events e) ++
      (e :: (sortEvents (after eventSortKey events e) ++ sortEvents added)) := by
  have hnd : DistinctIds events := by
    rw [DistinctIds, KeyNodup, List.map_append] at hids
    exact List.Nodup.of_append_left hids
  have happend : sortEvents (events ++ added) = sortEvents events ++ sortEvents added := by
    refine sortBy_append hids.keyNodup fun a ha b hb => ?_
    exact (Prod.Lex.lt_iff.mpr (Or.inl (hlater a ha b hb))).le
  rw [happend, sortEvents, sortBy_split hnd.keyNodup he]
  simp [sortEvents]

theorem view_of_executed {adminAddr : OwnerAddr} {id : EventId} {work : RecoveryWork} {d : ℕ}
    (h : Executed (finalState C events adminAddr nowMs) (currentMaxWallMs events nowMs) id work d) :
    ∃ v ∈ (materializeWithNow C events adminAddr nowMs).recoveryProposals,
      v.id = id ∧ v.phase = .executed := by
  rw [materializeWithNow_eq]
  have hentry : ∃ id' work' d', Executed (finalState C events adminAddr nowMs)
      (prePass C events adminAddr nowMs).currentMaxWallMs id' work' d' ∧ id' = id :=
    ⟨id, work, d, h, rfl⟩
  obtain ⟨v, hview, hphase, hid⟩ := (executed_in_view (P := fun id' _ _ _ => id' = id)).mpr hentry
  exact ⟨v, hview, hid, hphase⟩

/-- The trigger of an applied recovery rotation is executed in every later view. -/
theorem rotation_trigger_stands (hv : VerifiedLog C ctx events)
    (hids : DistinctIds (events ++ added))
    (hlater : ∀ a ∈ events, ∀ b ∈ added, a.hlc.wallMs < b.hlc.wallMs)
    (htime : currentMaxWallMs events nowMs ≤ currentMaxWallMs (events ++ added) nowMs')
    (hstand : RequestsStand events added ctx.adminAddr (currentMaxWallMs events nowMs)
      (currentMaxWallMs (events ++ added) nowMs'))
    (he : e ∈ events) {x newAdmin : OwnerAddr}
    (happlied : appliedRotation (prePass C events ctx.adminAddr nowMs)
      (stateBefore C events ctx.adminAddr nowMs e) e = some (x, some newAdmin)) :
    ∃ v ∈ (materializeWithNow C (events ++ added) ctx.adminAddr nowMs').recoveryProposals,
      v.id = cites e ∧ v.phase = .executed := by
  obtain ⟨work, d, hex⟩ := executed_of_rotation happlied
  have halike : Alike ctx.adminAddr (stateBefore C events ctx.adminAddr nowMs e)
      (replay (prePass C (events ++ added) ctx.adminAddr nowMs')
        (sortEvents (before eventSortKey events e))) :=
    extension_alike hv hids htime hstand (sortBy_split hv.distinct.keyNodup he)
  have hsame := executed_congr (congrArg RecoveryLog.proposals halike.recoveryLog)
    (congrArg RecoveryLog.vetoes halike.recoveryLog)
    (congrArg Governance.configChangeWalls halike.governance) |>.mpr hex
  have hsplit := sortEvents_extended hids hlater he
  have hwalls := sorted_walls (events ++ added)
  have hnd : KeyNodup (·.id) (sortEvents (events ++ added)) := hids.perm (sortBy_perm _)
  have hrest : ∀ a ∈ e :: (sortEvents (after eventSortKey events e) ++ sortEvents added),
      e.hlc.wallMs ≤ a.hlc.wallMs := by
    intro a ha
    rw [hsplit, List.pairwise_append, List.pairwise_cons] at hwalls
    rcases List.mem_cons.mp ha with rfl | ha
    · exact le_rfl
    · exact hwalls.2.1.1 a ha
  have hmem : e ∈ events ++ added := List.mem_append_left _ he
  rw [hsplit] at hwalls hnd
  obtain ⟨work', hend⟩ := executed_persists hwalls hnd hsame hrest
    (le_currentMaxWallMs nowMs' hmem)
  rw [← hsplit] at hend
  exact view_of_executed hend

end Rotations

/-- An executed recovery has kept its time-lock, and where no join request of the log is
read anew, a rotation built on it never loses its ground. -/
theorem recovery_time_lock (C : Crypto) (ctx : VerifyContext)
    (events : List SignedMembershipEvent) (nowMs : Option ℕ) (hv : VerifiedLog C ctx events) :
    (∀ v ∈ (materializeWithNow C events ctx.adminAddr nowMs).recoveryProposals,
      v.phase = .executed → ∃ p config configDigest d,
        TimeLock C events ctx.adminAddr nowMs v p config configDigest d) ∧
    ∀ added nowMs', DistinctIds (events ++ added) →
      (∀ a ∈ events, ∀ b ∈ added, a.hlc.wallMs < b.hlc.wallMs) →
      currentMaxWallMs events nowMs ≤ currentMaxWallMs (events ++ added) nowMs' →
      RequestsStand events added ctx.adminAddr (currentMaxWallMs events nowMs)
        (currentMaxWallMs (events ++ added) nowMs') →
      ∀ e ∈ events, ∀ x newAdmin,
        appliedRotation (prePass C events ctx.adminAddr nowMs)
            (stateBefore C events ctx.adminAddr nowMs e) e = some (x, some newAdmin) →
          ∃ v ∈ (materializeWithNow C (events ++ added) ctx.adminAddr nowMs').recoveryProposals,
            v.id = cites e ∧ v.phase = .executed := by
  refine ⟨fun v hview hphase => timeLock_of_executed hv.distinct hview hphase, ?_⟩
  intro added nowMs' hids hlater htime hstand e he x newAdmin happlied
  exact rotation_trigger_stands hv hids hlater htime hstand he happlied

/-- Owner 3 rotates as the new admin, two days after the deadline. -/
def reinstatedRotation : SignedMembershipEvent :=
  signed 8 (materializePendingExpiryMs + 8 + recoveryVetoWindowFloorMs +
    recoveryRotationFinalityMs) 3 (.epochRotation 0 7 [⟨2, []⟩, ⟨3, []⟩])

/-- The request of owner 3 is kicked and lapses; owner 3 joins afresh and is the new admin
of an executed recovery. -/
def reinstatedLog : List SignedMembershipEvent :=
  [signed 1 1 1 .join, signed 2 2 2 .join, signed 3 3 3 (.pendingJoin (tokenOf 1)),
    signed 4 4 1 (.kick 3 none), signed 5 (materializePendingExpiryMs + 5) 3 .join,
    signed 6 (materializePendingExpiryMs + 6) 1
      (.adminProposal (.setRecoveryDesignates [2] 1 recoveryVetoWindowFloorMs)),
    signed 7 (materializePendingExpiryMs + 7) 2
      (.recoveryProposal 1 3 (materializePendingExpiryMs + 6)), reinstatedRotation]

/-- Somebody else joins afterwards. -/
def newcomer : SignedMembershipEvent :=
  signed 9 (reinstatedRotation.hlc.wallMs + 1) 4 .join

/-- The old request is approved afterwards. -/
def lateApproval : SignedMembershipEvent :=
  signed 9 (reinstatedRotation.hlc.wallMs + 1) 3 (.joinCountersign 3)

theorem recovery_time_lock_newcomer :
    VerifiedLog symbolicCrypto openContext reinstatedLog ∧
      ∃ v ∈ (materializeWithNow symbolicCrypto (reinstatedLog ++ [newcomer]) 1
        none).recoveryProposals, v.id = 7 ∧ v.phase = .executed := by
  refine ⟨by decide, ?_⟩
  refine (recovery_time_lock symbolicCrypto openContext reinstatedLog none (by decide)).2
    [newcomer] none (by decide) (by decide) (by decide) ?_ reinstatedRotation (by decide) 1 3
    (by decide)
  intro p hp tok hk
  fin_cases hp <;> exact ⟨by decide, by decide⟩

/-- The late approval bans the new admin in retrospect: the recovery under the rotation is
stalled, and so the rotation is dropped. -/
theorem reinstatedLog_loses_ground :
    VerifiedLog symbolicCrypto openContext (reinstatedLog ++ [lateApproval]) ∧
      (∀ a ∈ reinstatedLog, a.hlc.wallMs < lateApproval.hlc.wallMs) ∧
      appliedRotation (prePass symbolicCrypto reinstatedLog 1 none)
          (stateBefore symbolicCrypto reinstatedLog 1 none reinstatedRotation) reinstatedRotation =
        some (1, some 3) ∧
      cites reinstatedRotation = 7 ∧
      ((materializeWithNow symbolicCrypto (reinstatedLog ++ [lateApproval]) 1
        none).recoveryProposals.map fun v => (v.id, v.phase)) = [(7, .stalled)] ∧
      (materializeWithNow symbolicCrypto reinstatedLog 1 none).currentEpoch = some 1 ∧
      (materializeWithNow symbolicCrypto (reinstatedLog ++ [lateApproval]) 1
        none).currentEpoch = none := by
  decide

end Harmony.Membership
