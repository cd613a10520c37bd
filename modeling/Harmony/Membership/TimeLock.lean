import Harmony.Membership.Execution

/-! The recovery time-lock. An executed recovery is backed by enough designates who
signed under the bound config within thirty days, nothing in its window stopped it, and
its new admin was Joined when the window closed. Once a rotation has been built on an
execution the execution stands, as long as every join request of the log is read alike. -/

namespace Harmony.Membership

open Harmony.Lib

/-! ### Signers -/

def signsRecovery (f : SignedMembershipEvent) (id : EventId) : Prop :=
  (∃ lostAdmin newAdmin configDigest,
    f.kind = .recoveryProposal lostAdmin newAdmin configDigest) ∧ f.id = id ∨
    f.kind = .recoveryCosign id

/-- The bound designate `s` has signed the proposal `id` by wall `w`, Joined and under
the bound config generation. -/
def cosigned (env : ReplayEnv) (sorted : List SignedMembershipEvent) (id : EventId) (b : Bound)
    (s : OwnerAddr) (w : ℕ) : Prop :=
  s ∈ b.designates ∧ ∃ st f, (st, f) ∈ positions env sorted ∧ f.actor = s ∧ signsRecovery f id ∧
    isJoinedMember st.m s = true ∧ runningRecoveryDigest env.crypto st.m = some b.configDigest ∧
    f.hlc.wallMs ≤ w

/-- The signers of an entry are backed by signatures up to wall `w`, and so is its
threshold by the wall at which it was reached. -/
structure Backed (signed : OwnerAddr → ℕ → Prop) (work : RecoveryWork) (w : ℕ) : Prop where
  start : work.t0WallMs ≤ w
  signers : ∀ s ∈ work.signers, signed s w
  reached : ∀ tr, work.tRReached = some tr →
    work.t0WallMs ≤ tr ∧ tr ≤ w ∧ work.deadlineAtReplay = checkedAdd tr work.vetoWindowMs ∧
      ∃ quorum : Finset OwnerAddr, work.threshold ≤ quorum.card ∧ ∀ s ∈ quorum, signed s tr
  unreached : work.tRReached = none → work.deadlineAtReplay = none

namespace Backed

variable {signed signed' : OwnerAddr → ℕ → Prop} {work : RecoveryWork} {w w' : ℕ}

theorem mono (h : Backed signed work w) (hw : w ≤ w')
    (hsigned : ∀ s v v', v ≤ v' → signed s v → signed' s v') : Backed signed' work w' where
  start := h.start.trans hw
  signers s hs := hsigned s w w' hw (h.signers s hs)
  reached tr htr := by
    obtain ⟨h0, hle, hd, quorum, hcard, hall⟩ := h.reached tr htr
    exact ⟨h0, hle.trans hw, hd, quorum, hcard, fun s hs => hsigned s tr tr le_rfl (hall s hs)⟩
  unreached := h.unreached

theorem maybeTip (h : Backed signed work w) : Backed signed (maybeTipRecoveryThreshold work w) w := by
  unfold maybeTipRecoveryThreshold
  split_ifs with htip
  · refine ⟨h.start, h.signers, fun tr htr => ?_, fun hnone => by simp at hnone⟩
    obtain rfl := Option.some.inj htr
    exact ⟨h.start, le_rfl, rfl, work.signers, htip.2.2, h.signers⟩
  · exact h

theorem fold (h : Backed signed work w) {cosign : QueuedRecoveryCosign}
    (hsigned : cosign.joined = true → cosign.runningDigest = some work.configDigest →
      cosign.actor ∈ work.designates → signed cosign.actor w) :
    Backed signed (foldRecoveryCosign work cosign w) w := by
  unfold foldRecoveryCosign
  split_ifs with hjoined hdigest hmem hknown
  · exact h
  · exact h
  · exact h
  · refine maybeTip ⟨h.start, fun s hs => ?_, h.reached, h.unreached⟩
    rcases Finset.mem_insert.mp hs with rfl | hs
    · exact hsigned (by simpa using hjoined) (by simpa using hdigest) hmem
    · exact h.signers s hs
  · exact h

theorem refreshed (h : Backed signed work w) (e : SignedMembershipEvent)
    (m : MaterializedMembership) : Backed signed (refreshed e m work) w := by
  rw [refreshed_fields]
  exact ⟨h.start, h.signers, h.reached, h.unreached⟩

end Backed

section Signers

variable {env : ReplayEnv} {st : ReplayState} {e : SignedMembershipEvent}

theorem cosigned_mono {sorted sorted' : List SignedMembershipEvent}
    (hsub : positions env sorted ⊆ positions env sorted') {id : EventId} {b : Bound}
    (s : OwnerAddr) (v v' : ℕ) (hv : v ≤ v') (h : cosigned env sorted id b s v) :
    cosigned env sorted' id b s v' := by
  obtain ⟨hmem, st, f, hpos, hactor, hsigns, hjoined, hdigest, hwall⟩ := h
  exact ⟨hmem, st, f, hsub hpos, hactor, hsigns, hjoined, hdigest, hwall.trans hv⟩

theorem positions_subset (sorted : List SignedMembershipEvent) (e : SignedMembershipEvent) :
    positions env sorted ⊆ positions env (sorted ++ [e]) := by
  rw [positions_snoc]
  exact List.subset_append_left _ _

theorem last_position (sorted : List SignedMembershipEvent) (e : SignedMembershipEvent) :
    (replay env sorted, e) ∈ positions env (sorted ++ [e]) := by
  rw [positions_snoc]
  exact List.mem_append_right _ (by simp)

theorem step_pendingCosigns {id : EventId} {c : QueuedRecoveryCosign}
    (h : c ∈ (step env st e).recPendingCosigns id) :
    c ∈ st.recPendingCosigns id ∨ e.kind = .recoveryCosign id ∧ c = queuedCosign env st e := by
  cases ha : applyEvent env st e with
  | none =>
    have hlog : (step env st e).recPendingCosigns = st.recPendingCosigns :=
      congrArg RecoveryLog.pendingCosigns (step_of_none ha).2
    rw [hlog] at h
    exact Or.inl h
  | some st' =>
    rw [(step_of_some ha).2.1] at h
    cases hk : e.kind with
    | recoveryProposal lostAdmin newAdmin configDigest =>
      simp only [applyEvent, hk] at ha
      rcases applyRecoveryProposal_cases env st e lostAdmin newAdmin configDigest with
        hnone | ⟨config, -, hsome⟩
      · simp [hnone] at ha
      · rw [hsome, Option.some.injEq] at ha
        rw [← ha] at h
        by_cases hid : id = e.id
        · subst hid
          simp at h
        · simp only [Function.update_of_ne hid] at h
          exact Or.inl h
    | recoveryCosign target =>
      simp only [applyEvent, hk, Option.some.injEq, applyRecoveryCosign] at ha
      split at ha
      · rw [← ha] at h
        exact Or.inl h
      · rw [← ha] at h
        by_cases hid : id = target
        · subst hid
          simp only [Function.update_self, List.mem_append, List.mem_singleton] at h
          rcases h with h | h
          · exact Or.inl h
          · exact Or.inr ⟨rfl, h⟩
        · simp only [Function.update_of_ne hid] at h
          exact Or.inl h
    | recoveryVeto target =>
      simp only [applyEvent, hk, Option.some.injEq, applyRecoveryVeto] at ha
      split_ifs at ha <;> rw [← ha] at h <;> exact Or.inl h
    | _ =>
      have hlog : st'.recPendingCosigns = st.recPendingCosigns :=
        congrArg RecoveryLog.pendingCosigns
          (applyEvent_recoveryLog (by simp [isRecoveryEvent, hk]) ha)
      rw [hlog] at h
      exact Or.inl h

theorem replay_pendingCosigns {sorted : List SignedMembershipEvent} {id : EventId}
    {c : QueuedRecoveryCosign} (h : c ∈ (replay env sorted).recPendingCosigns id) :
    ∃ st f, (st, f) ∈ positions env sorted ∧ f.kind = .recoveryCosign id ∧
      c = queuedCosign env st f := by
  induction sorted using List.reverseRecOn with
  | nil => simp [replay, ReplayState.init] at h
  | append_singleton sorted e ih =>
    rw [replay_snoc] at h
    rw [positions_snoc]
    rcases step_pendingCosigns h with h | ⟨hk, hc⟩
    · obtain ⟨st, f, hpos, hrest⟩ := ih h
      exact ⟨st, f, List.mem_append_left _ hpos, hrest⟩
    · exact ⟨replay env sorted, e, by simp, hk, hc⟩

/-- A cosign that counts is a signature of a Joined designate. -/
theorem cosigned_of_queued {sorted : List SignedMembershipEvent} {id : EventId} {b : Bound}
    {st : ReplayState} {f : SignedMembershipEvent} {w : ℕ}
    (hpos : (st, f) ∈ positions env sorted) (hk : f.kind = .recoveryCosign id)
    (hwall : f.hlc.wallMs ≤ w) (hjoined : (queuedCosign env st f).joined = true)
    (hdigest : (queuedCosign env st f).runningDigest = some b.configDigest)
    (hmem : (queuedCosign env st f).actor ∈ b.designates) :
    cosigned env sorted id b (queuedCosign env st f).actor w :=
  ⟨hmem, st, f, hpos, rfl, Or.inr hk, hjoined, hdigest, hwall⟩

theorem wall_le_of_position {sorted : List SignedMembershipEvent} {w : ℕ}
    (hw : ∀ a ∈ sorted, a.hlc.wallMs ≤ w) {st : ReplayState} {f : SignedMembershipEvent}
    (hpos : (st, f) ∈ positions env sorted) : f.hlc.wallMs ≤ w := hw f (mem_of_position hpos)

/-- A freshly opened entry is backed by its proposer and by the cosigns that came
before it. -/
theorem openedWork_backed {sorted : List SignedMembershipEvent}
    (hle : ∀ a ∈ sorted, a.hlc.wallMs ≤ e.hlc.wallMs) {lostAdmin newAdmin : OwnerAddr}
    {configDigest : Digest} {config : RecoveryDesignates}
    (hk : e.kind = .recoveryProposal lostAdmin newAdmin configDigest)
    (hopens : opens env (replay env sorted) e config configDigest) :
    Backed (cosigned env (sorted ++ [e]) e.id
        (openedWork (replay env sorted) e config lostAdmin newAdmin configDigest).bound)
      (openedWork (replay env sorted) e config lostAdmin newAdmin configDigest) e.hlc.wallMs := by
  obtain ⟨-, hdigest, hmem, hjoined⟩ := hopens
  rw [openedWork_bound]
  set b : Bound := ⟨e.actor, lostAdmin, newAdmin, e.hlc.wallMs, config.threshold,
    config.vetoWindowMs, config.designates, configDigest⟩ with hb
  have hproposer : cosigned env (sorted ++ [e]) e.id b e.actor e.hlc.wallMs :=
    ⟨hmem, replay env sorted, e, last_position sorted e, rfl,
      Or.inl ⟨⟨lostAdmin, newAdmin, configDigest, hk⟩, rfl⟩, hjoined, hdigest, le_rfl⟩
  have hfold : ∀ work : RecoveryWork, work.bound = b →
      Backed (cosigned env (sorted ++ [e]) e.id b) work e.hlc.wallMs →
      ∀ c ∈ (replay env sorted).recPendingCosigns e.id,
        (foldRecoveryCosign work c e.hlc.wallMs).bound = b ∧
          Backed (cosigned env (sorted ++ [e]) e.id b) (foldRecoveryCosign work c e.hlc.wallMs)
            e.hlc.wallMs := by
    intro work hbound hbacked c hc
    obtain ⟨st, f, hpos, hfk, rfl⟩ := replay_pendingCosigns hc
    have hdesignates : work.designates = b.designates := congrArg Bound.designates hbound
    have hgeneration : work.configDigest = b.configDigest := congrArg Bound.configDigest hbound
    refine ⟨by rw [foldRecoveryCosign_bound, hbound], hbacked.fold fun hj hd hm => ?_⟩
    exact cosigned_of_queued (positions_subset sorted e hpos) hfk (wall_le_of_position hle hpos) hj
      (hgeneration ▸ hd) (hdesignates ▸ hm)
  unfold openedWork
  refine (List.foldlRecOn (motive := fun work : RecoveryWork => work.bound = b ∧
    Backed (cosigned env (sorted ++ [e]) e.id b) work e.hlc.wallMs) _ _ ?_
    fun work hwork c hc => hfold work hwork.1 hwork.2 c hc).2
  refine ⟨by rw [maybeTip_bound]; rfl, Backed.maybeTip ⟨le_rfl, fun s hs => ?_, ?_, fun _ => rfl⟩⟩
  · rw [Finset.mem_singleton.mp hs]
    exact hproposer
  · intro tr htr
    simp at htr

theorem replay_backed {sorted : List SignedMembershipEvent}
    (hs : sorted.Pairwise fun a b => a.hlc.wallMs ≤ b.hlc.wallMs) {id : EventId}
    {work : RecoveryWork} (h : (replay env sorted).recProposals[id]? = some work) {w : ℕ}
    (hw : ∀ a ∈ sorted, a.hlc.wallMs ≤ w) : Backed (cosigned env sorted id work.bound) work w := by
  refine works_induction (P := fun sorted id work => ∀ w, (∀ a ∈ sorted, a.hlc.wallMs ≤ w) →
    Backed (cosigned env sorted id work.bound) work w) ?_ ?_ ?_ ?_ hs h w hw
  · intro sorted e id work hle hP w hw
    exact (hP w fun a ha => hw a (by simp [ha])).mono le_rfl
      (cosigned_mono (positions_subset sorted e))
  · intro sorted e id m work hP w hw
    rw [refreshed_bound]
    exact (hP w hw).refreshed e m
  · intro sorted e id work hle hk hP w hw
    have hwall : ∀ a ∈ sorted ++ [e], a.hlc.wallMs ≤ e.hlc.wallMs := by
      intro a ha
      rcases List.mem_append.mp ha with ha | ha
      · exact hle a ha
      · rw [List.mem_singleton.mp ha]
    rw [foldRecoveryCosign_bound]
    refine ((hP e.hlc.wallMs hwall).fold fun hjoined hdigest hmem => ?_).mono (hw e (by simp))
      (cosigned_mono (List.Subset.refl _))
    exact cosigned_of_queued (last_position sorted e) hk le_rfl hjoined hdigest hmem
  · intro sorted e lostAdmin newAdmin configDigest config hs hk hopens w hw
    have hle : ∀ a ∈ sorted, a.hlc.wallMs ≤ e.hlc.wallMs :=
      fun a ha => (List.pairwise_append.mp hs).2.2 a ha e (by simp)
    exact (openedWork_backed hle hk hopens).mono (hw e (by simp))
      (cosigned_mono (List.Subset.refl _))

end Signers

/-! ### Vetoes and config changes -/

section Stops

variable {env : ReplayEnv} {sorted : List SignedMembershipEvent} {st : ReplayState}
  {f : SignedMembershipEvent}

theorem replay_vetoes (hpos : (st, f) ∈ positions env sorted) {id : EventId}
    (hk : f.kind = .recoveryVeto id) (hq : vetoQualifies env.adminAddr st.m f.actor = true) :
    (id, f.hlc.wallMs, f.actor) ∈ (replay env sorted).recVetoes := by
  induction sorted using List.reverseRecOn with
  | nil => simp [positions, trace] at hpos
  | append_singleton sorted e ih =>
    rw [positions_snoc, List.mem_append, List.mem_singleton, Prod.mk.injEq] at hpos
    rw [replay_snoc, step_recVetoes]
    rcases hpos with hpos | ⟨rfl, rfl⟩
    · have hold := ih hpos
      split
      · split_ifs
        · exact List.mem_append_left _ hold
        · exact hold
      · exact hold
    · simp [hk, hq]

/-- The wall a config change is recorded at, when `e` completes one. -/
def configChange (idx : ProposalsIndex) (g : Governance) (e : SignedMembershipEvent) : List ℕ :=
  match tipped idx g e with
  | some (_, .setRecoveryDesignates _ _ _) => [e.hlc.wallMs]
  | _ => []

theorem recordSigner_configChangeWalls (idx : ProposalsIndex) (g : Governance)
    (e : SignedMembershipEvent) :
    (recordSigner idx g e).configChangeWalls = g.configChangeWalls := by
  unfold recordSigner
  split
  · rfl
  · split_ifs <;> rfl
  · rfl

theorem govStep_configChangeWalls (idx : ProposalsIndex) (g : Governance)
    (e : SignedMembershipEvent) :
    (govStep idx g e).configChangeWalls = g.configChangeWalls ++ configChange idx g e := by
  unfold configChange
  cases ht : tipped idx g e with
  | some p =>
    obtain ⟨id, kind⟩ := p
    rw [govStep_of_tipped ht]
    cases kind <;> simp [enact, recordSigner_configChangeWalls]
  | none =>
    unfold govStep
    split
    · simp
    · rw [ht, Option.elim_none, recordSigner_configChangeWalls, List.append_nil]

theorem step_configChangeWalls (env : ReplayEnv) (st : ReplayState) (e : SignedMembershipEvent) :
    (step env st e).recConfigChangeWalls =
      st.recConfigChangeWalls ++ configChange env.proposalsIndex st.governance e :=
  (congrArg Governance.configChangeWalls (step_governance env st e)).trans
    (govStep_configChangeWalls _ _ _)

theorem replay_configChangeWalls (hpos : (st, f) ∈ positions env sorted) {id : EventId}
    {designates : List OwnerAddr} {threshold vetoWindowMs : ℕ}
    (ht : tipped env.proposalsIndex st.governance f =
      some (id, .setRecoveryDesignates designates threshold vetoWindowMs)) :
    f.hlc.wallMs ∈ (replay env sorted).recConfigChangeWalls := by
  induction sorted using List.reverseRecOn with
  | nil => simp [positions, trace] at hpos
  | append_singleton sorted e ih =>
    rw [positions_snoc, List.mem_append, List.mem_singleton, Prod.mk.injEq] at hpos
    rw [replay_snoc, step_configChangeWalls]
    rcases hpos with hpos | ⟨rfl, rfl⟩
    · exact List.mem_append_left _ (ih hpos)
    · refine List.mem_append_right _ ?_
      simp [configChange, ht]

end Stops

/-! ### The end of the window -/

section Window

variable {env : ReplayEnv} {st : ReplayState} {e : SignedMembershipEvent} {id : EventId}

/-- A fold reaches the threshold at its own wall or leaves the clock of the entry alone;
the note on the new admin is not its business. -/
theorem foldRecoveryCosign_clock (work : RecoveryWork) (c : QueuedRecoveryCosign) (w : ℕ) :
    (foldRecoveryCosign work c w).newAdminJoined = work.newAdminJoined ∧
      ((foldRecoveryCosign work c w).tRReached = work.tRReached ∧
          (foldRecoveryCosign work c w).deadlineAtReplay = work.deadlineAtReplay ∨
        work.tRReached = none ∧ (foldRecoveryCosign work c w).tRReached = some w) := by
  unfold foldRecoveryCosign
  split_ifs
  · exact ⟨rfl, Or.inl ⟨rfl, rfl⟩⟩
  · exact ⟨rfl, Or.inl ⟨rfl, rfl⟩⟩
  · exact ⟨rfl, Or.inl ⟨rfl, rfl⟩⟩
  · unfold maybeTipRecoveryThreshold
    split_ifs with htip
    · exact ⟨rfl, Or.inr ⟨htip.1, rfl⟩⟩
    · exact ⟨rfl, Or.inl ⟨rfl, rfl⟩⟩
  · exact ⟨rfl, Or.inl ⟨rfl, rfl⟩⟩

theorem openedWork_reached {config : RecoveryDesignates} {lostAdmin newAdmin : OwnerAddr}
    {configDigest : Digest} {tr : ℕ}
    (h : (openedWork st e config lostAdmin newAdmin configDigest).tRReached = some tr) :
    tr = e.hlc.wallMs := by
  revert h
  unfold openedWork
  refine List.foldlRecOn (motive := fun work : RecoveryWork =>
    work.tRReached = some tr → tr = e.hlc.wallMs) _ _ ?_ fun work hwork c _ => ?_
  · unfold maybeTipRecoveryThreshold
    split_ifs
    · exact fun h => (Option.some.inj h).symm
    · exact fun h => by simp at h
  · intro h
    rcases (foldRecoveryCosign_clock work c e.hlc.wallMs).2 with ⟨hsame, -⟩ | ⟨-, hnew⟩
    · exact hwork (hsame ▸ h)
    · rw [hnew] at h
      exact (Option.some.inj h).symm

/-- An entry that reached its threshold at `tr`, with deadline `d` and this note. -/
def Frozen (st : ReplayState) (id : EventId) (b : Bound) (tr d : ℕ) (joined : Bool) : Prop :=
  ∃ work : RecoveryWork, st.recProposals[id]? = some work ∧ work.bound = b ∧
    work.tRReached = some tr ∧ work.deadlineAtReplay = some d ∧ work.newAdminJoined = joined

theorem refreshed_late {m : MaterializedMembership} {work : RecoveryWork} {d : ℕ}
    (hd : work.deadlineAtReplay = some d) (hlate : d < e.hlc.wallMs) :
    refreshed e m work = work := by
  unfold refreshed
  rw [if_neg]
  simp only [hd, Option.all_some, decide_eq_true_eq]
  omega

theorem frozen_of_step {b : Bound} {tr d : ℕ} {joined : Bool} (htr : tr ≤ d)
    (hlate : d < e.hlc.wallMs) (h : Frozen (step env st e) id b tr d joined) :
    Frozen st id b tr d joined := by
  obtain ⟨work', hget, rfl, hreached, hdeadline, rfl⟩ := h
  rcases step_work_cases hget with ⟨-, hkeep⟩ | ⟨work, rfl, hcases⟩
  · exact ⟨work', hkeep, rfl, hreached, hdeadline, rfl⟩
  · have hsame : refreshed e (step env st e).m work = work := by
      refine refreshed_late ?_ hlate
      rw [← hdeadline, refreshed_fields]
    rw [hsame] at hreached hdeadline ⊢
    rcases hcases with hkeep | ⟨old, hold, -, rfl⟩ | ⟨_, _, _, config, -, -, -, rfl⟩
    · exact ⟨work, hkeep, rfl, hreached, hdeadline, rfl⟩
    · obtain ⟨hnote, ⟨hr, hd⟩ | ⟨-, hr⟩⟩ :=
        foldRecoveryCosign_clock old (queuedCosign env st e) e.hlc.wallMs
      · exact ⟨old, hold, (foldRecoveryCosign_bound _ _ _).symm, hr ▸ hreached, hd ▸ hdeadline,
          hnote.symm⟩
      · rw [hr, Option.some.injEq] at hreached
        omega
    · have := openedWork_reached hreached
      omega

theorem frozen_of_run {b : Bound} {tr d : ℕ} {joined : Bool} (htr : tr ≤ d)
    {late : List SignedMembershipEvent} (hlate : ∀ a ∈ late, d < a.hlc.wallMs)
    (h : Frozen (late.foldl (step env) st) id b tr d joined) : Frozen st id b tr d joined := by
  induction late using List.reverseRecOn with
  | nil => exact h
  | append_singleton late e ih =>
    rw [List.foldl_append, List.foldl_cons, List.foldl_nil] at h
    exact ih (fun a ha => hlate a (by simp [ha])) (frozen_of_step htr (hlate e (by simp)) h)

theorem split_at_wall {sorted : List SignedMembershipEvent} (d : ℕ)
    (hs : sorted.Pairwise fun a b => a.hlc.wallMs ≤ b.hlc.wallMs) :
    sorted = sorted.filter (fun a => decide (a.hlc.wallMs ≤ d)) ++
      sorted.filter (fun a => decide (d < a.hlc.wallMs)) := by
  induction sorted with
  | nil => rfl
  | cons a sorted ih =>
    rw [List.pairwise_cons] at hs
    by_cases ha : a.hlc.wallMs ≤ d
    · rw [List.filter_cons_of_pos (by simpa using ha), List.filter_cons_of_neg (by simpa using ha),
        List.cons_append, ← ih hs.2]
    · have hall : ∀ b ∈ a :: sorted, d < b.hlc.wallMs := by
        intro b hb
        rcases List.mem_cons.mp hb with rfl | hb
        · omega
        · have := hs.1 b hb
          omega
      rw [List.filter_eq_nil_iff.mpr fun b hb => by simpa using hall b hb,
        List.filter_eq_self.mpr fun b hb => by simpa using hall b hb, List.nil_append]

/-- The note of a closed window is the new admin's status when it closed. -/
theorem joined_when_closed {sorted : List SignedMembershipEvent}
    (hs : sorted.Pairwise fun a b => a.hlc.wallMs ≤ b.hlc.wallMs) {b : Bound} {tr d : ℕ}
    {joined : Bool} (htr : tr ≤ d) (h : Frozen (replay env sorted) id b tr d joined) :
    isJoinedMember (replay env (sorted.filter fun a => decide (a.hlc.wallMs ≤ d))).m b.newAdmin =
      joined := by
  rw [split_at_wall d hs, replay, List.foldl_append] at h
  have hfrozen := frozen_of_run htr (fun a ha => by simpa using (List.mem_filter.mp ha).2) h
  obtain ⟨work, hget, rfl, -, hdeadline, rfl⟩ := hfrozen
  have hcurrent : Current (replay env (sorted.filter fun a => decide (a.hlc.wallMs ≤ d))) d :=
    replay_current (hs.filter _) fun a ha => by simpa using (List.mem_filter.mp ha).2
  exact (hcurrent id work hget (by simp [hdeadline])).symm

end Window

/-! ### The lock -/

section Lock

variable {C : Crypto} {events : List SignedMembershipEvent} {adminAddr : OwnerAddr}
  {nowMs : Option ℕ}

theorem mem_positions_log (hids : DistinctIds events) {st : ReplayState}
    {f : SignedMembershipEvent} :
    (st, f) ∈ positions (prePass C events adminAddr nowMs) (sortEvents events) ↔
      f ∈ events ∧ st = stateBefore C events adminAddr nowMs f := by
  rw [mem_positions]
  constructor
  · rintro ⟨pre, post, hsplit, rfl⟩
    refine ⟨mem_sortBy.mp (by rw [← sortEvents, hsplit]; simp), ?_⟩
    rw [stateBefore, sortEvents, sortBy_before_eq hids.keyNodup hsplit]
  · rintro ⟨hf, rfl⟩
    exact ⟨_, _, sortBy_split hids.keyNodup hf, rfl⟩

/-- The recovery `v`, proposed by `p` under `config`, kept its time-lock. -/
structure TimeLock (C : Crypto) (events : List SignedMembershipEvent) (adminAddr : OwnerAddr)
    (nowMs : Option ℕ) (v : RecoveryProposalView) (p : SignedMembershipEvent)
    (config : RecoveryDesignates) (configDigest : Digest) (d : ℕ) : Prop where
  proposed : p ∈ events ∧ p.id = v.id ∧
    p.kind = .recoveryProposal v.lostAdmin v.newAdmin configDigest
  bound : (stateBefore C events adminAddr nowMs p).m.recoveryDesignates = some config ∧
    C.recoveryConfigDigest config = some configDigest
  signed : ∃ quorum : Finset OwnerAddr, config.threshold ≤ quorum.card ∧
    ∀ s ∈ quorum, s ∈ config.designates ∧ ∃ f ∈ events, f.actor = s ∧ signsRecovery f p.id ∧
      isJoinedMember (stateBefore C events adminAddr nowMs f).m s = true ∧
      runningRecoveryDigest C (stateBefore C events adminAddr nowMs f).m = some configDigest ∧
      f.hlc.wallMs ≤ p.hlc.wallMs + adminProposalExpiryMs
  waited : v.deadlineMs = some d ∧ p.hlc.wallMs + config.vetoWindowMs ≤ d ∧
    d < currentMaxWallMs events nowMs
  unvetoed : ∀ f ∈ events, f.kind = .recoveryVeto p.id →
    vetoQualifies adminAddr (stateBefore C events adminAddr nowMs f).m f.actor = true →
    ¬(p.hlc.wallMs ≤ f.hlc.wallMs ∧ f.hlc.wallMs ≤ d)
  unchanged : ∀ f ∈ events, ∀ id designates threshold vetoWindowMs,
    tipped (proposalsIndex events) (stateBefore C events adminAddr nowMs f).governance f =
      some (id, .setRecoveryDesignates designates threshold vetoWindowMs) →
    ¬(p.hlc.wallMs ≤ f.hlc.wallMs ∧ f.hlc.wallMs ≤ d)
  joined : isJoinedMember (replay (prePass C events adminAddr nowMs)
    (sortEvents (events.filter fun a => decide (a.hlc.wallMs ≤ d)))).m v.newAdmin = true
  alone : ∀ v' ∈ (materializeWithNow C events adminAddr nowMs).recoveryProposals,
    v'.phase = .executed → v'.lostAdmin = v.lostAdmin → v'.id = v.id

theorem inRecoveryWindow_some {t0 d w : ℕ} :
    inRecoveryWindow t0 (some d) w = true ↔ t0 ≤ w ∧ w ≤ d := by
  simp [inRecoveryWindow]

theorem le_of_checkedAdd {a b d : ℕ} (h : checkedAdd a b = some d) : a + b = d := by
  unfold checkedAdd at h
  split_ifs at h
  exact Option.some.inj h

/-- An executed recovery has kept its time-lock. -/
theorem timeLock_of_executed (hids : DistinctIds events) {v : RecoveryProposalView}
    (hv : v ∈ (materializeWithNow C events adminAddr nowMs).recoveryProposals)
    (hphase : v.phase = .executed) :
    ∃ p config configDigest d, TimeLock C events adminAddr nowMs v p config configDigest d := by
  set env := prePass C events adminAddr nowMs with henv
  have hs := sorted_walls events
  rw [materializeWithNow_eq] at hv
  simp only [postPass, mem_recoveryViews] at hv
  obtain ⟨id, work, o, hget, ho, rfl⟩ := hv
  obtain ⟨d, hd, hex⟩ := exists_executed hget ho hphase
  obtain ⟨tr, d', hreached, hage, hadd, hd', hlate, hjoined, hvetoes, hconfig⟩ :=
    executable_deadline hex.executable.2
  obtain rfl : d' = d := Option.some.inj (hd'.symm.trans (executed_iff.mp hex).2.1)
  obtain ⟨s, p, config, hpos, hid, hkind, hopens, hbound⟩ := replay_openedBy hs hget
  obtain ⟨hp, rfl⟩ := (mem_positions_log hids).mp hpos
  have hfields := hbound
  simp only [RecoveryWork.bound, Bound.mk.injEq] at hfields
  obtain ⟨-, -, -, ht0, hthreshold, hveto, hdesignates, -⟩ := hfields
  have hbacked := replay_backed hs hget (w := currentMaxWallMs events nowMs)
    fun a ha => le_currentMaxWallMs nowMs (mem_sortBy.mp ha)
  obtain ⟨hstart, -, hclock, quorum, hcard, hquorum⟩ := hbacked.reached tr hreached
  have hsum := le_of_checkedAdd hadd
  have hclosed := joined_when_closed hs (by omega)
    ⟨work, hget, rfl, hreached, hclock.trans hadd, hjoined⟩
  refine ⟨p, config, work.configDigest, d', ⟨⟨hp, hid, hkind⟩, ⟨hopens.1, ?_⟩,
    ⟨quorum, hthreshold ▸ hcard, fun s hsig => ?_⟩, ⟨hd, by omega, hlate⟩, fun f hf hfk hq => ?_,
    fun f hf id' designates threshold vetoWindowMs ht => ?_, ?_, ?_⟩⟩
  · have hdigest := hopens.2.1
    rw [runningRecoveryDigest, hopens.1, Option.bind_some] at hdigest
    exact hdigest
  · obtain ⟨hmem, st, f, hfpos, hactor, hsigns, hj, hdig, hwall⟩ := hquorum s hsig
    obtain ⟨hf, rfl⟩ := (mem_positions_log hids).mp hfpos
    have hdes : s ∈ config.designates := hdesignates ▸ hmem
    exact ⟨hdes, f, hf, hactor, hid ▸ hsigns, hj, hdig, by omega⟩
  · have hveto := hvetoes _ (replay_vetoes ((mem_positions_log hids).mpr ⟨hf, rfl⟩) hfk hq) hid
    rw [← Bool.not_eq_true, inRecoveryWindow_some, ht0] at hveto
    exact hveto
  · have hwall := hconfig _ (replay_configChangeWalls ((mem_positions_log hids).mpr ⟨hf, rfl⟩) ht)
    rw [← Bool.not_eq_true, inRecoveryWindow_some, ht0] at hwall
    exact hwall
  · rw [sortEvents, sortBy_filter hids.keyNodup]
    exact hclosed
  · intro v' hv' hphase' hlost
    rw [materializeWithNow_eq] at hv'
    simp only [postPass, mem_recoveryViews] at hv'
    obtain ⟨id', work', o', hget', ho', rfl⟩ := hv'
    obtain ⟨d'', -, hex'⟩ := exists_executed hget' ho' hphase'
    exact (hex'.unique hex hlost).1

end Lock

end Harmony.Membership
