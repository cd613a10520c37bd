import Harmony.Membership.Finality

/-! When the verdict on a recovery is final. The evaluator judges an entry by the vetoes
and config changes of its window, by its clock and by its rivals. A window without a
deadline never closes, so that a veto or a config change that comes after collecting has
expired still takes over, and a veto takes over from a config change; where none comes that
late, every terminal verdict stands. -/

namespace Harmony.Membership

open Harmony.Lib

def RecoveryPhase.terminal : RecoveryPhase → Bool
  | .collecting | .timeLocked => false
  | _ => true

/-! ### What an entry is judged by -/

/-- The deadline of an entry whose threshold was reached in time. -/
def RecoveryWork.deadline (work : RecoveryWork) : Option ℕ :=
  work.tRReached.bind fun tr =>
    if tr - work.t0WallMs ≤ adminProposalExpiryMs then checkedAdd tr work.vetoWindowMs else none

def RecoveryWork.expired (work : RecoveryWork) (t : ℕ) : Bool := (recoveryDeadline work t).2

/-- The first veto of the entry in its window. -/
def vetoerOf (st : ReplayState) (id : EventId) (work : RecoveryWork) : Option OwnerAddr :=
  (st.recVetoes.find? fun v =>
    decide (v.1 = id) && inRecoveryWindow work.t0WallMs work.deadline v.2.1).map (·.2.2)

def configKilled (st : ReplayState) (work : RecoveryWork) : Bool :=
  st.recConfigChangeWalls.any (inRecoveryWindow work.t0WallMs work.deadline)

section Judged

variable {st : ReplayState} {id : EventId} {work : RecoveryWork} {t t' d : ℕ}

theorem recoveryDeadline_eq (work : RecoveryWork) (t : ℕ) :
    recoveryDeadline work t = (work.deadline, work.expired t) := by
  refine Prod.ext ?_ rfl
  unfold recoveryDeadline RecoveryWork.deadline
  cases work.tRReached with
  | none => rfl
  | some tr =>
    simp only [Option.bind_some]
    split_ifs
    · cases checkedAdd tr work.vetoWindowMs <;> rfl
    · rfl

theorem expired_mono (h : work.expired t = true) (hle : t ≤ t') : work.expired t' = true := by
  unfold RecoveryWork.expired recoveryDeadline at h ⊢
  cases hr : work.tRReached with
  | none =>
    simp only [hr, decide_eq_true_eq] at h ⊢
    omega
  | some tr => simpa [hr] using h

theorem expired_of_reached {tr : ℕ} (hr : work.tRReached = some tr) (t : ℕ) :
    work.expired t = work.deadline.isNone := by
  unfold RecoveryWork.expired recoveryDeadline RecoveryWork.deadline
  simp only [hr, Option.bind_some]
  split_ifs
  · cases checkedAdd tr work.vetoWindowMs <;> rfl
  · rfl

theorem not_expired_of_deadline (hd : work.deadline = some d) (t : ℕ) : work.expired t = false := by
  cases hr : work.tRReached with
  | none => simp [RecoveryWork.deadline, hr] at hd
  | some tr => rw [expired_of_reached hr, hd]; rfl

def verdict (st : ReplayState) (t : ℕ) (id : EventId) (work : RecoveryWork) : RecoveryPhase :=
  if (vetoerOf st id work).isSome then .vetoed
  else if configKilled st work then .configChanged
  else if work.expired t then .expired
  else match work.deadline with
    | none => .collecting
    | some d => if d < t then if work.newAdminJoined then .executed else .stalled else .timeLocked

theorem verdict_ne_superseded : verdict st t id work ≠ .superseded := by
  unfold verdict
  cases vetoerOf st id work <;> cases configKilled st work <;> cases work.expired t <;>
    cases work.deadline with
    | none => simp
    | some d => by_cases hd : d < t <;> cases work.newAdminJoined <;> simp [hd]

theorem outcomeOf_eq :
    outcomeOf st t id work =
      ⟨verdict st t id work, work.deadline,
        if verdict st t id work = .vetoed then vetoerOf st id work else none⟩ := by
  have hphase : (outcomeOf st t id work).phase = verdict st t id work := by
    simp only [outcomeOf, recoveryOutcome, recoveryDeadline_eq, verdict, vetoerOf, configKilled]
    refine if_congr Iff.rfl rfl (if_congr Iff.rfl rfl (if_congr Iff.rfl rfl ?_))
    cases work.deadline with
    | none => rfl
    | some d =>
      simp only
      by_cases hd : d < t <;> cases work.newAdminJoined <;> simp [hd]
  have hd : (outcomeOf st t id work).deadlineMs = work.deadline := by
    simp only [outcomeOf, recoveryOutcome, recoveryDeadline_eq]
  have hv : (outcomeOf st t id work).vetoedBy =
      if (outcomeOf st t id work).phase = .vetoed then vetoerOf st id work else none := by
    simp only [outcomeOf, recoveryOutcome, recoveryDeadline_eq, vetoerOf]
  rw [hphase] at hv
  rw [← hphase, ← hd, hphase, ← hv, ← hphase]

/-- Why a terminal verdict was given. -/
theorem verdict_terminal (h : (verdict st t id work).terminal = true) :
    (vetoerOf st id work).isSome = true ∨
      vetoerOf st id work = none ∧ (configKilled st work = true ∨
        configKilled st work = false ∧ (work.expired t = true ∨
          ∃ d, work.deadline = some d ∧ d < t)) := by
  cases hv : vetoerOf st id work with
  | some actor => exact Or.inl rfl
  | none =>
    refine Or.inr ⟨rfl, ?_⟩
    cases hc : configKilled st work with
    | true => exact Or.inl rfl
    | false =>
      refine Or.inr ⟨rfl, ?_⟩
      cases he : work.expired t with
      | true => exact Or.inl rfl
      | false =>
        right
        cases hd : work.deadline with
        | none => simp [verdict, hv, hc, he, hd, RecoveryPhase.terminal] at h
        | some d =>
          refine ⟨d, rfl, ?_⟩
          by_contra hnot
          simp [verdict, hv, hc, he, hd, hnot, RecoveryPhase.terminal] at h

theorem verdict_later (h : (verdict st t id work).terminal = true) (hle : t ≤ t') :
    verdict st t' id work = verdict st t id work := by
  rcases verdict_terminal h with hv | ⟨hv, hc | ⟨hc, he | ⟨d, hd, hlt⟩⟩⟩
  · simp [verdict, hv]
  · simp [verdict, hv, hc]
  · simp [verdict, hv, hc, he, expired_mono he hle]
  · have hlt' : d < t' := hlt.trans_le hle
    simp [verdict, hv, hc, hd, hlt, hlt', not_expired_of_deadline hd]

end Judged

/-! ### One more event -/

def vetoes (env : ReplayEnv) (st : ReplayState) (e : SignedMembershipEvent) (id : EventId) : Bool :=
  match e.kind with
  | .recoveryVeto target => decide (target = id) && vetoQualifies env.adminAddr st.m e.actor
  | _ => false

def changesConfig (env : ReplayEnv) (st : ReplayState) (e : SignedMembershipEvent) : Bool :=
  !(configChange env.proposalsIndex st.governance e).isEmpty

section OneMore

variable {env : ReplayEnv} {pre : List SignedMembershipEvent} {e : SignedMembershipEvent}
  {id : EventId} {work : RecoveryWork} {t w : ℕ}

theorem replay_recorded (env : ReplayEnv) (sorted : List SignedMembershipEvent) :
    (∀ v ∈ (replay env sorted).recVetoes, ∃ f ∈ sorted, v.2.1 = f.hlc.wallMs) ∧
      ∀ c ∈ (replay env sorted).recConfigChangeWalls, ∃ f ∈ sorted, c = f.hlc.wallMs := by
  induction sorted using List.reverseRecOn with
  | nil => simp [replay, ReplayState.init]
  | append_singleton sorted e ih =>
    rw [replay_snoc]
    constructor
    · intro v hv
      obtain ⟨more, hmore, hwall⟩ := step_recVetoes_grow env (replay env sorted) e
      rw [hmore, List.mem_append] at hv
      rcases hv with hv | hv
      · obtain ⟨f, hf, hfv⟩ := ih.1 v hv
        exact ⟨f, by simp [hf], hfv⟩
      · exact ⟨e, by simp, hwall v hv⟩
    · intro c hc
      rw [step_configChangeWalls, List.mem_append] at hc
      rcases hc with hc | hc
      · obtain ⟨f, hf, hfc⟩ := ih.2 c hc
        exact ⟨f, by simp [hf], hfc⟩
      · exact ⟨e, by simp, mem_configChange hc⟩

/-- What an event makes of an entry that is there already. -/
structure Followed (e : SignedMembershipEvent) (work work' : RecoveryWork) : Prop where
  bound : work'.bound = work.bound
  reached : work'.tRReached = work.tRReached ∨
    work.tRReached = none ∧ work'.tRReached = some e.hlc.wallMs
  closed : ∀ d, work.deadline = some d → d < e.hlc.wallMs →
    work'.newAdminJoined = work.newAdminJoined

theorem exists_followed (hs : (pre ++ [e]).Pairwise fun a b => a.hlc.wallMs ≤ b.hlc.wallMs)
    (hfresh : e.id ≠ id) (hget : (replay env pre).recProposals[id]? = some work) :
    ∃ work', (replay env (pre ++ [e])).recProposals[id]? = some work' ∧ Followed e work work' := by
  have hkept : (step env (replay env pre) e).recProposals[id]?.isSome :=
    step_keeps_entry (by rw [hget]; rfl)
  obtain ⟨work', hget'⟩ := Option.isSome_iff_exists.mp hkept
  refine ⟨work', by rw [replay_snoc]; exact hget', ?_⟩
  have hatReplay : ∀ d, work.deadline = some d → work.deadlineAtReplay = some d := by
    intro d hd
    cases htr : work.tRReached with
    | none => simp [RecoveryWork.deadline, htr] at hd
    | some tr =>
      rw [(replay_clock (List.pairwise_append.mp hs).1 hget htr).2]
      simp only [RecoveryWork.deadline, htr, Option.bind_some] at hd
      split_ifs at hd
      exact hd
  have hreached : ∀ w : RecoveryWork, (refreshed e (step env (replay env pre) e).m w).tRReached =
      w.tRReached := fun w => by rw [refreshed_fields]
  rcases step_work_cases hget' with
    ⟨-, hkeep⟩ | ⟨w, rfl, hkeep | ⟨old, hold, -, rfl⟩ | ⟨_, _, _, _, -, hid, -⟩⟩
  · obtain rfl := Option.some.inj (hkeep.symm.trans hget)
    exact ⟨rfl, Or.inl rfl, fun _ _ _ => rfl⟩
  · obtain rfl := Option.some.inj (hkeep.symm.trans hget)
    refine ⟨refreshed_bound _ _, Or.inl (hreached w), fun d hd hlate => ?_⟩
    rw [refreshed_late (hatReplay d hd) hlate]
  · obtain rfl := Option.some.inj (hold.symm.trans hget)
    obtain ⟨hnote, hclock⟩ :=
      foldRecoveryCosign_clock old (queuedCosign env (replay env pre) e) e.hlc.wallMs
    refine ⟨(refreshed_bound _ _).trans (foldRecoveryCosign_bound _ _ _), ?_, fun d hd hlate => ?_⟩
    · rw [hreached]
      exact hclock.imp And.left fun hnew => hnew
    · rcases hclock with ⟨-, hsame⟩ | ⟨hnone, -⟩
      · rw [refreshed_late (hsame.trans (hatReplay d hd)) hlate, hnote]
      · simp [RecoveryWork.deadline, hnone] at hd
  · exact absurd hid.symm hfresh

namespace Followed

variable {work' : RecoveryWork} (h : Followed e work work')

include h

theorem t0WallMs : work'.t0WallMs = work.t0WallMs := congrArg Bound.t0WallMs h.bound

theorem vetoWindowMs : work'.vetoWindowMs = work.vetoWindowMs := congrArg Bound.vetoWindowMs h.bound

theorem deadline : work'.deadline = work.deadline ∨
    work.deadline = none ∧ ∀ d, work'.deadline = some d → e.hlc.wallMs ≤ d := by
  rcases h.reached with hsame | ⟨hnone, hnew⟩
  · left
    simp only [RecoveryWork.deadline, hsame, h.t0WallMs, h.vetoWindowMs]
  · refine Or.inr ⟨by simp [RecoveryWork.deadline, hnone], fun d hd => ?_⟩
    simp only [RecoveryWork.deadline, hnew, Option.bind_some] at hd
    split_ifs at hd
    have := le_of_checkedAdd hd
    omega

theorem deadline_of_some {d : ℕ} (hd : work.deadline = some d) : work'.deadline = some d := by
  rcases h.deadline with hsame | ⟨hnone, -⟩
  · rw [hsame, hd]
  · simp [hnone] at hd

theorem inWindow (hw : w ≤ e.hlc.wallMs) :
    inRecoveryWindow work'.t0WallMs work'.deadline w =
      inRecoveryWindow work.t0WallMs work.deadline w := by
  rw [h.t0WallMs]
  rcases h.deadline with hsame | ⟨hnone, hlate⟩
  · rw [hsame]
  · rw [hnone]
    cases hd : work'.deadline with
    | none => rfl
    | some d =>
      have hwd : w ≤ d := hw.trans (hlate d hd)
      simp [inRecoveryWindow, hwd]

theorem expired (hlate : t < e.hlc.wallMs) (hexp : work.expired t = true) :
    work'.expired t = true := by
  rcases h.reached with hsame | ⟨hnone, hnew⟩
  · have hdeadline : work'.deadline = work.deadline := by
      simp only [RecoveryWork.deadline, hsame, h.t0WallMs, h.vetoWindowMs]
    cases hr : work.tRReached with
    | none =>
      simp only [RecoveryWork.expired, recoveryDeadline, hsame, hr, h.t0WallMs] at hexp ⊢
      exact hexp
    | some tr =>
      rw [expired_of_reached (hsame.trans hr), hdeadline, ← expired_of_reached hr t, hexp]
  · rw [expired_of_reached hnew]
    simp only [RecoveryWork.expired, recoveryDeadline, hnone, decide_eq_true_eq] at hexp
    have hage : ¬e.hlc.wallMs - work'.t0WallMs ≤ adminProposalExpiryMs := by
      rw [h.t0WallMs]
      omega
    simp only [RecoveryWork.deadline, hnew, Option.bind_some, if_neg hage, Option.isNone_none]

end Followed

/-- The wall of the event falls into the window of the entry. -/
def strikes (e : SignedMembershipEvent) (work : RecoveryWork) : Bool :=
  inRecoveryWindow work.t0WallMs work.deadline e.hlc.wallMs

section Recorded

variable {work' : RecoveryWork} (hs : (pre ++ [e]).Pairwise fun a b => a.hlc.wallMs ≤ b.hlc.wallMs)
  (h : Followed e work work')

include hs h

theorem vetoerOf_step :
    vetoerOf (replay env (pre ++ [e])) id work' =
      (vetoerOf (replay env pre) id work).or
        (if vetoes env (replay env pre) e id && strikes e work then some e.actor else none) := by
  have hle : ∀ v ∈ (replay env pre).recVetoes, v.2.1 ≤ e.hlc.wallMs := by
    intro v hv
    obtain ⟨f, hf, hfv⟩ := (replay_recorded env pre).1 v hv
    rw [hfv]
    exact (List.pairwise_append.mp hs).2.2 f hf e (by simp)
  have hsame : (replay env pre).recVetoes.find? (fun v => decide (v.1 = id) &&
      inRecoveryWindow work'.t0WallMs work'.deadline v.2.1) =
        (replay env pre).recVetoes.find? (fun v => decide (v.1 = id) &&
          inRecoveryWindow work.t0WallMs work.deadline v.2.1) :=
    List.find?_congr fun v hv => by rw [h.inWindow (hle v hv)]
  have hstrike : inRecoveryWindow work'.t0WallMs work'.deadline e.hlc.wallMs = strikes e work :=
    h.inWindow le_rfl
  unfold vetoerOf vetoes
  rw [replay_snoc, step_recVetoes]
  cases hk : e.kind with
  | recoveryVeto target =>
    simp only
    by_cases hq : vetoQualifies env.adminAddr (replay env pre).m e.actor = true
    · rw [if_pos hq, List.find?_append, hsame, Option.map_or]
      congr 1
      by_cases ht : target = id <;> cases hst : strikes e work <;>
        simp [ht, hq, hstrike, hst]
    · simp [hq, hsame]
  | _ => simp [hsame]

theorem configKilled_step :
    configKilled (replay env (pre ++ [e])) work' =
      (configKilled (replay env pre) work ||
        changesConfig env (replay env pre) e && strikes e work) := by
  have hle : ∀ c ∈ (replay env pre).recConfigChangeWalls, c ≤ e.hlc.wallMs := by
    intro c hc
    obtain ⟨f, hf, rfl⟩ := (replay_recorded env pre).2 c hc
    exact (List.pairwise_append.mp hs).2.2 f hf e (by simp)
  have hstrike : inRecoveryWindow work'.t0WallMs work'.deadline e.hlc.wallMs = strikes e work :=
    h.inWindow le_rfl
  unfold configKilled
  rw [replay_snoc, step_configChangeWalls, List.any_append]
  congr 1
  · rw [Bool.eq_iff_iff, List.any_eq_true, List.any_eq_true]
    exact exists_congr fun c => and_congr_right fun hc => by rw [h.inWindow (hle c hc)]
  · unfold changesConfig configChange
    split
    · simp [hstrike]
    · simp

end Recorded

/-- Vetoes and config changes come before the entries they would stop are done with: a veto
finds its entry neither killed by a config change nor expired, and a config change finds
none expired, unless the entry is vetoed already. -/
def StopsInTime (env : ReplayEnv) (st : ReplayState) (e : SignedMembershipEvent) : Prop :=
  ∀ t < e.hlc.wallMs, ∀ (id : EventId) (work : RecoveryWork), st.recProposals[id]? = some work →
    strikes e work = true → vetoerOf st id work = none →
      (vetoes env st e id = true → configKilled st work = false ∧ work.expired t = false) ∧
        (changesConfig env st e = true → configKilled st work = true ∨ work.expired t = false)

def judged (st : ReplayState) (t : ℕ) (id : EventId) (work : RecoveryWork) :
    RecoveryPhase × Option OwnerAddr :=
  (verdict st t id work, if verdict st t id work = .vetoed then vetoerOf st id work else none)

theorem verdict_vetoed {st : ReplayState} :
    verdict st t id work = .vetoed ↔ (vetoerOf st id work).isSome = true := by
  constructor
  · intro h
    by_contra hnone
    cases hc : configKilled st work with
    | true => simp [verdict, hnone, hc] at h
    | false =>
      cases he : work.expired t with
      | true => simp [verdict, hnone, hc, he] at h
      | false =>
        cases hd : work.deadline with
        | none => simp [verdict, hnone, hc, he, hd] at h
        | some d =>
          by_cases hlt : d < t <;> cases hj : work.newAdminJoined <;>
            simp [verdict, hnone, hc, he, hd, hlt, hj] at h
  · intro h
    simp [verdict, h]

/-- A terminal verdict stays when an event comes that stops in time. -/
theorem judged_step (hs : (pre ++ [e]).Pairwise fun a b => a.hlc.wallMs ≤ b.hlc.wallMs)
    {work' : RecoveryWork} (h : Followed e work work')
    (hget : (replay env pre).recProposals[id]? = some work)
    (hterm : (verdict (replay env pre) t id work).terminal = true) (hlate : t < e.hlc.wallMs)
    (hstop : StopsInTime env (replay env pre) e) :
    judged (replay env (pre ++ [e])) t id work' = judged (replay env pre) t id work := by
  have hveto : vetoerOf (replay env (pre ++ [e])) id work' = _ := vetoerOf_step hs h
  have hkill : configKilled (replay env (pre ++ [e])) work' = _ := configKilled_step hs h
  rcases verdict_terminal hterm with hv | ⟨hv, hc⟩
  · have hsame : vetoerOf (replay env (pre ++ [e])) id work' = vetoerOf (replay env pre) id work := by
      obtain ⟨actor, ha⟩ := Option.isSome_iff_exists.mp hv
      rw [hveto, ha, Option.some_or]
    have h1 := verdict_vetoed (t := t).mpr hv
    have h2 := verdict_vetoed (t := t).mpr (hsame ▸ hv)
    simp only [judged, h1, h2, hsame]
  · -- whatever ends the entry, no veto takes over
    have hno : (vetoes env (replay env pre) e id && strikes e work) = false := by
      rw [Bool.and_eq_false_iff, or_iff_not_imp_right, Bool.not_eq_false, ← Bool.not_eq_true]
      intro hst hvetoes
      obtain ⟨hkilled, hopen⟩ := (hstop t hlate id work hget hst hv).1 hvetoes
      rcases hc with hc | ⟨-, he | ⟨d, hd, hlt⟩⟩
      · simp [hkilled] at hc
      · simp [hopen] at he
      · rw [strikes, hd, inRecoveryWindow_some] at hst
        omega
    have hv' : vetoerOf (replay env (pre ++ [e])) id work' = none := by simp [hveto, hv, hno]
    suffices hverdict : verdict (replay env (pre ++ [e])) t id work' =
        verdict (replay env pre) t id work by
      simp only [judged, hverdict, hv, hv']
    rcases hc with hc | ⟨hc, he | ⟨d, hd, hlt⟩⟩
    · simp [verdict, hv, hv', hc, hkill]
    · have hnone : (changesConfig env (replay env pre) e && strikes e work) = false := by
        rw [Bool.and_eq_false_iff, or_iff_not_imp_right, Bool.not_eq_false, ← Bool.not_eq_true]
        intro hst hchange
        rcases (hstop t hlate id work hget hst hv).2 hchange with hkilled | hopen
        · simp [hc] at hkilled
        · simp [he] at hopen
      simp [verdict, hv, hv', hc, hkill, hnone, he, h.expired hlate he]
    · have hout : strikes e work = false := by
        rw [strikes, hd, ← Bool.not_eq_true, inRecoveryWindow_some]
        omega
      have hd' := h.deadline_of_some hd
      simp [verdict, hv, hv', hc, hkill, hout, hd, hd', not_expired_of_deadline hd,
        not_expired_of_deadline hd', h.closed d hd (by omega)]

end OneMore

/-! ### The events of a run -/

section Run

variable {env : ReplayEnv} {pre mid : List SignedMembershipEvent} {id : EventId}
  {work : RecoveryWork} {t t' : ℕ}

/-- A terminal verdict stays through a run of events after it. -/
theorem judged_run (hs : (pre ++ mid).Pairwise fun a b => a.hlc.wallMs ≤ b.hlc.wallMs)
    (hfresh : ∀ a ∈ mid, a.id ≠ id) (hget : (replay env pre).recProposals[id]? = some work)
    (hterm : (verdict (replay env pre) t id work).terminal = true)
    (hlate : ∀ a ∈ mid, t < a.hlc.wallMs)
    (hstop : ∀ l a r, mid = l ++ a :: r → StopsInTime env (replay env (pre ++ l)) a) :
    ∃ work', (replay env (pre ++ mid)).recProposals[id]? = some work' ∧
      work'.bound = work.bound ∧
      judged (replay env (pre ++ mid)) t id work' = judged (replay env pre) t id work := by
  induction mid using List.reverseRecOn with
  | nil => exact ⟨work, by rwa [List.append_nil], rfl, by rw [List.append_nil]⟩
  | append_singleton mid e ih =>
    rw [← List.append_assoc] at hs ⊢
    obtain ⟨old, hold, hbound, hjudged⟩ := ih (List.pairwise_append.mp hs).1
      (fun a ha => hfresh a (by simp [ha])) (fun a ha => hlate a (by simp [ha]))
      fun l a r hsplit => hstop l a (r ++ [e]) (by simp [hsplit])
    obtain ⟨work', hget', hfollowed⟩ := exists_followed hs (hfresh e (by simp)) hold
    have hterm' : (verdict (replay env (pre ++ mid)) t id old).terminal = true := by
      rw [(Prod.mk.inj hjudged).1]
      exact hterm
    refine ⟨work', hget', hfollowed.bound.trans hbound, ?_⟩
    rw [judged_step hs hfollowed hold hterm' (hlate e (by simp)) (hstop mid e [] rfl), hjudged]

theorem judged_later {st : ReplayState} (hterm : (verdict st t id work).terminal = true)
    (hle : t ≤ t') : judged st t' id work = judged st t id work := by
  simp only [judged, verdict_later hterm hle]

/-- A proposal that is overtaken was executable, and an executed rival overtook it. -/
theorem exists_overtaker {st : ReplayState} {o : RecoveryOutcome}
    (hget : st.recProposals[id]? = some work) (ho : (recoveryOutcomesAt st t)[id]? = some o)
    (hphase : o.phase = .superseded) :
    Executable st t id work ∧ ∃ id' work' d, id' ≠ id ∧ work'.lostAdmin = work.lostAdmin ∧
      Executed st t id' work' d := by
  rw [outcomes_get, hget, Option.map_some, Option.some.injEq] at ho
  split_ifs at ho with hlost
  · have hexec : Executable st t id work := ⟨hget, hlost.1⟩
    refine ⟨hexec, ?_⟩
    have hmem : (id, work) ∈ st.recProposals.toList.filter
        fun p => decide ((outcomeOf st t p.1 p.2).phase = .executed) := by
      simp [hget, hlost.1, Std.ExtTreeMap.mem_toList_iff_getElem?_eq_some]
    have hwinners := recoveryWinners_eq (outcomeOf st t) st.recProposals
    obtain ⟨r, hr, -⟩ := BTreeMap.get_leastBy_le
      (fun p : EventId × RecoveryWork => p.2.lostAdmin)
      (fun p => rivalKey p.1 p.2 (outcomeOf st t p.1 p.2)) hmem
    obtain ⟨⟨id', work'⟩, hp, hsame, hkey⟩ := BTreeMap.exists_of_get_leastBy hr
    rw [← hwinners] at hr
    simp only [List.mem_filter, decide_eq_true_eq,
      Std.ExtTreeMap.mem_toList_iff_getElem?_eq_some] at hp
    obtain ⟨-, d, -, -, -, hd, -⟩ := executable_deadline hp.2
    refine ⟨id', work', d, ?_, hsame, executed_iff.mpr ⟨hp, hd, by rw [hsame, hr, ← hkey]⟩⟩
    rintro rfl
    obtain rfl := Option.some.inj (hp.1.symm.trans hget)
    exact hlost.2 (by rw [hr, ← hkey])
  · -- before the rivals nothing is overtaken
    rw [← ho, outcomeOf_eq] at hphase
    exact absurd hphase verdict_ne_superseded

theorem outcomes_of_verdict {st : ReplayState} (hget : st.recProposals[id]? = some work)
    (hne : verdict st t id work ≠ .executed) :
    (recoveryOutcomesAt st t)[id]? = some (outcomeOf st t id work) := by
  have hphase : (outcomeOf st t id work).phase ≠ .executed := by
    rw [outcomeOf_eq]
    exact hne
  rw [outcomes_get, hget, Option.map_some, if_neg fun h => hphase h.1]

theorem vetoedBy_eq_none {st : ReplayState} {o : RecoveryOutcome}
    (ho : (recoveryOutcomesAt st t)[id]? = some o) (hne : o.phase ≠ .vetoed) : o.vetoedBy = none := by
  rw [outcomes_get, Option.map_eq_some_iff] at ho
  obtain ⟨work, -, ho⟩ := ho
  split_ifs at ho with hlost
  · have hexec : verdict st t id work = .executed := by
      rw [outcomeOf_eq] at hlost
      exact hlost.1
    rw [← ho, outcomeOf_eq]
    simp [hexec]
  · rw [outcomeOf_eq] at ho
    simp only [← ho] at hne ⊢
    rw [if_neg hne]

/-- Every terminal outcome of a stretch of the log stands: whatever is added comes after the
time it is read at, and it is read again then or later. Each stretch is read with one `env`,
the pre-pass over the whole log; what a later event does to the pre-pass is not asked here. -/
def TerminalFinal (env : ReplayEnv) (sorted : List SignedMembershipEvent) : Prop :=
  ∀ pre mid post t t', sorted = pre ++ (mid ++ post) → (∀ a ∈ mid, t < a.hlc.wallMs) → t ≤ t' →
    ∀ (id : EventId) (o : RecoveryOutcome), (recoveryOutcomesAt (replay env pre) t)[id]? = some o →
      o.phase.terminal = true →
        ∃ o', (recoveryOutcomesAt (replay env (pre ++ mid)) t')[id]? = some o' ∧
          o'.phase = o.phase ∧ o'.vetoedBy = o.vetoedBy

section Final

variable {env : ReplayEnv} {pre mid sorted : List SignedMembershipEvent} {id : EventId}
  {work : RecoveryWork} {t t' : ℕ}

/-- One outcome through a run of events that stop in time. -/
theorem outcome_stands (hs : (pre ++ mid).Pairwise fun a b => a.hlc.wallMs ≤ b.hlc.wallMs)
    (hids : KeyNodup (·.id) (pre ++ mid)) (hlate : ∀ a ∈ mid, t < a.hlc.wallMs) (hle : t ≤ t')
    (hstop : ∀ l a r, mid = l ++ a :: r → StopsInTime env (replay env (pre ++ l)) a)
    {o : RecoveryOutcome} (ho : (recoveryOutcomesAt (replay env pre) t)[id]? = some o)
    (hterm : o.phase.terminal = true) :
    ∃ o', (recoveryOutcomesAt (replay env (pre ++ mid)) t')[id]? = some o' ∧
      o'.phase = o.phase ∧ o'.vetoedBy = o.vetoedBy := by
  have hspre := (List.pairwise_append.mp hs).1
  obtain ⟨work, hget⟩ : ∃ work, (replay env pre).recProposals[id]? = some work := by
    rw [outcomes_get, Option.map_eq_some_iff] at ho
    obtain ⟨work, hget, -⟩ := ho
    exact ⟨work, hget⟩
  have hjudged : ∀ {i : EventId} {w : RecoveryWork}, (replay env pre).recProposals[i]? = some w →
      (verdict (replay env pre) t i w).terminal = true →
      ∃ w', (replay env (pre ++ mid)).recProposals[i]? = some w' ∧ w'.bound = w.bound ∧
        judged (replay env (pre ++ mid)) t' i w' = judged (replay env pre) t i w := by
    intro i w hw hv
    obtain ⟨w', hw', hbound, hsame⟩ := judged_run hs (fresh_of_entry hspre hids hw) hw hv hlate hstop
    have hv' : (verdict (replay env (pre ++ mid)) t i w').terminal = true := by
      rw [(Prod.mk.inj hsame).1]
      exact hv
    exact ⟨w', hw', hbound, (judged_later hv' hle).trans hsame⟩
  have hpersists : ∀ {i : EventId} {w : RecoveryWork} {d : ℕ}, Executed (replay env pre) t i w d →
      ∃ w', Executed (replay env (pre ++ mid)) t' i w' d := fun hex =>
    executed_persists hs hids hex (fun a ha => (hlate a ha).le) hle
  by_cases hv : verdict (replay env pre) t id work = .executed
  · have hexec : Executable (replay env pre) t id work := ⟨hget, by rw [outcomeOf_eq]; exact hv⟩
    by_cases hphase : o.phase = .executed
    · obtain ⟨d, -, hex⟩ := exists_executed hget ho hphase
      obtain ⟨work', -, o', ho', hphase', -⟩ := hpersists hex
      refine ⟨o', ho', hphase'.trans hphase.symm, ?_⟩
      rw [vetoedBy_eq_none ho (by simp [hphase]), vetoedBy_eq_none ho' (by simp [hphase'])]
    · have hover : o.phase = .superseded := by
        rw [outcomes_get, hget, Option.map_some, Option.some.injEq] at ho
        split_ifs at ho
        · rw [← ho]
        · exact absurd (by rw [← ho]; exact hexec.2) hphase
      obtain ⟨-, id', rival, d, hne, hlost, hex⟩ := exists_overtaker hget ho hover
      obtain ⟨work', hget', hbound, hstays⟩ := hjudged hget (by rw [hv]; rfl)
      obtain ⟨rival', hrival', hrbound, -⟩ := hjudged hex.1 (by
        have hrv := hex.executable.2
        rw [outcomeOf_eq] at hrv
        rw [show verdict (replay env pre) t id' rival = .executed from hrv]
        rfl)
      obtain ⟨rival'', hex'⟩ := hpersists hex
      obtain rfl := Option.some.inj (hex'.1.symm.trans hrival')
      have hsame : work'.lostAdmin = rival''.lostAdmin :=
        (congrArg Bound.lostAdmin hbound).trans
          (hlost.symm.trans (congrArg Bound.lostAdmin hrbound).symm)
      obtain ⟨o', ho'⟩ : ∃ o', (recoveryOutcomesAt (replay env (pre ++ mid)) t')[id]? = some o' := by
        rw [outcomes_get, hget']
        exact ⟨_, rfl⟩
      have hphase' : o'.phase = .superseded := by
        have hout := ho'
        rw [outcomes_get, hget', Option.map_some, Option.some.injEq] at hout
        split_ifs at hout
        · rw [← hout]
        · exfalso
          have hwins : o'.phase = .executed := by
            rw [← hout, outcomeOf_eq]
            exact (Prod.mk.inj hstays).1.trans hv
          obtain ⟨d', -, hex''⟩ := exists_executed hget' ho' hwins
          exact hne (hex''.unique hex' hsame).1.symm
      refine ⟨o', ho', hphase'.trans hover.symm, ?_⟩
      rw [vetoedBy_eq_none ho (by simp [hover]), vetoedBy_eq_none ho' (by simp [hphase'])]
  · rw [outcomes_of_verdict hget hv, Option.some.injEq, outcomeOf_eq] at ho
    subst ho
    obtain ⟨work', hget', -, hsame⟩ := hjudged hget hterm
    obtain ⟨hverdict, hvetoer⟩ := Prod.mk.inj hsame
    refine ⟨_, outcomes_of_verdict hget' (hverdict ▸ hv), ?_, ?_⟩
    · rw [outcomeOf_eq]
      exact hverdict
    · rw [outcomeOf_eq]
      exact hvetoer

/-- A terminal outcome that does not stand is one that a late event has changed. -/
theorem verdict_after {e : SignedMembershipEvent} {post : List SignedMembershipEvent}
    (h : TerminalFinal env (pre ++ e :: post))
    (hs : (pre ++ [e]).Pairwise fun a b => a.hlc.wallMs ≤ b.hlc.wallMs)
    (hids : KeyNodup (·.id) (pre ++ [e])) (hget : (replay env pre).recProposals[id]? = some work)
    (hlate : t < e.hlc.wallMs) (hterm : (verdict (replay env pre) t id work).terminal = true)
    (hne : verdict (replay env pre) t id work ≠ .executed) :
    ∃ work', Followed e work work' ∧
      verdict (replay env (pre ++ [e])) t id work' = verdict (replay env pre) t id work := by
  have ho := outcomes_of_verdict hget hne
  obtain ⟨o', ho', hphase, -⟩ := h pre [e] post t t rfl (by simpa using hlate) le_rfl id _ ho
    (by rw [outcomeOf_eq]; exact hterm)
  obtain ⟨work', hget', hfollowed⟩ :=
    exists_followed hs (fresh_of_entry (List.pairwise_append.mp hs).1 hids hget e (by simp)) hget
  refine ⟨work', hfollowed, ?_⟩
  rw [outcomeOf_eq] at hphase
  dsimp only at hphase
  rw [outcomes_get, hget', Option.map_some, Option.some.injEq] at ho'
  split_ifs at ho' with hlost
  · rw [← ho'] at hphase
    exact absurd hphase.symm verdict_ne_superseded
  · rw [← hphase, ← ho', outcomeOf_eq]

/-- In a log read in the order of its walls, every terminal recovery phase is final exactly
when its vetoes and config changes stop in time. -/
theorem terminal_final_iff (hs : sorted.Pairwise fun a b => a.hlc.wallMs ≤ b.hlc.wallMs)
    (hids : KeyNodup (·.id) sorted) :
    TerminalFinal env sorted ↔ ∀ p ∈ positions env sorted, StopsInTime env p.1 p.2 := by
  constructor
  · rintro h ⟨st, e⟩ hp t hlate id work hget hst hv
    obtain ⟨pre, post, rfl, rfl⟩ := mem_positions.mp hp
    have hsplit : pre ++ e :: post = (pre ++ [e]) ++ post := by simp
    have hs' : (pre ++ [e]).Pairwise fun a b => a.hlc.wallMs ≤ b.hlc.wallMs := by
      rw [hsplit] at hs
      exact (List.pairwise_append.mp hs).1
    have hids' : KeyNodup (·.id) (pre ++ [e]) := by
      rw [hsplit, KeyNodup, List.map_append] at hids
      exact hids.of_append_left
    dsimp only at hst hget hv ⊢
    -- an entry that is killed or expired has a verdict that the event must keep
    have hkeeps : ∀ {v : RecoveryPhase}, v.terminal = true → v ≠ .executed →
        verdict (replay env pre) t id work = v → ∃ work', Followed e work work' ∧
          verdict (replay env (pre ++ [e])) t id work' = v := by
      rintro v hterm hne rfl
      exact verdict_after h hs' hids' hget hlate hterm hne
    have hkilled : configKilled (replay env pre) work = true →
        verdict (replay env pre) t id work = .configChanged := fun hc => by simp [verdict, hv, hc]
    have hexpired : configKilled (replay env pre) work = false → work.expired t = true →
        verdict (replay env pre) t id work = .expired := fun hc he => by
      simp [verdict, hv, hc, he]
    constructor
    · intro hvetoes
      have hvetoed : ∀ {work' : RecoveryWork}, Followed e work work' →
          verdict (replay env (pre ++ [e])) t id work' = .vetoed := fun hf =>
        verdict_vetoed.mpr (by rw [vetoerOf_step hs' hf, hv, hvetoes, hst]; rfl)
      constructor
      · rw [← Bool.not_eq_true]
        intro hc
        obtain ⟨work', hf, hkept⟩ := hkeeps (by rfl) (by simp) (hkilled hc)
        rw [hvetoed hf] at hkept
        cases hkept
      · rw [← Bool.not_eq_true]
        intro he
        cases hc : configKilled (replay env pre) work with
        | true =>
          obtain ⟨work', hf, hkept⟩ := hkeeps (by rfl) (by simp) (hkilled hc)
          rw [hvetoed hf] at hkept
          cases hkept
        | false =>
          obtain ⟨work', hf, hkept⟩ := hkeeps (by rfl) (by simp) (hexpired hc he)
          rw [hvetoed hf] at hkept
          cases hkept
    · intro hchange
      rw [or_iff_not_imp_left, Bool.not_eq_true, ← Bool.not_eq_true (work.expired t)]
      intro hc he
      obtain ⟨work', hf, hkept⟩ := hkeeps (by rfl) (by simp) (hexpired hc he)
      have hnow : configKilled (replay env (pre ++ [e])) work' = true := by
        rw [configKilled_step hs' hf, hchange, hst, Bool.and_self, Bool.or_true]
      cases hv' : vetoerOf (replay env (pre ++ [e])) id work' with
      | some actor => simp [verdict, hv'] at hkept
      | none => simp [verdict, hv', hnow] at hkept
  · rintro h pre mid post t t' rfl hlate hle id o ho hterm
    have hsplit : pre ++ (mid ++ post) = (pre ++ mid) ++ post := by simp
    rw [hsplit] at hs
    have hids' : KeyNodup (·.id) (pre ++ mid) := by
      rw [hsplit, KeyNodup, List.map_append] at hids
      exact hids.of_append_left
    refine outcome_stands (List.pairwise_append.mp hs).1 hids' hlate hle ?_ ho hterm
    rintro l a r rfl
    exact h (replay env (pre ++ l), a)
      (mem_positions.mpr ⟨pre ++ l, r ++ post, by simp, rfl⟩)

end Final

end Run

def unfinishedRecovery : List SignedMembershipEvent :=
  [signed 1 1 1 .join, signed 2 2 2 .join, signed 3 3 3 .join,
    signed 4 4 1 (.adminProposal (.setRecoveryDesignates [2, 3] 2 recoveryVetoWindowFloorMs)),
    signed 5 5 2 (.recoveryProposal 1 3 4)]

def lateVeto : SignedMembershipEvent :=
  signed 6 (adminProposalExpiryMs + 86400000) 1 (.recoveryVeto 5)

/-- The expired recovery is reported as vetoed afterwards. -/
theorem late_veto_takes_over :
    VerifiedLog symbolicCrypto openContext (unfinishedRecovery ++ [lateVeto]) ∧
      ¬TerminalFinal (prePass symbolicCrypto (unfinishedRecovery ++ [lateVeto]) 1 none)
        (unfinishedRecovery ++ [lateVeto]) := by
  refine ⟨by decide, fun h => ?_⟩
  obtain ⟨o', ho', hphase, -⟩ := h unfinishedRecovery [lateVeto] [] (adminProposalExpiryMs + 6)
    (adminProposalExpiryMs + 6) rfl (by decide) le_rfl 5 ⟨.expired, none, none⟩ (by decide) rfl
  have hafter : (recoveryOutcomesAt (replay (prePass symbolicCrypto
      (unfinishedRecovery ++ [lateVeto]) 1 none) (unfinishedRecovery ++ [lateVeto]))
        (adminProposalExpiryMs + 6))[5]? = some ⟨.vetoed, none, some 1⟩ := by decide
  rw [hafter] at ho'
  rw [← Option.some.inj ho'] at hphase
  cases hphase

theorem terminal_final_iff_unfinished :
    TerminalFinal (prePass symbolicCrypto unfinishedRecovery 1 none) unfinishedRecovery ↔
      ∀ p ∈ positions (prePass symbolicCrypto unfinishedRecovery 1 none) unfinishedRecovery,
        StopsInTime (prePass symbolicCrypto unfinishedRecovery 1 none) p.1 p.2 :=
  terminal_final_iff (by decide) (by decide)

end Harmony.Membership
