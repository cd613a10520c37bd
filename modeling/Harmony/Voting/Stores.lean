import Harmony.Lib.Checks
import Harmony.Voting.Sample

/-! The log keeps its events twice, in arrival order for all polls and per poll. The
two agree through every call of `apply_with_snapshot`; a sweep keeps them together
exactly if the reference it decodes from a Signal points to a swept poll whenever the
Signal itself does. -/

namespace Harmony.Voting

open Harmony.Lib
open Harmony.Membership (SpaceId)

inductive LogStep where
  | apply (event : SignedVotingEvent) (snapshot : Option MembershipSnapshot)
  | sweep (nowWallMs : ℕ)

namespace VotingLog

variable (cx : Codec) (cv : Curve) (communityId : SpaceId)

def step (log : VotingLog) : LogStep → VotingLog
  | .apply event snapshot => (log.applyWithSnapshot cx cv event communityId snapshot).1
  | .sweep nowWallMs => (log.archiveFinalizedPolls cx nowWallMs).1

def run (steps : List LogStep) : VotingLog := steps.foldl (step cx cv communityId) {}

/-- Both stores hold the same events of every poll, in the same order. -/
def StoresAgree (log : VotingLog) : Prop :=
  ∀ pid p, log.polls[pid]? = some p →
    log.events.filter (fun e => pollOf cx communityId e = some pid) = p.events

/-- Every event of the log is a delegation or belongs to a poll of the log. -/
def Owned (log : VotingLog) : Prop :=
  ∀ e ∈ log.events, e.kind = .delegate ∨ e.kind = .undelegate ∨
    ∃ pid p, pollOf cx communityId e = some pid ∧ log.polls[pid]? = some p

/-- Every Signal refers to a swept poll by its field `pi` exactly if it proposes to one. -/
def SweepSound (log : VotingLog) (nowWallMs : ℕ) : Prop :=
  ∀ e ∈ log.events, e.kind = .signal →
    ((∃ pid ∈ cx.pollIdRef e.payload, pid ∈ log.toArchive nowWallMs) ↔
      ∃ pid ∈ pollOf cx communityId e, pid ∈ log.toArchive nowWallMs)

/-- Of the polls a sweep archives, only PollCreate and PollResult stay in the log. -/
def LeavesAuditOnly (log : VotingLog) (nowWallMs : ℕ) : Prop :=
  ∀ pid ∈ log.toArchive nowWallMs, ∀ e ∈ (log.archiveFinalizedPolls cx nowWallMs).1.events,
    pollOf cx communityId e = some pid → auditKind e.kind = true

variable {cx cv communityId} {log : VotingLog}

/-! ### Calls keep the stores together -/

section Apply

variable {event : SignedVotingEvent} {log' : VotingLog}

theorem filter_of_unknown (ho : log.Owned cx communityId) {pid : PollId}
    (hp : log.polls[pid]? = none) :
    log.events.filter (fun e => pollOf cx communityId e = some pid) = [] := by
  rw [List.filter_eq_nil_iff]
  intro e he howner
  rw [decide_eq_true_eq] at howner
  rcases ho e he with hk | hk | ⟨pid', p, howner', hp'⟩
  · simp [pollOf_delegation (.inl hk)] at howner
  · simp [pollOf_delegation (.inr hk)] at howner
  · rw [howner, Option.some.injEq] at howner'
    rw [← howner', hp] at hp'
    cases hp'

theorem ApplyEffect.agree (h : ApplyEffect cx cv communityId log event log')
    (ho : log.Owned cx communityId) (ha : log.StoresAgree cx communityId) :
    log'.StoresAgree cx communityId := by
  intro pid p hp
  cases h with
  | rejected => exact ha pid p hp
  | delegation graph hk =>
    rw [List.filter_append, ha pid p hp]
    simp [pollOf_delegation hk]
  | recorded pid' p' howner hupdate =>
    have hevents := hupdate.events
    simp only [record, BTreeMap.get_insert] at hp
    simp only [record, List.filter_append]
    split_ifs at hp with hpid
    · obtain rfl := Option.some.inj hp
      subst hpid
      have hold : log.events.filter (fun e => pollOf cx communityId e = some pid') =
          log.polls[pid']?.elim [] (·.events) := by
        cases hq : log.polls[pid']? with
        | none => exact filter_of_unknown ho hq
        | some q => exact ha pid' q hq
      rw [hold, hevents]
      simp [howner]
    · rw [ha pid p hp]
      simp [howner, hpid]

theorem ApplyEffect.owned (h : ApplyEffect cx cv communityId log event log')
    (ho : log.Owned cx communityId) : log'.Owned cx communityId := by
  intro e he
  cases h with
  | rejected => exact ho e he
  | delegation graph hk =>
    rcases List.mem_append.mp he with he | he
    · exact ho e he
    · obtain rfl := List.mem_singleton.mp he
      rcases hk with hk | hk
      · exact .inl hk
      · exact .inr (.inl hk)
  | recorded pid p howner hupdate =>
    have hknown : ∀ q : PollId, (∃ r, log.polls[q]? = some r) →
        ∃ r, (log.record pid p event).polls[q]? = some r := by
      rintro q ⟨r, hr⟩
      simp only [record, BTreeMap.get_insert]
      split_ifs
      · exact ⟨p, rfl⟩
      · exact ⟨r, hr⟩
    rcases List.mem_append.mp he with he | he
    · rcases ho e he with hk | hk | ⟨pid', p', howner', hp'⟩
      · exact .inl hk
      · exact .inr (.inl hk)
      · obtain ⟨r, hr⟩ := hknown pid' ⟨p', hp'⟩
        exact .inr (.inr ⟨pid', r, howner', hr⟩)
    · obtain rfl := List.mem_singleton.mp he
      exact .inr (.inr ⟨pid, p, howner, by simp [record]⟩)

end Apply

/-! ### Sweeps -/

section Sweep

variable {nowWallMs : ℕ}

theorem mem_toArchive {pid : PollId} : pid ∈ log.toArchive nowWallMs ↔
    ∃ p, log.polls[pid]? = some p ∧ dueForArchive nowWallMs p = true := by
  rw [toArchive, List.mem_filter, Std.ExtTreeMap.mem_keys, Option.any_eq_true]
  constructor
  · rintro ⟨-, p, hp, hdue⟩
    exact ⟨p, hp, hdue⟩
  · rintro ⟨p, hp, hdue⟩
    exact ⟨Std.ExtTreeMap.mem_iff_isSome_getElem?.mpr (by simp [hp]), p, hp, hdue⟩

theorem archive_events : (log.archiveFinalizedPolls cx nowWallMs).1.events =
    log.events.filter (keptBySweep cx (· ∈ log.toArchive nowWallMs)) := by
  unfold archiveFinalizedPolls
  dsimp only
  split_ifs with hnil
  · rw [List.isEmpty_iff] at hnil
    refine (List.filter_eq_self.mpr fun e _ => ?_).symm
    simp [keptBySweep, hnil]
  · rfl

theorem archive_polls (pid : PollId) : (log.archiveFinalizedPolls cx nowWallMs).1.polls[pid]? =
    log.polls[pid]?.map fun p =>
      if pid ∈ log.toArchive nowWallMs then archivePoll p else p := by
  unfold archiveFinalizedPolls
  dsimp only
  split
  · rename_i hnil
    rw [List.isEmpty_iff] at hnil
    simp [hnil]
  · rw [Std.ExtTreeMap.getElem?_map]

theorem pollOf_eq_ref {e : SignedVotingEvent} (hc : e.kind ≠ .pollCreate) (hs : e.kind ≠ .signal)
    {pid : PollId} (h : pollOf cx communityId e = some pid) :
    cx.pollIdRef e.payload = some pid := by
  unfold pollOf at h
  split_ifs at h with hd
  rw [not_or] at hd
  have hid : pollIdOf cx communityId e =
      (cx.pollIdRef e.payload).elim (.error .missingPollIdRef) .ok := by
    unfold pollIdOf
    split <;> simp_all
  rw [hid] at h
  cases href : cx.pollIdRef e.payload with
  | none => simp [href, Except.toOption] at h
  | some pid' => simpa [href, Except.toOption] using h

/-- Of an event with a poll, the sweep keeps what the poll's own sweep keeps. -/
theorem keptBySweep_of_pollOf {e : SignedVotingEvent} {pid : PollId}
    (h : pollOf cx communityId e = some pid)
    (hsound : e.kind = .signal → ((∃ q ∈ cx.pollIdRef e.payload, q ∈ log.toArchive nowWallMs) ↔
      pid ∈ log.toArchive nowWallMs)) :
    keptBySweep cx (· ∈ log.toArchive nowWallMs) e =
      (auditKind e.kind || decide (pid ∉ log.toArchive nowWallMs)) := by
  by_cases hc : e.kind = .pollCreate
  · simp [keptBySweep, auditKind, hc]
  · by_cases hs : e.kind = .signal
    · have hsound := hsound hs
      cases href : cx.pollIdRef e.payload with
      | none => simp_all [keptBySweep, auditKind]
      | some q => simp_all [keptBySweep, auditKind]
    · have href := pollOf_eq_ref hc hs h
      simp [keptBySweep, auditKind, hc, href, Bool.or_comm]

end Sweep

theorem sweep_owned {nowWallMs : ℕ} (ho : log.Owned cx communityId) :
    (log.archiveFinalizedPolls cx nowWallMs).1.Owned cx communityId := by
  intro e he
  rw [archive_events] at he
  rcases ho e (List.mem_of_mem_filter he) with hk | hk | ⟨pid, p, howner, hp⟩
  · exact .inl hk
  · exact .inr (.inl hk)
  · exact .inr (.inr ⟨pid, _, howner, by rw [archive_polls, hp]; rfl⟩)

/-- A sweep keeps the stores together exactly if it reads the Signals right. -/
theorem sweep_agree_iff {nowWallMs : ℕ} (ho : log.Owned cx communityId)
    (ha : log.StoresAgree cx communityId) :
    (log.archiveFinalizedPolls cx nowWallMs).1.StoresAgree cx communityId ↔
      log.SweepSound cx communityId nowWallMs := by
  constructor
  · intro hagree e he hs
    obtain ⟨pid, p, howner, hp⟩ : ∃ pid p, pollOf cx communityId e = some pid ∧
        log.polls[pid]? = some p := by
      rcases ho e he with hk | hk | h
      · simp [hs] at hk
      · simp [hs] at hk
      · exact h
    have hmem : e ∈ p.events := by
      rw [← ha pid p hp, List.mem_filter]
      exact ⟨he, by simp [howner]⟩
    have hafter := hagree pid _ (by rw [archive_polls, hp]; rfl)
    rw [archive_events] at hafter
    -- the Signal is in the swept log exactly if the sweep of the log keeps it
    have hkept : e ∈ (if pid ∈ log.toArchive nowWallMs then archivePoll p else p).events ↔
        keptBySweep cx (· ∈ log.toArchive nowWallMs) e = true := by
      rw [← hafter, List.mem_filter, List.mem_filter]
      simp [he, howner]
    have hin : e ∈ (if pid ∈ log.toArchive nowWallMs then archivePoll p else p).events ↔
        pid ∉ log.toArchive nowWallMs := by
      split_ifs with hdue
      · simp [archivePoll, auditKind, hs, hdue]
      · simp [hmem, hdue]
    have hnot := hin.symm.trans hkept
    simp only [howner, Option.mem_def, Option.some.injEq, exists_eq_left']
    cases href : cx.pollIdRef e.payload with
    | none => simpa [keptBySweep, hs, href] using hnot
    | some q => simpa [keptBySweep, hs, href, not_iff_not, iff_comm] using hnot
  · intro hsound pid p hp
    rw [archive_polls, Option.map_eq_some_iff] at hp
    obtain ⟨q, hq, rfl⟩ := hp
    rw [archive_events, List.filter_filter]
    have hkept : ∀ e ∈ log.events, pollOf cx communityId e = some pid →
        keptBySweep cx (· ∈ log.toArchive nowWallMs) e =
          (auditKind e.kind || decide (pid ∉ log.toArchive nowWallMs)) := by
      intro e he howner
      refine keptBySweep_of_pollOf howner fun hs => ?_
      simpa [howner] using hsound e he hs
    have hfilter : log.events.filter (fun e => decide (pollOf cx communityId e = some pid) &&
        keptBySweep cx (· ∈ log.toArchive nowWallMs) e) =
        q.events.filter fun e => auditKind e.kind || decide (pid ∉ log.toArchive nowWallMs) := by
      rw [← ha pid q hq, List.filter_filter]
      refine List.filter_congr fun e he => ?_
      by_cases howner : pollOf cx communityId e = some pid
      · simp only [howner, hkept e he howner, decide_true, Bool.true_and, Bool.and_true]
      · simp [howner]
    rw [hfilter]
    split_ifs with hdue
    · simp [archivePoll, hdue]
    · simp [hdue]

/-! ### Runs -/

theorem run_snoc (steps : List LogStep) (s : LogStep) :
    run cx cv communityId (steps ++ [s]) =
      (run cx cv communityId steps).step cx cv communityId s := by
  simp [run]

theorem run_owned (steps : List LogStep) :
    (run cx cv communityId steps).Owned cx communityId := by
  induction steps using List.reverseRecOn with
  | nil => simp [run, Owned]
  | append_singleton steps s ih =>
    rw [run_snoc]
    cases s with
    | apply event snapshot => exact (applyWithSnapshot_effect event snapshot).owned ih
    | sweep nowWallMs => exact sweep_owned ih

/-- The run keeps the stores together as long as its sweeps are sound. -/
theorem run_agree {steps : List LogStep}
    (hsound : ∀ pre nowWallMs, pre ++ [.sweep nowWallMs] <+: steps →
      (run cx cv communityId pre).SweepSound cx communityId nowWallMs) :
    (run cx cv communityId steps).StoresAgree cx communityId := by
  induction steps using List.reverseRecOn with
  | nil =>
    intro pid p hp
    simp [run] at hp
  | append_singleton steps s ih =>
    rw [run_snoc]
    have ih := ih fun pre now h => hsound pre now (h.trans (List.prefix_append _ _))
    cases s with
    | apply event snapshot =>
      exact (applyWithSnapshot_effect event snapshot).agree (run_owned steps) ih
    | sweep nowWallMs =>
      exact (sweep_agree_iff (run_owned steps) ih).mpr (hsound steps nowWallMs (List.prefix_refl _))

/-- Where the stores agree after a sweep, the polls it archived keep their audit record only. -/
theorem leavesAuditOnly_of_agree {nowWallMs : ℕ}
    (ha : (log.archiveFinalizedPolls cx nowWallMs).1.StoresAgree cx communityId) :
    log.LeavesAuditOnly cx communityId nowWallMs := by
  intro pid hpid e he howner
  obtain ⟨p, hp, -⟩ := mem_toArchive.mp hpid
  have hev := ha pid (archivePoll p) (by rw [archive_polls, hp]; simp [hpid])
  have hmem : e ∈ (archivePoll p).events := by
    rw [← hev, List.mem_filter]
    exact ⟨he, by simp [howner]⟩
  simpa [archivePoll] using (List.mem_filter.mp hmem).2

/-- After every call of a run the stores agree, and a sweep leaves only the audit record
of what it archives, exactly if every sweep of the run reads the Signals right. -/
theorem stores_agree_iff (cx : Codec) (cv : Curve) (communityId : SpaceId)
    (steps : List LogStep) :
    (∀ pre, pre <+: steps → (run cx cv communityId pre).StoresAgree cx communityId ∧
      ∀ before nowWallMs, pre = before ++ [.sweep nowWallMs] →
        (run cx cv communityId before).LeavesAuditOnly cx communityId nowWallMs) ↔
    ∀ pre nowWallMs, pre ++ [.sweep nowWallMs] <+: steps →
      (run cx cv communityId pre).SweepSound cx communityId nowWallMs := by
  constructor
  · intro h pre nowWallMs hpre
    have hbefore := (h pre ((List.prefix_append _ _).trans hpre)).1
    have hafter := (h _ hpre).1
    rw [run_snoc] at hafter
    exact (sweep_agree_iff (run_owned pre) hbefore).mp hafter
  · intro h pre hpre
    have hagree : (run cx cv communityId pre).StoresAgree cx communityId :=
      run_agree fun before now hb => h before now (hb.trans hpre)
    refine ⟨hagree, ?_⟩
    rintro before nowWallMs rfl
    rw [run_snoc] at hagree
    exact leavesAuditOnly_of_agree hagree

/-- A supported proposal, closed and finalized at 4, and swept ninety days later. -/
def supportedThenSwept : List LogStep :=
  [.apply Sample.convictionCreate none,
   .apply (Sample.event .conviction .signal 2 "b" 2
     (Sample.signalPayload Sample.convictionPoll true)) none,
   .apply (Sample.event .conviction .pollClose 3 "a" 1
     (Sample.refPayload Sample.convictionPoll)) none,
   .apply (Sample.event .conviction .pollResult 4 "a" 1
     (Sample.refPayload Sample.convictionPoll)) none,
   .sweep (ninetyDaysMs + 5)]

/-- The sweep drops the Signal from the poll and leaves it in the log. -/
theorem stores_disagree :
    ¬(run Sample.convictionCodec Sample.onePointCurve 7 supportedThenSwept).StoresAgree
      Sample.convictionCodec 7 := by
  intro h
  obtain ⟨p, hp, hkinds⟩ : ∃ p, (run Sample.convictionCodec Sample.onePointCurve 7
      supportedThenSwept).polls[Sample.convictionPoll]? = some p ∧
      p.events.map (·.kind) = [.pollCreate, .pollResult] := by
    rw [← Option.map_eq_some_iff]
    decide
  have hlog : ((run Sample.convictionCodec Sample.onePointCurve 7 supportedThenSwept).events.filter
      fun e => pollOf Sample.convictionCodec 7 e = some Sample.convictionPoll).map (·.kind) =
      [.pollCreate, .signal, .pollResult] := by decide
  rw [h _ p hp, hkinds] at hlog
  cases hlog

end VotingLog
end Harmony.Voting
