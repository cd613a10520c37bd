import Harmony.Lib.Keyed
import Harmony.Lib.Register
import Harmony.Lib.Sorted
import Harmony.Voting.Sample

/-! Tier-1 approval polls: the tally of the cast ballots and the result. Indexing out of
range and dividing by zero panic, which is `none`. -/

namespace Harmony.Voting

open Harmony.Lib
open Harmony.Membership (OwnerAddr Bytes Hlc)

structure Tier1Ballot where
  pollId : PollId
  approvedIndices : List ℕ
deriving DecidableEq

inductive BallotValidationError where
  | emptyBallot
  | indexOutOfRange
  | indicesNotSortedDeduped
  | abstentionBallot
deriving DecidableEq

/-- Structural checks come before the abstention check. -/
def validateBallot (ballot : Tier1Ballot) (cfg : Tier1PollConfig) :
    Except BallotValidationError Unit :=
  if ballot.approvedIndices.isEmpty then .error .emptyBallot
  else if ballot.approvedIndices.any (cfg.options.length ≤ ·) then .error .indexOutOfRange
  else if (ballot.approvedIndices.zip ballot.approvedIndices.tail).any fun w => w.2 ≤ w.1 then
    .error .indicesNotSortedDeduped
  else if ballot.approvedIndices.length = cfg.options.length then .error .abstentionBallot
  else .ok ()

/-! ### Tally -/

/-- The tally with the ballot each voter is counted by. -/
structure Tier1Tally extends Tier1TallyState where
  latestBallots : BTreeMap OwnerAddr Tier1Ballot

structure LatestBallots where
  ballots : BTreeMap OwnerAddr Tier1Ballot
  hlcs : BTreeMap OwnerAddr Hlc

section Tally

variable (decode : Bytes → Option Tier1Ballot) (cfg : Tier1PollConfig)
  (snapshot : MembershipSnapshot)

/-- The ballot of an event that decodes, is valid and comes from an eligible member. -/
def countable (ev : SignedVotingEvent) : Option Tier1Ballot :=
  if ev.kind ≠ .ballotCast then none
  else
    match decode ev.payload with
    | none => none
    | some ballot =>
      if ¬(validateBallot ballot cfg).isOk then none
      else if ¬(checkEligibility snapshot ev.actor cfg.eligibility).isOk then none
      else some ballot

/-- A strictly newer ballot of the actor replaces the one held. -/
def keepLatest (latest : LatestBallots) (ev : SignedVotingEvent) : LatestBallots :=
  match countable decode cfg snapshot ev with
  | none => latest
  | some ballot =>
    if latest.hlcs[ev.actor]?.all fun prev => hlcKey prev < hlcKey ev.hlc then
      ⟨latest.ballots.insert ev.actor ballot, latest.hlcs.insert ev.actor ev.hlc⟩
    else latest

def addApproval (counts : List ℕ) (i : ℕ) : Option (List ℕ) :=
  counts[i]?.map fun count => counts.set i (count + 1)

def countBallots (optionsLen : ℕ) (ballots : List Tier1Ballot) : Option (List ℕ) :=
  ballots.foldlM (fun counts ballot => ballot.approvedIndices.foldlM addApproval counts)
    (List.replicate optionsLen 0)

def latestBallots (events : List SignedVotingEvent) : LatestBallots :=
  events.foldl (keepLatest decode cfg snapshot) ⟨∅, ∅⟩

def tallyTier1 (events : List SignedVotingEvent) : Option Tier1Tally := do
  let latest := latestBallots decode cfg snapshot events
  let counts ← countBallots cfg.options.length (latest.ballots.toList.map Prod.snd)
  some ⟨⟨counts, latest.ballots.size⟩, latest.ballots⟩

end Tally

/-! ### Result -/

inductive Tier1Result where
  | winners (indices : List ℕ)
  | noQuorum (required actual : ℕ)
  | noMajority (requiredPercent actualPercent : ℕ)
deriving DecidableEq

/-- Options with their counts, the highest count first and the lower index on a tie. -/
def rankedOptions (counts : List ℕ) : List (ℕ × ℕ) :=
  sortBy (fun option : ℕ × ℕ => (toLex (OrderDual.toDual option.2, option.1) : ℕᵒᵈ ×ₗ ℕ))
    (counts.zipIdx.map Prod.swap)

def nthWinner (winners : List (ℕ × ℕ)) (multiWinner : ℕ) : Option (ℕ × ℕ) :=
  if multiWinner = 0 then none else winners[multiWinner - 1]?

def checkedDiv (a b : ℕ) : Option ℕ := if b = 0 then none else some (a / b)

def actualPercent (winners : List (ℕ × ℕ)) (multiWinner ballotCount : ℕ) : Option ℕ :=
  if 0 < ballotCount then
    (nthWinner winners multiWinner).bind fun nth =>
      (checkedDiv (nth.2 * 100) ballotCount).map (· % 2 ^ 8)
  else some 0

def winnerIndices (winners : List (ℕ × ℕ)) : List ℕ :=
  (winners.map fun option => option.1 % 2 ^ 8).insertionSort (· ≤ ·)

def finalizeTier1 (cfg : Tier1PollConfig) (tally : Tier1TallyState) : Option Tier1Result :=
  if cfg.quorum.any (tally.ballotCount < ·) then
    some (.noQuorum (cfg.quorum.getD 0) tally.ballotCount)
  else
    let multiWinner := cfg.multiWinner.getD 1
    let winners := (rankedOptions tally.counts).take multiWinner
    match cfg.thresholdPercent with
    | none => some (.winners (winnerIndices winners))
    | some threshold => do
      let percent ← actualPercent winners multiWinner tally.ballotCount
      if percent < threshold then some (.noMajority threshold percent)
      else some (.winners (winnerIndices winners))

/-! ### Counting -/

theorem isChain_of_windows {l : List ℕ} (h : ((l.zip l.tail).any fun w => w.2 ≤ w.1) = false) :
    l.IsChain (· < ·) := by
  induction l with
  | nil => exact .nil
  | cons a l ih =>
    cases l with
    | nil => exact .singleton a
    | cons b l =>
      simp only [List.tail_cons, List.zip_cons_cons, List.any_cons, Bool.or_eq_false_iff,
        decide_eq_false_iff_not, not_le] at h
      exact .cons_cons h.1 (ih h.2)

theorem validateBallot_ok {ballot : Tier1Ballot} {cfg : Tier1PollConfig}
    (h : (validateBallot ballot cfg).isOk = true) :
    (∀ i ∈ ballot.approvedIndices, i < cfg.options.length) ∧ ballot.approvedIndices.Nodup := by
  unfold validateBallot at h
  split_ifs at h with hempty hrange hsorted hall
  · cases h
  · cases h
  · cases h
  · cases h
  · have hchain := isChain_of_windows (Bool.eq_false_iff.mpr hsorted)
    exact ⟨by simpa using hrange, (List.isChain_iff_pairwise.mp hchain).imp ne_of_lt⟩

theorem addApproval_range {n i : ℕ} (f : ℕ → ℕ) (hi : i < n) :
    addApproval ((List.range n).map f) i =
      some ((List.range n).map fun j => f j + if j = i then 1 else 0) := by
  rw [addApproval, List.getElem?_map, List.getElem?_range hi]
  simp only [Option.map_some, Option.some.injEq]
  refine List.ext_getElem (by simp) fun j hj hj' => ?_
  rw [List.getElem_set]
  by_cases h : i = j
  · simp [h]
  · simp [h, Ne.symm h]

theorem foldlM_addApproval {n : ℕ} {indices : List ℕ} (h : ∀ i ∈ indices, i < n) (f : ℕ → ℕ) :
    indices.foldlM addApproval ((List.range n).map f) =
      some ((List.range n).map fun j => f j + indices.count j) := by
  induction indices generalizing f with
  | nil => simp
  | cons i indices ih =>
    rw [List.foldlM_cons, addApproval_range f (h i (.head _)), Option.bind_eq_bind,
      Option.bind_some, ih fun k hk => h k (.tail _ hk)]
    congr 2
    funext j
    rw [List.count_cons]
    by_cases hij : i = j
    · simp [hij]
      omega
    · simp [hij, Ne.symm hij]

theorem countBallots_eq {n : ℕ} {ballots : List Tier1Ballot}
    (h : ∀ b ∈ ballots, ∀ i ∈ b.approvedIndices, i < n) :
    countBallots n ballots = some ((List.range n).map fun j =>
      (ballots.map fun b => b.approvedIndices.count j).sum) := by
  have hfold : ∀ f : ℕ → ℕ, ballots.foldlM (fun counts ballot =>
      ballot.approvedIndices.foldlM addApproval counts) ((List.range n).map f) =
        some ((List.range n).map fun j =>
          f j + (ballots.map fun b => b.approvedIndices.count j).sum) := by
    induction ballots with
    | nil => simp
    | cons b ballots ih =>
      intro f
      rw [List.foldlM_cons, foldlM_addApproval (h b (.head _)), Option.bind_eq_bind,
        Option.bind_some, ih fun b' hb' => h b' (.tail _ hb')]
      simp only [List.map_cons, List.sum_cons, Nat.add_assoc]
  have hzero : List.replicate n 0 = (List.range n).map fun _ => 0 := by simp
  rw [countBallots, hzero, hfold]
  simp

theorem sum_count_le {ballots : List Tier1Ballot} (h : ∀ b ∈ ballots, b.approvedIndices.Nodup)
    (j : ℕ) : (ballots.map fun b => b.approvedIndices.count j).sum ≤ ballots.length := by
  induction ballots with
  | nil => simp
  | cons b ballots ih =>
    have hone : b.approvedIndices.count j ≤ 1 := List.nodup_iff_count_le_one.mp (h b (.head _)) j
    have hrest := ih fun b' hb' => h b' (.tail _ hb')
    simp only [List.map_cons, List.sum_cons, List.length_cons]
    omega

/-! ### Last writer wins -/

section Latest

variable {decode : Bytes → Option Tier1Ballot} {cfg : Tier1PollConfig}
  {snapshot : MembershipSnapshot} {events : List SignedVotingEvent}

theorem countable_some {ev : SignedVotingEvent} {ballot : Tier1Ballot}
    (h : countable decode cfg snapshot ev = some ballot) :
    ev.kind = .ballotCast ∧ (validateBallot ballot cfg).isOk = true ∧
      (checkEligibility snapshot ev.actor cfg.eligibility).isOk = true := by
  unfold countable at h
  by_cases hkind : ev.kind = .ballotCast
  · rw [if_neg (not_not.mpr hkind)] at h
    cases hd : decode ev.payload with
    | none => simp [hd] at h
    | some decoded =>
      rw [hd] at h
      dsimp only at h
      split_ifs at h with hvalid heligible
      obtain rfl := Option.some.inj h
      exact ⟨hkind, hvalid, heligible⟩
  · rw [if_pos hkind] at h
    cases h

/-- The countable ballots of an actor, with their clocks. -/
def ballotsBy (decode : Bytes → Option Tier1Ballot) (cfg : Tier1PollConfig)
    (snapshot : MembershipSnapshot) (actor : OwnerAddr) (events : List SignedVotingEvent) :
    List (Tier1Ballot × Hlc) :=
  (events.filter (·.actor = actor)).filterMap fun ev =>
    (countable decode cfg snapshot ev).map fun ballot => (ballot, ev.hlc)

theorem mem_ballotsBy {actor : OwnerAddr} {entry : Tier1Ballot × Hlc} :
    entry ∈ ballotsBy decode cfg snapshot actor events ↔
      ∃ ev ∈ events, ev.actor = actor ∧ ev.hlc = entry.2 ∧
        countable decode cfg snapshot ev = some entry.1 := by
  unfold ballotsBy
  rw [List.mem_filterMap]
  constructor
  · rintro ⟨ev, hev, hentry⟩
    obtain ⟨hmem, hactor⟩ := List.mem_filter.mp hev
    obtain ⟨ballot, hballot, rfl⟩ := Option.map_eq_some_iff.mp hentry
    exact ⟨ev, hmem, by simpa using hactor, rfl, hballot⟩
  · rintro ⟨ev, hmem, hactor, hhlc, hballot⟩
    refine ⟨ev, List.mem_filter.mpr ⟨hmem, by simpa using hactor⟩, ?_⟩
    rw [hballot, hhlc]
    rfl

theorem ballotsBy_snoc (actor : OwnerAddr) (ev : SignedVotingEvent) :
    ballotsBy decode cfg snapshot actor (events ++ [ev]) =
      ballotsBy decode cfg snapshot actor events ++
        if ev.actor = actor then
          ((countable decode cfg snapshot ev).map fun ballot => (ballot, ev.hlc)).toList
        else [] := by
  rw [ballotsBy, List.filter_append, List.filterMap_append]
  congr 1
  by_cases hactor : ev.actor = actor
  · cases hc : countable decode cfg snapshot ev <;> simp [hactor, hc]
  · simp [hactor]

/-- The register of an actor: the latest of the actor's countable ballots. -/
def held (decode : Bytes → Option Tier1Ballot) (cfg : Tier1PollConfig)
    (snapshot : MembershipSnapshot) (actor : OwnerAddr) (events : List SignedVotingEvent) :
    Option (Tier1Ballot × Hlc) :=
  latestOf (fun entry => hlcKey entry.2) (ballotsBy decode cfg snapshot actor events)

theorem latestBallots_snoc (ev : SignedVotingEvent) :
    latestBallots decode cfg snapshot (events ++ [ev]) =
      keepLatest decode cfg snapshot (latestBallots decode cfg snapshot events) ev := by
  simp only [latestBallots, List.foldl_append, List.foldl_cons, List.foldl_nil]

/-- Both maps hold, for every actor, the entry of the actor's register. -/
theorem latestBallots_get (decode : Bytes → Option Tier1Ballot) (cfg : Tier1PollConfig)
    (snapshot : MembershipSnapshot) (events : List SignedVotingEvent) (actor : OwnerAddr) :
    (latestBallots decode cfg snapshot events).ballots[actor]? =
        (held decode cfg snapshot actor events).map Prod.fst ∧
      (latestBallots decode cfg snapshot events).hlcs[actor]? =
        (held decode cfg snapshot actor events).map Prod.snd := by
  induction events using List.reverseRecOn with
  | nil =>
    have hempty : latestBallots decode cfg snapshot [] = ⟨∅, ∅⟩ := rfl
    rw [hempty]
    simp [held, ballotsBy, latestOf]
  | append_singleton events ev ih =>
    rw [latestBallots_snoc, keepLatest, held, ballotsBy_snoc]
    cases hc : countable decode cfg snapshot ev with
    | none => simpa [held] using ih
    | some ballot =>
      dsimp only
      by_cases hactor : ev.actor = actor
      · rw [if_pos hactor, Option.map_some, Option.toList_some, latestOf_snoc]
        rw [held] at ih
        rw [hactor, ih.2]
        revert ih
        cases latestOf (fun entry => hlcKey entry.2)
            (ballotsBy decode cfg snapshot actor events) with
        | none => simp
        | some entry =>
          intro ih
          rw [latest_some_some]
          simp only [Option.map_some, Option.all_some, decide_eq_true_eq]
          split_ifs with hnewer
          · simp
          · exact ih
      · rw [if_neg hactor, List.append_nil]
        split_ifs
        · simp only [BTreeMap.get_insert, if_neg hactor]
          exact ih
        · exact ih

theorem hlcKey_injective : Function.Injective hlcKey := by
  intro a b h
  obtain ⟨wallMs, logical, deviceId⟩ := a
  obtain ⟨wallMs', logical', deviceId'⟩ := b
  simp only [hlcKey, toLex_inj, Prod.mk.injEq] at h
  rw [h.1, h.2.1, h.2.2]

/-- No two ballots of one actor carry one clock value. -/
def ClocksTell (events : List SignedVotingEvent) : Prop :=
  ∀ a ∈ events, ∀ b ∈ events, a.kind = .ballotCast → b.kind = .ballotCast →
    a.actor = b.actor → a.hlc = b.hlc → a = b

theorem held_perm {events' : List SignedVotingEvent} (hclocks : ClocksTell events)
    (hp : events'.Perm events) (actor : OwnerAddr) :
    held decode cfg snapshot actor events' = held decode cfg snapshot actor events := by
  refine latestOf_perm ((hp.filter _).filterMap _) fun a ha b hb hkey => ?_
  obtain ⟨ev, hev, hactor, hhlc, hballot⟩ := mem_ballotsBy.mp ha
  obtain ⟨ev', hev', hactor', hhlc', hballot'⟩ := mem_ballotsBy.mp hb
  have hclock : ev.hlc = ev'.hlc := by
    rw [hhlc, hhlc']
    exact hlcKey_injective hkey
  obtain rfl := hclocks ev hev ev' hev' (countable_some hballot).1 (countable_some hballot').1
    (hactor.trans hactor'.symm) hclock
  exact Prod.ext (Option.some.inj (hballot.symm.trans hballot')) (hhlc.symm.trans hhlc')

theorem latestBallots_perm {events' : List SignedVotingEvent} (hclocks : ClocksTell events)
    (hp : events'.Perm events) :
    (latestBallots decode cfg snapshot events').ballots =
      (latestBallots decode cfg snapshot events).ballots := by
  refine Std.ExtTreeMap.ext_getElem? fun actor => ?_
  rw [(latestBallots_get decode cfg snapshot events' actor).1,
    (latestBallots_get decode cfg snapshot events actor).1, held_perm hclocks hp]

theorem latest_ballot_counts {actor : OwnerAddr} {ballot : Tier1Ballot}
    (h : (latestBallots decode cfg snapshot events).ballots[actor]? = some ballot) :
    (validateBallot ballot cfg).isOk = true ∧
      (checkEligibility snapshot actor cfg.eligibility).isOk = true := by
  rw [(latestBallots_get decode cfg snapshot events actor).1] at h
  obtain ⟨entry, hentry, rfl⟩ := Option.map_eq_some_iff.mp h
  obtain ⟨ev, -, rfl, -, hballot⟩ := mem_ballotsBy.mp (latestOf_some hentry).1
  exact (countable_some hballot).2

theorem mem_latest_values {ballot : Tier1Ballot}
    (h : ballot ∈ (latestBallots decode cfg snapshot events).ballots.toList.map Prod.snd) :
    (∀ i ∈ ballot.approvedIndices, i < cfg.options.length) ∧ ballot.approvedIndices.Nodup := by
  obtain ⟨entry, hentry, rfl⟩ := List.mem_map.mp h
  exact validateBallot_ok (latest_ballot_counts (mem_toList_iff.mp hentry)).1

theorem size_le_eligible :
    (latestBallots decode cfg snapshot events).ballots.size ≤
      (eligibleMembers snapshot cfg.eligibility).length := by
  rw [← Std.ExtTreeMap.length_keys]
  refine (Std.ExtTreeMap.nodup_keys.subperm fun actor hactor => ?_).length_le
  rw [Std.ExtTreeMap.mem_keys, Std.ExtTreeMap.mem_iff_isSome_getElem?] at hactor
  obtain ⟨ballot, hballot⟩ := Option.isSome_iff_exists.mp hactor
  have heligible := (latest_ballot_counts hballot).2
  refine List.mem_filter.mpr ⟨?_, heligible⟩
  rw [Std.ExtTreeMap.mem_keys, Std.ExtTreeMap.mem_iff_isSome_getElem?]
  unfold checkEligibility at heligible
  cases hm : snapshot.members[actor]? with
  | none => rw [hm] at heligible; cases heligible
  | some attrs => rfl

end Latest

/-! ### The tally and its result -/

/-- What the result is computed from: one count for each option, none above the number of
ballots. -/
structure Tier1TallyState.Sound (cfg : Tier1PollConfig) (tally : Tier1TallyState) : Prop where
  length : tally.counts.length = cfg.options.length
  count_le : ∀ i c : ℕ, tally.counts[i]? = some c → c ≤ tally.ballotCount

theorem exists_tally (decode : Bytes → Option Tier1Ballot) (cfg : Tier1PollConfig)
    (snapshot : MembershipSnapshot) (events : List SignedVotingEvent) :
    ∃ tally, tallyTier1 decode cfg snapshot events = some tally ∧
      tally.toTier1TallyState.Sound cfg ∧
      tally.latestBallots = (latestBallots decode cfg snapshot events).ballots ∧
      tally.ballotCount = tally.latestBallots.size := by
  have hvalues := fun b hb => @mem_latest_values decode cfg snapshot events b hb
  have hcounts := countBallots_eq fun b hb => (hvalues b hb).1
  refine ⟨_, by rw [tallyTier1, hcounts]; rfl, ⟨by simp, fun i c hc => ?_⟩, rfl, rfl⟩
  dsimp only at hc ⊢
  obtain ⟨j, -, rfl⟩ := List.mem_map.mp (List.mem_of_getElem? hc)
  refine (sum_count_le (fun b hb => (hvalues b hb).2) j).trans ?_
  rw [List.length_map, Std.ExtTreeMap.length_toList]

theorem validatePollConfig_winners {cfg : Tier1PollConfig} (h : validatePollConfig cfg = .ok ()) :
    1 ≤ cfg.multiWinner.getD 1 ∧ cfg.multiWinner.getD 1 ≤ cfg.options.length ∧
      cfg.options.length ≤ 20 := by
  unfold validatePollConfig at h
  split_ifs at h with hfew hmany hshort hlong hthreshold hzero hexceeds
  all_goals obtain ⟨-, -, h⟩ := bind_eq_ok.mp h; cases h
  cases hmw : cfg.multiWinner with
  | none =>
    simp only [Option.getD_none]
    omega
  | some mw =>
    rw [hmw] at hzero hexceeds
    simp only [Option.some.injEq, Option.any_some, decide_eq_true_eq, Option.getD_some] at *
    omega

theorem mem_rankedOptions {counts : List ℕ} {option : ℕ × ℕ} (h : option ∈ rankedOptions counts) :
    counts[option.1]? = some option.2 := by
  rw [rankedOptions, mem_sortBy, List.mem_map] at h
  obtain ⟨entry, hentry, rfl⟩ := h
  exact List.mk_mem_zipIdx_iff_getElem?.mp hentry

theorem length_rankedOptions (counts : List ℕ) : (rankedOptions counts).length = counts.length := by
  rw [rankedOptions, (sortBy_perm _).length_eq, List.length_map, List.length_zipIdx]

/-- The last winner is there, and its share is a percentage before it is cut to a `u8`. -/
theorem exists_actualPercent {cfg : Tier1PollConfig} {tally : Tier1TallyState}
    (hcfg : validatePollConfig cfg = .ok ()) (htally : tally.Sound cfg) :
    ∃ percent ≤ 100, actualPercent ((rankedOptions tally.counts).take (cfg.multiWinner.getD 1))
      (cfg.multiWinner.getD 1) tally.ballotCount = some percent := by
  obtain ⟨hone, hmw, -⟩ := validatePollConfig_winners hcfg
  unfold actualPercent
  split_ifs with hcast
  · have hlen : cfg.multiWinner.getD 1 - 1 <
        ((rankedOptions tally.counts).take (cfg.multiWinner.getD 1)).length := by
      rw [List.length_take, length_rankedOptions, htally.length]
      omega
    obtain ⟨nth, hnth⟩ : ∃ nth, nthWinner ((rankedOptions tally.counts).take
        (cfg.multiWinner.getD 1)) (cfg.multiWinner.getD 1) = some nth := by
      rw [nthWinner, if_neg (by omega), List.getElem?_eq_getElem hlen]
      exact ⟨_, rfl⟩
    have hmem : nth ∈ rankedOptions tally.counts := by
      rw [nthWinner, if_neg (by omega)] at hnth
      exact List.mem_of_mem_take (List.mem_of_getElem? hnth)
    have hle : nth.2 ≤ tally.ballotCount := htally.count_le nth.1 nth.2 (mem_rankedOptions hmem)
    have hpercent : nth.2 * 100 / tally.ballotCount ≤ 100 :=
      Nat.div_le_of_le_mul (Nat.mul_le_mul_right 100 hle)
    refine ⟨nth.2 * 100 / tally.ballotCount % 2 ^ 8, (Nat.mod_le _ _).trans hpercent, ?_⟩
    rw [hnth, Option.bind_some, checkedDiv, if_neg (by omega), Option.map_some]
  · exact ⟨0, by omega, rfl⟩

theorem exists_result {cfg : Tier1PollConfig} {tally : Tier1TallyState}
    (hcfg : validatePollConfig cfg = .ok ()) (htally : tally.Sound cfg) :
    ∃ result, finalizeTier1 cfg tally = some result ∧
      ∀ required percent, result = .noMajority required percent → percent ≤ 100 := by
  obtain ⟨percent, hle, hpercent⟩ := exists_actualPercent hcfg htally
  unfold finalizeTier1
  split_ifs with hquorum
  · exact ⟨_, rfl, fun _ _ h => by cases h⟩
  · cases cfg.thresholdPercent with
    | none => exact ⟨_, rfl, fun _ _ h => by cases h⟩
    | some threshold =>
      dsimp only
      rw [hpercent, Option.bind_eq_bind, Option.bind_some]
      split_ifs with hbelow
      · refine ⟨_, rfl, fun required actual h => ?_⟩
        cases h
        exact hle
      · exact ⟨_, rfl, fun _ _ h => by cases h⟩

/-- The tally is the same for every order of the events, no count exceeds the number of
ballots and no number of ballots that of the eligible members; the result is computed
without a panic from a share of at most 100 percent. -/
theorem tallyTier1_order_free_total (decode : Bytes → Option Tier1Ballot) {cfg : Tier1PollConfig}
    (hcfg : validatePollConfig cfg = .ok ()) (snapshot : MembershipSnapshot)
    {events : List SignedVotingEvent} (hclocks : ClocksTell events) :
    ∃ tally, tallyTier1 decode cfg snapshot events = some tally ∧
      (∀ events' : List SignedVotingEvent, events'.Perm events →
        tallyTier1 decode cfg snapshot events' = some tally) ∧
      tally.counts.length = cfg.options.length ∧
      (∀ i c : ℕ, tally.counts[i]? = some c → c ≤ tally.ballotCount) ∧
      tally.ballotCount ≤ (eligibleMembers snapshot cfg.eligibility).length ∧
      (∃ percent ≤ 100, actualPercent ((rankedOptions tally.counts).take (cfg.multiWinner.getD 1))
        (cfg.multiWinner.getD 1) tally.ballotCount = some percent) ∧
      ∃ result, finalizeTier1 cfg tally.toTier1TallyState = some result ∧
        ∀ required percent, result = .noMajority required percent → percent ≤ 100 := by
  obtain ⟨tally, htally, hsound, hlatest, hcount⟩ := exists_tally decode cfg snapshot events
  refine ⟨tally, htally, fun events' hp => ?_, hsound.length, hsound.count_le, ?_,
    exists_actualPercent hcfg hsound, exists_result hcfg hsound⟩
  · rw [← htally, tallyTier1, tallyTier1]
    simp only [latestBallots_perm hclocks hp]
  · rw [hcount, hlatest]
    exact size_le_eligible

/-! ### A re-vote between two options -/

/-- `{ "pi": 32 zero bytes, "ap": [i] }`. -/
def approvalBallotPayload (i : ℕ) : Bytes :=
  Sample.cborHead 5 2 ++ Sample.cborText "pi" ++ Sample.cborBytes (beBytes 32 0) ++
    Sample.cborText "ap" ++ Sample.cborHead 4 1 ++ Sample.cborHead 0 i

/-- Decodes these payloads. -/
def decodeApproval (bytes : Bytes) : Option Tier1Ballot :=
  ([0, 1].find? fun i => bytes = approvalBallotPayload i).map fun i => ⟨0, [i]⟩

def twoOptions : Tier1PollConfig where
  options := ["yes", "no"]
  windowSeconds := 60
  quorum := some 1
  thresholdPercent := some 50
  multiWinner := none
  eligibility := ⟨0, none, none⟩
  channelId := 0

theorem twoOptions_valid : validatePollConfig twoOptions = .ok () := by decide

/-- Member 1 approves the first option and then the second. -/
def revote : List SignedVotingEvent :=
  [Sample.event .approval .ballotCast 2 "a" 1 (approvalBallotPayload 0),
    Sample.event .approval .ballotCast 3 "a" 1 (approvalBallotPayload 1)]

theorem tallyTier1_order_free_total_revote :
    ∃ tally, tallyTier1 decodeApproval twoOptions ⟨(∅ : BTreeMap _ _).insert 1 ⟨0, 0⟩⟩
        revote.reverse = some tally ∧
      ∃ result, finalizeTier1 twoOptions tally.toTier1TallyState = some result := by
  have hclocks : ClocksTell revote := by
    unfold ClocksTell
    decide +kernel
  obtain ⟨tally, -, hperm, -, -, -, -, result, hresult, -⟩ :=
    tallyTier1_order_free_total decodeApproval twoOptions_valid
      ⟨(∅ : BTreeMap _ _).insert 1 ⟨0, 0⟩⟩ hclocks
  exact ⟨tally, hperm _ (List.reverse_perm _), result, hresult⟩

end Harmony.Voting
