import Harmony.Hosting.Planner

/-! What a plan costs. The fetches are the listings that fit, first the pledge of their
pact and then the shared budget; one pact at a time is charged what is planned for it. An
object is fetched once exactly if no two listings that fit name it. -/

namespace Harmony.Hosting.PlanInput

open Harmony.Lib

variable {i : PlanInput} {buddy : String} {slice : ℕ} {w : Walk}

/-! ### The listings that fit -/

/-- Not held for this buddy and not in flight. -/
def wants (i : PlanInput) (buddy : String) (entry : BackupEntry) : Bool :=
  !i.ledger.holds buddy entry.cid && i.inflight[entry.cid]?.isNone

/-- The bytes a listing takes from the pledge: the actual size where the object is held. -/
def charge (i : PlanInput) (entry : BackupEntry) : ℕ :=
  (i.ledger.heldAnywhere entry.cid).getD entry.size

def free (i : PlanInput) (entry : BackupEntry) : Bool := (i.ledger.heldAnywhere entry.cid).isNone

def charges (i : PlanInput) (entry : BackupEntry) : Bool :=
  !i.free entry || !i.backoffBlocked entry.cid

def withinPledge (i : PlanInput) (buddy : String) (slice used : ℕ) (entries : List BackupEntry) :
    List BackupEntry :=
  fitting i.charge i.charges slice used (entries.filter (i.wants buddy))

/-- The listings to be fetched for a buddy that fit the pledge. -/
def offers (i : PlanInput) (buddy : String) (slice used : ℕ) (entries : List BackupEntry) :
    List FetchCandidate :=
  ((i.withinPledge buddy slice used entries).filter i.free).map fun entry =>
    ⟨buddy, entry.cid, entry.size⟩

def due (i : PlanInput) (candidate : FetchCandidate) : Bool := !i.backoffBlocked candidate.cid

/-- The fetches that fit the shared budget as well. -/
def affordable (i : PlanInput) (reserved : ℕ) (candidates : List FetchCandidate) :
    List FetchCandidate :=
  fitting FetchCandidate.claimed i.due i.sharedBudget (i.ledger.distinctPinnedBytes + reserved)
    candidates

/-- The fetchable listings of all pacts, in the order of the walk. -/
def allOffers (i : PlanInput) : List FetchCandidate :=
  i.active.flatMap fun buddy => i.offers buddy (i.sliceOf buddy)
    (i.ledger.bytesForBuddy buddy + i.inflightFor buddy) (i.records.backupSets[buddy]?.getD [])

/-- The listings, not in back-off, that fit the pledge of their pact and the shared budget. -/
def fundable (i : PlanInput) : List FetchCandidate :=
  (i.affordable i.inflightBytes i.allOffers).filter i.due

/-! ### The walk takes them -/

theorem wants_false {entry : BackupEntry} (h : i.wants buddy entry = false) :
    i.ledger.holds buddy entry.cid = true ∨ i.inflight[entry.cid]?.isSome = true := by
  unfold wants at h
  cases hh : i.ledger.holds buddy entry.cid with
  | true => exact .inl rfl
  | false =>
    rw [hh] at h
    cases hi : i.inflight[entry.cid]? with
    | none => simp [hi] at h
    | some fetch => exact .inr rfl

theorem walkEntries_skip {entry : BackupEntry} (h : i.wants buddy entry = false)
    (entries : List BackupEntry) :
    ∃ signal, i.walkEntries buddy slice (entry :: entries) w =
      i.walkEntries buddy slice entries { w with catchingUp := signal } := by
  rw [walkEntries]
  by_cases hh : i.ledger.holds buddy entry.cid = true
  · rw [if_pos hh]
    exact ⟨w.catchingUp, rfl⟩
  · rw [if_neg hh, if_pos ((wants_false h).resolve_left hh)]
    exact ⟨true, rfl⟩

theorem wants_true {entry : BackupEntry} (h : i.wants buddy entry = true) :
    ¬i.ledger.holds buddy entry.cid = true ∧ ¬i.inflight[entry.cid]?.isSome = true := by
  unfold wants at h
  cases hh : i.ledger.holds buddy entry.cid with
  | true => simp [hh] at h
  | false =>
    cases hi : i.inflight[entry.cid]? with
    | none => simp
    | some fetch => simp [hi] at h

/-- What the walk of one buddy does to the candidates while the shared budget is not full. -/
structure Fetches (i : PlanInput) (w w' : Walk) (candidates : List FetchCandidate) : Prop where
  fetch : w'.fetch = w.fetch ++ (i.affordable w.reserved candidates).filter i.due
  reserved : w'.reserved =
    w.reserved + spent FetchCandidate.claimed i.due (i.affordable w.reserved candidates)
  globalFull : w'.globalFull = false ↔ i.affordable w.reserved candidates = candidates

/-- Once the budget is full nothing is fetched. -/
structure FetchesNothing (w w' : Walk) : Prop where
  fetch : w'.fetch = w.fetch
  reserved : w'.reserved = w.reserved
  globalFull : w'.globalFull = true

theorem walkEntries_full (hfull : w.globalFull = true) (entries : List BackupEntry) :
    FetchesNothing w (i.walkEntries buddy slice entries w) := by
  induction entries generalizing w with
  | nil => exact ⟨rfl, rfl, hfull⟩
  | cons entry entries ih =>
    cases hwants : i.wants buddy entry with
    | false =>
      obtain ⟨signal, hskip⟩ := @walkEntries_skip i buddy slice w entry hwants entries
      rw [hskip]
      have hrest := ih (w := { w with catchingUp := signal }) hfull
      exact ⟨hrest.fetch, hrest.reserved, hrest.globalFull⟩
    | true =>
      obtain ⟨hholds, hflight⟩ := wants_true hwants
      rw [walkEntries, if_neg hholds, if_neg hflight]
      cases i.ledger.heldAnywhere entry.cid with
      | some actual =>
        dsimp only
        split_ifs
        · exact ⟨rfl, rfl, hfull⟩
        · have hrest := ih (w := { w with
            attributeOnly := w.attributeOnly ++ [(buddy, entry.cid, actual)]
            attributed := w.attributed + actual }) hfull
          exact ⟨hrest.fetch, hrest.reserved, hrest.globalFull⟩
      | none =>
        have hcond : (w.globalFull || decide (i.sharedBudget <
            i.ledger.distinctPinnedBytes + w.reserved + entry.size)) = true := by
          rw [hfull, Bool.true_or]
        dsimp only
        rw [if_pos hcond]
        split_ifs
        · exact ⟨rfl, rfl, hfull⟩
        · exact ⟨rfl, rfl, rfl⟩

/-! #### One listing ahead of the others -/

section Offers

variable {used : ℕ} {entry : BackupEntry} {entries : List BackupEntry}

theorem offers_cons_unwanted (h : i.wants buddy entry = false) :
    i.offers buddy slice used (entry :: entries) = i.offers buddy slice used entries := by
  rw [offers, offers, withinPledge, withinPledge, List.filter_cons_of_neg (by simp [h])]

theorem offers_cons_beyond (h : i.wants buddy entry = true) (hbeyond : slice < used + i.charge entry) :
    i.offers buddy slice used (entry :: entries) = [] := by
  rw [offers, withinPledge, List.filter_cons_of_pos h,
    fitting_cons_of_not_fits (not_le.mpr hbeyond)]
  rfl

theorem offers_cons_held {actual : ℕ} (h : i.wants buddy entry = true)
    (hheld : i.ledger.heldAnywhere entry.cid = some actual) (hfits : used + actual ≤ slice) :
    i.offers buddy slice used (entry :: entries) =
      i.offers buddy slice (used + actual) entries := by
  have hcharge : i.charge entry = actual := by rw [charge, hheld, Option.getD_some]
  have hfree : i.free entry = false := by rw [free, hheld]; rfl
  rw [offers, offers, withinPledge, withinPledge, List.filter_cons_of_pos h,
    fitting_cons_of_fits (hcharge.symm ▸ hfits), List.filter_cons_of_neg (by simp [hfree]), hcharge]
  simp [charges, hfree]

theorem offers_cons_free (h : i.wants buddy entry = true)
    (hfree : i.ledger.heldAnywhere entry.cid = none) (hfits : used + entry.size ≤ slice) :
    i.offers buddy slice used (entry :: entries) = ⟨buddy, entry.cid, entry.size⟩ ::
      i.offers buddy slice (if i.backoffBlocked entry.cid then used else used + entry.size)
        entries := by
  have hcharge : i.charge entry = entry.size := by rw [charge, hfree, Option.getD_none]
  have hfree' : i.free entry = true := by rw [free, hfree]; rfl
  rw [offers, offers, withinPledge, withinPledge, List.filter_cons_of_pos h,
    fitting_cons_of_fits (hcharge.symm ▸ hfits), List.filter_cons_of_pos hfree', List.map_cons,
    hcharge]
  cases hb : i.backoffBlocked entry.cid <;> simp [charges, hfree', hb]

theorem affordable_cons_beyond {reserved : ℕ} {c : FetchCandidate}
    (h : i.sharedBudget < i.ledger.distinctPinnedBytes + reserved + c.claimed)
    (l : List FetchCandidate) : i.affordable reserved (c :: l) = [] :=
  fitting_cons_of_not_fits (not_le.mpr h) l

theorem affordable_cons {reserved : ℕ} {c : FetchCandidate}
    (h : i.ledger.distinctPinnedBytes + reserved + c.claimed ≤ i.sharedBudget)
    (l : List FetchCandidate) :
    i.affordable reserved (c :: l) =
      c :: i.affordable (if i.due c then reserved + c.claimed else reserved) l := by
  rw [affordable, fitting_cons_of_fits h, affordable]
  cases i.due c <;> simp [Nat.add_assoc]

end Offers

theorem walkEntries_fetches (hfull : w.globalFull = false) (entries : List BackupEntry) :
    i.Fetches w (i.walkEntries buddy slice entries w)
      (i.offers buddy slice w.attributed entries) := by
  induction entries generalizing w with
  | nil =>
    constructor <;> simp [walkEntries, offers, withinPledge, affordable, fitting, hfull]
  | cons entry entries ih =>
    cases hwants : i.wants buddy entry with
    | false =>
      obtain ⟨signal, hskip⟩ := @walkEntries_skip i buddy slice w entry hwants entries
      rw [hskip, offers_cons_unwanted hwants]
      have hrest := ih (w := { w with catchingUp := signal }) hfull
      exact ⟨hrest.fetch, hrest.reserved, hrest.globalFull⟩
    | true =>
      obtain ⟨hholds, hflight⟩ := wants_true hwants
      rw [walkEntries, if_neg hholds, if_neg hflight]
      cases hheld : i.ledger.heldAnywhere entry.cid with
      | some actual =>
        have hcharge : i.charge entry = actual := by rw [charge, hheld, Option.getD_some]
        dsimp only
        split_ifs with hbeyond
        · rw [offers_cons_beyond hwants (hcharge.symm ▸ hbeyond)]
          constructor <;> simp [affordable, fitting, hfull]
        · rw [offers_cons_held hwants hheld (not_lt.mp hbeyond)]
          have hrest := ih (w := { w with
            attributeOnly := w.attributeOnly ++ [(buddy, entry.cid, actual)]
            attributed := w.attributed + actual }) hfull
          exact ⟨hrest.fetch, hrest.reserved, hrest.globalFull⟩
      | none =>
        have hcharge : i.charge entry = entry.size := by rw [charge, hheld, Option.getD_none]
        have hcond : (w.globalFull || decide (i.sharedBudget <
            i.ledger.distinctPinnedBytes + w.reserved + entry.size)) =
              decide (i.sharedBudget < i.ledger.distinctPinnedBytes + w.reserved + entry.size) := by
          rw [hfull, Bool.false_or]
        dsimp only
        rw [hcond]
        by_cases hbeyond : slice < w.attributed + entry.size
        · rw [if_pos hbeyond, offers_cons_beyond hwants (hcharge.symm ▸ hbeyond)]
          constructor <;> simp [affordable, fitting, hfull]
        · rw [if_neg hbeyond, offers_cons_free hwants hheld (not_lt.mp hbeyond)]
          by_cases hbudget : i.sharedBudget <
              i.ledger.distinctPinnedBytes + w.reserved + entry.size
          · rw [if_pos (by simpa using hbudget)]
            constructor <;> simp [affordable_cons_beyond, hbudget]
          · rw [if_neg (by simpa using hbudget)]
            have hcons := affordable_cons (c := ⟨buddy, entry.cid, entry.size⟩) (not_lt.mp hbudget)
            cases hblocked : i.backoffBlocked entry.cid with
            | true =>
              have hdue : i.due ⟨buddy, entry.cid, entry.size⟩ = false := by simp [due, hblocked]
              have hrest := ih (w := { w with catchingUp := true }) hfull
              simp only [hdue, Bool.false_eq_true, if_false] at hcons
              simp only [if_true]
              constructor
              · rw [hrest.fetch, hcons, List.filter_cons_of_neg (by simp [hdue])]
              · rw [hrest.reserved, hcons, spent_cons, hdue]
                simp
              · rw [hrest.globalFull, hcons]
                simp
            | false =>
              have hdue : i.due ⟨buddy, entry.cid, entry.size⟩ = true := by simp [due, hblocked]
              have hrest := ih (w := { w with
                reserved := w.reserved + entry.size
                attributed := w.attributed + entry.size
                fetch := w.fetch ++ [⟨buddy, entry.cid, entry.size⟩] }) hfull
              simp only [hdue, if_true] at hcons
              simp only [Bool.false_eq_true, if_false]
              constructor
              · rw [hrest.fetch, hcons, List.filter_cons_of_pos hdue]
                simp
              · rw [hrest.reserved, hcons, spent_cons, hdue]
                simp [Nat.add_assoc]
              · rw [hrest.globalFull, hcons]
                simp

/-! ### All pacts -/

/-- What the pact with a buddy offers to fetch. -/
def offersOf (i : PlanInput) (buddy : String) : List FetchCandidate :=
  i.offers buddy (i.sliceOf buddy) (i.ledger.bytesForBuddy buddy + i.inflightFor buddy)
    (i.records.backupSets[buddy]?.getD [])

theorem walkBuddy_fetches (hfull : w.globalFull = false) (buddy : String) :
    i.Fetches w (i.walkBuddy w buddy) (i.offersOf buddy) := by
  unfold walkBuddy offersOf
  cases i.records.backupSets[buddy]? with
  | none => constructor <;> simp [offers, withinPledge, affordable, fitting, hfull]
  | some entries =>
    have hwalk := @walkEntries_fetches i buddy (i.sliceOf buddy)
      { w with attributed := i.ledger.bytesForBuddy buddy + i.inflightFor buddy } hfull entries
    exact ⟨hwalk.fetch, hwalk.reserved, hwalk.globalFull⟩

theorem foldl_walkBuddy_full (buddies : List String) (hfull : w.globalFull = true) :
    FetchesNothing w (buddies.foldl i.walkBuddy w) := by
  induction buddies generalizing w with
  | nil => exact ⟨rfl, rfl, hfull⟩
  | cons buddy buddies ih =>
    have hone : FetchesNothing w (i.walkBuddy w buddy) := by
      unfold walkBuddy
      cases i.records.backupSets[buddy]? with
      | none => exact ⟨rfl, rfl, hfull⟩
      | some entries =>
        have hwalk := @walkEntries_full i buddy (i.sliceOf buddy)
          { w with attributed := i.ledger.bytesForBuddy buddy + i.inflightFor buddy } hfull entries
        exact ⟨hwalk.fetch, hwalk.reserved, hwalk.globalFull⟩
    have hrest := ih hone.globalFull
    exact ⟨hrest.fetch.trans hone.fetch, hrest.reserved.trans hone.reserved, hrest.globalFull⟩

theorem foldl_walkBuddy_fetches (buddies : List String) (hfull : w.globalFull = false) :
    i.Fetches w (buddies.foldl i.walkBuddy w) (buddies.flatMap i.offersOf) := by
  induction buddies generalizing w with
  | nil => constructor <;> simp [affordable, fitting, hfull]
  | cons buddy buddies ih =>
    have hone : i.Fetches w (i.walkBuddy w buddy) (i.offersOf buddy) := walkBuddy_fetches hfull buddy
    rw [List.foldl_cons, List.flatMap_cons]
    by_cases hall : i.affordable w.reserved (i.offersOf buddy) = i.offersOf buddy
    · have hrest := ih (hone.globalFull.mpr hall)
      have happend : i.affordable w.reserved (i.offersOf buddy ++ buddies.flatMap i.offersOf) =
          i.offersOf buddy ++
            i.affordable (i.walkBuddy w buddy).reserved (buddies.flatMap i.offersOf) := by
        rw [affordable, fitting_append_of_all hall, hone.reserved, hall, affordable, Nat.add_assoc]
      constructor
      · rw [hrest.fetch, hone.fetch, happend, hall, List.filter_append, List.append_assoc]
      · rw [hrest.reserved, happend, spent_append, hone.reserved, hall, Nat.add_assoc]
      · rw [hrest.globalFull, happend]
        simp
    · have hstop : i.affordable w.reserved (i.offersOf buddy ++ buddies.flatMap i.offersOf) =
          i.affordable w.reserved (i.offersOf buddy) := fitting_append_of_stop hall _
      have hfull' : (i.walkBuddy w buddy).globalFull = true := by
        rw [← Bool.not_eq_false]
        exact fun h => hall (hone.globalFull.mp h)
      have hrest := @foldl_walkBuddy_full i _ buddies hfull'
      constructor
      · rw [hrest.fetch, hone.fetch, hstop]
      · rw [hrest.reserved, hone.reserved, hstop]
      · rw [hrest.globalFull, hstop]
        simp only [Bool.true_eq_false, false_iff]
        intro heq
        have hlen := congrArg List.length heq
        rw [List.length_append] at hlen
        have hpre : i.affordable w.reserved (i.offersOf buddy) <+: i.offersOf buddy :=
          fitting_sub _ _
        exact hall (hpre.eq_of_length_le (by omega))

theorem plan_fetch (hfault : i.ledger.sealedFault = false) : i.plan.fetch = i.fundable := by
  have hwalk := @foldl_walkBuddy_fetches i ⟨0, i.inflightBytes, false, false, [], []⟩ i.active rfl
  unfold plan
  rw [hfault, if_neg (by simp)]
  exact hwalk.fetch

end Harmony.Hosting.PlanInput
