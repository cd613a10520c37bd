import Harmony.Hosting.PlanBudget

/-! The bounds a plan keeps: the shared budget over everything fetched, and the pledge of
each pact over what is fetched and attributed for it. -/

namespace Harmony.Hosting.PlanInput

open Harmony.Lib

variable {i : PlanInput} {buddy : String} {slice : ℕ} {w : Walk}

/-! ### One pact -/

/-- What the walk of one buddy adds, and that it is within the pledge. -/
structure Charged (buddy : String) (slice : ℕ) (w w' : Walk) (fetches : List FetchCandidate)
    (attributions : List (String × String × ℕ)) : Prop where
  fetch : w'.fetch = w.fetch ++ fetches
  attributeOnly : w'.attributeOnly = w.attributeOnly ++ attributions
  fetchBuddy : ∀ f ∈ fetches, f.buddy = buddy
  attributionBuddy : ∀ a ∈ attributions, a.1 = buddy
  attributed : w'.attributed = w.attributed + (fetches.map FetchCandidate.claimed).sum +
    (attributions.map fun a => a.2.2).sum
  within : fetches ≠ [] ∨ attributions ≠ [] → w'.attributed ≤ slice

theorem charged_nothing {w' : Walk} (hfetch : w'.fetch = w.fetch)
    (hattributeOnly : w'.attributeOnly = w.attributeOnly) (hattributed : w'.attributed = w.attributed) :
    Charged buddy slice w w' [] [] :=
  ⟨by simp [hfetch], by simp [hattributeOnly], by simp, by simp, by simp [hattributed], by simp⟩

theorem walkEntries_charged (entries : List BackupEntry) (w : Walk) :
    ∃ fetches attributions,
      Charged buddy slice w (i.walkEntries buddy slice entries w) fetches attributions := by
  induction entries generalizing w with
  | nil => exact ⟨[], [], charged_nothing rfl rfl rfl⟩
  | cons entry entries ih =>
    cases hwants : i.wants buddy entry with
    | false =>
      obtain ⟨signal, hskip⟩ := @walkEntries_skip i buddy slice w entry hwants entries
      rw [hskip]
      obtain ⟨fetches, attributions, h⟩ := ih { w with catchingUp := signal }
      exact ⟨fetches, attributions, h.fetch, h.attributeOnly, h.fetchBuddy, h.attributionBuddy,
        h.attributed, h.within⟩
    | true =>
      obtain ⟨hholds, hflight⟩ := wants_true hwants
      rw [walkEntries, if_neg hholds, if_neg hflight]
      cases i.ledger.heldAnywhere entry.cid with
      | some actual =>
        dsimp only
        split_ifs with hbeyond
        · exact ⟨[], [], charged_nothing rfl rfl rfl⟩
        · obtain ⟨fetches, attributions, h⟩ := ih { w with
            attributeOnly := w.attributeOnly ++ [(buddy, entry.cid, actual)]
            attributed := w.attributed + actual }
          have htotal := h.attributed
          dsimp only at htotal
          refine ⟨fetches, (buddy, entry.cid, actual) :: attributions, h.fetch,
            by simp [h.attributeOnly], h.fetchBuddy, ?_, ?_, fun _ => ?_⟩
          · intro a ha
            rcases List.mem_cons.mp ha with rfl | ha
            · rfl
            · exact h.attributionBuddy a ha
          · rw [htotal, List.map_cons, List.sum_cons]
            dsimp only
            omega
          · by_cases hmore : fetches ≠ [] ∨ attributions ≠ []
            · exact h.within hmore
            · simp only [not_or, not_not] at hmore
              rw [htotal, hmore.1, hmore.2]
              simpa using hbeyond
      | none =>
        dsimp only
        split_ifs with hbeyond hbudget hblocked
        · exact ⟨[], [], charged_nothing rfl rfl rfl⟩
        · exact ⟨[], [], charged_nothing rfl rfl rfl⟩
        · obtain ⟨fetches, attributions, h⟩ := ih { w with catchingUp := true }
          exact ⟨fetches, attributions, h.fetch, h.attributeOnly, h.fetchBuddy,
            h.attributionBuddy, h.attributed, h.within⟩
        · obtain ⟨fetches, attributions, h⟩ := ih { w with
            reserved := w.reserved + entry.size
            attributed := w.attributed + entry.size
            fetch := w.fetch ++ [⟨buddy, entry.cid, entry.size⟩] }
          have htotal := h.attributed
          dsimp only at htotal
          refine ⟨⟨buddy, entry.cid, entry.size⟩ :: fetches, attributions, by simp [h.fetch],
            h.attributeOnly, ?_, h.attributionBuddy, ?_, fun _ => ?_⟩
          · intro f hf
            rcases List.mem_cons.mp hf with rfl | hf
            · rfl
            · exact h.fetchBuddy f hf
          · rw [htotal, List.map_cons, List.sum_cons]
            dsimp only
            omega
          · by_cases hmore : fetches ≠ [] ∨ attributions ≠ []
            · exact h.within hmore
            · simp only [not_or, not_not] at hmore
              rw [htotal, hmore.1, hmore.2]
              simpa using hbeyond

/-! ### All pacts -/

def plannedFor (fetch : List FetchCandidate) (attributeOnly : List (String × String × ℕ))
    (buddy : String) : ℕ :=
  ((fetch.filter (·.buddy = buddy)).map FetchCandidate.claimed).sum +
    ((attributeOnly.filter (·.1 = buddy)).map fun a => a.2.2).sum

def PlannedFor (fetch : List FetchCandidate) (attributeOnly : List (String × String × ℕ))
    (buddy : String) : Prop :=
  (∃ f ∈ fetch, f.buddy = buddy) ∨ ∃ a ∈ attributeOnly, a.1 = buddy

/-- Whatever is planned for a buddy fits the pledge on top of what is held and in flight. -/
def PactKept (i : PlanInput) (w : Walk) (buddy : String) : Prop :=
  PlannedFor w.fetch w.attributeOnly buddy →
    i.ledger.bytesForBuddy buddy + i.inflightFor buddy +
      plannedFor w.fetch w.attributeOnly buddy ≤ i.sliceOf buddy

theorem walkBuddy_charged (w : Walk) (buddy : String) :
    ∃ fetches attributions, (i.walkBuddy w buddy).fetch = w.fetch ++ fetches ∧
      (i.walkBuddy w buddy).attributeOnly = w.attributeOnly ++ attributions ∧
      (∀ f ∈ fetches, f.buddy = buddy) ∧ (∀ a ∈ attributions, a.1 = buddy) ∧
      (fetches ≠ [] ∨ attributions ≠ [] →
        i.ledger.bytesForBuddy buddy + i.inflightFor buddy +
          ((fetches.map FetchCandidate.claimed).sum + (attributions.map fun a => a.2.2).sum) ≤
            i.sliceOf buddy) := by
  unfold walkBuddy
  cases i.records.backupSets[buddy]? with
  | none => exact ⟨[], [], by simp⟩
  | some entries =>
    obtain ⟨fetches, attributions, h⟩ := @walkEntries_charged i buddy (i.sliceOf buddy) entries
      { w with attributed := i.ledger.bytesForBuddy buddy + i.inflightFor buddy }
    refine ⟨fetches, attributions, h.fetch, h.attributeOnly, h.fetchBuddy, h.attributionBuddy,
      fun hsome => ?_⟩
    have hwithin := h.within hsome
    rw [h.attributed] at hwithin
    dsimp only at hwithin
    omega

theorem plannedFor_append_other {fetch fetches : List FetchCandidate}
    {attributeOnly attributions : List (String × String × ℕ)} {b : String}
    (hf : ∀ f ∈ fetches, f.buddy ≠ b) (ha : ∀ a ∈ attributions, a.1 ≠ b) :
    (PlannedFor (fetch ++ fetches) (attributeOnly ++ attributions) b ↔
      PlannedFor fetch attributeOnly b) ∧
    plannedFor (fetch ++ fetches) (attributeOnly ++ attributions) b =
      plannedFor fetch attributeOnly b := by
  have hfnone : fetches.filter (·.buddy = b) = [] := by simpa [List.filter_eq_nil_iff] using hf
  have hanone : attributions.filter (·.1 = b) = [] := by
    simpa [List.filter_eq_nil_iff] using ha
  constructor
  · unfold PlannedFor
    constructor
    · rintro (⟨f, hf', rfl⟩ | ⟨a, ha', rfl⟩)
      · exact .inl ⟨f, (List.mem_append.mp hf').resolve_right fun h => hf f h rfl, rfl⟩
      · exact .inr ⟨a, (List.mem_append.mp ha').resolve_right fun h => ha a h rfl, rfl⟩
    · rintro (⟨f, hf', rfl⟩ | ⟨a, ha', rfl⟩)
      · exact .inl ⟨f, List.mem_append_left _ hf', rfl⟩
      · exact .inr ⟨a, List.mem_append_left _ ha', rfl⟩
  · simp only [plannedFor, List.filter_append, hfnone, hanone, List.append_nil]

/-- What is planned for a buddy that had nothing is what its walk adds. -/
theorem plannedFor_append_self {fetch fetches : List FetchCandidate}
    {attributeOnly attributions : List (String × String × ℕ)} {b : String}
    (hnone : ¬PlannedFor fetch attributeOnly b) (hf : ∀ f ∈ fetches, f.buddy = b)
    (ha : ∀ a ∈ attributions, a.1 = b) :
    (PlannedFor (fetch ++ fetches) (attributeOnly ++ attributions) b →
      fetches ≠ [] ∨ attributions ≠ []) ∧
    plannedFor (fetch ++ fetches) (attributeOnly ++ attributions) b =
      (fetches.map FetchCandidate.claimed).sum + (attributions.map fun a => a.2.2).sum := by
  have hfnone : fetch.filter (·.buddy = b) = [] := by
    rw [List.filter_eq_nil_iff]
    intro f hf' hbuddy
    exact hnone (.inl ⟨f, hf', by simpa using hbuddy⟩)
  have hanone : attributeOnly.filter (·.1 = b) = [] := by
    rw [List.filter_eq_nil_iff]
    intro a ha' hbuddy
    exact hnone (.inr ⟨a, ha', by simpa using hbuddy⟩)
  have hfall : fetches.filter (·.buddy = b) = fetches :=
    List.filter_eq_self.mpr (by simpa using hf)
  have haall : attributions.filter (·.1 = b) = attributions :=
    List.filter_eq_self.mpr (by simpa using ha)
  constructor
  · intro hplanned
    by_contra hempty
    simp only [not_or, not_not] at hempty
    rw [hempty.1, hempty.2, List.append_nil, List.append_nil] at hplanned
    exact hnone hplanned
  · simp only [plannedFor, List.filter_append, hfnone, hanone, hfall, haall, List.nil_append]

/-- Over distinct buddies: those walked keep their pacts, and nothing is planned for others. -/
theorem foldl_walkBuddy_pacts {buddies : List String} (hnd : buddies.Nodup) {w : Walk}
    (hnone : ∀ b ∈ buddies, ¬PlannedFor w.fetch w.attributeOnly b)
    (hkept : ∀ b, i.PactKept w b) (b : String) :
    i.PactKept (buddies.foldl i.walkBuddy w) b ∧
      (PlannedFor (buddies.foldl i.walkBuddy w).fetch
        (buddies.foldl i.walkBuddy w).attributeOnly b →
          PlannedFor w.fetch w.attributeOnly b ∨ b ∈ buddies) := by
  induction buddies generalizing w with
  | nil => exact ⟨hkept b, .inl⟩
  | cons buddy buddies ih =>
    obtain ⟨hbuddy, hnd⟩ := List.nodup_cons.mp hnd
    obtain ⟨fetches, attributions, hfetch, hattr, hfb, hab, hwithin⟩ :=
      @walkBuddy_charged i w buddy
    have hother : ∀ c, c ≠ buddy →
        (PlannedFor (i.walkBuddy w buddy).fetch (i.walkBuddy w buddy).attributeOnly c ↔
          PlannedFor w.fetch w.attributeOnly c) ∧
        plannedFor (i.walkBuddy w buddy).fetch (i.walkBuddy w buddy).attributeOnly c =
          plannedFor w.fetch w.attributeOnly c := by
      intro c hc
      rw [hfetch, hattr]
      exact plannedFor_append_other (fun f hf h => hc (h.symm.trans (hfb f hf)))
        fun a ha h => hc (h.symm.trans (hab a ha))
    have hnone' : ∀ c ∈ buddies, ¬PlannedFor (i.walkBuddy w buddy).fetch
        (i.walkBuddy w buddy).attributeOnly c := by
      intro c hc hplanned
      have hne : c ≠ buddy := fun h => hbuddy (h ▸ hc)
      exact hnone c (.tail _ hc) ((hother c hne).1.mp hplanned)
    have hkept' : ∀ c, i.PactKept (i.walkBuddy w buddy) c := by
      intro c hplanned
      by_cases hc : c = buddy
      · subst hc
        have hnew := plannedFor_append_self (hnone c (.head _)) hfb hab
        rw [hfetch, hattr] at hplanned ⊢
        rw [hnew.2]
        exact hwithin (hnew.1 hplanned)
      · rw [(hother c hc).2]
        exact hkept c ((hother c hc).1.mp hplanned)
    obtain ⟨hfinal, hsource⟩ := ih hnd hnone' hkept'
    refine ⟨hfinal, fun hplanned => ?_⟩
    rcases hsource hplanned with h | h
    · by_cases hb : b = buddy
      · exact .inr (hb ▸ .head _)
      · exact .inl ((hother b hb).1.mp h)
    · exact .inr (.tail _ h)

/-! ### The whole plan -/

/-- In the order of the walk, the listings up to the `q`-th fit the shared budget. -/
def FitsUpTo (i : PlanInput) (q : ℕ) : Prop :=
  ∀ k ≤ q, ∀ c, i.allOffers[k]? = some c →
    i.ledger.distinctPinnedBytes + i.inflightBytes +
      spent FetchCandidate.claimed i.due (i.allOffers.take k) + c.claimed ≤ i.sharedBudget

def ListedTwice (i : PlanInput) : Prop :=
  ∃ p q, p < q ∧ i.FitsUpTo q ∧ ∃ a b, i.allOffers[p]? = some a ∧ i.allOffers[q]? = some b ∧
    i.due a = true ∧ i.due b = true ∧ a.cid = b.cid

/-- The plan stays inside every budget and fetches each object once. -/
structure WithinBudgets (i : PlanInput) : Prop where
  once : (i.plan.fetch.map FetchCandidate.cid).Nodup
  /-- nothing is fetched that somebody holds or that is in flight -/
  fresh : ∀ f ∈ i.plan.fetch, ¬i.ledger.Held f.cid ∧ i.inflight[f.cid]? = none
  budget : i.plan.fetch ≠ [] → i.ledger.distinctPinnedBytes + i.inflightBytes +
    (i.plan.fetch.map FetchCandidate.claimed).sum ≤ i.sharedBudget
  /-- both sides pledge, and my pledge covers what is held, in flight and planned -/
  pacts : ∀ buddy, PlannedFor i.plan.fetch i.plan.attributeOnly buddy →
    (∃ pledge, i.myPledges[buddy]? = some pledge ∧ i.ledger.bytesForBuddy buddy +
      i.inflightFor buddy + plannedFor i.plan.fetch i.plan.attributeOnly buddy ≤ pledge) ∧
    buddy ∈ (i.records.ownersPledgingTo i.me).map Prod.fst

theorem nodup_map_filter {α β : Type} {p : α → Bool} {f : α → β} {l : List α} :
    ((l.filter p).map f).Nodup ↔ ∀ m n : ℕ, m < n → ∀ a b, l[m]? = some a → l[n]? = some b →
      p a = true → p b = true → f a ≠ f b := by
  rw [List.Nodup, List.pairwise_map, List.pairwise_filter, List.pairwise_iff_getElem]
  constructor
  · intro h m n hmn a b ha hb hpa hpb
    obtain ⟨hm, rfl⟩ := List.getElem?_eq_some_iff.mp ha
    obtain ⟨hn, rfl⟩ := List.getElem?_eq_some_iff.mp hb
    exact h m n hm hn hmn hpa hpb
  · intro h m n hm hn hmn hpa hpb
    exact h m n hmn _ _ (List.getElem?_eq_getElem hm) (List.getElem?_eq_getElem hn) hpa hpb

theorem fundable_nodup_iff (i : PlanInput) :
    (i.fundable.map FetchCandidate.cid).Nodup ↔ ¬i.ListedTwice := by
  unfold fundable affordable
  rw [nodup_map_filter]
  constructor
  · rintro h ⟨m, n, hmn, hfits, a, b, ha, hb, hda, hdb, hcid⟩
    have hm := fitting_getElem?_eq_some.mpr ⟨ha, fun k hk => hfits k (hk.trans hmn.le)⟩
    have hn := fitting_getElem?_eq_some.mpr ⟨hb, hfits⟩
    exact h m n hmn a b hm hn hda hdb hcid
  · intro h m n hmn a b hm hn hda hdb hcid
    obtain ⟨ha, -⟩ := fitting_getElem?_eq_some.mp hm
    obtain ⟨hb, hfits⟩ := fitting_getElem?_eq_some.mp hn
    exact h ⟨m, n, hmn, hfits, a, b, ha, hb, hda, hdb, hcid⟩

theorem mem_offers {used : ℕ} {entries : List BackupEntry} {c : FetchCandidate}
    (h : c ∈ i.offers buddy slice used entries) :
    i.ledger.heldAnywhere c.cid = none ∧ i.inflight[c.cid]? = none := by
  obtain ⟨entry, hentry, rfl⟩ := List.mem_map.mp h
  obtain ⟨hwithin, hfree⟩ := List.mem_filter.mp hentry
  obtain ⟨-, hwants⟩ := List.mem_filter.mp ((fitting_sub _ _).subset hwithin)
  exact ⟨by simpa [free] using hfree, by simpa using (wants_true hwants).2⟩

theorem mem_fundable {c : FetchCandidate} (h : c ∈ i.fundable) :
    i.ledger.heldAnywhere c.cid = none ∧ i.inflight[c.cid]? = none := by
  have hoffer := (fitting_sub _ _).subset (List.mem_of_mem_filter h)
  obtain ⟨buddy, -, hc⟩ := List.mem_flatMap.mp hoffer
  exact mem_offers hc

theorem fundable_within (h : i.fundable ≠ []) :
    i.ledger.distinctPinnedBytes + i.inflightBytes +
      (i.fundable.map FetchCandidate.claimed).sum ≤ i.sharedBudget :=
  used_add_spent_le h

theorem active_nodup (i : PlanInput) : i.active.Nodup := by
  have hkeys : i.myPledges.keys.Nodup := by
    rw [← Std.ExtTreeMap.map_fst_toList_eq_keys]
    exact nodup_keys_toList _
  exact hkeys.filter _

theorem mem_active : buddy ∈ i.active ↔ buddy ∈ i.myPledges ∧
    buddy ∈ (i.records.ownersPledgingTo i.me).map Prod.fst := by
  rw [active, List.mem_filter, Std.ExtTreeMap.mem_keys, decide_eq_true_eq]

theorem walk_pacts (i : PlanInput) (buddy : String)
    (hplanned : PlannedFor i.walk.fetch i.walk.attributeOnly buddy) :
    buddy ∈ i.active ∧ i.ledger.bytesForBuddy buddy + i.inflightFor buddy +
      plannedFor i.walk.fetch i.walk.attributeOnly buddy ≤ i.sliceOf buddy := by
  have hnothing : ∀ b, ¬PlannedFor ([] : List FetchCandidate) [] b := by simp [PlannedFor]
  obtain ⟨hkept, hsource⟩ := foldl_walkBuddy_pacts (i := i) i.active_nodup
    (w := ⟨0, i.inflightBytes, false, false, [], []⟩) (fun b _ => hnothing b)
    (fun b h => absurd h (hnothing b)) buddy
  exact ⟨(hsource hplanned).resolve_left (hnothing buddy), hkept hplanned⟩

theorem plan_frozen (hfault : i.ledger.sealedFault = true) : i.plan = {} := by
  rw [plan, if_pos hfault]

theorem plan_walk (hfault : i.ledger.sealedFault = false) :
    i.plan.fetch = i.walk.fetch ∧ i.plan.attributeOnly = i.walk.attributeOnly := by
  rw [plan, hfault, if_neg (by simp)]
  exact ⟨rfl, rfl⟩

/-- The bounds always hold; an object is fetched twice if it is listed twice within them. -/
theorem withinBudgets_iff (i : PlanInput) :
    i.WithinBudgets ↔ i.ledger.sealedFault = true ∨ ¬i.ListedTwice := by
  cases hfault : i.ledger.sealedFault with
  | true =>
    have hplan := plan_frozen hfault
    refine ⟨fun _ => .inl rfl, fun _ => ?_⟩
    constructor <;> simp [hplan, PlannedFor]
  | false =>
    have hfetch := plan_fetch hfault
    constructor
    · intro h
      have honce := h.once
      rw [hfetch, fundable_nodup_iff] at honce
      exact .inr honce
    · rintro (hfrozen | htwice)
      · cases hfrozen
      constructor
      · rw [hfetch, fundable_nodup_iff]
        exact htwice
      · intro f hf
        rw [hfetch] at hf
        obtain ⟨hheld, hflight⟩ := mem_fundable hf
        exact ⟨StorageLedger.heldAnywhere_eq_none.mp hheld, hflight⟩
      · rw [hfetch]
        exact fundable_within
      · intro buddy hplanned
        rw [(plan_walk hfault).1, (plan_walk hfault).2] at hplanned ⊢
        obtain ⟨hactive, hwithin⟩ := i.walk_pacts buddy hplanned
        obtain ⟨hmine, htheirs⟩ := mem_active.mp hactive
        obtain ⟨pledge, hpledge⟩ := Std.ExtTreeMap.mem_iff_isSome_getElem?.trans
          Option.isSome_iff_exists |>.mp hmine
        rw [sliceOf, hpledge, Option.getD_some] at hwithin
        exact ⟨⟨pledge, hpledge, hwithin⟩, htheirs⟩

/-- Two buddies list one object: it is fetched for both, and charged twice. -/
def sharedListing : PlanInput where
  me := "me"
  myPledges := ((∅ : BTreeMap String ℕ).insert "alice" 1000).insert "bob" 1000
  records :=
    ⟨((∅ : BTreeMap String (List PledgeEntry)).insert "alice" [⟨"me", 0⟩]).insert "bob" [⟨"me", 0⟩],
      ((∅ : BTreeMap String (List BackupEntry)).insert "alice" [⟨"cid", 100⟩]).insert "bob"
        [⟨"cid", 100⟩]⟩
  ledger := ⟨∅, false⟩
  sharedBudget := 1000
  inflight := ∅
  backoffBlocked := fun _ => false

theorem sharedListing_fetched_twice : ¬sharedListing.WithinBudgets ∧
    sharedListing.plan.fetch = [⟨"alice", "cid", 100⟩, ⟨"bob", "cid", 100⟩] := by
  have hplan : sharedListing.plan.fetch = [⟨"alice", "cid", 100⟩, ⟨"bob", "cid", 100⟩] := by
    decide +kernel
  refine ⟨fun h => ?_, hplan⟩
  have honce := h.once
  rw [hplan] at honce
  simp at honce

end Harmony.Hosting.PlanInput
