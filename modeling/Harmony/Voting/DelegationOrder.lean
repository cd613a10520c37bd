import Harmony.Voting.Delegation

/-! Whether the delegation graph depends on the order of delivery. The newest event of
a delegator wins wherever it is delivered, unless the cycle check rejects it; it can be
rejected exactly when the other events offer a way back from its delegate. -/

namespace Harmony.Voting

open Harmony.Lib Relation
open Harmony.Membership (OwnerAddr)

def DelegationEvent.IsSelf (e : DelegationEvent) : Prop := e.delegate = some e.delegator

instance (e : DelegationEvent) : Decidable e.IsSelf :=
  inferInstanceAs (Decidable (e.delegate = some e.delegator))

/-- Some event delegates from `x` to `y`. -/
def Offered (events : List DelegationEvent) (x y : OwnerAddr) : Prop :=
  x ≠ y ∧ ∃ e ∈ events, e.delegator = x ∧ e.delegate = some y

/-- The newest event of its delegator, self-delegations apart. -/
def IsNewest (events : List DelegationEvent) (e : DelegationEvent) : Prop :=
  e ∈ events ∧ ¬e.IsSelf ∧
    ∀ e' ∈ events, e'.delegator = e.delegator → ¬e'.IsSelf → e'.hlc ≤ e.hlc

/-- No chain of offered delegations leads from the delegate of a newest event back to
its delegator. -/
def NoWayBack (events : List DelegationEvent) : Prop :=
  ∀ e b, IsNewest events e → e.delegate = some b →
    ¬ReflTransGen (Offered events) b e.delegator

/-- No two events of a delegator share an ordinal. -/
def DistinctOrdinals (events : List DelegationEvent) : Prop :=
  (events.map fun e => (e.delegator, e.hlc)).Nodup

instance (events : List DelegationEvent) : Decidable (DistinctOrdinals events) :=
  inferInstanceAs (Decidable (List.Nodup _))

theorem delegationRun_snoc (events : List DelegationEvent) (e : DelegationEvent) :
    delegationRun (events ++ [e]) = (delegationRun events).apply e := by
  simp [delegationRun]

theorem delegationRun_append (l l' : List DelegationEvent) :
    delegationRun (l ++ l') = l'.foldl DelegationGraph.apply (delegationRun l) := by
  simp [delegationRun]

section Provenance

variable {events : List DelegationEvent}

theorem Offered.mono {l : List DelegationEvent} (hsub : ∀ e ∈ l, e ∈ events) {x y : OwnerAddr}
    (h : Offered l x y) : Offered events x y := by
  obtain ⟨hne, e, he, hx⟩ := h
  exact ⟨hne, e, hsub e he, hx⟩

theorem offered_of_edge {x y : OwnerAddr} (h : Edge (delegationRun events).delegateOf x y) :
    Offered events x y := by
  induction events using List.reverseRecOn with
  | nil => simp [Edge, delegationRun, DelegationGraph.delegateOf] at h
  | append_singleton events e ih =>
    have hold : Edge (delegationRun events).delegateOf x y → Offered (events ++ [e]) x y :=
      fun hedge => (ih hedge).mono fun a ha => by simp [ha]
    rw [delegationRun_snoc] at h
    by_cases ha : Accepted (delegationRun events) e
    · rw [delegateOf_apply ha, Edge, Function.update_apply] at h
      split at h
      · rename_i hx
        refine ⟨fun hxy => ha.1 ?_, e, by simp, hx.symm, h⟩
        rw [h, ← hxy, hx]
      · exact hold h
    · rw [apply_of_not_accepted ha] at h
      exact hold h

theorem lastOf_mem {who : OwnerAddr} {h : HlcOrdinal}
    (hlast : (delegationRun events).lastOf who = some h) :
    ∃ e ∈ events, e.delegator = who ∧ e.hlc = h ∧ ¬e.IsSelf := by
  induction events using List.reverseRecOn with
  | nil => simp [delegationRun, DelegationGraph.lastOf] at hlast
  | append_singleton events e ih =>
    have hold : (delegationRun events).lastOf who = some h →
        ∃ e' ∈ events ++ [e], e'.delegator = who ∧ e'.hlc = h ∧ ¬e'.IsSelf := by
      intro hl
      obtain ⟨e', he', hrest⟩ := ih hl
      exact ⟨e', by simp [he'], hrest⟩
    rw [delegationRun_snoc] at hlast
    by_cases ha : Accepted (delegationRun events) e
    · rw [(apply_of_accepted ha).2] at hlast
      split at hlast
      · rename_i hw
        exact ⟨e, by simp, hw, Option.some.inj hlast, ha.1⟩
      · exact hold hlast
    · rw [apply_of_not_accepted ha] at hlast
      exact hold hlast

end Provenance

theorem foldl_settled {g : DelegationGraph} {a : OwnerAddr} {h : HlcOrdinal}
    (hlast : g.lastOf a = some h) {post : List DelegationEvent}
    (hpost : ∀ e ∈ post, e.delegator = a → e.IsSelf ∨ e.hlc ≤ h) :
    (post.foldl DelegationGraph.apply g).delegateOf a = g.delegateOf a := by
  have hstay : (post.foldl DelegationGraph.apply g).delegateOf a = g.delegateOf a ∧
      (post.foldl DelegationGraph.apply g).lastOf a = some h := by
    induction post using List.reverseRecOn with
    | nil => exact ⟨rfl, hlast⟩
    | append_singleton post e ih =>
      obtain ⟨hd, hl⟩ := ih fun e' he' => hpost e' (by simp [he'])
      rw [List.foldl_append, List.foldl_cons, List.foldl_nil]
      by_cases ha : Accepted (post.foldl DelegationGraph.apply g) e
      · have hne : e.delegator ≠ a := by
          rintro rfl
          rcases hpost e (by simp) rfl with hself | hle
          · exact ha.1 hself
          · exact absurd (ha.2.2 h hl) (not_lt.mpr hle)
        rw [delegateOf_apply ha, (apply_of_accepted ha).2, if_neg hne,
          Function.update_of_ne (Ne.symm hne)]
        exact ⟨hd, hl⟩
      · rw [apply_of_not_accepted ha]
        exact ⟨hd, hl⟩
  exact hstay.1

section Sufficient

variable {events order : List DelegationEvent}

/-- Where a newest event is delivered, it is accepted if its delegate offers no way back. -/
theorem newest_accepted (hd : DistinctOrdinals events) {pre post : List DelegationEvent}
    {e : DelegationEvent} (hp : (pre ++ e :: post).Perm events) (he : IsNewest events e)
    (hback : ∀ b, e.delegate = some b → ¬ReflTransGen (Offered events) b e.delegator) :
    Accepted (delegationRun pre) e := by
  have hsub : ∀ e' ∈ pre, e' ∈ events := fun e' he' => hp.mem_iff.mp (by simp [he'])
  refine ⟨he.2.1, fun b hb => ?_, fun last hlast => ?_⟩
  · rw [wouldCreateCycle_eq_false (graphInv_run pre).acyclic]
    intro hr
    refine hback b hb (ReflTransGen.mono (fun x y hxy => ?_) _ _ hr)
    exact (offered_of_edge hxy).mono hsub
  · obtain ⟨e', he', hdel, rfl, hself⟩ := lastOf_mem hlast
    refine lt_of_le_of_ne (he.2.2 e' (hsub e' he') hdel hself) fun heq => ?_
    have hnd : ((pre ++ e :: post).map fun e => (e.delegator, e.hlc)).Nodup :=
      (hp.map _).nodup_iff.mpr hd
    rw [List.map_append, List.nodup_append] at hnd
    exact hnd.2.2 _ (List.mem_map_of_mem he') (e.delegator, e.hlc) (by simp) (by rw [hdel, heq])

/-- An accepted newest event decides the delegator's edge for good. -/
theorem delegateOf_newest {pre post : List DelegationEvent} {e : DelegationEvent}
    (hp : (pre ++ e :: post).Perm events) (he : IsNewest events e)
    (ha : Accepted (delegationRun pre) e) :
    (delegationRun (pre ++ e :: post)).delegateOf e.delegator = e.delegate := by
  rw [List.append_cons, delegationRun_append, delegationRun_snoc]
  rw [foldl_settled (by rw [(apply_of_accepted ha).2, if_pos rfl]) fun e' he' hdel => ?_]
  · rw [delegateOf_apply ha, Function.update_self]
  · by_cases hself : e'.IsSelf
    · exact Or.inl hself
    · exact Or.inr (he.2.2 e' (hp.mem_iff.mp (by simp [he'])) hdel hself)

theorem exists_newest_event {a : OwnerAddr}
    (h : ∃ e ∈ events, e.delegator = a ∧ ¬e.IsSelf) :
    ∃ e, IsNewest events e ∧ e.delegator = a := by
  obtain ⟨e0, he0, ha, hself⟩ := h
  let own := events.filter fun e => decide (e.delegator = a ∧ ¬e.IsSelf)
  obtain ⟨e, he, hmax⟩ := own.toFinset.exists_max_image DelegationEvent.hlc
    ⟨e0, by simp [own, he0, ha, hself]⟩
  simp only [own, List.mem_toFinset, List.mem_filter, decide_eq_true_eq] at he hmax
  refine ⟨e, ⟨he.1, he.2.2, fun e' he' hdel hs => hmax e' ⟨he', ?_, hs⟩⟩, he.2.1⟩
  rw [hdel, he.2.1]

/-- Without a way back every order ends in the newest events. -/
theorem delegateOf_of_noWayBack (hd : DistinctOrdinals events) (hback : NoWayBack events)
    (hp : order.Perm events) (a : OwnerAddr) :
    (∀ e, IsNewest events e → e.delegator = a → (delegationRun order).delegateOf a = e.delegate) ∧
      ((¬∃ e, IsNewest events e ∧ e.delegator = a) → (delegationRun order).delegateOf a = none) := by
  constructor
  · rintro e he rfl
    obtain ⟨pre, post, rfl⟩ := List.append_of_mem (hp.mem_iff.mpr he.1)
    exact delegateOf_newest hp he (newest_accepted hd hp he fun b => hback e b he)
  · intro hnone
    cases hx : (delegationRun order).delegateOf a with
    | none => rfl
    | some b =>
      have hedge : Edge (delegationRun order).delegateOf a b := hx
      obtain ⟨hne, e, he, rfl, hdel⟩ := offered_of_edge hedge
      refine absurd (exists_newest_event ⟨e, hp.mem_iff.mp he, rfl, fun hs => hne ?_⟩) hnone
      exact (Option.some.inj (hdel.symm.trans hs)).symm

end Sufficient

section Necessary

variable {events : List DelegationEvent} {a : OwnerAddr}

/-- Deliveries, none of them by `a`, after which every delegator leads to `a`. -/
structure LeadsTo (events : List DelegationEvent) (a : OwnerAddr) (l : List DelegationEvent) :
    Prop where
  nodup : l.Nodup
  mem : ∀ e ∈ l, e ∈ events
  other : ∀ e ∈ l, e.delegator ≠ a
  leads : ∀ e ∈ l, Reaches (delegationRun l).delegateOf e.delegator a

theorem LeadsTo.noEdge {l : List DelegationEvent} (h : LeadsTo events a l) :
    (delegationRun l).delegateOf a = none := by
  cases hx : (delegationRun l).delegateOf a with
  | none => rfl
  | some b =>
    have hedge : Edge (delegationRun l).delegateOf a b := hx
    obtain ⟨-, e, he, hdel, -⟩ := offered_of_edge hedge
    exact absurd hdel (h.other e he)

theorem LeadsTo.not_reaches {l : List DelegationEvent} (h : LeadsTo events a l) {x b : OwnerAddr}
    (hx : Reaches (delegationRun l).delegateOf x a)
    (hb : ¬Reaches (delegationRun l).delegateOf b a) :
    ¬Reaches (delegationRun l).delegateOf x b := by
  intro hxb
  rcases hxb.total hx with hba | hab
  · exact hb hba
  · rcases hab.cases_head with rfl | ⟨c, hac, -⟩
    · exact hb .refl
    · simp [Edge, h.noEdge] at hac

theorem LeadsTo.extend {l : List DelegationEvent} (h : LeadsTo events a l) {b c : OwnerAddr}
    (hoff : Offered events b c) (hc : Reaches (delegationRun l).delegateOf c a)
    (hb : ¬Reaches (delegationRun l).delegateOf b a) :
    ∃ e, LeadsTo events a (l ++ [e]) ∧ Reaches (delegationRun (l ++ [e])).delegateOf b a := by
  obtain ⟨hbc, e, he, rfl, hdel⟩ := hoff
  have hfresh : ∀ last ∈ (delegationRun l).lastOf e.delegator, last < e.hlc := by
    intro last hlast
    obtain ⟨e', he', hdel', -⟩ := lastOf_mem hlast
    exact absurd (hdel' ▸ h.leads e' he') hb
  have hcyc : (delegationRun l).wouldCreateCycle e.delegator c = false :=
    (wouldCreateCycle_eq_false (graphInv_run l).acyclic).mpr (h.not_reaches hc hb)
  have hacc : Accepted (delegationRun l) e := by
    refine ⟨fun hself => hbc ?_, fun d hd => ?_, hfresh⟩
    · exact (Option.some.inj (hdel.symm.trans hself)).symm
    · obtain rfl : c = d := Option.some.inj (hdel.symm.trans hd)
      exact hcyc
  have hgraph : (delegationRun (l ++ [e])).delegateOf =
      Function.update (delegationRun l).delegateOf e.delegator (some c) := by
    rw [delegationRun_snoc, delegateOf_apply hacc, hdel]
  have hkeep : ∀ x, Reaches (delegationRun l).delegateOf x a →
      Reaches (delegationRun (l ++ [e])).delegateOf x a := by
    intro x hx
    rw [hgraph]
    exact hx.update (h.not_reaches hx hb) _
  have hnew : Reaches (delegationRun (l ++ [e])).delegateOf e.delegator a := by
    refine .head ?_ (hkeep c hc)
    rw [hgraph, Edge, Function.update_self]
  refine ⟨e, ⟨?_, ?_, ?_, ?_⟩, hnew⟩
  · refine List.nodup_append.mpr ⟨h.nodup, by simp, fun x hx y hy hxy => ?_⟩
    obtain rfl := List.mem_singleton.mp hy
    exact hb (h.leads _ (hxy ▸ hx))
  all_goals
    intro e' he'
    rcases List.mem_append.mp he' with he' | he'
  · exact h.mem e' he'
  · obtain rfl := List.mem_singleton.mp he'
    exact he
  · exact h.other e' he'
  · obtain rfl := List.mem_singleton.mp he'
    exact fun hba => hb (hba ▸ .refl)
  · exact hkeep _ (h.leads e' he')
  · obtain rfl := List.mem_singleton.mp he'
    exact hnew

theorem exists_leadsTo {b : OwnerAddr} (h : ReflTransGen (Offered events) b a) :
    ∃ l, LeadsTo events a l ∧ Reaches (delegationRun l).delegateOf b a := by
  induction h using ReflTransGen.head_induction_on with
  | refl => exact ⟨[], ⟨.nil, by simp, by simp, by simp⟩, .refl⟩
  | @head b c hbc _ ih =>
    obtain ⟨l, hl, hc⟩ := ih
    by_cases hb : Reaches (delegationRun l).delegateOf b a
    · exact ⟨l, hl, hb⟩
    · obtain ⟨e, hl', hb'⟩ := hl.extend hbc hc hb
      exact ⟨_, hl', hb'⟩

theorem foldl_rejected {g : DelegationGraph} {l : List DelegationEvent}
    (h : ∀ e ∈ l, ¬Accepted g e) : l.foldl DelegationGraph.apply g = g := by
  induction l with
  | nil => rfl
  | cons e l ih =>
    rw [List.foldl_cons, apply_of_not_accepted (h e (by simp))]
    exact ih fun e' he' => h e' (by simp [he'])

theorem foldl_delegateOf_ne {g : DelegationGraph} {b : OwnerAddr} {l : List DelegationEvent}
    (hg : g.delegateOf a ≠ some b)
    (h : ∀ e ∈ l, ¬(e.delegator = a ∧ e.delegate = some b)) :
    (l.foldl DelegationGraph.apply g).delegateOf a ≠ some b := by
  induction l generalizing g with
  | nil => exact hg
  | cons e l ih =>
    refine ih ?_ fun e' he' => h e' (by simp [he'])
    by_cases ha : Accepted g e
    · rw [delegateOf_apply ha, Function.update_apply]
      split
      · rename_i hea
        exact fun hdel => h e (by simp) ⟨hea.symm, hdel⟩
      · exact hg
    · rwa [apply_of_not_accepted ha]

theorem exists_order_without {b : OwnerAddr} (h : ReflTransGen (Offered events) b a) :
    ∃ order, order.Perm events ∧ (delegationRun order).delegateOf a ≠ some b := by
  obtain ⟨l, hl, hb⟩ := exists_leadsTo h
  have hcount : ∀ e ∈ l, l.count e ≤ events.count e := fun e he =>
    (List.nodup_iff_count_le_one.mp hl.nodup e).trans (List.one_le_count_iff.mpr (hl.mem e he))
  let back : DelegationEvent → Bool := fun e => decide (e.delegator = a ∧ e.delegate = some b)
  let rest := events.diff l
  refine ⟨l ++ (rest.filter back ++ rest.filter fun e => !back e), ?_, ?_⟩
  · exact ((List.filter_append_perm back rest).append_left l).trans
      (List.subperm_append_diff_self_of_count_le hcount)
  · have hrej : (rest.filter back).foldl DelegationGraph.apply (delegationRun l) =
        delegationRun l := by
      refine foldl_rejected fun e he hacc => ?_
      obtain ⟨rfl, hdel⟩ : e.delegator = a ∧ e.delegate = some b := by
        simpa [back] using (List.mem_filter.mp he).2
      have hfree := hacc.2.1 b hdel
      rw [wouldCreateCycle_eq_false (graphInv_run l).acyclic] at hfree
      exact hfree hb
    rw [delegationRun_append, List.foldl_append, hrej]
    refine foldl_delegateOf_ne (by rw [hl.noEdge]; simp) fun e he => ?_
    have hback := (List.mem_filter.mp he).2
    rwa [Bool.not_eq_true', decide_eq_false_iff_not] at hback

theorem accepted_first {e : DelegationEvent} (hself : ¬e.IsSelf) :
    Accepted (delegationRun []) e := by
  refine ⟨hself, fun b hb => ?_, fun last hlast => ?_⟩
  · rw [wouldCreateCycle_eq_false (graphInv_run []).acyclic]
    intro hr
    rcases hr.cases_head with rfl | ⟨c, hc, -⟩
    · exact hself hb
    · simp [Edge, delegationRun, DelegationGraph.delegateOf] at hc
  · simp [delegationRun, DelegationGraph.lastOf] at hlast

theorem exists_order_with (e : DelegationEvent) (he : IsNewest events e) :
    ∃ order, order.Perm events ∧ (delegationRun order).delegateOf e.delegator = e.delegate := by
  have hp : ([] ++ e :: events.erase e).Perm events := (List.perm_cons_erase he.1).symm
  exact ⟨_, hp, delegateOf_newest hp he (accepted_first he.2.1)⟩

/-- Of two opposite delegations the one delivered first stands. -/
theorem delegateOf_opposite {a b : OwnerAddr} (hab : a ≠ b) (h h' : HlcOrdinal) :
    (delegationRun [⟨a, some b, h⟩, ⟨b, some a, h'⟩]).delegateOf =
      Function.update (fun _ => none) a (some b) := by
  have hfirst : (delegationRun [⟨a, some b, h⟩]).delegateOf =
      Function.update (fun _ => none) a (some b) := by
    have hacc : Accepted (delegationRun []) ⟨a, some b, h⟩ :=
      accepted_first fun hself => hab (Option.some.inj hself).symm
    have happly := delegateOf_apply hacc
    rw [← delegationRun_snoc] at happly
    rw [show [(⟨a, some b, h⟩ : DelegationEvent)] = [] ++ [⟨a, some b, h⟩] from rfl, happly]
    congr 1
  have hrej : ¬Accepted (delegationRun [⟨a, some b, h⟩]) ⟨b, some a, h'⟩ := by
    intro hacc
    have hfree := hacc.2.1 a rfl
    rw [wouldCreateCycle_eq_false (graphInv_run _).acyclic, hfirst] at hfree
    exact hfree (.single (by simp [Edge]))
  have hrun := delegationRun_snoc [⟨a, some b, h⟩] ⟨b, some a, h'⟩
  rw [apply_of_not_accepted hrej] at hrun
  rw [← hfirst, ← hrun]
  rfl

end Necessary

/-- The live edges are the same in every order of delivery exactly when no newest
delegation has a way back to its delegator. -/
theorem delegations_converge_iff {events : List DelegationEvent} (hd : DistinctOrdinals events) :
    (∀ order order' : List DelegationEvent, order.Perm events → order'.Perm events →
      ∀ a, (delegationRun order).delegateOf a = (delegationRun order').delegateOf a) ↔
    NoWayBack events := by
  constructor
  · intro hconv e b he hdel hback
    obtain ⟨order, hp, hwith⟩ := exists_order_with e he
    obtain ⟨order', hp', hwithout⟩ := exists_order_without hback
    rw [← hconv order order' hp hp', hwith, hdel] at hwithout
    exact hwithout rfl
  · intro hback order order' hp hp' a
    obtain ⟨hsome, hnone⟩ := delegateOf_of_noWayBack hd hback hp a
    obtain ⟨hsome', hnone'⟩ := delegateOf_of_noWayBack hd hback hp' a
    by_cases h : ∃ e, IsNewest events e ∧ e.delegator = a
    · obtain ⟨e, he, hea⟩ := h
      rw [hsome e he hea, hsome' e he hea]
    · rw [hnone h, hnone' h]

/-- Two delegations that point apart. -/
theorem delegations_converge_iff_apart :
    let events : List DelegationEvent := [⟨1, some 2, toLex (1, 0)⟩, ⟨3, some 2, toLex (2, 0)⟩]
    (∀ order order' : List DelegationEvent, order.Perm events → order'.Perm events →
      ∀ a, (delegationRun order).delegateOf a = (delegationRun order').delegateOf a) ↔
    NoWayBack events :=
  delegations_converge_iff (by decide)

/-- Two accounts that delegate to each other: the delegation delivered first stands. -/
theorem delegations_diverge :
    ¬∀ events : List DelegationEvent, DistinctOrdinals events →
      ∀ order order' : List DelegationEvent, order.Perm events → order'.Perm events →
        ∀ a, (delegationRun order).delegateOf a = (delegationRun order').delegateOf a := by
  intro h
  have h := h [⟨1, some 2, toLex (1, 0)⟩, ⟨2, some 1, toLex (2, 0)⟩] (by decide)
    [⟨1, some 2, toLex (1, 0)⟩, ⟨2, some 1, toLex (2, 0)⟩]
    [⟨2, some 1, toLex (2, 0)⟩, ⟨1, some 2, toLex (1, 0)⟩] (.refl _) (.swap _ _ _) 1
  rw [delegateOf_opposite (by decide), delegateOf_opposite (by decide)] at h
  simp at h

end Harmony.Voting
