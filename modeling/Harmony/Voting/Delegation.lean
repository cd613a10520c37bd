import Harmony.Lib.FunctionalGraph
import Harmony.Lib.TreeMap
import Harmony.Membership.Types
import Harmony.Voting.Conviction

/-! The delegation graph of a community: at most one live edge per delegator, the
newest event of a delegator winning, and no cycles. -/

namespace Harmony.Voting

open Harmony.Lib Relation
open Harmony.Membership (OwnerAddr)

inductive DelegationError where
  | cycle
  | staleHlc
deriving DecidableEq

/-- How the walk of `would_create_cycle` ends. -/
inductive WalkEnd where
  | target
  | revisited
  | noEdge
deriving DecidableEq

structure DelegationGraph where
  edges : BTreeMap OwnerAddr (OwnerAddr × HlcOrdinal) := ∅
  lastHlc : BTreeMap OwnerAddr HlcOrdinal := ∅

namespace DelegationGraph

/-- Current delegate of an account. -/
def delegateOf (g : DelegationGraph) (who : OwnerAddr) : Option OwnerAddr :=
  g.edges[who]?.map Prod.fst

/-- The loop of `would_create_cycle`, with the set of visited accounts. -/
def walk (g : DelegationGraph) (target : OwnerAddr) (visited : Finset OwnerAddr)
    (current : OwnerAddr) : WalkEnd :=
  if current = target then .target
  else if _ : current ∈ visited then .revisited
  else
    match _ : g.edges[current]? with
    | some (next, _) => walk g target (insert current visited) next
    | none => .noEdge
termination_by (g.edges.keys.toFinset \ visited).card
decreasing_by
  rename_i hv _ he
  have hmem : current ∈ g.edges.keys.toFinset := by
    rw [List.mem_toFinset, Std.ExtTreeMap.mem_keys]
    exact Std.ExtTreeMap.mem_iff_isSome_getElem?.mpr (by simp [he])
  refine Finset.card_lt_card ⟨?_, fun hsub => ?_⟩
  · exact Finset.sdiff_subset_sdiff le_rfl (Finset.subset_insert _ _)
  · have := hsub (Finset.mem_sdiff.mpr ⟨hmem, hv⟩)
    simp at this

def wouldCreateCycle (g : DelegationGraph) (target start : OwnerAddr) : Bool :=
  g.walk target ∅ start ≠ .noEdge

/-- `last_hlc` holds a newer or equal ordinal. -/
def isStale (g : DelegationGraph) (delegator : OwnerAddr) (hlc : HlcOrdinal) : Bool :=
  g.lastHlc[delegator]?.any (hlc ≤ ·)

def applyDelegate (g : DelegationGraph) (delegator delegate : OwnerAddr) (hlc : HlcOrdinal) :
    DelegationGraph × Except DelegationError Unit :=
  if delegator = delegate then (g, .error .cycle)
  else if g.wouldCreateCycle delegator delegate then (g, .error .cycle)
  else if g.isStale delegator hlc then (g, .error .staleHlc)
  else
    ({ edges := g.edges.insert delegator (delegate, hlc)
       lastHlc := g.lastHlc.insert delegator hlc }, .ok ())

def applyUndelegate (g : DelegationGraph) (delegator : OwnerAddr) (hlc : HlcOrdinal) :
    DelegationGraph :=
  if g.isStale delegator hlc then g
  else { edges := g.edges.erase delegator, lastHlc := g.lastHlc.insert delegator hlc }

end DelegationGraph

/-- A Delegate, or an Undelegate if it names no delegate. -/
structure DelegationEvent where
  delegator : OwnerAddr
  delegate : Option OwnerAddr
  hlc : HlcOrdinal
deriving DecidableEq

/-- One event handed to the graph. -/
def DelegationGraph.apply (g : DelegationGraph) (e : DelegationEvent) : DelegationGraph :=
  match e.delegate with
  | some delegate => (g.applyDelegate e.delegator delegate e.hlc).1
  | none => g.applyUndelegate e.delegator e.hlc

/-- The graph after a sequence of calls. -/
def delegationRun (events : List DelegationEvent) : DelegationGraph :=
  events.foldl DelegationGraph.apply {}

/-! ### What one call does -/

section Calls

variable {g : DelegationGraph} {e : DelegationEvent}

/-- The last ordinal of an account's terminal events. -/
def DelegationGraph.lastOf (g : DelegationGraph) (who : OwnerAddr) : Option HlcOrdinal :=
  g.lastHlc[who]?

/-- The call changes the graph. -/
def Accepted (g : DelegationGraph) (e : DelegationEvent) : Prop :=
  e.delegate ≠ some e.delegator ∧
    (∀ d ∈ e.delegate, g.wouldCreateCycle e.delegator d = false) ∧
    ∀ last ∈ g.lastOf e.delegator, last < e.hlc

theorem isStale_eq_false {delegator : OwnerAddr} {hlc : HlcOrdinal} :
    g.isStale delegator hlc = false ↔ ∀ last ∈ g.lastOf delegator, last < hlc := by
  unfold DelegationGraph.isStale DelegationGraph.lastOf
  cases g.lastHlc[delegator]? <;> simp

theorem apply_of_not_accepted (h : ¬Accepted g e) : g.apply e = g := by
  unfold DelegationGraph.apply
  obtain ⟨a, delegate, hlc⟩ := e
  cases delegate with
  | none =>
    have hs : g.isStale a hlc = true := by
      by_contra hs
      exact h ⟨by simp, by simp, isStale_eq_false.mp (by simpa using hs)⟩
    simp [DelegationGraph.applyUndelegate, hs]
  | some d =>
    simp only [DelegationGraph.applyDelegate]
    by_cases hself : a = d
    · simp [hself]
    · by_cases hcyc : g.wouldCreateCycle a d = true
      · simp [hcyc]
      · have hs : g.isStale a hlc = true := by
          by_contra hs
          exact h ⟨by simpa using Ne.symm hself, by simpa using hcyc,
            isStale_eq_false.mp (by simpa using hs)⟩
        simp [hself, hcyc, hs]

theorem apply_of_accepted (h : Accepted g e) :
    (∀ who, (g.apply e).edges[who]? =
      if e.delegator = who then e.delegate.map (·, e.hlc) else g.edges[who]?) ∧
    ∀ who, (g.apply e).lastOf who = if e.delegator = who then some e.hlc else g.lastOf who := by
  obtain ⟨a, delegate, hlc⟩ := e
  obtain ⟨hself, hcyc, hlast⟩ := h
  have hs := isStale_eq_false.mpr hlast
  unfold DelegationGraph.apply DelegationGraph.lastOf
  cases delegate with
  | none =>
    simp only [DelegationGraph.applyUndelegate, hs, Bool.false_eq_true, if_false]
    refine ⟨fun who => ?_, fun who => BTreeMap.get_insert _ _ _ _⟩
    rw [BTreeMap.get_erase]
    rfl
  | some d =>
    have hne : a ≠ d := fun had => hself (by simp [had])
    have hcyc : g.wouldCreateCycle a d = false := hcyc d rfl
    simp only [DelegationGraph.applyDelegate, if_neg hne, hcyc, hs, Bool.false_eq_true, if_false]
    exact ⟨fun who => BTreeMap.get_insert _ _ _ _, fun who => BTreeMap.get_insert _ _ _ _⟩

theorem delegateOf_apply (h : Accepted g e) :
    (g.apply e).delegateOf = Function.update g.delegateOf e.delegator e.delegate := by
  funext who
  unfold DelegationGraph.delegateOf
  rw [(apply_of_accepted h).1 who, Function.update_apply]
  by_cases hw : e.delegator = who
  · subst hw
    cases e.delegate <;> simp
  · rw [if_neg hw, if_neg (Ne.symm hw)]

end Calls

/-! ### The walk -/

section Walk

variable {g : DelegationGraph} {target : OwnerAddr}

theorem edge_of_edges {a b : OwnerAddr} {h : HlcOrdinal} (he : g.edges[a]? = some (b, h)) :
    Edge g.delegateOf a b := by
  simp [Edge, DelegationGraph.delegateOf, he]

theorem walk_eq_target {visited : Finset OwnerAddr} {current : OwnerAddr}
    (h : g.walk target visited current = .target) : Reaches g.delegateOf current target := by
  fun_induction DelegationGraph.walk g target visited current with
  | case1 visited => exact .refl
  | case2 => simp at h
  | case3 visited current _ _ next hlc he ih => exact .head (edge_of_edges he) (ih h)
  | case4 => simp at h

theorem walk_eq_noEdge {visited : Finset OwnerAddr} {current : OwnerAddr}
    (h : g.walk target visited current = .noEdge) : ¬Reaches g.delegateOf current target := by
  fun_induction DelegationGraph.walk g target visited current with
  | case1 visited => simp at h
  | case2 => simp at h
  | case3 visited current hne _ next hlc he ih =>
    exact fun hr => ih h (hr.of_edge hne (edge_of_edges he))
  | case4 visited current hne _ he =>
    intro hr
    rcases hr.cases_head with rfl | ⟨c, hc, -⟩
    · exact hne rfl
    · simp [Edge, DelegationGraph.delegateOf, he] at hc

/-- Every visited account leads to the current one, so in a graph without cycles the
walk meets none of them again. -/
theorem walk_ne_revisited (hac : Acyclic g.delegateOf) {visited : Finset OwnerAddr}
    {current : OwnerAddr} (hv : ∀ v ∈ visited, TransGen (Edge g.delegateOf) v current) :
    g.walk target visited current ≠ .revisited := by
  fun_induction DelegationGraph.walk g target visited current with
  | case1 visited => simp
  | case2 visited current _ hmem => exact absurd (hv current hmem) (hac current)
  | case3 visited current _ _ next hlc he ih =>
    refine ih fun v hmem => ?_
    rcases Finset.mem_insert.mp hmem with rfl | hmem
    · exact .single (edge_of_edges he)
    · exact (hv v hmem).tail (edge_of_edges he)
  | case4 => simp

theorem wouldCreateCycle_eq_false (hac : Acyclic g.delegateOf) {start : OwnerAddr} :
    g.wouldCreateCycle target start = false ↔ ¬Reaches g.delegateOf start target := by
  unfold DelegationGraph.wouldCreateCycle
  cases hw : g.walk target ∅ start with
  | target => simpa using walk_eq_target hw
  | revisited => exact absurd hw (walk_ne_revisited hac (by simp))
  | noEdge => simpa using walk_eq_noEdge hw

end Walk

/-! ### Runs -/

/-- No cycles, and each live edge is the last event of its delegator. -/
structure GraphInv (g : DelegationGraph) : Prop where
  acyclic : Acyclic g.delegateOf
  ordinal : ∀ a b h, g.edges[a]? = some (b, h) → g.lastOf a = some h

theorem graphInv_empty : GraphInv {} where
  acyclic a ha := by
    obtain ⟨b, hb, -⟩ := (TransGen.head'_iff).mp ha
    simp [Edge, DelegationGraph.delegateOf] at hb
  ordinal := by simp

theorem GraphInv.apply {g : DelegationGraph} (hg : GraphInv g) (e : DelegationEvent) :
    GraphInv (g.apply e) := by
  by_cases ha : Accepted g e
  · have hcyc := ha.2.1
    obtain ⟨hedges, hlast⟩ := apply_of_accepted ha
    refine ⟨?_, fun a b h hab => ?_⟩
    · rw [delegateOf_apply ha]
      cases hd : e.delegate with
      | none => exact hg.acyclic.remove _
      | some d =>
        exact hg.acyclic.redirect ((wouldCreateCycle_eq_false hg.acyclic).mp (hcyc d hd))
    · rw [hedges] at hab
      rw [hlast]
      split at hab
      · rename_i hw
        rw [if_pos hw]
        cases hd : e.delegate with
        | none => simp [hd] at hab
        | some d => simpa [hd] using (Prod.mk.inj (Option.some.inj (by simpa [hd] using hab))).2
      · rename_i hw
        rw [if_neg hw]
        exact hg.ordinal a b h hab
  · rwa [apply_of_not_accepted ha]

theorem graphInv_run (events : List DelegationEvent) : GraphInv (delegationRun events) := by
  induction events using List.reverseRecOn with
  | nil => exact graphInv_empty
  | append_singleton events e ih =>
    rw [delegationRun, List.foldl_append]
    exact ih.apply e

theorem lastOf_apply_mono (g : DelegationGraph) (e : DelegationEvent) {who : OwnerAddr}
    {h : HlcOrdinal} (hlast : g.lastOf who = some h) :
    ∃ h', (g.apply e).lastOf who = some h' ∧ h ≤ h' := by
  by_cases ha : Accepted g e
  · rw [(apply_of_accepted ha).2]
    split
    · rename_i hw
      subst hw
      exact ⟨e.hlc, rfl, (ha.2.2 h hlast).le⟩
    · exact ⟨h, hlast, le_rfl⟩
  · rw [apply_of_not_accepted ha]
    exact ⟨h, hlast, le_rfl⟩

theorem applyDelegate_error {g : DelegationGraph} {delegator delegate : OwnerAddr}
    {hlc : HlcOrdinal} {err : DelegationError}
    (h : (g.applyDelegate delegator delegate hlc).2 = .error err) :
    (g.applyDelegate delegator delegate hlc).1 = g := by
  unfold DelegationGraph.applyDelegate at h ⊢
  split
  · rfl
  · split
    · rfl
    · split
      · rfl
      · simp_all

/-- Along every sequence of calls the graph has no cycle, the walk of the cycle check
ends at its target or at an account without an edge, live edges carry the last ordinal
of their delegator, ordinals never decrease and a rejected call changes nothing. -/
theorem delegation_acyclic (events : List DelegationEvent) :
    let g := delegationRun events
    (∀ a, ¬TransGen (Edge g.delegateOf) a a) ∧
    (∀ target start, g.walk target ∅ start ≠ .revisited) ∧
    (∀ (a b : OwnerAddr) (h : HlcOrdinal), g.edges[a]? = some (b, h) → g.lastHlc[a]? = some h) ∧
    (∀ (e : DelegationEvent) (who : OwnerAddr) (h : HlcOrdinal), g.lastHlc[who]? = some h →
      ∃ h', (g.apply e).lastHlc[who]? = some h' ∧ h ≤ h') ∧
    ∀ delegator delegate hlc err, (g.applyDelegate delegator delegate hlc).2 = .error err →
      (g.applyDelegate delegator delegate hlc).1 = g := by
  have hg := graphInv_run events
  exact ⟨hg.acyclic, fun target start => walk_ne_revisited hg.acyclic (by simp), hg.ordinal,
    fun e who h => lastOf_apply_mono _ e, fun _ _ _ _ => applyDelegate_error⟩

end Harmony.Voting
