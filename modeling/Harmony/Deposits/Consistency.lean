import Harmony.Deposits.Store
import Harmony.Lib.Register

/-! What a deposit doc forgets and what it remembers, over any run of merges, deposits,
sweeps and restarts, whatever the clock shows and whichever saved files a restart reads. -/

namespace Harmony.Deposits

open Harmony.Lib Std
open Harmony.Membership (OwnerAddr SpaceId Hlc Bytes)
open Harmony.Owner (isStrictlyNewerThan isStrictlyNewerThan_iff)

variable {E : Type} {K : Kind E}

namespace Store

/-! ## The operations at one key -/

def met (K : Kind E) (r : E) (dead : Bool) : Option E → Option E
  | none => if dead then none else some r
  | some l => some (K.join l r).1

theorem mergeEntry_local (K : Kind E) (s : Store E × Bool) (k : String) (r : E) :
    (mergeEntry K s k r).1.expiredAtMs = s.1.expiredAtMs ∧
      (mergeEntry K s k r).1.firstObservedMs = s.1.firstObservedMs := by
  rw [mergeEntry]
  split
  · split_ifs <;> exact ⟨rfl, rfl⟩
  · exact ⟨rfl, rfl⟩

theorem mergeEntry_get (K : Kind E) (s : Store E × Bool) (k : String) (r : E) (a : String) :
    (mergeEntry K s k r).1.entries[a]? =
      if k = a then met K r (s.1.expiredAtMs.contains a) s.1.entries[a]? else s.1.entries[a]? := by
  rw [mergeEntry]
  split
  next hk =>
    split_ifs with hd hka hka
    · rw [← hka, hk, met, if_pos hd]
    · rfl
    · rw [← hka, hk, met, if_neg hd]
      exact (BTreeMap.get_insert _ _ _ _).trans (if_pos rfl)
    · exact (BTreeMap.get_insert _ _ _ _).trans (if_neg hka)
  next l hk =>
    refine (BTreeMap.get_insert _ _ _ _).trans ?_
    split_ifs with hka
    · rw [← hka, hk, met]
    · rfl

theorem mergeEntry_steps (K : Kind E) :
    StepsAtKey (fun (s : Store E × Bool) k => (s.1.entries[k]?, s.1.expiredAtMs.contains k))
      (mergeEntry K) fun _ r o => (met K r o.2 o.1, o.2) := by
  intro s k r a
  refine Prod.ext ?_ ?_
  · rw [apply_ite Prod.fst]
    exact mergeEntry_get K s k r a
  · rw [apply_ite Prod.snd, ite_self]
    exact congrArg (·.contains a) (mergeEntry_local K s k r).1

theorem mergeFrom_get (K : Kind E) (s remote : Store E) (k : String) :
    (mergeFrom K s remote).1.entries[k]? =
      remote.entries[k]?.elim s.entries[k]? fun r => met K r (s.expiredAtMs.contains k) s.entries[k]? := by
  refine (congrArg Prod.fst ((mergeEntry_steps K).foldl remote.entries (s, false) k)).trans ?_
  cases remote.entries[k]? <;> rfl

theorem mergeFrom_local (K : Kind E) (s remote : Store E) :
    (mergeFrom K s remote).1.expiredAtMs = s.expiredAtMs ∧
      (mergeFrom K s remote).1.firstObservedMs = s.firstObservedMs := by
  rw [mergeFrom]
  refine foldl_induction (P := fun t : Store E × Bool =>
    t.1.expiredAtMs = s.expiredAtMs ∧ t.1.firstObservedMs = s.firstObservedMs) _ ⟨rfl, rfl⟩ ?_
  intro t k r _ ht
  obtain ⟨hexp, hobs⟩ := mergeEntry_local K t k r
  exact ⟨hexp.trans ht.1, hobs.trans ht.2⟩

theorem observed_get (s : Store E) (nowMs : ℕ) (k : String) :
    (s.observed nowMs)[k]? =
      s.entries[k]?.elim s.firstObservedMs[k]? fun _ => some (s.firstObservedMs[k]?.getD nowMs) := by
  have h : StepsAtKey (fun (m : BTreeMap String ℕ) k => m[k]?)
      (fun m k (_ : E) => m.alter k fun t => some (t.getD nowMs)) fun _ _ t => some (t.getD nowMs) :=
    fun m k _ a => BTreeMap.get_alter m k a _
  exact h.foldl s.entries s.firstObservedMs k

def buried (K : Kind E) (s : Store E) (nowMs : ℕ) (covered : String → E → Bool) : BTreeMap String ℕ :=
  (s.ttlRemoved K nowMs covered).foldl (fun m k _ => m.insert k nowMs) s.expiredAtMs

theorem buried_get (K : Kind E) (s : Store E) (nowMs : ℕ) (covered : String → E → Bool) (k : String) :
    (s.buried K nowMs covered)[k]? =
      (s.ttlRemoved K nowMs covered)[k]?.elim s.expiredAtMs[k]? fun _ => some nowMs := by
  have h : StepsAtKey (fun (m : BTreeMap String ℕ) k => m[k]?)
      (fun m k (_ : E) => m.insert k nowMs) fun _ _ _ => some nowMs :=
    fun m k _ a => BTreeMap.get_insert m k a _
  exact h.foldl (s.ttlRemoved K nowMs covered) s.expiredAtMs k

theorem gc_get (K : Kind E) (s : Store E) (nowMs : ℕ) (covered : String → E → Bool) (k : String) :
    (gc K s nowMs covered).1.entries[k]? =
      s.entries[k]?.filter fun e => !(covered k e || s.ttlExpired K nowMs k) :=
  ExtTreeMap.getElem?_filter'

theorem gc_tombstones (K : Kind E) (s : Store E) (nowMs : ℕ) (covered : String → E → Bool) :
    BTreeMap.Kept K.tombstoneRetentionMs K.tombstoneCap nowMs (s.buried K nowMs covered)
      (gc K s nowMs covered).1.expiredAtMs :=
  BTreeMap.prune_kept _ _ _ _

theorem gc_stamp (K : Kind E) {s : Store E} {nowMs : ℕ} {covered : String → E → Bool} {k : String} {e : E}
    (h : (gc K s nowMs covered).1.entries[k]? = some e) :
    (gc K s nowMs covered).1.firstObservedMs[k]? = some (s.firstObservedMs[k]?.getD nowMs) := by
  have hs : s.entries[k]? = some e := by
    rw [gc_get, Option.filter_eq_some_iff] at h
    exact h.1
  have hget : (gc K s nowMs covered).1.firstObservedMs[k]? =
      (s.observed nowMs)[k]?.filter fun _ => (gc K s nowMs covered).1.entries.contains k :=
    ExtTreeMap.getElem?_filter'
  rw [hget, observed_get, hs, Option.elim_some, ExtTreeMap.contains_eq_isSome_getElem?, h]
  rfl

theorem ttlExpired_of_stamp (K : Kind E) {s : Store E} {k : String} {e : E} {t nowMs : ℕ}
    (hk : s.entries[k]? = some e) (ht : s.firstObservedMs[k]? = some t) :
    s.ttlExpired K nowMs k = decide (t + K.ttlMs < nowMs) := by
  rw [ttlExpired, observed_get, hk, Option.elim_some, ht]
  rfl

theorem restoreExpired_get (K : Kind E) (s : Store E) (map : BTreeMap String ℕ) (nowMs : ℕ) (k : String) :
    (restoreExpired K s map nowMs).entries[k]? =
      s.entries[k]?.filter fun _ => !(restoreExpired K s map nowMs).expiredAtMs.contains k :=
  ExtTreeMap.getElem?_filter'

theorem restart_tombstones (K : Kind E) (doc : BTreeMap String E) (expired stamps : BTreeMap String ℕ)
    (nowMs : ℕ) :
    BTreeMap.Kept K.tombstoneRetentionMs K.tombstoneCap nowMs (expired.map fun _ t => min t nowMs)
      (restart K doc expired stamps nowMs).expiredAtMs :=
  BTreeMap.prune_kept _ _ _ _

theorem restart_get (K : Kind E) (doc : BTreeMap String E) (expired stamps : BTreeMap String ℕ)
    (nowMs : ℕ) (k : String) :
    (restart K doc expired stamps nowMs).entries[k]? =
      doc[k]?.filter fun _ => !(restart K doc expired stamps nowMs).expiredAtMs.contains k :=
  restoreExpired_get K { entries := doc } expired nowMs k

/-- A restart reads the stamp of an entry that it keeps, or falls back on its floor. -/
theorem restart_stamp (K : Kind E) {doc : BTreeMap String E} {expired stamps : BTreeMap String ℕ}
    {nowMs : ℕ} {k : String} {e : E} (h : (restart K doc expired stamps nowMs).entries[k]? = some e) :
    (restart K doc expired stamps nowMs).firstObservedMs[k]? =
      (stamps[k]?.map (min · nowMs)).or ((K.floor e).map (min · nowMs)) := by
  set s := restoreExpired K { entries := doc } expired nowMs with hs
  have hk : s.entries[k]? = some e := h
  have hstep : StepsAtKey (fun (m : BTreeMap String ℕ) k => m[k]?)
      (fun m k (e : E) => m.alter k fun t => t.or ((K.floor e).map (min · nowMs)))
      fun _ e t => t.or ((K.floor e).map (min · nowMs)) :=
    fun m k e a => BTreeMap.get_alter m k a _
  have hget := hstep.foldl s.entries
    ((stamps.filter fun k _ => s.entries.contains k).map fun _ t => min t nowMs) k
  have hmap : ((stamps.filter fun k _ => s.entries.contains k).map fun _ t => min t nowMs)[k]? =
      stamps[k]?.map (min · nowMs) := by
    rw [ExtTreeMap.getElem?_map, ExtTreeMap.getElem?_filter', ExtTreeMap.contains_eq_isSome_getElem?, hk]
    cases stamps[k]? <;> rfl
  rw [hk, Option.elim_some, hmap] at hget
  exact hget

theorem persistEntry_cases (K : Kind E) (s : Store E) (key : String) (entry : E) :
    (persistEntry K s key entry).1 = s ∨ ∃ e, (persistEntry K s key entry).1 =
      { s with entries := s.entries.insert key e, expiredAtMs := s.expiredAtMs.erase key } := by
  rw [persistEntry]
  split
  · exact Or.inr ⟨_, rfl⟩
  · split_ifs
    · exact Or.inl rfl
    · exact Or.inr ⟨_, rfl⟩

/-! ## Live or tombstoned -/

def Apart (s : Store E) : Prop := ∀ k : String, s.entries[k]? = none ∨ s.expiredAtMs[k]? = none

theorem Apart.mergeFrom (K : Kind E) {s : Store E} (h : s.Apart) (remote : Store E) :
    (mergeFrom K s remote).1.Apart := by
  intro k
  rw [(mergeFrom_local K s remote).1, mergeFrom_get]
  cases hd : s.expiredAtMs[k]? with
  | none => exact Or.inr rfl
  | some t =>
    have hk : s.entries[k]? = none := (h k).resolve_right (by simp [hd])
    left
    rw [ExtTreeMap.contains_eq_isSome_getElem?, hd, hk]
    cases remote.entries[k]? <;> rfl

theorem Apart.persistEntry (K : Kind E) {s : Store E} (h : s.Apart) (key : String) (entry : E) :
    (persistEntry K s key entry).1.Apart := by
  rcases persistEntry_cases K s key entry with heq | ⟨e, heq⟩
  · rwa [heq]
  · intro k
    rw [heq]
    by_cases hk : key = k
    · exact Or.inr ((BTreeMap.get_erase _ _ _).trans (if_pos hk))
    · refine (h k).imp (fun hn => ?_) fun hn => ?_
      · exact (BTreeMap.get_insert _ _ _ _).trans ((if_neg hk).trans hn)
      · exact (BTreeMap.get_erase _ _ _).trans ((if_neg hk).trans hn)

theorem Apart.pruneTombstones (K : Kind E) {s : Store E} (h : s.Apart) (nowMs : ℕ) :
    (pruneTombstones K s nowMs).Apart := by
  intro k
  refine (h k).imp_right fun hn => ?_
  by_contra hne
  obtain ⟨t, ht⟩ := Option.ne_none_iff_exists'.mp hne
  have := (BTreeMap.prune_kept _ _ _ _).old k t ht
  rw [hn] at this
  exact absurd this.1 (by simp)

theorem Apart.gc (K : Kind E) {s : Store E} (h : s.Apart) (nowMs : ℕ) (covered : String → E → Bool) :
    (gc K s nowMs covered).1.Apart := by
  intro k
  cases hk : (Store.gc K s nowMs covered).1.entries[k]? with
  | none => exact Or.inl rfl
  | some e =>
    right
    rw [gc_get, Option.filter_eq_some_iff] at hk
    obtain ⟨hs, hkeep⟩ := hk
    have hrem : (s.ttlRemoved K nowMs covered)[k]? = none := by
      rw [ttlRemoved, ExtTreeMap.getElem?_filter', hs, Option.filter_some, if_neg]
      simp at hkeep
      simp [hkeep]
    by_contra hne
    obtain ⟨t, ht⟩ := Option.ne_none_iff_exists'.mp hne
    have hold := ((gc_tombstones K s nowMs covered).old k t ht).1
    rw [buried_get, hrem, Option.elim_none, (h k).resolve_left (by simp [hs])] at hold
    exact absurd hold (by simp)

theorem restart_apart (K : Kind E) (doc : BTreeMap String E) (expired stamps : BTreeMap String ℕ)
    (nowMs : ℕ) : (restart K doc expired stamps nowMs).Apart := by
  intro k
  rw [restart_get, ExtTreeMap.contains_eq_isSome_getElem?]
  cases (restart K doc expired stamps nowMs).expiredAtMs[k]? with
  | none => exact Or.inr rfl
  | some t =>
    left
    cases doc[k]? <;> rfl

end Store

/-! ## Runs -/

/-- One step of a doc. A restart reads its doc and its tombstones from states that were
saved, and its stamps from one that may serve for them. -/
inductive Step (K : Kind E) (saved stamps : Store E → Prop) (s : Store E) : Store E → Prop
  | merge (remote : Store E) : Step K saved stamps s (s.mergeFrom K remote).1
  | deposit (key : String) (entry : E) : Step K saved stamps s (s.persistEntry K key entry).1
  | sweep (nowMs : ℕ) (covered : String → E → Bool) : Step K saved stamps s (s.gc K nowMs covered).1
  | prune (nowMs : ℕ) : Step K saved stamps s (s.pruneTombstones K nowMs)
  | restart {a b c : Store E} (ha : saved a) (hb : saved b) (hc : stamps c) (nowMs : ℕ) :
    Step K saved stamps s (Store.restart K a.entries b.expiredAtMs c.firstObservedMs nowMs)

theorem Step.apart {saved stamps : Store E → Prop} {s s' : Store E} (h : Step K saved stamps s s')
    (hs : s.Apart) : s'.Apart := by
  cases h with
  | merge remote => exact hs.mergeFrom K remote
  | deposit key entry => exact hs.persistEntry K key entry
  | sweep nowMs covered => exact hs.gc K nowMs covered
  | prune nowMs => exact hs.pruneTombstones K nowMs
  | restart ha hb hc nowMs => exact Store.restart_apart K _ _ _ nowMs

/-- The states of a run so far, the latest first. Every one of them may have been saved,
and a restart may read each of its files from another one. -/
inductive Reachable (K : Kind E) : List (Store E) → Prop
  | empty : Reachable K [{}]
  | step {s s' : Store E} {past : List (Store E)} (h : Reachable K (s :: past))
    (hs : Step K (· ∈ s :: past) (· ∈ s :: past) s s') : Reachable K (s' :: s :: past)

theorem Reachable.apart {s : Store E} {past : List (Store E)} (h : Reachable K (s :: past)) :
    s.Apart := by
  generalize hl : s :: past = l at h
  induction h generalizing s past with
  | empty =>
    obtain ⟨rfl, -⟩ := List.cons.inj hl
    exact fun k => Or.inl ExtTreeMap.getElem?_empty
  | step _ hs ih =>
    obtain ⟨rfl, -⟩ := List.cons.inj hl
    exact hs.apart (ih rfl)

/-- The states since an entry was stamped, the latest first. It stays live, and each
restart reads stamps that were saved since then. -/
inductive Holding (K : Kind E) (k : String) (t : ℕ) : List (Store E) → Prop
  | stamped {s : Store E} (hlive : (s.entries[k]?).isSome) (ht : s.firstObservedMs[k]? = some t) :
    Holding K k t [s]
  | step {s s' : Store E} {since : List (Store E)} (h : Holding K k t (s :: since))
    (hs : Step K (fun _ => True) (· ∈ s :: since) s s') (hlive : (s'.entries[k]?).isSome) :
    Holding K k t (s' :: s :: since)

theorem Step.stamp_le {saved stamps : Store E → Prop} {s s' : Store E} {k : String} {t : ℕ}
    (h : Step K saved stamps s s') (hlive : (s'.entries[k]?).isSome)
    (hs : ∃ u ≤ t, s.firstObservedMs[k]? = some u)
    (hstamps : ∀ c, stamps c → ∃ u ≤ t, c.firstObservedMs[k]? = some u) :
    ∃ u ≤ t, s'.firstObservedMs[k]? = some u := by
  obtain ⟨e, he⟩ := Option.isSome_iff_exists.mp hlive
  obtain ⟨u, hut, hu⟩ := hs
  cases h with
  | merge remote => exact ⟨u, hut, (congrArg (·[k]?) (Store.mergeFrom_local K s remote).2).trans hu⟩
  | deposit key entry =>
    refine ⟨u, hut, ?_⟩
    rcases Store.persistEntry_cases K s key entry with heq | ⟨e, heq⟩
    · rwa [heq]
    · rwa [heq]
  | sweep nowMs covered => exact ⟨u, hut, by rw [Store.gc_stamp K he, hu]; rfl⟩
  | prune nowMs => exact ⟨u, hut, hu⟩
  | restart ha hb hc nowMs =>
    obtain ⟨v, hvt, hv⟩ := hstamps _ hc
    refine ⟨min v nowMs, (min_le_left _ _).trans hvt, ?_⟩
    rw [Store.restart_stamp K he, hv]
    rfl

theorem Holding.stamp_le {k : String} {t : ℕ} {l : List (Store E)} (h : Holding K k t l) :
    ∀ s ∈ l, ∃ u ≤ t, s.firstObservedMs[k]? = some u := by
  induction h with
  | stamped _ ht =>
    intro s hs
    rw [List.mem_singleton.mp hs]
    exact ⟨t, le_rfl, ht⟩
  | step h hstep hlive ih =>
    intro s hs
    rcases List.mem_cons.mp hs with rfl | hs
    · exact hstep.stamp_le hlive (ih _ List.mem_cons_self) ih
    · exact ih s hs

theorem Holding.live {k : String} {t : ℕ} {s : Store E} {since : List (Store E)}
    (h : Holding K k t (s :: since)) : (s.entries[k]?).isSome := by
  cases h with
  | stamped hlive _ => exact hlive
  | step _ _ hlive => exact hlive

/-- However often the process restarted and wherever the clock went, the first sweep after
the time to live of the stamp removes the entry. -/
theorem Holding.expires {k : String} {t nowMs : ℕ} {s : Store E} {since : List (Store E)}
    (h : Holding K k t (s :: since)) (hnow : t + K.ttlMs < nowMs) (covered : String → E → Bool) :
    (s.gc K nowMs covered).1.entries[k]? = none := by
  obtain ⟨e, he⟩ := Option.isSome_iff_exists.mp h.live
  obtain ⟨u, hut, hu⟩ := h.stamp_le s List.mem_cons_self
  have hexp : s.ttlExpired K nowMs k = true := by
    rw [Store.ttlExpired_of_stamp K he hu]
    exact decide_eq_true (by omega)
  rw [Store.gc_get, he, Option.filter_some, hexp, if_neg (by simp)]

/-! ## The merge as a join -/

/-- The join of entries that agree. -/
structure Joins (K : Kind E) (Agree : E → E → Prop) : Prop where
  comm : ∀ a b, Agree a b → (K.join a b).1 = (K.join b a).1
  assoc : ∀ a b c, Agree a b → Agree b c → Agree a c →
    (K.join (K.join a b).1 c).1 = (K.join a (K.join b c).1).1
  idem : ∀ a, (K.join a a).1 = a

def AgreePerKey (Agree : E → E → Prop) (a b : Store E) : Prop :=
  ∀ (k : String) (x y : E), a.entries[k]? = some x → b.entries[k]? = some y → Agree x y

def pairwise (K : Kind E) : Option E → Option E → Option E
  | x, none => x
  | none, some r => some r
  | some l, some r => some (K.join l r).1

theorem mergeFrom_get_of_empty {s : Store E} (hs : s.expiredAtMs = ∅) (remote : Store E) (k : String) :
    (s.mergeFrom K remote).1.entries[k]? = pairwise K s.entries[k]? remote.entries[k]? := by
  rw [Store.mergeFrom_get, hs]
  cases remote.entries[k]? with
  | none => cases s.entries[k]? <;> rfl
  | some r => cases s.entries[k]? <;> simp [Store.met, pairwise]

section Laws

variable {Agree : E → E → Prop} (hK : Joins K Agree) {a b c : Store E}
include hK

theorem Joins.mergeFrom_comm (ha : a.expiredAtMs = ∅) (hb : b.expiredAtMs = ∅)
    (hab : AgreePerKey Agree a b) :
    (a.mergeFrom K b).1.entries = (b.mergeFrom K a).1.entries := by
  refine ExtTreeMap.ext_getElem? fun k => ?_
  rw [mergeFrom_get_of_empty ha, mergeFrom_get_of_empty hb]
  cases hx : a.entries[k]? with
  | none => cases b.entries[k]? <;> rfl
  | some x =>
    cases hy : b.entries[k]? with
    | none => rfl
    | some y => exact congrArg some (hK.comm x y (hab k x y hx hy))

theorem Joins.mergeFrom_assoc (ha : a.expiredAtMs = ∅) (hb : b.expiredAtMs = ∅)
    (hab : AgreePerKey Agree a b) (hbc : AgreePerKey Agree b c) (hac : AgreePerKey Agree a c) :
    ((a.mergeFrom K b).1.mergeFrom K c).1.entries = (a.mergeFrom K (b.mergeFrom K c).1).1.entries := by
  refine ExtTreeMap.ext_getElem? fun k => ?_
  have hab' : (a.mergeFrom K b).1.expiredAtMs = ∅ := (Store.mergeFrom_local K a b).1.trans ha
  rw [mergeFrom_get_of_empty hab', mergeFrom_get_of_empty ha, mergeFrom_get_of_empty ha,
    mergeFrom_get_of_empty hb]
  cases hz : c.entries[k]? with
  | none => rfl
  | some z =>
    cases hy : b.entries[k]? with
    | none => cases a.entries[k]? <;> rfl
    | some y =>
      cases hx : a.entries[k]? with
      | none => rfl
      | some x =>
        exact congrArg some (hK.assoc x y z (hab k x y hx hy) (hbc k y z hy hz) (hac k x z hx hz))

theorem Joins.mergeFrom_self (a : Store E) : (a.mergeFrom K a).1.entries = a.entries := by
  refine ExtTreeMap.ext_getElem? fun k => ?_
  rw [Store.mergeFrom_get]
  cases hx : a.entries[k]? with
  | none => rfl
  | some x => exact congrArg some (hK.idem x)

end Laws

def earlier {α : Type} (stamp : α → Hlc) (a b : α) : α :=
  if isStrictlyNewerThan (stamp a) (stamp b) then b else a

section Earlier

variable {α : Type} {stamp : α → Hlc}

theorem some_earlier (a b : α) :
    some (earlier stamp a b) = latest (fun x => OrderDual.toDual (stamp x)) (some a) (some b) := by
  rw [latest_some_some, earlier, apply_ite some]
  exact if_congr isStrictlyNewerThan_iff rfl rfl

theorem earlier_comm {a b : α} (h : stamp a = stamp b → a = b) :
    earlier stamp a b = earlier stamp b a := by
  apply Option.some.inj
  rw [some_earlier, some_earlier]
  apply latest_comm
  intro x y hx hy hxy
  cases hx
  cases hy
  exact h (OrderDual.toDual.injective hxy)

theorem earlier_assoc (a b c : α) :
    earlier stamp (earlier stamp a b) c = earlier stamp a (earlier stamp b c) := by
  apply Option.some.inj
  rw [some_earlier, some_earlier, some_earlier, some_earlier, latest_assoc]

theorem earlier_self (a : α) : earlier stamp a a = a := ite_self a

end Earlier

/-! ## The two docs -/

/-- Two inbox entries of one key. A deposit stamp names one deposit. -/
structure DmAgree (a b : DmInboxEntry) : Prop where
  payload : a.senderOwner = b.senderOwner ∧ a.cidnotifyPacket = b.cidnotifyPacket ∧
    a.storageBlob = b.storageBlob ∧ a.revocationPush = b.revocationPush ∧
    a.grantPush = b.grantPush ∧ a.grantRevoke = b.grantRevoke
  invite : ∀ x y, a.invitePacket = some x → b.invitePacket = some y → x = y
  deposit : a.depositedAt = b.depositedAt → a.depositedBy = b.depositedBy

def DmInboxEntry.deposit (e : DmInboxEntry) : Hlc × String := (e.depositedAt, e.depositedBy)

theorem DmInboxEntry.join_eq (l r : DmInboxEntry) : (l.join r).1 =
    { l with
      ingestedBy := l.ingestedBy ∪ r.ingestedBy
      invitePacket := l.invitePacket.or r.invitePacket
      depositedAt := (earlier Prod.fst l.deposit r.deposit).1
      depositedBy := (earlier Prod.fst l.deposit r.deposit).2 } := by
  by_cases hnew : isStrictlyNewerThan l.depositedAt r.depositedAt = true <;>
    simp [DmInboxEntry.join, earlier, DmInboxEntry.deposit, hnew]

theorem DmInboxEntry.join_deposit (l r : DmInboxEntry) :
    (l.join r).1.deposit = earlier Prod.fst l.deposit r.deposit := by
  rw [DmInboxEntry.join_eq]
  rfl

theorem dmInbox_joins : Joins dmInbox DmAgree where
  comm a b h := by
    obtain ⟨hsender, hcid, hblob, hpush, hgrant, hrevoke⟩ := h.payload
    have hinv : a.invitePacket.or b.invitePacket = b.invitePacket.or a.invitePacket := by
      cases hx : a.invitePacket with
      | none => cases b.invitePacket <;> rfl
      | some x =>
        cases hy : b.invitePacket with
        | none => rfl
        | some y => rw [h.invite x y hx hy]
    have hdep : earlier Prod.fst a.deposit b.deposit = earlier Prod.fst b.deposit a.deposit :=
      earlier_comm fun he => Prod.ext he (h.deposit he)
    change (a.join b).1 = (b.join a).1
    rw [DmInboxEntry.join_eq, DmInboxEntry.join_eq, hinv, hdep, Finset.union_comm, hsender, hcid,
      hblob, hpush, hgrant, hrevoke]
  assoc a b c _ _ _ := by
    change ((a.join b).1.join c).1 = (a.join (b.join c).1).1
    rw [DmInboxEntry.join_eq (a.join b).1, DmInboxEntry.join_eq a (b.join c).1,
      DmInboxEntry.join_deposit, DmInboxEntry.join_deposit, earlier_assoc]
    simp only [DmInboxEntry.join_eq, Finset.union_assoc, Option.or_assoc]
  idem a := by
    change (a.join a).1 = a
    rw [DmInboxEntry.join_eq, earlier_self, Finset.union_self, Option.or_self]
    rfl

/-- Two holds of one key. The key names the recipient, and a stamp one deposit. -/
structure RelayAgree (a b : RelayHoldEntry) : Prop where
  recipient : a.recipientOwner = b.recipientOwner
  deposit : a.heldAt = b.heldAt → { a with pulledBy := ∅ } = { b with pulledBy := ∅ }

def RelayHoldEntry.deposit (e : RelayHoldEntry) : RelayHoldEntry := { e with pulledBy := ∅ }

theorem RelayHoldEntry.join_eq (l r : RelayHoldEntry) : (l.join r).1 =
    { earlier RelayHoldEntry.heldAt l.deposit r.deposit with
      recipientOwner := l.recipientOwner
      pulledBy := l.pulledBy ∪ r.pulledBy } := by
  by_cases hnew : isStrictlyNewerThan l.heldAt r.heldAt = true <;>
    simp [RelayHoldEntry.join, earlier, RelayHoldEntry.deposit, hnew]

theorem RelayHoldEntry.join_of_recipient {l r : RelayHoldEntry}
    (h : l.recipientOwner = r.recipientOwner) : (l.join r).1 =
      { earlier RelayHoldEntry.heldAt l.deposit r.deposit with
        pulledBy := l.pulledBy ∪ r.pulledBy } := by
  rw [RelayHoldEntry.join_eq]
  by_cases hnew : isStrictlyNewerThan l.heldAt r.heldAt = true <;>
    simp [earlier, RelayHoldEntry.deposit, hnew, h]

theorem RelayHoldEntry.join_deposit {l r : RelayHoldEntry} (h : l.recipientOwner = r.recipientOwner) :
    (l.join r).1.deposit = earlier RelayHoldEntry.heldAt l.deposit r.deposit := by
  rw [RelayHoldEntry.join_of_recipient h]
  by_cases hnew : isStrictlyNewerThan l.heldAt r.heldAt = true <;>
    simp [earlier, RelayHoldEntry.deposit, hnew]

theorem relayHold_joins : Joins relayHold RelayAgree where
  comm a b h := by
    have hdep : earlier RelayHoldEntry.heldAt a.deposit b.deposit =
        earlier RelayHoldEntry.heldAt b.deposit a.deposit := earlier_comm fun he => h.deposit he
    change (a.join b).1 = (b.join a).1
    rw [RelayHoldEntry.join_of_recipient h.recipient,
      RelayHoldEntry.join_of_recipient h.recipient.symm, hdep, Finset.union_comm]
  assoc a b c hab hbc hac := by
    have hrec : (b.join c).1.recipientOwner = b.recipientOwner := by rw [RelayHoldEntry.join_eq]
    have hrec' : (a.join b).1.recipientOwner = a.recipientOwner := by rw [RelayHoldEntry.join_eq]
    change ((a.join b).1.join c).1 = (a.join (b.join c).1).1
    rw [RelayHoldEntry.join_of_recipient (hrec'.trans hac.recipient),
      RelayHoldEntry.join_of_recipient (hab.recipient.trans hrec.symm),
      RelayHoldEntry.join_deposit hab.recipient, RelayHoldEntry.join_deposit hbc.recipient,
      earlier_assoc]
    simp only [RelayHoldEntry.join_eq, Finset.union_assoc]
  idem a := by
    change (a.join a).1 = a
    rw [RelayHoldEntry.join_of_recipient rfl, earlier_self, Finset.union_self]
    rfl

/-! ## What the two docs guarantee -/

theorem gc_buries {s : Store E} {k : String} {e : E} {nowMs : ℕ}
    {covered : String → E → Bool} (hk : s.entries[k]? = some e) (httl : s.ttlExpired K nowMs k = true)
    (hcov : K.buriesCovered = true ∨ covered k e = false) (hret : 0 < K.tombstoneRetentionMs) :
    (s.gc K nowMs covered).1.expiredAtMs[k]? = some nowMs ∨
      (s.gc K nowMs covered).1.expiredAtMs.size = K.tombstoneCap ∧
        ∀ (k' : String) t', (s.gc K nowMs covered).1.expiredAtMs[k']? = some t' → nowMs ≤ t' := by
  have hrem : (s.ttlRemoved K nowMs covered)[k]? = some e := by
    rw [Store.ttlRemoved, ExtTreeMap.getElem?_filter', hk, Option.filter_some, if_pos]
    rw [httl, Bool.true_and, Bool.or_eq_true, Bool.not_eq_true']
    exact hcov
  refine (Store.gc_tombstones K s nowMs covered).young k nowMs ?_ (by omega)
  rw [Store.buried_get, hrem, Option.elim_some]

theorem gc_remembers {s : Store E} (hs : s.Apart) {k : String} {t nowMs : ℕ}
    {covered : String → E → Bool} (hk : s.expiredAtMs[k]? = some t)
    (hage : nowMs - t < K.tombstoneRetentionMs) :
    (s.gc K nowMs covered).1.expiredAtMs[k]? = some t ∨
      (s.gc K nowMs covered).1.expiredAtMs.size = K.tombstoneCap ∧
        ∀ (k' : String) t', (s.gc K nowMs covered).1.expiredAtMs[k']? = some t' → t ≤ t' := by
  have hrem : (s.ttlRemoved K nowMs covered)[k]? = none := by
    rw [Store.ttlRemoved, ExtTreeMap.getElem?_filter', (hs k).resolve_right (by simp [hk]),
      Option.filter_none]
  refine (Store.gc_tombstones K s nowMs covered).young k t ?_ hage
  rw [Store.buried_get, hrem, Option.elim_none, hk]

/-- What a deposit doc forgets and remembers. -/
structure Consistent (K : Kind E) (Agree : E → E → Prop) : Prop where
  apart : ∀ s past, Reachable K (s :: past) →
    ∀ k : String, s.entries[k]? = none ∨ s.expiredAtMs[k]? = none
  /-- no merge admits a tombstoned key or forgets a tombstone -/
  suppressed : ∀ s past, Reachable K (s :: past) → ∀ remote : Store E,
    (s.mergeFrom K remote).1.expiredAtMs = s.expiredAtMs ∧
      ∀ k : String, (s.expiredAtMs[k]?).isSome → (s.mergeFrom K remote).1.entries[k]? = none
  /-- a deposit forgets no other tombstone than that of its key -/
  forgiven : ∀ (s : Store E) (key : String) (entry : E) (k : String), key ≠ k →
    (s.persistEntry K key entry).1.expiredAtMs[k]? = s.expiredAtMs[k]?
  /-- a sweep leaves a tombstone of what its time to live removes -/
  buried : ∀ s past, Reachable K (s :: past) → ∀ nowMs covered (k : String) e,
    s.entries[k]? = some e → s.ttlExpired K nowMs k = true →
    K.buriesCovered = true ∨ covered k e = false →
    (s.gc K nowMs covered).1.expiredAtMs[k]? = some nowMs ∨
      (s.gc K nowMs covered).1.expiredAtMs.size = K.tombstoneCap ∧
        ∀ (k' : String) t', (s.gc K nowMs covered).1.expiredAtMs[k']? = some t' → nowMs ≤ t'
  /-- a sweep forgets a tombstone that is in its period only over the cap, the oldest first -/
  remembered : ∀ s past, Reachable K (s :: past) → ∀ nowMs covered (k : String) t,
    s.expiredAtMs[k]? = some t → nowMs - t < K.tombstoneRetentionMs →
    (s.gc K nowMs covered).1.expiredAtMs[k]? = some t ∨
      (s.gc K nowMs covered).1.expiredAtMs.size = K.tombstoneCap ∧
        ∀ (k' : String) t', (s.gc K nowMs covered).1.expiredAtMs[k']? = some t' → t ≤ t'
  pruned : ∀ (s : Store E) nowMs, BTreeMap.Kept K.tombstoneRetentionMs K.tombstoneCap nowMs
    s.expiredAtMs (s.pruneTombstones K nowMs).expiredAtMs
  /-- a restart has the tombstones of the file it reads, no later than its clock -/
  reread : ∀ doc expired stamps nowMs, BTreeMap.Kept K.tombstoneRetentionMs K.tombstoneCap nowMs
    (expired.map fun _ t => min t nowMs) (Store.restart K doc expired stamps nowMs).expiredAtMs
  /-- the stamp of an entry never rises, as long as restarts read stamps saved since -/
  steady : ∀ k t since, Holding K k t since → ∀ s ∈ since, ∃ u ≤ t, s.firstObservedMs[k]? = some u
  /-- and then the first sweep after its time to live removes it -/
  expires : ∀ k t s since, Holding K k t (s :: since) → ∀ nowMs, t + K.ttlMs < nowMs →
    ∀ covered, (s.gc K nowMs covered).1.entries[k]? = none
  comm : ∀ a b : Store E, a.expiredAtMs = ∅ → b.expiredAtMs = ∅ → AgreePerKey Agree a b →
    (a.mergeFrom K b).1.entries = (b.mergeFrom K a).1.entries
  assoc : ∀ a b c : Store E, a.expiredAtMs = ∅ → b.expiredAtMs = ∅ → AgreePerKey Agree a b →
    AgreePerKey Agree b c → AgreePerKey Agree a c →
    ((a.mergeFrom K b).1.mergeFrom K c).1.entries = (a.mergeFrom K (b.mergeFrom K c).1).1.entries
  idem : ∀ a : Store E, (a.mergeFrom K a).1.entries = a.entries

theorem Joins.consistent {Agree : E → E → Prop} (hK : Joins K Agree)
    (hret : 0 < K.tombstoneRetentionMs) : Consistent K Agree where
  apart s past h := h.apart
  suppressed s past h remote := by
    refine ⟨(Store.mergeFrom_local K s remote).1, fun k hk => ?_⟩
    refine (h.apart.mergeFrom K remote k).resolve_right fun hn => ?_
    rw [(Store.mergeFrom_local K s remote).1] at hn
    rw [hn] at hk
    exact absurd hk (by simp)
  forgiven s key entry k hk := by
    rcases Store.persistEntry_cases K s key entry with heq | ⟨e, heq⟩
    · rw [heq]
    · rw [heq]
      exact (BTreeMap.get_erase _ _ _).trans (if_neg hk)
  buried s _ _ nowMs covered k e hk httl hcov := gc_buries hk httl hcov hret
  remembered s past h nowMs covered k t hk hage := gc_remembers h.apart hk hage
  pruned s nowMs := BTreeMap.prune_kept _ _ _ _
  reread := Store.restart_tombstones K
  steady k t since h := h.stamp_le
  expires k t s since h nowMs hnow covered := h.expires hnow covered
  comm a b ha hb hab := hK.mergeFrom_comm ha hb hab
  assoc a b c ha hb hab hbc hac := hK.mergeFrom_assoc ha hb hab hbc hac
  idem := hK.mergeFrom_self

theorem deposit_docs_consistent : Consistent dmInbox DmAgree ∧ Consistent relayHold RelayAgree :=
  ⟨dmInbox_joins.consistent (by decide), relayHold_joins.consistent (by decide)⟩

/-- A deposit that no cap turns away is stored, and its key is no longer tombstoned. -/
theorem Store.persistEntry_accepted (K : Kind E) {s : Store E} {key : String} {entry : E}
    (h : (s.persistEntry K key entry).2 ≠ .capExceeded) :
    (∃ e, (s.persistEntry K key entry).1.entries[key]? = some e) ∧
      (s.persistEntry K key entry).1.expiredAtMs[key]? = none := by
  unfold Store.persistEntry at h ⊢
  split
  · exact ⟨⟨_, (BTreeMap.get_insert _ _ _ _).trans (if_pos rfl)⟩,
      (BTreeMap.get_erase _ _ _).trans (if_pos rfl)⟩
  · rename_i hnone
    rw [hnone] at h
    split_ifs at h ⊢ with hcap
    · exact absurd rfl h
    · exact ⟨⟨_, (BTreeMap.get_insert _ _ _ _).trans (if_pos rfl)⟩,
        (BTreeMap.get_erase _ _ _).trans (if_pos rfl)⟩

theorem Store.restart_keeps (K : Kind E) {doc : BTreeMap String E} {expired : BTreeMap String ℕ}
    {k : String} {e : E} (hk : doc[k]? = some e) (hgone : expired[k]? = none)
    (stamps : BTreeMap String ℕ) (nowMs : ℕ) :
    (Store.restart K doc expired stamps nowMs).entries[k]? = some e := by
  rw [Store.restart_get, ExtTreeMap.contains_eq_isSome_getElem?, hk]
  cases ht : (Store.restart K doc expired stamps nowMs).expiredAtMs[k]? with
  | none => rfl
  | some t =>
    have hold := ((Store.restart_tombstones K doc expired stamps nowMs).old k t ht).1
    rw [ExtTreeMap.getElem?_map, hgone] at hold
    cases hold

/-- So a relay that acknowledged a hold has it after the next boot. -/
theorem RelayHoldDoc.persistHold_restored {doc : RelayHoldDoc} {key : String}
    {entry : RelayHoldEntry} (h : (doc.persistHold key entry).2 ≠ .capExceeded)
    (stamps : BTreeMap String ℕ) (nowMs : ℕ) :
    ∃ e, (Store.restart relayHold (doc.persistHold key entry).1.entries
      (doc.persistHold key entry).1.expiredAtMs stamps nowMs).entries[key]? = some e := by
  obtain ⟨⟨e, he⟩, hgone⟩ := Store.persistEntry_accepted relayHold h
  exact ⟨e, Store.restart_keeps relayHold he hgone stamps nowMs⟩

/-- The sweep buries an unpulled hold; the sender delivers it once more. -/
example :
    let hold : RelayHoldEntry := ⟨1, 2, 3, [9], ⟨0, 0, "r"⟩, "r", ∅⟩
    let swept := (((RelayHoldDoc.persistHold {} "k" hold).1.gc 0).1.gc (relayHoldTtlMs + 1)).1
    swept.entries["k"]? = none ∧ swept.expiredAtMs["k"]? = some (relayHoldTtlMs + 1) ∧
      (swept.persistHold "k" hold).2 = .inserted ∧
      (swept.persistHold "k" hold).1.expiredAtMs["k"]? = none := by
  decide +kernel

/-! ### Files from different moments

A clock that steps back lowers the stamp of an entry at a restart, and a later restart
from a file saved before raises it again. A tombstone is lost in the same way. -/

def message : DmInboxEntry where
  senderOwner := 0
  cidnotifyPacket := none
  storageBlob := []
  invitePacket := none
  revocationPush := none
  grantPush := none
  grantRevoke := none
  depositedAt := { wallMs := 0, logical := 0, deviceId := "" }
  depositedBy := ""
  ingestedBy := ∅

def inboxHeld : DmInboxDoc := (DmInboxDoc.persistEntry {} "m" message).1

def inboxObserved : DmInboxDoc := (inboxHeld.gcExpired 1000 ∅).1

def inboxBack : DmInboxDoc :=
  Store.restart dmInbox inboxObserved.entries inboxObserved.expiredAtMs inboxObserved.firstObservedMs 100

def inboxExpired : DmInboxDoc := (inboxObserved.gcExpired (inboxTtlMs + 2000) ∅).1

theorem inboxObserved_reachable : Reachable dmInbox [inboxObserved, inboxHeld, {}] :=
  (Reachable.empty.step (Step.deposit "m" message)).step (Step.sweep 1000 fun k _ => k ∈ (∅ : Finset String))

theorem earlier_files_restore_the_past :
    (¬∀ s past, Reachable dmInbox (s :: past) → ∀ s', Step dmInbox (· ∈ s :: past) (· ∈ s :: past) s s' →
      ∀ (k : String) t t', (s'.entries[k]?).isSome → s.firstObservedMs[k]? = some t →
        s'.firstObservedMs[k]? = some t' → t' ≤ t) ∧
    ¬∀ s past, Reachable dmInbox (s :: past) → ∀ a ∈ s :: past, ∀ b ∈ s :: past, ∀ c ∈ s :: past,
      ∀ nowMs (k : String) t, s.expiredAtMs[k]? = some t → nowMs - t < inboxTombstoneRetentionMs →
        ((Store.restart dmInbox a.entries b.expiredAtMs c.firstObservedMs nowMs).expiredAtMs[k]?).isSome ∨
          inboxTombstoneCap < s.expiredAtMs.size := by
  constructor
  · intro h
    have hback : Reachable dmInbox [inboxBack, inboxObserved, inboxHeld, {}] :=
      inboxObserved_reachable.step
        (Step.restart (by simp) (by simp) (by simp) 100 : Step _ _ _ _ inboxBack)
    have hle := h inboxBack _ hback _
      (Step.restart (a := inboxObserved) (b := inboxObserved) (c := inboxObserved) (by simp) (by simp)
        (by simp) 2000) "m" 100 1000 (by decide +kernel) (by decide +kernel) (by decide +kernel)
    exact absurd hle (by decide)
  · intro h
    have hexp : Reachable dmInbox [inboxExpired, inboxObserved, inboxHeld, {}] :=
      inboxObserved_reachable.step (Step.sweep (inboxTtlMs + 2000) fun k _ => k ∈ (∅ : Finset String))
    have hkept := h inboxExpired _ hexp inboxExpired (by simp) {} (by simp) {} (by simp)
      (inboxTtlMs + 2000) "m" (inboxTtlMs + 2000) (by decide +kernel) (by decide +kernel)
    exact absurd hkept (by decide +kernel)

end Harmony.Deposits
