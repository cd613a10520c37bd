import Harmony.Transport.KeyedWindow

/-! Runs of the keyed rate limiter under a clock that does not step back. The queue of a
tracked key is its log of admissions since its last eviction, up to times that have left the
window; so verdicts are those of the whole log. -/

namespace Harmony.Transport
namespace KeyedSlidingWindow

open Harmony.Lib Std

section Log

variable {K : Type} [Ord K] [TransOrd K]

structure Request (K : Type) where
  key : K
  nowMs : ℕ
  selection : NthSelection (ℕ × K) Prod.fst

structure Event (K : Type) [Ord K] where
  key : K
  nowMs : ℕ
  admitted : Bool
  before : KeyedSlidingWindow K
  after : KeyedSlidingWindow K

def step (s : KeyedSlidingWindow K × List (Event K)) (r : Request K) :
    Option (KeyedSlidingWindow K × List (Event K)) :=
  (s.1.admitKey r.selection r.key r.nowMs).map fun p =>
    (p.2, ⟨r.key, r.nowMs, p.1, s.1, p.2⟩ :: s.2)

def run (w : KeyedSlidingWindow K) (requests : List (Request K)) :
    Option (KeyedSlidingWindow K × List (Event K)) :=
  requests.foldlM step (w, [])

variable [DecidableEq K]

def Event.Evicts (e : Event K) (k : K) : Prop :=
  (k ∈ e.before.windows ∨ e.key = k ∧ e.admitted = true) ∧ k ∉ e.after.windows

instance (e : Event K) (k : K) : Decidable (e.Evicts k) := by
  unfold Event.Evicts; infer_instance

def Event.recorded (e : Event K) (k : K) : List ℕ :=
  if e.key = k ∧ e.admitted = true then [e.nowMs] else []

def admissions (k : K) : List (Event K) → List ℕ
  | [] => []
  | e :: log => if e.Evicts k then [] else e.recorded k ++ admissions k log

def everAdmitted (k : K) (log : List (Event K)) : List ℕ := log.flatMap (·.recorded k)

def liveKeys (windowMs nowMs : ℕ) (log : List (Event K)) : Finset K :=
  ((log.filter fun e => e.admitted = true ∧ nowMs ≤ e.nowMs + windowMs).map (·.key)).toFinset

/-- What is exact about a call after the events of `older`. -/
structure ExactAt (max windowMs : ℕ) (e : Event K) (older : List (Event K)) : Prop where
  bounded : e.after.windows.size ≤ maxWindowKeys
  peek : e.before.wouldAdmit e.key e.nowMs = e.admitted
  refused : e.admitted = false ↔
    max ≤ (inWindow windowMs e.nowMs (admissions e.key older)).length
  keys : e.admitted = false → ∀ k, k ∈ e.after.windows ↔ k ∈ e.before.windows
  spread : ∀ k, Spread windowMs max (admissions k (e :: older))
  flood : ∀ {k t}, e.Evicts k → t ∈ everAdmitted k (e :: older) → e.nowMs ≤ t + windowMs →
    maxWindowKeys < (liveKeys windowMs e.nowMs (e :: older)).card
  oldest : ∀ {k}, e.Evicts k → ∃ t, (everAdmitted k (e :: older)).head? = some t ∧
    ∀ k' ∈ e.after.windows, ∃ t', (everAdmitted k' (e :: older)).head? = some t' ∧ t ≤ t'

end Log

section Log

variable {K : Type} [Ord K] [TransOrd K] [DecidableEq K] {w : KeyedSlidingWindow K} {now later : ℕ}
  {log : List (Event K)} {e : Event K} {k : K}

omit [TransOrd K] in
theorem mem_everAdmitted {t : ℕ} : t ∈ everAdmitted k log ↔
    ∃ e ∈ log, e.key = k ∧ e.admitted = true ∧ e.nowMs = t := by
  rw [everAdmitted, List.mem_flatMap]
  refine exists_congr fun e => and_congr_right fun _ => ?_
  rw [Event.recorded]
  split_ifs with h
  · simp [h, eq_comm]
  · simp only [List.not_mem_nil, false_iff]
    rintro ⟨hkey, hadmitted, -⟩
    exact h ⟨hkey, hadmitted⟩

omit [TransOrd K] in
theorem everAdmitted_sublist (k : K) (log : List (Event K)) :
    (everAdmitted k log).Sublist (log.map (·.nowMs)) := by
  induction log with
  | nil => exact .slnil
  | cons e log ih =>
    rw [everAdmitted, List.flatMap_cons, List.map_cons, Event.recorded]
    split_ifs
    · exact ih.cons_cons _
    · exact ih.cons _

theorem everAdmitted_extends (k : K) (log : List (Event K)) :
    admissions k log <+: everAdmitted k log := by
  induction log with
  | nil => exact List.prefix_refl _
  | cons e log ih =>
    rw [admissions, everAdmitted, List.flatMap_cons]
    split_ifs
    · exact List.nil_prefix
    · exact (List.prefix_append_right_inj _).mpr ih

theorem head?_everAdmitted {t : ℕ} (h : (e.recorded k ++ admissions k log).head? = some t) :
    (everAdmitted k (e :: log)).head? = some t := by
  obtain ⟨rest, hrest⟩ : e.recorded k ++ admissions k log <+: everAdmitted k (e :: log) := by
    rw [everAdmitted, List.flatMap_cons]
    exact (List.prefix_append_right_inj _).mpr (everAdmitted_extends k log)
  rw [← hrest, List.head?_append, h]
  rfl

/-- The state a run leaves at `now`. -/
structure Tracks (w : KeyedSlidingWindow K) (now : ℕ) (log : List (Event K)) : Prop where
  bounded : w.windows.size ≤ maxWindowKeys
  clock : (log.map (·.nowMs)).Pairwise (· ≥ ·)
  past : ∀ e ∈ log, e.nowMs ≤ now
  queue : ∀ {k : K} {dq}, w.windows[k]? = some dq →
    dq ≠ [] ∧ Queues w.windowMs now (admissions k log) dq
  untracked : ∀ {k : K}, k ∉ w.windows → admissions k log = []
  spread : ∀ k, Spread w.windowMs w.max (admissions k log)

theorem Tracks.new (limit windowMs now : ℕ) :
    Tracks (⟨limit, windowMs, ∅⟩ : KeyedSlidingWindow K) now [] where
  bounded := by simp
  clock := .nil
  past := by simp
  queue h := by simp at h
  untracked _ := rfl
  spread _ := Spread.nil

theorem Tracks.mono (h : Tracks w now log) (hle : now ≤ later) : Tracks w later log :=
  ⟨h.bounded, h.clock, fun e he => (h.past e he).trans hle,
    fun hdq => ⟨(h.queue hdq).1, (h.queue hdq).2.mono hle⟩, h.untracked, h.spread⟩

theorem Tracks.tidy (h : Tracks w now log) : Tidy w.windows :=
  fun _ _ hdq => ⟨(h.queue hdq).1, (h.queue hdq).2.queue_sorted⟩

theorem Tracks.queues (h : Tracks w now log) (k : K) :
    Queues w.windowMs now (admissions k log) (w.windows[k]?.getD []) := by
  cases hk : w.windows[k]? with
  | some dq => exact (h.queue hk).2
  | none =>
    have huntracked : k ∉ w.windows := by simp [ExtTreeMap.mem_iff_isSome_getElem?, hk]
    rw [h.untracked huntracked]
    exact Queues.nil

theorem Tracks.length_pruned (h : Tracks w now log) (k : K) :
    (w.pruned k now).length = (inWindow w.windowMs now (admissions k log)).length := by
  rw [pruned, cutoff, (h.queues k).dropStale_eq, List.length_reverse]

theorem Tracks.wouldAdmit_iff (h : Tracks w now log) (k : K) :
    w.wouldAdmit k now = true ↔ (w.pruned k now).length < w.max := by
  rw [wouldAdmit, pruned]
  split_ifs with hzero
  · simp [hzero]
  · cases hk : w.windows[k]? with
    | none => simpa [dropStale] using Nat.pos_of_ne_zero hzero
    | some dq =>
      rw [Option.getD_some, dropStale_eq_filter (h.queue hk).2.queue_sorted]
      simp

end Log

/-! ### One call -/

section Step

variable {K : Type} [Ord K] [TransOrd K] [DecidableEq K] {w : KeyedSlidingWindow K}
  {now : ℕ} {log : List (Event K)} {e : Event K}

/-- The windows `w` that a call has recorded into and not yet evicted from. -/
structure Records (e : Event K) (log : List (Event K)) (w : KeyedSlidingWindow K) : Prop where
  clock : ((e :: log).map (·.nowMs)).Pairwise (· ≥ ·)
  keys : ∀ k, k ∈ w.windows ↔ k ∈ e.before.windows ∨ e.key = k ∧ e.admitted = true
  queue : ∀ {k : K} {dq}, w.windows[k]? = some dq →
    dq ≠ [] ∧ Queues w.windowMs e.nowMs (e.recorded k ++ admissions k log) dq
  untracked : ∀ {k : K}, k ∉ w.windows → e.recorded k ++ admissions k log = []
  spread : ∀ k, Spread w.windowMs w.max (e.recorded k ++ admissions k log)

theorem Records.evicts_iff (h : Records e log w) (k : K) :
    e.Evicts k ↔ k ∈ w.windows ∧ k ∉ e.after.windows := by
  rw [Event.Evicts, h.keys]

theorem Records.latest (h : Records e log w) {k : K} {t : ℕ} (ht : LatestIs w.windows k t) :
    (everAdmitted k (e :: log)).head? = some t := by
  obtain ⟨dq, hdq, ht⟩ := ht
  obtain ⟨hne, hqueues⟩ := h.queue hdq
  exact head?_everAdmitted ((hqueues.getLast?_eq hne).symm.trans ht)

theorem admissions_of_not_evicts {k : K} (hk : ¬ e.Evicts k) :
    admissions k (e :: log) = e.recorded k ++ admissions k log := by
  rw [admissions, if_neg hk]

theorem Records.tracks (h : Records e log w) (hev : Evicted w e.after e.nowMs) :
    Tracks e.after e.nowMs (e :: log) := by
  refine ⟨hev.bounded, h.clock, ?_, fun hdq' => ?_, fun {k} hk => ?_, fun k => ?_⟩
  · intro e' he'
    rcases List.mem_cons.mp he' with rfl | he'
    · exact le_rfl
    · exact (List.pairwise_cons.mp h.clock).1 _ (List.mem_map_of_mem he')
  · obtain ⟨dq, hdq, hne, hcut⟩ := hev.kept hdq'
    have hstays : ¬ e.Evicts _ := fun hgone => hgone.2 (by
      rw [ExtTreeMap.mem_iff_isSome_getElem?, hdq']
      rfl)
    rw [admissions_of_not_evicts hstays, hev.windowMs]
    refine ⟨hne, ?_⟩
    rcases hcut with rfl | rfl
    · exact (h.queue hdq).2
    · exact (h.queue hdq).2.dropStale
  · by_cases hgone : e.Evicts k
    · rw [admissions, if_pos hgone]
    · rw [admissions_of_not_evicts hgone]
      refine h.untracked fun hkw => hgone ?_
      exact (h.evicts_iff k).mpr ⟨hkw, hk⟩
  · rw [hev.windowMs, hev.max, admissions]
    split_ifs
    · exact Spread.nil
    · exact h.spread k

theorem Records.tidy (h : Records e log w) : Tidy w.windows :=
  fun _ _ hdq => ⟨(h.queue hdq).1, (h.queue hdq).2.queue_sorted⟩

theorem Records.exists_latest (h : Records e log w) {k : K} (hk : k ∈ w.windows) :
    ∃ t, LatestIs w.windows k t ∧ (everAdmitted k (e :: log)).head? = some t := by
  obtain ⟨t, ht⟩ := h.tidy.latest hk
  exact ⟨t, ht, h.latest ht⟩

theorem Records.oldest (h : Records e log w) (hev : Evicted w e.after e.nowMs) {k : K}
    (hk : e.Evicts k) : ∃ t, (everAdmitted k (e :: log)).head? = some t ∧
      ∀ k' ∈ e.after.windows, ∃ t', (everAdmitted k' (e :: log)).head? = some t' ∧ t ≤ t' := by
  obtain ⟨hkw, hgone⟩ := (h.evicts_iff k).mp hk
  obtain ⟨t, ht, hhead⟩ := h.exists_latest hkw
  refine ⟨t, hhead, fun k' hk' => ?_⟩
  have htracks := h.tracks hev
  obtain ⟨t', dq', hdq', ht'⟩ := htracks.tidy.latest hk'
  obtain ⟨hne, hqueues⟩ := htracks.queue hdq'
  refine ⟨t', ?_, hev.oldest ht hgone ⟨dq', hdq', ht'⟩⟩
  obtain ⟨rest, hrest⟩ := everAdmitted_extends k' (e :: log)
  rw [← hrest, List.head?_append, ← hqueues.getLast?_eq hne, ht']
  rfl

omit [TransOrd K] in
theorem le_head_everAdmitted (hclock : (log.map (·.nowMs)).Pairwise (· ≥ ·)) {k : K} {t u : ℕ}
    (ht : t ∈ everAdmitted k log) (hu : (everAdmitted k log).head? = some u) : t ≤ u := by
  have hsorted := hclock.sublist (everAdmitted_sublist k log)
  cases hlist : everAdmitted k log with
  | nil => simp [hlist] at ht
  | cons a l =>
    rw [hlist] at ht hu hsorted
    obtain rfl := Option.some.inj hu
    rcases List.mem_cons.mp ht with rfl | ht
    · exact le_rfl
    · exact (List.pairwise_cons.mp hsorted).1 t ht

variable [LawfulEqOrd K]

theorem Records.retained_le (h : Records e log w) :
    (w.retained e.nowMs).size ≤ (liveKeys w.windowMs e.nowMs (e :: log)).card := by
  have hnd : (w.retained e.nowMs).keys.Nodup := ExtTreeMap.nodup_keys
  rw [← ExtTreeMap.length_keys, ← List.toFinset_card_of_nodup hnd]
  refine Finset.card_le_card fun k hk => ?_
  rw [List.mem_toFinset, ExtTreeMap.mem_keys] at hk
  obtain ⟨t, ht⟩ := h.tidy.retained.latest hk
  obtain ⟨ht, hlive⟩ := (latestIs_retained h.tidy).mp ht
  obtain ⟨e', he', hkey, hadmitted, rfl⟩ :=
    mem_everAdmitted.mp (List.mem_of_mem_head? (h.latest ht))
  rw [cutoff] at hlive
  refine List.mem_toFinset.mpr (List.mem_map.mpr ⟨e', List.mem_filter.mpr ⟨he', ?_⟩, hkey⟩)
  simp only [hadmitted, true_and, decide_eq_true_eq]
  omega

theorem Records.flood (h : Records e log w) (hev : Evicted w e.after e.nowMs) {k : K} {t : ℕ}
    (hk : e.Evicts k) (ht : t ∈ everAdmitted k (e :: log)) (hlive : e.nowMs ≤ t + w.windowMs) :
    maxWindowKeys < (liveKeys w.windowMs e.nowMs (e :: log)).card := by
  obtain ⟨hkw, hgone⟩ := (h.evicts_iff k).mp hk
  obtain ⟨u, hu, hhead⟩ := h.exists_latest hkw
  have hle := le_head_everAdmitted h.clock ht hhead
  refine (hev.flood hu hgone ?_).trans_le h.retained_le
  rw [cutoff]
  omega

theorem Records.exactAt (h : Records e log w) (hev : Evicted w e.after e.nowMs)
    (hpeek : e.before.wouldAdmit e.key e.nowMs = e.admitted)
    (hverdict : e.admitted = false ↔
      w.max ≤ (inWindow w.windowMs e.nowMs (admissions e.key log)).length)
    (hkeys : e.admitted = false → ∀ k, k ∈ e.after.windows ↔ k ∈ e.before.windows) :
    ExactAt w.max w.windowMs e log where
  bounded := hev.bounded
  peek := hpeek
  refused := hverdict
  keys := hkeys
  spread k := by
    have hspread := (h.tracks hev).spread k
    rwa [hev.windowMs, hev.max] at hspread
  flood := h.flood hev
  oldest := h.oldest hev

omit [LawfulEqOrd K] in
theorem pairwise_clock_cons (h : Tracks w e.nowMs log) :
    ((e :: log).map (·.nowMs)).Pairwise (· ≥ ·) := by
  refine List.pairwise_cons.mpr ⟨fun t ht => ?_, h.clock⟩
  obtain ⟨e', he', rfl⟩ := List.mem_map.mp ht
  exact h.past e' he'

omit [LawfulEqOrd K] in
theorem Tracks.records_refused (h : Tracks e.before e.nowMs log) (hrefused : e.admitted = false) :
    Records e log e.before := by
  have hnone : ∀ k, e.recorded k = [] := fun k => by simp [Event.recorded, hrefused]
  refine ⟨pairwise_clock_cons h, fun k => by simp [hrefused], fun hdq => ?_, fun hk => ?_,
    fun k => ?_⟩
  · rw [hnone, List.nil_append]
    exact h.queue hdq
  · rw [hnone, List.nil_append]
    exact h.untracked hk
  · rw [hnone, List.nil_append]
    exact h.spread k

theorem record_get (w : KeyedSlidingWindow K) (key k : K) (nowMs : ℕ) :
    (w.record key nowMs).windows[k]? =
      if key = k then some (w.pruned key nowMs ++ [nowMs]) else w.windows[k]? :=
  BTreeMap.get_insert _ _ _ _

theorem Tracks.records_admitted (h : Tracks e.before e.nowMs log) (hadmitted : e.admitted = true)
    (hfew : (e.before.pruned e.key e.nowMs).length < e.before.max) :
    Records e log (e.before.record e.key e.nowMs) := by
  have hrecorded : ∀ k, e.recorded k = if e.key = k then [e.nowMs] else [] := fun k => by
    simp [Event.recorded, hadmitted]
  have hqueues := h.queues e.key
  have hlog : ∀ k, e.key ≠ k → e.recorded k ++ admissions k log = admissions k log := by
    intro k hk
    rw [hrecorded, if_neg hk, List.nil_append]
  refine ⟨pairwise_clock_cons h, fun k => ?_, fun {k dq} hdq => ?_, fun {k} hk => ?_, fun k => ?_⟩
  · rw [ExtTreeMap.mem_iff_isSome_getElem?, record_get, ExtTreeMap.mem_iff_isSome_getElem?]
    split_ifs with hkey <;> simp [hkey, hadmitted]
  · rw [record_get] at hdq
    split_ifs at hdq with hkey
    · obtain rfl := Option.some.inj hdq
      rw [hrecorded, if_pos hkey, ← hkey]
      exact ⟨by simp, hqueues.dropStale.push⟩
    · rw [hlog k hkey]
      exact h.queue hdq
  · rw [ExtTreeMap.mem_iff_isSome_getElem?, record_get] at hk
    split_ifs at hk with hkey
    · simp at hk
    · rw [hlog k hkey]
      exact h.untracked (by rwa [ExtTreeMap.mem_iff_isSome_getElem?])
  · by_cases hkey : e.key = k
    · rw [h.length_pruned] at hfew
      rw [hrecorded, if_pos hkey, ← hkey]
      exact (h.spread e.key).cons hqueues.sorted hfew
    · rw [hlog k hkey]
      exact h.spread k

theorem Tracks.evicted_refused (h : Tracks w now log) {key : K}
    (hne : w.pruned key now ≠ []) :
    Evicted w (w.prune key now) now ∧ ∀ k, k ∈ (w.prune key now).windows ↔ k ∈ w.windows := by
  obtain ⟨dq, hdq⟩ : ∃ dq, w.windows[key]? = some dq := by
    cases hk : w.windows[key]? with
    | some dq => exact ⟨dq, rfl⟩
    | none => simp [pruned, hk, dropStale] at hne
  have htracked : w.windows.contains key = true := by
    rw [ExtTreeMap.contains_eq_isSome_getElem?, hdq]
    rfl
  have hkeys : ∀ k, k ∈ (w.prune key now).windows ↔ k ∈ w.windows := by
    intro k
    refine ExtTreeMap.mem_insert.trans (or_iff_right_of_imp fun heq => ?_)
    rw [← LawfulEqOrd.eq_of_compare heq]
    exact ExtTreeMap.mem_iff_contains.mpr htracked
  refine ⟨⟨rfl, rfl, ?_, fun {k dq'} hdq' => ?_, fun ht hk => ?_, fun ht hk => ?_⟩, hkeys⟩
  · change ExtTreeMap.size (ExtTreeMap.insert _ _ _) ≤ _
    rw [ExtTreeMap.size_insert, if_pos htracked]
    exact h.bounded
  · change (ExtTreeMap.insert _ _ _)[k]? = _ at hdq'
    rw [BTreeMap.get_insert] at hdq'
    split_ifs at hdq' with hkey
    · obtain rfl := Option.some.inj hdq'
      refine ⟨dq, hkey ▸ hdq, hne, .inr ?_⟩
      rw [pruned, hdq, Option.getD_some]
    · exact ⟨dq', hdq', (h.queue hdq').1, .inl rfl⟩
  · exact absurd ((hkeys _).mpr ht.mem) hk
  · exact absurd ((hkeys _).mpr ht.mem) hk

theorem Tracks.admitKey_of_le (h : Tracks w now log) (sel : NthSelection (ℕ × K) Prod.fst) {key : K}
    (hfull : w.max ≤ (w.pruned key now).length) :
    ∃ w', w.admitKey sel key now = some (false, w') ∧ Evicted w w' now ∧
      ∀ k, k ∈ w'.windows ↔ k ∈ w.windows := by
  rw [admitKey, if_pos hfull]
  split_ifs with hzero
  · exact ⟨w, rfl, evicted_self h.tidy h.bounded, fun _ => Iff.rfl⟩
  · exact ⟨_, rfl, h.evicted_refused (List.ne_nil_of_length_pos (by omega))⟩

/-- A call under a clock that has not stepped back returns, exact. -/
theorem Tracks.step {r : Request K} (h : Tracks w r.nowMs log) :
    ∃ e : Event K, step (w, log) r = some (e.after, e :: log) ∧
      (e.key = r.key ∧ e.nowMs = r.nowMs ∧ e.before = w) ∧
      (e.after.max = w.max ∧ e.after.windowMs = w.windowMs) ∧
      Tracks e.after r.nowMs (e :: log) ∧ ExactAt w.max w.windowMs e log := by
  have hlen := h.length_pruned r.key
  have hpeek := h.wouldAdmit_iff r.key
  rcases Nat.lt_or_ge (w.pruned r.key r.nowMs).length w.max with hfew | hfull
  · have htidy : Tidy (w.record r.key r.nowMs).windows :=
      (Tracks.records_admitted (e := ⟨r.key, r.nowMs, true, w, w⟩) h rfl hfew).tidy
    obtain ⟨w', hevict, hev⟩ := exists_evict r.selection r.nowMs htidy
    have hrecords := Tracks.records_admitted (e := ⟨r.key, r.nowMs, true, w, w'⟩) h rfl hfew
    have hverdict : (true = false ↔
        w.max ≤ (inWindow w.windowMs r.nowMs (admissions r.key log)).length) :=
      iff_of_false Bool.noConfusion (by omega)
    refine ⟨⟨r.key, r.nowMs, true, w, w'⟩, ?_, ⟨rfl, rfl, rfl⟩, ⟨hev.max, hev.windowMs⟩,
      hrecords.tracks hev, hrecords.exactAt hev (hpeek.mpr hfew) hverdict Bool.noConfusion⟩
    rw [KeyedSlidingWindow.step, admitKey_of_lt hfew hevict]
    rfl
  · have hrefused : w.wouldAdmit r.key r.nowMs = false := by
      rw [Bool.eq_false_iff, ne_eq, hpeek]
      omega
    have hverdict : (false = false ↔
        w.max ≤ (inWindow w.windowMs r.nowMs (admissions r.key log)).length) :=
      iff_of_true rfl (hlen ▸ hfull)
    obtain ⟨w', hrun, hev, hkeys⟩ := h.admitKey_of_le r.selection hfull
    have hrecords := Tracks.records_refused (e := ⟨r.key, r.nowMs, false, w, w'⟩) h rfl
    refine ⟨⟨r.key, r.nowMs, false, w, w'⟩, ?_, ⟨rfl, rfl, rfl⟩, ⟨hev.max, hev.windowMs⟩,
      hrecords.tracks hev, hrecords.exactAt hev hrefused hverdict fun _ => hkeys⟩
    rw [KeyedSlidingWindow.step, hrun]
    rfl

end Step

/-! ### Runs -/

section Run

variable {K : Type} [Ord K] [TransOrd K] [LawfulEqOrd K] [DecidableEq K]

omit [LawfulEqOrd K] [DecidableEq K] in
theorem run_snoc (w : KeyedSlidingWindow K) (requests : List (Request K)) (r : Request K) :
    run w (requests ++ [r]) = (run w requests).bind fun s => step s r := by
  rw [run, List.foldlM_append]
  simp only [List.foldlM_cons, List.foldlM_nil, bind_pure]
  rfl

/-- What holds after a run, whatever time it is by then. -/
structure Ran (limit window : ℕ) (requests : List (Request K)) (w : KeyedSlidingWindow K)
    (log : List (Event K)) : Prop where
  max : w.max = limit
  windowMs : w.windowMs = window
  tracks : ∀ now, (∀ r ∈ requests, r.nowMs ≤ now) → Tracks w now log
  calls : log.map (fun e => (e.key, e.nowMs)) = (requests.map fun r => (r.key, r.nowMs)).reverse
  exact_at : ∀ e older, e :: older <:+ log → ExactAt limit window e older ∧
    ∃ earlier, earlier <+: requests ∧ run ⟨limit, window, ∅⟩ earlier = some (e.before, older)

theorem exists_run (limit window : ℕ) {requests : List (Request K)}
    (hclock : (requests.map (·.nowMs)).Pairwise (· ≤ ·)) :
    ∃ w log, run ⟨limit, window, ∅⟩ requests = some (w, log) ∧
      Ran limit window requests w log := by
  induction requests using List.reverseRecOn with
  | nil =>
    refine ⟨_, [], rfl, rfl, rfl, fun now _ => Tracks.new _ _ _, rfl, fun e older h => ?_⟩
    simp at h
  | append_singleton requests r ih =>
    rw [List.map_append, List.pairwise_append] at hclock
    obtain ⟨w, log, hrun, hran⟩ := ih hclock.1
    have hpast : ∀ r' ∈ requests, r'.nowMs ≤ r.nowMs := fun r' hr' =>
      hclock.2.2 _ (List.mem_map_of_mem hr') _ (by simp)
    obtain ⟨e, hstep, ⟨hkey, hnow, hbefore⟩, ⟨hmax, hwindow⟩, htracks, hexact⟩ :=
      (hran.tracks r.nowMs hpast).step
    refine ⟨e.after, e :: log, ?_, hmax.trans hran.max, hwindow.trans hran.windowMs, ?_, ?_, ?_⟩
    · rw [run_snoc, hrun, Option.bind_some, hstep]
    · intro now hlater
      exact htracks.mono (hlater r (by simp))
    · simp [hran.calls, hkey, hnow]
    · intro e' older hsuffix
      rcases List.suffix_cons_iff.mp hsuffix with heq | hsuffix
      · obtain ⟨rfl, rfl⟩ := List.cons.inj heq
        rw [hran.max, hran.windowMs] at hexact
        exact ⟨hexact, requests, List.prefix_append _ _, hbefore ▸ hrun⟩
      · obtain ⟨hexact, earlier, hearlier, hrun'⟩ := hran.exact_at e' older hsuffix
        exact ⟨hexact, earlier, hearlier.trans (List.prefix_append _ _), hrun'⟩

omit [LawfulEqOrd K] in
/-- Without an eviction every admission counts. -/
theorem admissions_eq_everAdmitted {k : K} {log : List (Event K)}
    (h : ∀ e older, e :: older <:+ log → ¬e.Evicts k) : admissions k log = everAdmitted k log := by
  induction log with
  | nil => rfl
  | cons e log ih =>
    have hrest := ih fun e' older hsuffix => h e' older (hsuffix.trans (List.suffix_cons e log))
    rw [admissions_of_not_evicts (h e log (List.suffix_refl _)), hrest]
    rfl

omit [LawfulEqOrd K] in
theorem everAdmitted_ne_nil {limit window : ℕ} (hlimit : 0 < limit) {k : K} {log : List (Event K)}
    (hexact : ∀ e older, e :: older <:+ log → ExactAt limit window e older)
    (hno : ∀ e older, e :: older <:+ log → ¬e.Evicts k) (hk : k ∈ log.map (·.key)) :
    everAdmitted k log ≠ [] := by
  induction log with
  | nil => simp at hk
  | cons e log ih =>
    have hexact' : ∀ e' older, e' :: older <:+ log → ExactAt limit window e' older :=
      fun e' older hsuffix => hexact e' older (hsuffix.trans (List.suffix_cons e log))
    have hno' : ∀ e' older, e' :: older <:+ log → ¬e'.Evicts k :=
      fun e' older hsuffix => hno e' older (hsuffix.trans (List.suffix_cons e log))
    rw [everAdmitted, List.flatMap_cons]
    intro hnil
    obtain ⟨hnow, hbefore⟩ := List.append_eq_nil_iff.mp hnil
    by_cases hin : k ∈ log.map (·.key)
    · exact ih hexact' hno' hin hbefore
    · obtain rfl : e.key = k := by simpa [hin, eq_comm] using hk
      have hrefused : e.admitted = false := by simpa [Event.recorded] using hnow
      have hfull := ((hexact e log (List.suffix_refl _)).refused).mp hrefused
      have hnone : admissions e.key log = [] := (admissions_eq_everAdmitted hno').trans hbefore
      rw [hnone] at hfull
      simp [inWindow] at hfull
      omega

/-- Where more keys ask than are tracked, some call evicts. -/
theorem Ran.exists_evicts {limit window : ℕ} {requests : List (Request K)}
    {w : KeyedSlidingWindow K} {log : List (Event K)} (h : Ran limit window requests w log)
    (hlimit : 0 < limit) (hflood : maxWindowKeys < (requests.map (·.key)).toFinset.card) :
    ∃ e older k, e :: older <:+ log ∧ e.Evicts k := by
  by_contra hnone
  have hno : ∀ k e older, e :: older <:+ log → ¬e.Evicts k := fun k e older hsuffix hevicts =>
    hnone ⟨e, older, k, hsuffix, hevicts⟩
  have hkeys : log.map (·.key) = (requests.map (·.key)).reverse := by
    have hcalls := congrArg (List.map Prod.fst) h.calls
    simpa [Function.comp_def] using hcalls
  have htracked : ∀ k ∈ requests.map (·.key), k ∈ w.windows := by
    intro k hk
    have hlog : k ∈ log.map (·.key) := by
      rw [hkeys]
      exact List.mem_reverse.mpr hk
    have hever := everAdmitted_ne_nil hlimit (fun e older hs => (h.exact_at e older hs).1)
      (hno k) hlog
    by_contra hout
    have htracks := h.tracks _ fun r hr => List.le_sum_of_mem (List.mem_map_of_mem hr)
    exact hever ((admissions_eq_everAdmitted (hno k)).symm.trans (htracks.untracked hout))
  have hsub : (requests.map (·.key)).toFinset ⊆ w.windows.keys.toFinset := by
    intro k hk
    exact List.mem_toFinset.mpr (ExtTreeMap.mem_keys.mpr (htracked k (List.mem_toFinset.mp hk)))
  have hbounded : w.windows.size ≤ maxWindowKeys :=
    (h.tracks _ fun r hr => List.le_sum_of_mem (List.mem_map_of_mem hr)).bounded
  have hcard := (Finset.card_le_card hsub).trans (List.toFinset_card_le _)
  rw [ExtTreeMap.length_keys] at hcard
  omega

end Run

end KeyedSlidingWindow
end Harmony.Transport
