import Harmony.Lib.TreeMap

/-! A map folded into a store one key at a time. When a step touches the store at
its own key only, what the fold leaves at a key depends on that key alone: the
entry of the folded map, if there is one, met by what the store held there. -/

namespace Harmony.Lib

open Std

variable {κ υ σ ω : Type}

/-- A step that changes what is seen at its own key only. -/
def StepsAtKey [DecidableEq κ] (view : σ → κ → ω) (step : σ → κ → υ → σ) (f : κ → υ → ω → ω) :
    Prop :=
  ∀ s k v a, view (step s k v) a = if k = a then f k v (view s a) else view s a

section List

variable [DecidableEq κ] {view : σ → κ → ω} {step : σ → κ → υ → σ} {f : κ → υ → ω → ω}

theorem StepsAtKey.foldl_of_notMem (h : StepsAtKey view step f) {l : List (κ × υ)} {a : κ}
    (ha : a ∉ l.map Prod.fst) (s : σ) :
    view (l.foldl (fun s p => step s p.1 p.2) s) a = view s a := by
  induction l generalizing s with
  | nil => rfl
  | cons p l ih =>
    simp only [List.map_cons, List.mem_cons, not_or] at ha
    rw [List.foldl_cons, ih ha.2, h, if_neg (Ne.symm ha.1)]

theorem StepsAtKey.foldl_of_mem (h : StepsAtKey view step f) {l : List (κ × υ)}
    (hnd : (l.map Prod.fst).Nodup) {p : κ × υ} (hp : p ∈ l) (s : σ) :
    view (l.foldl (fun s p => step s p.1 p.2) s) p.1 = f p.1 p.2 (view s p.1) := by
  induction l generalizing s with
  | nil => simp at hp
  | cons q l ih =>
    rw [List.map_cons, List.nodup_cons] at hnd
    rw [List.foldl_cons]
    rcases List.mem_cons.mp hp with rfl | hp
    · rw [h.foldl_of_notMem hnd.1, h, if_pos rfl]
    · have hne : q.1 ≠ p.1 := fun he => hnd.1 (he ▸ List.mem_map_of_mem hp)
      rw [ih hnd.2 hp, h, if_neg hne]

/-- An invariant that looks at the elements already folded. -/
theorem foldl_prefix {α : Type} {P : List α → σ → Prop} {step : σ → α → σ} {l : List α}
    (hkeep : ∀ done x rest, l = done ++ x :: rest → ∀ s, P done s → P (done ++ [x]) (step s x))
    {s : σ} (hs : P [] s) : P l (l.foldl step s) := by
  suffices hrest : ∀ rest done s, l = done ++ rest → P done s → P l (rest.foldl step s) from
    hrest l [] s rfl hs
  intro rest
  induction rest with
  | nil =>
    intro done s hl hs
    rw [List.append_nil] at hl
    exact hl ▸ hs
  | cons x rest ih =>
    intro done s hl hs
    exact ih (done ++ [x]) (step s x) (by simp [hl]) (hkeep done x rest hl s hs)

/-- A fold whose steps have distinct keys and touch, while an invariant lasts, what is
seen at their own key only. -/
theorem foldl_view_prefix {α : Type} {P : List α → σ → Prop} {l : List α} (key : α → κ)
    (view : σ → κ → ω) (step : σ → α → σ) {f : α → ω → ω} (hnd : (l.map key).Nodup)
    (hkeep : ∀ done x rest, l = done ++ x :: rest → ∀ s, P done s → P (done ++ [x]) (step s x))
    (hstep : ∀ done x rest, l = done ++ x :: rest → ∀ s, P done s → ∀ a,
      view (step s x) a = if key x = a then f x (view s a) else view s a)
    {s : σ} (hs : P [] s) (a : κ) :
    view (l.foldl step s) a =
      (l.find? fun x => key x = a).elim (view s a) fun x => f x (view s a) := by
  suffices hrest : ∀ rest done s, l = done ++ rest → P done s → view (rest.foldl step s) a =
      (rest.find? fun x => key x = a).elim (view s a) fun x => f x (view s a) from
    hrest l [] s rfl hs
  intro rest
  induction rest with
  | nil => exact fun _ _ _ _ => rfl
  | cons x rest ih =>
    intro done s hl hs
    have hview := ih (done ++ [x]) (step s x) (by simp [hl]) (hkeep done x rest hl s hs)
    rw [List.foldl_cons, hview, hstep done x rest hl s hs]
    by_cases hk : key x = a
    · -- no later element has this key
      have hnone : (rest.find? fun y => key y = a) = none := by
        rw [List.find?_eq_none]
        intro y hy hya
        rw [hl, List.map_append, List.map_cons] at hnd
        have hx := (List.nodup_cons.mp (List.nodup_append.mp hnd).2.1).1
        exact hx (hk ▸ (of_decide_eq_true hya) ▸ List.mem_map_of_mem hy)
      simp [hnone, hk]
    · simp [hk]

/-- The same with an invariant of the state alone. -/
theorem foldl_view {α : Type} {P : σ → Prop} {l : List α} (key : α → κ) (view : σ → κ → ω)
    (step : σ → α → σ) {f : α → ω → ω} (hnd : (l.map key).Nodup)
    (hkeep : ∀ s, P s → ∀ x ∈ l, P (step s x))
    (hstep : ∀ s, P s → ∀ x ∈ l, ∀ a,
      view (step s x) a = if key x = a then f x (view s a) else view s a)
    {s : σ} (hs : P s) (a : κ) :
    view (l.foldl step s) a = (l.find? fun x => key x = a).elim (view s a) fun x => f x (view s a) := by
  have hmem : ∀ done x rest, l = done ++ x :: rest → x ∈ l := fun done x rest hl => by
    rw [hl]
    exact List.mem_append_right _ List.mem_cons_self
  exact foldl_view_prefix (P := fun _ => P) key view step hnd
    (fun done x rest hl s hs => hkeep s hs x (hmem done x rest hl))
    (fun done x rest hl s hs => hstep s hs x (hmem done x rest hl)) hs a

/-- With distinct keys, a search for a key finds the element that carries it. -/
theorem find?_key_eq_some_iff {l : List (κ × υ)} (hnd : (l.map Prod.fst).Nodup) {a : κ} {q : κ × υ} :
    (l.find? fun p => p.1 = a) = some q ↔ q ∈ l ∧ q.1 = a := by
  constructor
  · intro h
    exact ⟨List.mem_of_find?_eq_some h, by simpa using List.find?_some h⟩
  · rintro ⟨hq, hqa⟩
    obtain ⟨q', hq'⟩ := Option.ne_none_iff_exists'.mp fun hnone :
      (l.find? fun p => p.1 = a) = none => by simpa [hqa] using List.find?_eq_none.mp hnone q hq
    have hqa' : q'.1 = a := by simpa using List.find?_some hq'
    rw [hq', List.inj_on_of_nodup_map hnd (List.mem_of_find?_eq_some hq') hq (hqa'.trans hqa.symm)]

end List

variable [Ord κ] [TransOrd κ] [LawfulEqOrd κ]

theorem nodup_keys_toList (t : BTreeMap κ υ) : (t.toList.map Prod.fst).Nodup := by
  have h := ExtTreeMap.distinct_keys_toList (t := t)
  rw [List.Nodup, List.pairwise_map]
  exact h.imp fun hne heq => hne (compare_eq_iff_eq.mpr heq)

theorem mem_toList_iff {t : BTreeMap κ υ} {p : κ × υ} : p ∈ t.toList ↔ t[p.1]? = some p.2 :=
  ExtTreeMap.mem_toList_iff_getElem?_eq_some

/-- The list of a map is its only ascending list of entries. -/
theorem eq_toList {t : BTreeMap κ υ} {l : List (κ × υ)}
    (hasc : l.Pairwise fun p q => compare p.1 q.1 = .lt)
    (hmem : ∀ p, p ∈ l ↔ t[p.1]? = some p.2) : l = t.toList := by
  have hirr : ∀ p : κ × υ, compare p.1 p.1 ≠ .lt := by simp
  have hnd : ∀ {m : List (κ × υ)}, m.Pairwise (fun p q => compare p.1 q.1 = .lt) → m.Nodup := by
    intro m h
    refine h.imp fun {p q} hlt heq => ?_
    subst heq
    exact hirr p hlt
  have htl := ExtTreeMap.ordered_keys_toList (t := t)
  refine List.Perm.eq_of_pairwise ?_ hasc htl
    ((List.perm_ext_iff_of_nodup (hnd hasc) (hnd htl)).mpr fun p => ?_)
  · intro p q _ _ hpq hqp
    rw [OrientedCmp.gt_of_lt hpq] at hqp
    cases hqp
  · rw [hmem, mem_toList_iff]

/-- An insertion puts its entry in one place of the list and takes the old one from there. -/
theorem toList_insert_split [DecidableEq κ] (t : BTreeMap κ υ) (k : κ) (v : υ) :
    ∃ l r, t.toList = l ++ (t[k]?.map fun w => (k, w)).toList ++ r ∧
      (t.insert k v).toList = l ++ [(k, v)] ++ r := by
  have hasc := ExtTreeMap.ordered_keys_toList (t := t)
  have hside : ∀ m : List (κ × υ), m.length ≤ 1 → (∀ p ∈ m, p.1 = k) →
      (t.toList.filter (compare ·.1 k = .lt) ++ m ++
        t.toList.filter (compare ·.1 k = .gt)).Pairwise fun p q => compare p.1 q.1 = .lt := by
    intro m hlen hm
    have hmasc : m.Pairwise fun p q => compare p.1 q.1 = .lt := by
      match m, hlen with
      | [], _ => exact .nil
      | [p], _ => exact List.pairwise_singleton _ _
    rw [List.pairwise_append, List.pairwise_append]
    refine ⟨⟨hasc.filter _, hmasc, fun p hp q hq => ?_⟩, hasc.filter _, fun p hp q hq => ?_⟩
    · rw [hm q hq]
      simpa using (List.mem_filter.mp hp).2
    · have hgt : compare q.1 k = .gt := by simpa using (List.mem_filter.mp hq).2
      have hlt := OrientedCmp.lt_of_gt hgt
      rcases List.mem_append.mp hp with hp | hp
      · exact TransCmp.lt_trans (by simpa using (List.mem_filter.mp hp).2) hlt
      · rw [hm p hp]
        exact hlt
  have hkeys : ∀ p : κ × υ, p ∈ t.toList.filter (compare ·.1 k = .lt) ∨
      p ∈ t.toList.filter (compare ·.1 k = .gt) ↔ t[p.1]? = some p.2 ∧ p.1 ≠ k := by
    intro p
    simp only [List.mem_filter, mem_toList_iff, decide_eq_true_eq, ← and_or_left]
    refine and_congr_right fun _ => ?_
    rw [ne_eq, ← compare_eq_iff_eq (a := p.1)]
    cases compare p.1 k <;> simp
  refine ⟨t.toList.filter (compare ·.1 k = .lt), t.toList.filter (compare ·.1 k = .gt), ?_, ?_⟩
  · refine (eq_toList (hside _ (by cases t[k]? <;> simp) (by cases t[k]? <;> simp)) ?_).symm
    intro p
    have hp := hkeys p
    rw [List.mem_append, List.mem_append, or_right_comm, hp]
    by_cases hk : p.1 = k
    · rw [hk]
      cases hv : t[k]? with
      | none => simp
      | some w => simp [Prod.ext_iff, hk, eq_comm]
    · cases t[k]? <;> simp [hk, Prod.ext_iff]
  · refine (eq_toList (hside _ (by simp) (by simp)) ?_).symm
    intro p
    have hp := hkeys p
    rw [List.mem_append, List.mem_append, or_right_comm, hp, BTreeMap.get_insert]
    by_cases hk : p.1 = k
    · simp [Prod.ext_iff, hk, eq_comm]
    · simp [hk, Ne.symm hk, Prod.ext_iff]

/-- A search of a map finds the entry of the least key that passes. -/
theorem find?_toList_eq_some_iff (t : BTreeMap κ υ) {p : κ × υ → Bool} {q : κ × υ} :
    t.toList.find? p = some q ↔
      t[q.1]? = some q.2 ∧ p q = true ∧
        ∀ r : κ × υ, t[r.1]? = some r.2 → compare r.1 q.1 = .lt → p r = false := by
  have hasc := ExtTreeMap.ordered_keys_toList (t := t)
  rw [← mem_toList_iff]
  constructor
  · intro h
    refine ⟨List.mem_of_find?_eq_some h, List.find?_some h, fun r hr hlt => ?_⟩
    obtain ⟨-, before, after, hl, hbefore⟩ := List.find?_eq_some_iff_append.mp h
    rw [← mem_toList_iff, hl, List.mem_append, List.mem_cons] at hr
    rw [hl, List.pairwise_append, List.pairwise_cons] at hasc
    rcases hr with hr | rfl | hr
    · simpa using hbefore r hr
    · simp at hlt
    · rw [OrientedCmp.gt_of_lt (hasc.2.1.1 r hr)] at hlt
      cases hlt
  · rintro ⟨hq, hp, hleast⟩
    obtain ⟨before, after, hl⟩ := List.append_of_mem hq
    refine List.find?_eq_some_iff_append.mpr ⟨hp, before, after, hl, fun r hr => ?_⟩
    rw [hl, List.pairwise_append] at hasc
    have hmem : r ∈ t.toList := hl ▸ List.mem_append_left _ hr
    rw [hleast r (mem_toList_iff.mp hmem) (hasc.2.2 r hr q List.mem_cons_self)]
    rfl

/-- What a fold over a map leaves at a key. -/
theorem StepsAtKey.foldl [DecidableEq κ] {view : σ → κ → ω} {step : σ → κ → υ → σ}
    {f : κ → υ → ω → ω} (h : StepsAtKey view step f) (t : BTreeMap κ υ) (s : σ) (a : κ) :
    view (t.foldl step s) a = t[a]?.elim (view s a) fun v => f a v (view s a) := by
  rw [ExtTreeMap.foldl_eq_foldl_toList]
  cases hv : t[a]? with
  | none =>
    rw [Option.elim_none]
    refine h.foldl_of_notMem (fun ha => ?_) s
    obtain ⟨p, hp, rfl⟩ := List.mem_map.mp ha
    rw [mem_toList_iff.mp hp] at hv
    exact absurd hv (by simp)
  | some v =>
    exact h.foldl_of_mem (nodup_keys_toList t) (mem_toList_iff (p := (a, v)).mpr hv) s

theorem find?_toList_key [DecidableEq κ] (t : BTreeMap κ υ) (a : κ) :
    (t.toList.find? fun p => p.1 = a) = t[a]?.map fun v => (a, v) := by
  refine Option.ext fun q => ?_
  rw [find?_key_eq_some_iff (nodup_keys_toList t), mem_toList_iff, Option.map_eq_some_iff]
  constructor
  · rintro ⟨hq, rfl⟩
    exact ⟨q.2, hq, rfl⟩
  · rintro ⟨v, hv, rfl⟩
    exact ⟨hv, rfl⟩

/-- What a fold over a map leaves at a key when every value stands under its own key. -/
theorem foldl_values_get [DecidableEq κ] (view : σ → κ → ω) (step : σ → υ → σ) {f : υ → ω → ω}
    {key : υ → κ} {t : BTreeMap κ υ} (hkey : ∀ (k : κ) (v : υ), t[k]? = some v → key v = k)
    (hstep : ∀ s v a, view (step s v) a = if key v = a then f v (view s a) else view s a) (s : σ)
    (a : κ) :
    view (t.foldl (fun s _ v => step s v) s) a = t[a]?.elim (view s a) fun v => f v (view s a) := by
  rw [ExtTreeMap.foldl_eq_foldl_toList]
  rw [foldl_view (P := fun _ => True) Prod.fst view (fun s p => step s p.2)
    (f := fun p => f p.2) (nodup_keys_toList t) (fun _ _ _ _ => trivial)
    (fun s _ p hp a => by rw [hstep, hkey p.1 p.2 (mem_toList_iff.mp hp)]) trivial,
    find?_toList_key]
  cases t[a]? <;> rfl

/-- What holds of the start and is kept by every step holds of the result. -/
theorem foldl_induction {P : σ → Prop} {step : σ → κ → υ → σ} (t : BTreeMap κ υ) {s : σ} (h0 : P s)
    (h : ∀ s k v, t[k]? = some v → P s → P (step s k v)) : P (t.foldl step s) := by
  rw [ExtTreeMap.foldl_eq_foldl_toList]
  exact List.foldlRecOn t.toList _ h0 fun s hs p hp => h s p.1 p.2 (mem_toList_iff.mp hp) hs

omit [LawfulEqOrd κ] in
/-- A fold passes over the entries at which its step does nothing. -/
theorem foldl_filter_skip {f : σ → κ → υ → σ} {p : κ → υ → Bool} (t : BTreeMap κ υ)
    (hskip : ∀ s k v, p k v = false → f s k v = s) (s : σ) :
    (t.filter p).foldl f s = t.foldl f s := by
  rw [ExtTreeMap.foldl_eq_foldl_toList, ExtTreeMap.foldl_eq_foldl_toList,
    ExtTreeMap.toList_filter, List.foldl_filter]
  congr 1
  funext s x
  split_ifs with hp
  · rfl
  · exact (hskip s x.1 x.2 (by simpa using hp)).symm

theorem filter_eq_self_iff {p : κ → υ → Bool} (t : BTreeMap κ υ) :
    t.filter p = t ↔ ∀ (k : κ) (v : υ), t[k]? = some v → p k v = true := by
  constructor
  · intro h k v hv
    have hk : (t.filter p)[k]? = some v := by rw [h, hv]
    rw [ExtTreeMap.getElem?_filter', hv, Option.filter_eq_some_iff] at hk
    exact hk.2
  · intro h
    refine ExtTreeMap.ext_getElem? fun k => ?_
    rw [ExtTreeMap.getElem?_filter']
    cases hv : t[k]? with
    | none => rfl
    | some v => rw [Option.filter_some, if_pos (h k v hv)]

end Harmony.Lib
