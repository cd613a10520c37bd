import Harmony.Owner.SpaceTable

/-! The rows of the table seen by conversation. A conversation has at most one row,
and a row of a snapshot reaches the row of its own conversation only, so what the
rows of a whole snapshot leave of a conversation is read off the two rows that the
two sides hold for it. -/

namespace Harmony.Owner

open Harmony.Lib
open Harmony.Membership (SpaceId Hlc)

/-- What a row is about: its dedupe key or, for a folder, which has none, its id. -/
def Space.conversation (sp : Space) : DedupeKey × Option SpaceId :=
  (sp.dedupeKey, if sp.dedupeKey = .none then some sp.id else none)

theorem Space.conversation_eq {a b : Space} (hk : a.dedupeKey = b.dedupeKey)
    (hid : a.dedupeKey = .none → a.id = b.id) : a.conversation = b.conversation := by
  unfold conversation
  rw [← hk]
  split_ifs with h
  · rw [hid h]
  · rfl

theorem Space.dedupeKey_eq_of_conversation {a b : Space} (h : a.conversation = b.conversation) :
    a.dedupeKey = b.dedupeKey := congrArg Prod.fst h

def meet (old : Option Space) (sp : Space) : Space :=
  match old with
  | none => sp
  | some a =>
    if a.id = sp.id then
      match sameIdChecks a sp with
      | .ok _ => lwwMergeSpace a sp
      | .error _ => a
    else { lwwMergeSpace a sp with id := min a.id sp.id }

namespace OwnerState

def row (s : OwnerState) (c : DedupeKey × Option SpaceId) : Option Space :=
  (s.spaces.toList.find? fun p => p.2.conversation = c).map Prod.snd

section Row

variable {s s' : OwnerState} {c : DedupeKey × Option SpaceId} {sp : Space}

theorem TableShape.conversation_inj (h : TableShape s) {i j : SpaceId} {a b : Space}
    (ha : s.spaces[i]? = some a) (hb : s.spaces[j]? = some b)
    (hc : a.conversation = b.conversation) : i = j := by
  have hk := Space.dedupeKey_eq_of_conversation hc
  by_cases hnone : a.dedupeKey = .none
  · simp only [Space.conversation, hnone, hk ▸ hnone, if_true, Prod.mk.injEq, Option.some.injEq,
      true_and] at hc
    rw [← h.ownId i a ha, ← h.ownId j b hb, hc]
  · exact h.distinct i j a b ha hb hk hnone

theorem row_eq_some (h : TableShape s) :
    s.row c = some sp ↔ s.spaces[sp.id]? = some sp ∧ sp.conversation = c := by
  unfold row
  rw [Option.map_eq_some_iff]
  constructor
  · rintro ⟨p, hp, rfl⟩
    have hget := mem_toList_iff.mp (List.mem_of_find?_eq_some hp)
    rw [h.ownId p.1 p.2 hget]
    exact ⟨hget, by simpa using List.find?_some hp⟩
  · rintro ⟨hget, hc⟩
    have hmem : (sp.id, sp) ∈ s.spaces.toList := mem_toList_iff.mpr hget
    obtain ⟨q, hq⟩ := Option.ne_none_iff_exists'.mp fun hnone : (s.spaces.toList.find? fun p =>
      p.2.conversation = c) = none => by simpa [hc] using List.find?_eq_none.mp hnone _ hmem
    have hgetq := mem_toList_iff.mp (List.mem_of_find?_eq_some hq)
    have hcq : q.2.conversation = c := by simpa using List.find?_some hq
    have hid := h.conversation_inj hgetq hget (hcq.trans hc.symm)
    rw [hid, hget] at hgetq
    exact ⟨q, hq, (Option.some.inj hgetq).symm⟩

theorem row_eq_none (h : TableShape s) :
    s.row c = none ↔ ∀ (id : SpaceId) (sp : Space), s.spaces[id]? = some sp → sp.conversation ≠ c := by
  constructor
  · intro hnone id sp hget hc
    have hrow := (row_eq_some h).mpr ⟨(h.ownId id sp hget).symm ▸ hget, hc⟩
    rw [hnone] at hrow
    cases hrow
  · intro hall
    rw [Option.eq_none_iff_forall_ne_some]
    intro sp hsp
    obtain ⟨hget, hc⟩ := (row_eq_some h).mp hsp
    exact hall sp.id sp hget hc

theorem spaces_ext (h : TableShape s) (h' : TableShape s') (hrow : ∀ c, s.row c = s'.row c) :
    s.spaces = s'.spaces := by
  have hsub : ∀ {s s' : OwnerState}, TableShape s → TableShape s' → (∀ c, s.row c = s'.row c) →
      ∀ (id : SpaceId) (sp : Space), s.spaces[id]? = some sp → s'.spaces[id]? = some sp := by
    intro s s' h h' hrow id sp hget
    have hid := h.ownId id sp hget
    have hsome := (row_eq_some h).mpr ⟨hid.symm ▸ hget, rfl⟩
    rw [hrow] at hsome
    exact hid ▸ ((row_eq_some h').mp hsome).1
  refine Std.ExtTreeMap.ext_getElem? fun id => Option.ext fun sp => ⟨?_, ?_⟩
  · exact hsub h h' hrow id sp
  · exact hsub h' h (fun c => (hrow c).symm) id sp

/-- Putting a row in place of the rows of its conversation. -/
theorem row_put (h : TableShape s) (h' : TableShape s') (new : Space)
    (hnew : s'.spaces[new.id]? = some new)
    (hother : ∀ (id : SpaceId) (sp : Space), sp.conversation ≠ new.conversation →
      (s'.spaces[id]? = some sp ↔ s.spaces[id]? = some sp)) (c : DedupeKey × Option SpaceId) :
    s'.row c = if new.conversation = c then some new else s.row c := by
  split_ifs with hc
  · exact (row_eq_some h').mpr ⟨hnew, hc⟩
  · refine Option.ext fun sp => ?_
    rw [row_eq_some h, row_eq_some h']
    constructor <;> rintro ⟨hget, rfl⟩
    · exact ⟨(hother sp.id sp (Ne.symm hc)).mp hget, rfl⟩
    · exact ⟨(hother sp.id sp (Ne.symm hc)).mpr hget, rfl⟩

end Row

/-- What offering a row leaves of the row of its conversation. -/
def offered (s : OwnerState) (old : Option Space) (sp : Space) : Option Space :=
  match s.gateSpace sp with
  | .ok _ => some (meet old sp)
  | .error _ => old

theorem gateSpace_congr {s s' : OwnerState} (ht : s'.tombstones = s.tombstones)
    (hd : s'.dedupeTombstones = s.dedupeTombstones) (sp : Space) :
    s'.gateSpace sp = s.gateSpace sp := by
  simp only [gateSpace, dominated, ht, hd]

theorem offered_congr {s s' : OwnerState} (ht : s'.tombstones = s.tombstones)
    (hd : s'.dedupeTombstones = s.dedupeTombstones) (old : Option Space) (sp : Space) :
    s'.offered old sp = s.offered old sp := by
  simp only [offered, gateSpace_congr ht hd]

section Apply

variable {s : OwnerState} {sp : Space}

theorem dedupeKey_not_id {a b : Space} (hk : a.dedupeKey = b.dedupeKey) (hne : a.id ≠ b.id)
    (i : SpaceId) : a.dedupeKey ≠ .id i := by
  intro hi
  exact hne ((Space.dedupeKey_eq_id hi).trans (Space.dedupeKey_eq_id (hk ▸ hi)).symm)

theorem meet_conversation {old : Option Space}
    (hold : ∀ a, old = some a → a.conversation = sp.conversation) :
    (meet old sp).conversation = sp.conversation := by
  cases old with
  | none => rfl
  | some a =>
    have hc := hold a rfl
    have hk := Space.dedupeKey_eq_of_conversation hc
    have hmk := lwwMergeSpace_dedupeKey hk
    unfold meet
    dsimp only
    split_ifs with hid
    · split
      · refine Space.conversation_eq hmk fun _ => ?_
        change (newerRow a sp).id = sp.id
        rcases newerRow_choice a sp with h | h <;> simp [h, hid]
      · exact hc
    · have hnotid := dedupeKey_not_id hk hid
      have hrow := (Space.dedupeKey_with_id (fun i => (hmk.trans hk.symm).symm ▸ hnotid i)
        (min a.id sp.id)).trans hmk
      refine Space.conversation_eq hrow fun hnone => ?_
      simp only [Space.conversation, hk, hrow ▸ hnone, if_true, Prod.mk.injEq, Option.some.injEq,
        true_and] at hc
      exact absurd hc hid

theorem meet_id (old : Option Space) (sp : Space) :
    (meet old sp).id = old.elim sp.id fun a => min a.id sp.id := by
  cases old with
  | none => rfl
  | some a =>
    unfold meet
    dsimp only [Option.elim]
    split_ifs with hid
    · rw [hid, min_self]
      split
      · change (newerRow a sp).id = sp.id
        rcases newerRow_choice a sp with h | h <;> simp [h, hid]
      · exact hid
    · rfl

theorem row_insert (h : TableShape s) (new : Space)
    (hshape : TableShape { s with spaces := s.spaces.insert new.id new })
    (hplace : ∀ b, s.spaces[new.id]? = some b → b.conversation = new.conversation)
    (c : DedupeKey × Option SpaceId) :
    { s with spaces := s.spaces.insert new.id new }.row c =
      if new.conversation = c then some new else s.row c := by
  refine row_put h hshape new (by simp) ?_ c
  intro id b hb
  rw [BTreeMap.get_insert]
  split_ifs with he
  · subst he
    refine iff_of_false ?_ fun hget => hb (hplace b hget)
    rintro ⟨rfl⟩
    exact hb rfl
  · rfl

/-- A row written at the smaller of two ids, of which one held a row of its
conversation and the other nothing. -/
theorem row_collapse (h : TableShape s) (new : Space) {i j : SpaceId} {a : Space}
    (hi : s.spaces[i]? = some a) (hj : s.spaces[j]? = none) (hid : new.id = min i j)
    (hconv : a.conversation = new.conversation)
    (hshape : TableShape { s with spaces := (s.spaces.erase (max i j)).insert (min i j) new })
    (c : DedupeKey × Option SpaceId) :
    { s with spaces := (s.spaces.erase (max i j)).insert (min i j) new }.row c =
      if new.conversation = c then some new else s.row c := by
  refine row_put h hshape new (by simp [hid]) ?_ c
  intro k b hb
  -- the two ids held the old row or nothing, and hold the new row or nothing
  have hends : k = min i j ∨ k = max i j → s.spaces[k]? ≠ some b := by
    intro hk hkb
    have hcase : k = i ∨ k = j := by
      rcases hk with rfl | rfl
      · exact min_choice i j
      · exact max_choice i j
    rcases hcase with rfl | rfl
    · rw [hi] at hkb
      exact hb (Option.some.inj hkb ▸ hconv)
    · rw [hj] at hkb
      cases hkb
  rw [BTreeMap.get_insert, BTreeMap.get_erase]
  split_ifs with hmin hmax
  · refine iff_of_false ?_ (hends (Or.inl hmin.symm))
    rintro ⟨rfl⟩
    exact hb rfl
  · exact iff_of_false (by simp) (hends (Or.inr hmax.symm))
  · rfl

theorem row_of_fresh (h : TableShape s) (hget : s.spaces[sp.id]? = none)
    (hf : findDedupe s.spaces sp.dedupeKey = none) : s.row sp.conversation = none := by
  rw [row_eq_none h]
  intro id b hb hc
  have hk := Space.dedupeKey_eq_of_conversation hc
  by_cases hnone : sp.dedupeKey = .none
  · simp only [Space.conversation, hk, hnone, if_true, Prod.mk.injEq, Option.some.injEq,
      true_and] at hc
    rw [← hc, h.ownId id b hb, hb] at hget
    cases hget
  · exact findDedupe_eq_none hf hnone hb hk

/-- Offering a row changes the row of its own conversation only, provided that its
id does not stand for another conversation. -/
theorem row_applySpace (h : SpaceTable s)
    (hids : ∀ a, s.spaces[sp.id]? = some a → a.dedupeKey = sp.dedupeKey)
    (c : DedupeKey × Option SpaceId) :
    (s.applySpace sp).1.row c =
      if sp.conversation = c then s.offered (s.row c) sp else s.row c := by
  have hshape := (h.applySpace sp).toTableShape
  have hnew : (meet (s.row sp.conversation) sp).conversation = sp.conversation :=
    meet_conversation fun a ha => ((row_eq_some h.toTableShape).mp ha).2
  have hid := meet_id (s.row sp.conversation) sp
  -- it is enough that the accepted row stands in place of the row of the conversation
  suffices hput : s.gateSpace sp = .ok () → (s.applySpace sp).1.row c =
      if sp.conversation = c then some (meet (s.row sp.conversation) sp) else s.row c by
    cases hg : s.gateSpace sp with
    | error r => simp [applySpace, offered, hg]
    | ok =>
      rw [hput hg]
      split_ifs with hc
      · subst hc
        simp [offered, hg]
      · rfl
  intro hg
  cases hget : s.spaces[sp.id]? with
  | some a =>
    have haid := h.ownId sp.id a hget
    have hconv : a.conversation = sp.conversation :=
      Space.conversation_eq (hids a hget) fun _ => haid
    have hrow : s.row sp.conversation = some a :=
      (row_eq_some h.toTableShape).mpr ⟨haid.symm ▸ hget, hconv⟩
    rw [hrow, Option.elim_some, haid, min_self] at hid
    rw [hrow] at hnew ⊢
    cases hchk : sameIdChecks a sp with
    | error e =>
      have hmeet : meet (some a) sp = a := by simp [meet, haid, hchk]
      simp only [applySpace, hg, hget, hchk, hmeet]
      split_ifs with hc
      · rw [← hc, hrow]
      · rfl
    | ok =>
      have hmeet : meet (some a) sp = lwwMergeSpace a sp := by simp [meet, haid, hchk]
      simp only [applySpace, hg, hget, hchk, ← hmeet] at hshape ⊢
      rw [← hid] at hshape ⊢
      rw [row_insert h.toTableShape _ hshape ?_ c, hnew]
      intro b hb
      rw [hid, hget] at hb
      rw [hnew, ← Option.some.inj hb, hconv]
  | none =>
    cases hf : findDedupe s.spaces sp.dedupeKey with
    | none =>
      rw [row_of_fresh h.toTableShape hget hf]
      simp only [applySpace, hg, hget, hf] at hshape ⊢
      exact row_insert h.toTableShape sp hshape (fun b hb => by rw [hget] at hb; cases hb) c
    | some p =>
      obtain ⟨id, a⟩ := p
      obtain ⟨hdk, hga, hka⟩ := findDedupe_eq_some hf
      have haid := h.ownId id a hga
      have hne : a.id ≠ sp.id := by
        intro he
        rw [← he, haid] at hget
        rw [hga] at hget
        cases hget
      have hconv : a.conversation = sp.conversation :=
        Space.conversation_eq hka fun hnone => absurd (hka ▸ hnone) hdk
      have hrow : s.row sp.conversation = some a :=
        (row_eq_some h.toTableShape).mpr ⟨haid.symm ▸ hga, hconv⟩
      rw [hrow, Option.elim_some, haid] at hid
      rw [hrow] at hnew ⊢
      have hmeet : meet (some a) sp = { lwwMergeSpace a sp with id := min id sp.id } := by
        simp only [meet]
        rw [if_neg hne, haid]
      simp only [applySpace, hg, hget, hf, ← hmeet] at hshape ⊢
      rw [row_collapse h.toTableShape _ hga hget hid (hconv.trans hnew.symm) hshape c, hnew]

end Apply

/-- An id that both sides use stands for one conversation. -/
def IdsAgree (s remote : OwnerState) : Prop :=
  ∀ (id : SpaceId) (a b : Space), s.spaces[id]? = some a → remote.spaces[id]? = some b →
    a.dedupeKey = b.dedupeKey

/-- A row of a snapshot is taken in: its stamp is not ahead of the clock, and the
local deletions do not reject it. -/
def Accepts (now : Option ℕ) (s : OwnerState) (sp : Space) : Prop :=
  wallExceedsForwardSkew sp.updatedAt.wallMs now = false ∧ s.gateSpace sp = .ok ()

/-- The row that a snapshot holds under the id is refused: another conversation stands
there, and no earlier row of the snapshot has moved it to a smaller id. -/
inductive Clash (now : Option ℕ) (s remote : OwnerState) : SpaceId → Prop where
  | intro {j : SpaceId} {a sp : Space} (held : s.spaces[j]? = some a)
    (incoming : remote.spaces[j]? = some sp) (differ : a.dedupeKey ≠ sp.dedupeKey)
    (stays : ∀ (i : SpaceId) (r : Space), i < j → remote.spaces[i]? = some r →
      r.dedupeKey = a.dedupeKey → a.dedupeKey ≠ .none → Accepts now s r → Clash now s remote i) :
    Clash now s remote j

section Clash

variable {now : Option ℕ} {s s' remote : OwnerState} {j : SpaceId}

theorem IdsAgree.not_clash (h : IdsAgree s remote) : ¬Clash now s remote j := by
  rintro ⟨held, incoming, differ, -⟩
  exact differ (h j _ _ held incoming)

theorem accepts_congr (ht : s'.tombstones = s.tombstones)
    (hd : s'.dedupeTombstones = s.dedupeTombstones) (sp : Space) :
    Accepts now s' sp ↔ Accepts now s sp := by
  unfold Accepts
  rw [gateSpace_congr ht hd]

theorem Clash.congr (hs : s'.spaces = s.spaces) (ht : s'.tombstones = s.tombstones)
    (hd : s'.dedupeTombstones = s.dedupeTombstones) (h : Clash now s' remote j) :
    Clash now s remote j := by
  induction h with
  | intro held incoming differ _ ih =>
    refine .intro (hs ▸ held) incoming differ fun i r hi hr hk hne hacc => ?_
    exact ih i r hi hr hk hne ((accepts_congr ht hd r).mpr hacc)

end Clash

section Snapshot

variable {now : Option ℕ} {s t remote : OwnerState}

def met (now : Option ℕ) (s : OwnerState) (old : Option Space) (sp : Space) : Option Space :=
  if wallExceedsForwardSkew sp.updatedAt.wallMs now then old else s.offered old sp

theorem met_of_accepts {sp : Space} (h : Accepts now s sp) (old : Option Space) :
    s.met now old sp = some (meet old sp) := by
  simp only [met, h.1, Bool.false_eq_true, if_false, offered, h.2]

theorem met_of_not_accepts {sp : Space} (h : ¬Accepts now s sp) (old : Option Space) :
    s.met now old sp = old := by
  unfold met offered
  split_ifs with hskew
  · rfl
  · split
    · next hg => exact absurd ⟨by simpa using hskew, hg⟩ h
    · rfl

open Classical in
noncomputable def taken (now : Option ℕ) (s remote : OwnerState) (old : Option Space) (sp : Space) :
    Option Space :=
  if Clash now s remote sp.id then old else s.met now old sp

theorem taken_of_clash {sp : Space} (h : Clash now s remote sp.id) (old : Option Space) :
    taken now s remote old sp = old := if_pos h

theorem taken_of_not_clash {sp : Space} (h : ¬Clash now s remote sp.id) (old : Option Space) :
    taken now s remote old sp = s.met now old sp := if_neg h

def mergeSpaces (now : Option ℕ) (s remote : OwnerState) : OwnerState :=
  remote.spaces.foldl (fun s _ sp => s.mergeSpace now sp) s

theorem row_congr (h : t.spaces = s.spaces) (c : DedupeKey × Option SpaceId) : t.row c = s.row c := by
  simp only [row, h]

theorem row_mergeSpace (h : SpaceTable t) {sp : Space}
    (hids : ∀ a, t.spaces[sp.id]? = some a → a.dedupeKey = sp.dedupeKey)
    (c : DedupeKey × Option SpaceId) :
    (t.mergeSpace now sp).row c = if sp.conversation = c then t.met now (t.row c) sp else t.row c := by
  unfold mergeSpace met
  split_ifs with hskew hc
  · rfl
  · rfl
  all_goals
    rw [row_congr (t.applySpaceWithCanonicalization_table sp).1 c, row_applySpace h hids c]
    simp [*]

theorem mergeSpace_tombstones (now : Option ℕ) (t : OwnerState) (sp : Space) :
    (t.mergeSpace now sp).tombstones = t.tombstones ∧
      (t.mergeSpace now sp).dedupeTombstones = t.dedupeTombstones := by
  unfold mergeSpace
  split_ifs
  · exact ⟨rfl, rfl⟩
  · exact (t.applySpaceWithCanonicalization_table sp).2

theorem mergeSpace_of_other {a sp : Space} (ha : t.spaces[sp.id]? = some a)
    (hne : a.dedupeKey ≠ sp.dedupeKey) : t.mergeSpace now sp = t := by
  unfold mergeSpace
  split_ifs
  · rfl
  · cases hg : t.gateSpace sp with
    | error r => simp [applySpaceWithCanonicalization, applySpace, hg]
    | ok =>
      cases hchk : sameIdChecks a sp with
      | error e => simp [applySpaceWithCanonicalization, applySpace, hg, ha, hchk]
      | ok => exact absurd (sameIdChecks_eq_ok hchk).2.1.symm hne

/-- What stays while the rows of a snapshot are offered: an id beyond the offered ones
holds the row it held, unless a row of that conversation has been taken in. -/
structure Offering (now : Option ℕ) (s remote : OwnerState) (done : List (SpaceId × Space))
    (t : OwnerState) : Prop where
  table : SpaceTable t
  tombstones : t.tombstones = s.tombstones
  dedupeTombstones : t.dedupeTombstones = s.dedupeTombstones
  ahead : ∀ (j : SpaceId) (a : Space), (∀ q ∈ done, q.1 < j) →
    (t.spaces[j]? = some a ↔ s.spaces[j]? = some a ∧ ∀ q ∈ done, q.2.dedupeKey = a.dedupeKey →
      a.dedupeKey ≠ .none → Accepts now s q.2 → Clash now s remote q.1)

section Offered

variable {done rest : List (SpaceId × Space)} {j : SpaceId} {sp : Space}

theorem Offering.start (hs : SpaceTable s) : Offering now s remote [] s :=
  ⟨hs, rfl, rfl, by simp⟩

theorem mem_offered (hsplit : remote.spaces.toList = done ++ (j, sp) :: rest)
    {q : SpaceId × Space} : q ∈ done ↔ remote.spaces[q.1]? = some q.2 ∧ q.1 < j := by
  have hasc := Std.ExtTreeMap.ordered_keys_toList (t := remote.spaces)
  rw [hsplit, List.pairwise_append, List.pairwise_cons] at hasc
  rw [← mem_toList_iff, hsplit, List.mem_append, List.mem_cons]
  constructor
  · intro hq
    exact ⟨Or.inl hq, compare_lt_iff_lt.mp (hasc.2.2 q hq _ List.mem_cons_self)⟩
  · rintro ⟨hq | rfl | hq, hlt⟩
    · exact hq
    · exact absurd hlt (lt_irrefl _)
    · exact absurd (compare_lt_iff_lt.mp (hasc.2.1.1 q hq)) hlt.not_gt

theorem offered_get (hsplit : remote.spaces.toList = done ++ (j, sp) :: rest) :
    remote.spaces[j]? = some sp := by
  have hmem : (j, sp) ∈ remote.spaces.toList := by simp [hsplit]
  exact mem_toList_iff.mp hmem

theorem Offering.clash_iff (h : Offering now s remote done t)
    (hsplit : remote.spaces.toList = done ++ (j, sp) :: rest) :
    Clash now s remote j ↔ ∃ a, t.spaces[j]? = some a ∧ a.dedupeKey ≠ sp.dedupeKey := by
  have hahead := fun a => h.ahead j a fun q hq => ((mem_offered hsplit).mp hq).2
  have hsp := offered_get hsplit
  constructor
  · rintro ⟨held, incoming, differ, stays⟩
    obtain rfl := Option.some.inj (hsp.symm.trans incoming)
    refine ⟨_, (hahead _).mpr ⟨held, fun q hq hk hne hacc => ?_⟩, differ⟩
    obtain ⟨hget, hlt⟩ := (mem_offered hsplit).mp hq
    exact stays q.1 q.2 hlt hget hk hne hacc
  · rintro ⟨a, ha, hne⟩
    obtain ⟨held, hearlier⟩ := (hahead a).mp ha
    refine .intro held hsp hne fun i r hi hr hk hnone hacc => ?_
    exact hearlier (i, r) ((mem_offered hsplit).mpr ⟨hr, hi⟩) hk hnone hacc

theorem Offering.row_step (h : Offering now s remote done t) (hr : TableShape remote)
    (hsplit : remote.spaces.toList = done ++ (j, sp) :: rest) (c : DedupeKey × Option SpaceId) :
    (t.mergeSpace now sp).row c =
      if sp.conversation = c then taken now s remote (t.row c) sp else t.row c := by
  have hid := hr.ownId j sp (offered_get hsplit)
  have hiff := h.clash_iff hsplit
  rw [← hid] at hiff
  by_cases hclash : Clash now s remote sp.id
  · obtain ⟨a, ha, hne⟩ := hiff.mp hclash
    rw [mergeSpace_of_other ha hne, taken_of_clash hclash, ite_self]
  · have hids : ∀ a, t.spaces[sp.id]? = some a → a.dedupeKey = sp.dedupeKey := by
      intro a ha
      by_contra hne
      exact hclash (hiff.mpr ⟨a, ha, hne⟩)
    rw [row_mergeSpace h.table hids, taken_of_not_clash hclash]
    simp only [met, offered_congr h.tombstones h.dedupeTombstones]

theorem Offering.step (h : Offering now s remote done t) (hr : TableShape remote)
    (hsplit : remote.spaces.toList = done ++ (j, sp) :: rest) :
    Offering now s remote (done ++ [(j, sp)]) (t.mergeSpace now sp) := by
  have htable := h.table.mergeSpace now sp
  have hkept := mergeSpace_tombstones now t sp
  have hid := hr.ownId j sp (offered_get hsplit)
  refine ⟨htable, hkept.1.trans h.tombstones, hkept.2.trans h.dedupeTombstones, ?_⟩
  intro i a hi
  have hlt : j < i := hi (j, sp) (by simp)
  have hahead := h.ahead i a fun q hq => hi q (List.mem_append_left _ hq)
  -- the row at `i` is that of its conversation
  have hget : ∀ u : OwnerState, SpaceTable u →
      (u.spaces[i]? = some a ↔ u.row a.conversation = some a ∧ a.id = i) := by
    intro u hu
    rw [row_eq_some hu.toTableShape]
    constructor
    · intro ha
      have hai := hu.ownId i a ha
      exact ⟨⟨hai.symm ▸ ha, rfl⟩, hai⟩
    · rintro ⟨⟨ha, -⟩, rfl⟩
      exact ha
  simp only [List.mem_append, List.mem_singleton, or_imp, forall_and, forall_eq]
  rw [← and_assoc, ← hahead, hget _ htable, h.row_step hr hsplit, hget t h.table]
  by_cases hc : sp.conversation = a.conversation
  · rw [if_pos hc]
    have hk := Space.dedupeKey_eq_of_conversation hc
    by_cases hfree : Accepts now s sp → Clash now s remote j
    · -- the row leaves its conversation alone
      have htaken : taken now s remote (t.row a.conversation) sp = t.row a.conversation := by
        by_cases hclash : Clash now s remote sp.id
        · exact taken_of_clash hclash _
        · rw [taken_of_not_clash hclash, met_of_not_accepts]
          exact fun hacc => hclash (hid.symm ▸ hfree hacc)
      rw [htaken]
      exact ⟨fun hrow => ⟨hrow, fun _ _ => hfree⟩, fun hrow => hrow.1⟩
    · -- the row takes its conversation to its own id or a smaller one
      obtain ⟨hacc, hclash⟩ := Classical.not_imp.mp hfree
      rw [taken_of_not_clash (hid.symm ▸ hclash), met_of_accepts hacc, Option.some.injEq]
      refine iff_of_false ?_ ?_
      · rintro ⟨hmeet, hai⟩
        have hmid := meet_id (t.row a.conversation) sp
        rw [hmeet, hai, hid] at hmid
        cases hrow : t.row a.conversation with
        | none =>
          rw [hrow] at hmid
          exact hlt.ne' hmid
        | some b =>
          rw [hrow, Option.elim_some] at hmid
          exact absurd (hmid ▸ min_le_right b.id j) hlt.not_ge
      · rintro ⟨⟨hrow, hai⟩, hnone⟩
        by_cases hne : a.dedupeKey = .none
        · simp only [Space.conversation, hk, hne, if_true, Prod.mk.injEq, Option.some.injEq,
            true_and] at hc
          exact hlt.ne (hid.symm.trans (hc.trans hai))
        · exact hfree (hnone hk hne)
  · rw [if_neg hc]
    refine ⟨fun hrow => ⟨hrow, fun hk hne _ => absurd ?_ hc⟩, fun hrow => hrow.1⟩
    exact Space.conversation_eq hk fun hnone => absurd (hk ▸ hnone) hne

end Offered

theorem nodup_conversations (hr : TableShape remote) :
    (remote.spaces.toList.map fun p => p.2.conversation).Nodup := by
  have hkeys := nodup_keys_toList remote.spaces
  rw [List.Nodup, List.pairwise_map] at hkeys ⊢
  refine hkeys.imp_of_mem fun hp hq hne hc => hne ?_
  exact hr.conversation_inj (mem_toList_iff.mp hp) (mem_toList_iff.mp hq) hc

theorem offering_mergeSpaces (now : Option ℕ) (hs : SpaceTable s) (hr : TableShape remote) :
    Offering now s remote remote.spaces.toList (s.mergeSpaces now remote) := by
  unfold mergeSpaces
  rw [Std.ExtTreeMap.foldl_eq_foldl_toList]
  exact foldl_prefix (P := Offering now s remote) (fun _ _ _ hsplit _ ht => ht.step hr hsplit)
    (Offering.start hs)

theorem row_mergeSpaces (now : Option ℕ) (hs : SpaceTable s) (hr : TableShape remote)
    (c : DedupeKey × Option SpaceId) :
    (s.mergeSpaces now remote).row c =
      (remote.row c).elim (s.row c) (taken now s remote (s.row c)) := by
  have hfold := foldl_view_prefix (P := Offering now s remote)
    (fun p : SpaceId × Space => p.2.conversation) row (fun t p => t.mergeSpace now p.2)
    (f := fun p old => taken now s remote old p.2) (nodup_conversations hr)
    (fun _ _ _ hsplit _ ht => ht.step hr hsplit)
    (fun _ _ _ hsplit _ ht c => ht.row_step hr hsplit c) (Offering.start hs) c
  unfold mergeSpaces
  rw [Std.ExtTreeMap.foldl_eq_foldl_toList]
  refine hfold.trans ?_
  unfold row
  cases remote.spaces.toList.find? fun p => p.2.conversation = c <;> rfl

theorem mem_dedupeDominated {s : OwnerState} {id : SpaceId} :
    id ∈ s.dedupeDominated ↔ ∃ sp, s.spaces[id]? = some sp ∧ s.dominated sp = true := by
  simp [dedupeDominated, mem_toList_iff]

/-- The first step of the merge: the snapshot's outbox tombstones. -/
def sweepOutbox (s remote : OwnerState) : OwnerState :=
  let maps := remote.outboxTombstones.foldl mergeOutboxTombstone (s.outboxTombstones, s.outbox)
  { s with outboxTombstones := maps.1, outbox := maps.2 }

/-- The state of the merge before the snapshot's deletions of rows. -/
def beforeDeletions (now : Option ℕ) (s remote : OwnerState) : OwnerState :=
  (s.sweepOutbox remote).mergeSpaces now remote

theorem clash_sweepOutbox {j : SpaceId} :
    Clash now (s.sweepOutbox remote) remote j ↔ Clash now s remote j :=
  ⟨Clash.congr rfl rfl rfl, Clash.congr rfl rfl rfl⟩

theorem taken_sweepOutbox (old : Option Space) :
    taken now (s.sweepOutbox remote) remote old = taken now s remote old := by
  funext sp
  by_cases h : Clash now s remote sp.id
  · rw [taken_of_clash h, taken_of_clash (clash_sweepOutbox.mpr h)]
  · rw [taken_of_not_clash h, taken_of_not_clash fun h' => h (clash_sweepOutbox.mp h')]
    rfl

theorem table_beforeDeletions (now : Option ℕ) (hs : SpaceTable s) (remote : OwnerState) :
    SpaceTable (s.beforeDeletions now remote) := by
  refine foldl_induction (P := SpaceTable) remote.spaces (hs.congr rfl rfl rfl) ?_
  intro t _ sp _ ht
  exact ht.mergeSpace now sp

theorem tombstones_beforeDeletions (now : Option ℕ) (s remote : OwnerState) :
    (s.beforeDeletions now remote).tombstones = s.tombstones :=
  foldl_induction (P := fun t : OwnerState => t.tombstones = s.tombstones) remote.spaces rfl
    fun t _ sp _ ht => (mergeSpace_tombstones now t sp).1.trans ht

theorem row_beforeDeletions (now : Option ℕ) (hs : SpaceTable s) (hr : TableShape remote)
    (c : DedupeKey × Option SpaceId) :
    (s.beforeDeletions now remote).row c =
      (remote.row c).elim (s.row c) (taken now s remote (s.row c)) := by
  have hrow := row_mergeSpaces now (s := s.sweepOutbox remote) (hs.congr rfl rfl rfl) hr c
  rw [taken_sweepOutbox] at hrow
  exact hrow

theorem Clash.held_beforeDeletions (hs : SpaceTable s) (hr : TableShape remote) {j : SpaceId}
    (h : Clash now s remote j) :
    ∃ a m sp, s.spaces[j]? = some a ∧ remote.spaces[j]? = some sp ∧ a.dedupeKey ≠ sp.dedupeKey ∧
      (s.beforeDeletions now remote).spaces[j]? = some m ∧ m.conversation = a.conversation := by
  obtain ⟨held, incoming, differ, stays⟩ := h
  rename_i a sp
  have haid := hs.ownId j a held
  have hrowa : s.row a.conversation = some a :=
    (row_eq_some hs.toTableShape).mpr ⟨haid.symm ▸ held, rfl⟩
  have htable := table_beforeDeletions now hs remote
  have hrow := row_beforeDeletions now hs hr a.conversation
  refine ⟨a, ?_⟩
  suffices hm : ∃ m, (s.beforeDeletions now remote).row a.conversation = some m ∧ m.id = j by
    obtain ⟨m, hm, rfl⟩ := hm
    obtain ⟨hget, hconv⟩ := (row_eq_some htable.toTableShape).mp hm
    exact ⟨m, sp, held, incoming, differ, hget, hconv⟩
  rw [hrowa] at hrow
  cases hrr : remote.row a.conversation with
  | none => exact ⟨a, hrow.trans (by rw [hrr]; rfl), haid⟩
  | some r =>
    rw [hrr, Option.elim_some] at hrow
    obtain ⟨hget, hconv⟩ := (row_eq_some hr).mp hrr
    have hk := Space.dedupeKey_eq_of_conversation hconv
    have hne : r.id ≠ j := by
      rintro rfl
      obtain rfl := Option.some.inj (hget.symm.trans incoming)
      exact differ hk.symm
    by_cases hkept : Accepts now s r → Clash now s remote r.id
    · refine ⟨a, hrow.trans ?_, haid⟩
      by_cases hclash : Clash now s remote r.id
      · exact taken_of_clash hclash _
      · rw [taken_of_not_clash hclash]
        exact met_of_not_accepts (fun hacc => hclash (hkept hacc)) _
    · obtain ⟨hacc, hclash⟩ := Classical.not_imp.mp hkept
      rw [taken_of_not_clash hclash, met_of_accepts hacc] at hrow
      refine ⟨_, hrow, ?_⟩
      rw [meet_id, Option.elim_some, haid]
      refine min_eq_left (not_lt.mp fun hlt => hclash (stays r.id r hlt hget hk ?_ hacc))
      intro hnone
      simp only [Space.conversation, hk, hnone, if_true, Prod.mk.injEq, Option.some.injEq,
        true_and] at hconv
      exact hne (hconv.trans haid)

/-- The merge keeps the rows that neither an id nor a dedupe key of the snapshot deletes. -/
theorem mergeConversations_get (now : Option ℕ) (s remote : OwnerState) (id : SpaceId) :
    (s.mergeConversations now remote).spaces[id]? =
      ((s.beforeDeletions now remote).spaces[id]?).filter fun m =>
        id ∉ remote.tombstones ∧ (s.mergeConversations now remote).dominated m = false := by
  unfold mergeConversations
  extract_lets maps s1 s2 s3 s4 s5
  have hdom : ∀ m, (s5.dedupeDominated.foldl tombstoneSpace s5).dominated m = s5.dominated m :=
    fun m => dominated_congr (foldl_tombstoneSpace_dedupe _ s5) rfl rfl
  have h5 : s5.spaces[id]? = if id ∈ remote.tombstones then none else s2.spaces[id]? := by
    change s4.spaces[id]? = _
    rw [foldl_tombstoneSpace_get]
    simp [Finset.mem_sort, s3]
  simp only [hdom, foldl_tombstoneSpace_get, mem_dedupeDominated, h5]
  change _ = (s2.spaces[id]?).filter _
  cases hm : s2.spaces[id]? with
  | none => simp
  | some m =>
    by_cases ht : id ∈ remote.tombstones
    · simp [ht]
    · cases hd : s5.dominated m <;> simp [ht, hd, Option.filter_some]

/-- A row that the merge deletes after the snapshot's rows are in is deleted by its id. -/
theorem mem_tombstones_mergeConversations (now : Option ℕ) (s remote : OwnerState) {id : SpaceId}
    {m : Space} (hm : (s.beforeDeletions now remote).spaces[id]? = some m)
    (hgone : (s.mergeConversations now remote).spaces[id]? = none) :
    id ∈ (s.mergeConversations now remote).tombstones := by
  revert hgone
  unfold mergeConversations
  extract_lets maps s1 s2 s3 s4 s5
  intro hgone
  have hm : s2.spaces[id]? = some m := hm
  rw [foldl_tombstoneSpace_get] at hgone
  rw [mem_foldl_tombstoneSpace]
  by_cases hswept : id ∈ s5.dedupeDominated
  · exact Or.inl hswept
  · right
    change id ∈ s4.tombstones
    rw [mem_foldl_tombstoneSpace]
    rw [if_neg hswept] at hgone
    change s4.spaces[id]? = none at hgone
    rw [foldl_tombstoneSpace_get] at hgone
    split_ifs at hgone with hdel
    · exact Or.inl hdel
    · change s2.spaces[id]? = none at hgone
      rw [hm] at hgone
      cases hgone

theorem row_mergeConversations (now : Option ℕ) (hs : SpaceTable s) (hr : TableShape remote)
    (c : DedupeKey × Option SpaceId) :
    (s.mergeConversations now remote).row c =
      ((remote.row c).elim (s.row c) (taken now s remote (s.row c))).filter fun m =>
        m.id ∉ remote.tombstones ∧ (s.mergeConversations now remote).dominated m = false := by
  rw [← row_beforeDeletions now hs hr]
  refine Option.ext fun m => ?_
  rw [row_eq_some (hs.mergeConversations now remote).toTableShape, mergeConversations_get,
    Option.filter_eq_some_iff, Option.filter_eq_some_iff,
    row_eq_some (table_beforeDeletions now hs remote).toTableShape]
  tauto

end Snapshot

end OwnerState

end Harmony.Owner
