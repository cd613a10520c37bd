import Harmony.Owner.Registers
import Harmony.Owner.Rows

/-! The records that refer to conversation rows: delivery records, received
messages and reading positions. When two ids of one conversation collapse, the
local records of the larger id are filed under the smaller one; the snapshot's own
records arrive afterwards, under the ids that the sender uses. -/

namespace Harmony.Owner

open Harmony.Lib
open Harmony.Membership (OwnerAddr SpaceId Hlc)

/-! What a rewrite from one id to another leaves at a key. -/

section Rewrite

variable {l w : SpaceId}

theorem rewriteOutbox_get (outbox : BTreeMap OutboxEntryId OutboxEntry) (k : OutboxEntryId) :
    (rewriteOutbox outbox l w)[k]? =
      outbox[k]?.map fun e => if e.spaceId = l then { e with spaceId := w } else e := by
  unfold rewriteOutbox
  rw [Std.ExtTreeMap.getElem?_map]

theorem rewriteInbox_get {inbox : BTreeMap InboxKey InboxEntry}
    (hkey : ∀ (k : InboxKey) (e : InboxEntry), inbox[k]? = some e → e.key = k) (hne : l ≠ w)
    (x : SpaceId) (cid : ContentId) :
    (rewriteInbox inbox l w)[toLex (x, cid)]? =
      if x = l then none
      else if x = w then
        inbox[toLex (l, cid)]?.elim inbox[toLex (w, cid)]? fun e =>
          some (earlier inbox[toLex (w, cid)]? { e with spaceId := w })
      else inbox[toLex (x, cid)]? := by
  have hcid : ∀ p ∈ inbox.toList, p.2.messageCid = (ofLex p.1).2 := fun p hp => by
    rw [← hkey p.1 p.2 (mem_toList_iff.mp hp)]
    rfl
  have hkept : (inbox.filter fun k _ => (ofLex k).1 ≠ l)[toLex (x, cid)]? =
      if x = l then none else inbox[toLex (x, cid)]? := by
    rw [Std.ExtTreeMap.getElem?_filter']
    cases inbox[toLex (x, cid)]? <;> by_cases hk : x = l <;> simp [hk, Option.filter_some]
  have hnd : ((inbox.toList.filter fun p => (ofLex p.1).1 = l).map fun p =>
      (toLex (w, (ofLex p.1).2) : InboxKey)).Nodup := by
    have hkeys := nodup_keys_toList inbox
    rw [List.Nodup, List.pairwise_map] at hkeys ⊢
    refine (hkeys.sublist List.filter_sublist).imp_of_mem fun {p q} hp hq hpq heq => hpq ?_
    have hp1 : (ofLex p.1).1 = l := by simpa using (List.mem_filter.mp hp).2
    have hq1 : (ofLex q.1).1 = l := by simpa using (List.mem_filter.mp hq).2
    have h2 : (ofLex p.1).2 = (ofLex q.1).2 := (Prod.mk.inj (toLex_inj.mp heq)).2
    exact ofLex_inj.mp (Prod.ext (hp1.trans hq1.symm) h2)
  have hfold := foldl_view (P := fun _ => True)
    (fun p : InboxKey × InboxEntry => (toLex (w, (ofLex p.1).2) : InboxKey))
    (fun (m : BTreeMap InboxKey InboxEntry) k => m[k]?)
    (fun m p => (putInbox m { p.2 with spaceId := w }).1)
    (f := fun p old => some (earlier old { p.2 with spaceId := w })) hnd (fun _ _ _ _ => trivial)
    (fun m _ p hp k => by
      rw [putInbox_get]
      have hkp : InboxEntry.key { p.2 with spaceId := w } = toLex (w, (ofLex p.1).2) := by
        rw [← hcid p (List.mem_filter.mp hp).1]
        rfl
      rw [hkp])
    (s := inbox.filter fun k _ => (ofLex k).1 ≠ l) trivial (toLex (x, cid))
  -- the entry filed under the loser that ends up at this key
  have hfind : ((inbox.toList.filter fun p => (ofLex p.1).1 = l).find? fun p =>
      (toLex (w, (ofLex p.1).2) : InboxKey) = toLex (x, cid)) =
      if x = w then inbox[toLex (l, cid)]?.map fun e => (toLex (l, cid), e) else none := by
    rw [List.find?_filter]
    by_cases hx : x = w
    · rw [if_pos hx, ← find?_toList_key]
      congr 1
      funext p
      rw [Bool.eq_iff_iff]
      simp only [hx, decide_eq_true_eq, toLex_inj, Prod.mk.injEq, true_and]
      exact ⟨fun h => ofLex_inj.mp (Prod.ext h.1 h.2), fun h => by rw [h]; exact ⟨rfl, rfl⟩⟩
    · rw [if_neg hx, List.find?_eq_none]
      intro p _
      simp only [decide_eq_true_eq, toLex_inj, Prod.mk.injEq, not_and]
      exact fun _ h => absurd h.symm hx
  unfold rewriteInbox
  rw [hfold, hfind, hkept]
  by_cases hx : x = w
  · subst hx
    simp only [if_true, if_neg hne.symm]
    cases inbox[toLex (l, cid)]? <;> rfl
  · simp only [if_neg hx]
    rfl

theorem rewriteMarkers_get {markers : BTreeMap SpaceId ReadMarker} (hne : l ≠ w) (x : SpaceId) :
    (rewriteMarkers markers l w)[x]? =
      if x = l then none
      else if x = w then
        markers[l]?.elim markers[w]? fun m => some (later markers[w]? { m with spaceId := w })
      else markers[x]? := by
  unfold rewriteMarkers
  cases hm : markers[l]? with
  | none =>
    split_ifs with h1 h2
    · exact h1 ▸ hm
    · rw [h2]
      rfl
    · rfl
  | some m =>
    rw [putMarker_get, BTreeMap.get_erase]
    by_cases hxl : x = l
    · subst hxl
      rw [if_neg hne.symm, if_pos rfl, if_pos rfl]
    · rw [if_neg (Ne.symm hxl), if_neg hxl]
      by_cases hxw : x = w
      · subst hxw
        simp
      · rw [if_neg (Ne.symm hxw), if_neg hxw]

end Rewrite

namespace OwnerState

/-- An id that a record may refer to: that of a row, or a deleted one. -/
def Anchored (s : OwnerState) (id : SpaceId) : Prop := s.spaces[id]?.isSome ∨ id ∈ s.tombstones

/-- No record refers to an id that is neither a row's nor deleted. -/
structure NoDangling (s : OwnerState) : Prop where
  outbox : ∀ (k : OutboxEntryId) (e : OutboxEntry), s.outbox[k]? = some e → s.Anchored e.spaceId
  inbox : ∀ (k : InboxKey) (e : InboxEntry), s.inbox[k]? = some e → s.Anchored e.spaceId
  markers : ∀ (k : SpaceId) (m : ReadMarker), s.markers[k]? = some m → s.Anchored m.spaceId

/-- Every record stands under its own key. -/
structure OwnKeys (s : OwnerState) : Prop where
  outbox : ∀ (k : OutboxEntryId) (e : OutboxEntry), s.outbox[k]? = some e → e.id = k
  inbox : ∀ (k : InboxKey) (e : InboxEntry), s.inbox[k]? = some e → e.key = k
  markers : ∀ (k : SpaceId) (m : ReadMarker), s.markers[k]? = some m → m.spaceId = k

def place (s : OwnerState) (c : DedupeKey × Option SpaceId) : Option SpaceId := (s.row c).map Space.id

section Place

variable {s t : OwnerState} {c : DedupeKey × Option SpaceId} {i j : SpaceId}

theorem place_eq_some (h : TableShape s) :
    s.place c = some i ↔ ∃ sp, s.spaces[i]? = some sp ∧ sp.conversation = c := by
  unfold place
  rw [Option.map_eq_some_iff]
  constructor
  · rintro ⟨sp, hsp, rfl⟩
    exact ⟨sp, (row_eq_some h).mp hsp⟩
  · rintro ⟨sp, hsp, hc⟩
    have hid := h.ownId i sp hsp
    exact ⟨sp, (row_eq_some h).mpr ⟨hid.symm ▸ hsp, hc⟩, hid⟩

theorem place_inj (h : TableShape s) {c' : DedupeKey × Option SpaceId} (hc : s.place c = some i)
    (hc' : s.place c' = some i) : c = c' := by
  obtain ⟨a, ha, rfl⟩ := (place_eq_some h).mp hc
  obtain ⟨b, hb, rfl⟩ := (place_eq_some h).mp hc'
  rw [ha] at hb
  rw [Option.some.inj hb]

theorem anchored_iff (h : TableShape s) :
    s.Anchored i ↔ (∃ c, s.place c = some i) ∨ i ∈ s.tombstones := by
  unfold Anchored
  rw [Option.isSome_iff_exists]
  constructor
  · rintro (⟨sp, hsp⟩ | ht)
    · exact Or.inl ⟨sp.conversation, (place_eq_some h).mpr ⟨sp, hsp, rfl⟩⟩
    · exact Or.inr ht
  · rintro (⟨c, hc⟩ | ht)
    · obtain ⟨sp, hsp, -⟩ := (place_eq_some h).mp hc
      exact Or.inl ⟨sp, hsp⟩
    · exact Or.inr ht

theorem anchored_of_place (h : TableShape s) (hc : s.place c = some i) : s.Anchored i :=
  (anchored_iff h).mpr (Or.inl ⟨c, hc⟩)

theorem NoDangling.unfiled (h : NoDangling s) (hkeys : OwnKeys s) (hi : ¬s.Anchored i) :
    (∀ (k : OutboxEntryId) (e : OutboxEntry), s.outbox[k]? = some e → e.spaceId ≠ i) ∧
      (∀ cid : ContentId, s.inbox[(toLex (i, cid) : InboxKey)]? = none) ∧ s.markers[i]? = none := by
  refine ⟨fun k e he heq => hi (heq ▸ h.outbox k e he), fun cid => ?_, ?_⟩
  · cases he : s.inbox[(toLex (i, cid) : InboxKey)]? with
    | none => rfl
    | some e =>
      have hk : e.spaceId = i := congrArg (fun k : InboxKey => (ofLex k).1) (hkeys.inbox _ e he)
      exact absurd (hk ▸ h.inbox _ e he) hi
  · cases hm : s.markers[i]? with
    | none => rfl
    | some m => exact absurd (hkeys.markers i m hm ▸ h.markers i m hm) hi

end Place

section Step

variable {now : Option ℕ} {s t remote : OwnerState} {sp : Space}

theorem place_mergeSpace (h : SpaceTable t)
    (hids : ∀ a, t.spaces[sp.id]? = some a → a.dedupeKey = sp.dedupeKey) (hacc : Accepts now t sp)
    (c : DedupeKey × Option SpaceId) :
    (t.mergeSpace now sp).place c =
      if sp.conversation = c then some ((t.place c).elim sp.id fun i => min i sp.id)
      else t.place c := by
  unfold place
  rw [row_mergeSpace h hids]
  split_ifs
  · rw [met_of_accepts hacc, Option.map_some, meet_id]
    cases t.row c <;> rfl
  · rfl

theorem mergeSpace_of_not_accepts (h : ¬Accepts now t sp) : t.mergeSpace now sp = t := by
  unfold mergeSpace
  split_ifs with hskew
  · rfl
  · have hgate : ¬t.gateSpace sp = .ok () := fun hg => h ⟨by simpa using hskew, hg⟩
    cases hg : t.gateSpace sp with
    | ok => exact absurd hg hgate
    | error r => simp [applySpaceWithCanonicalization, applySpace, hg]

def records (s : OwnerState) :
    BTreeMap OutboxEntryId OutboxEntry × BTreeMap InboxKey InboxEntry × BTreeMap SpaceId ReadMarker :=
  (s.outbox, s.inbox, s.markers)

/-- An accepted row leaves the records alone, or collapses two ids and files the
records of the larger one under the smaller. -/
theorem records_mergeSpace (h : SpaceTable t) (hacc : Accepts now t sp)
    (hids : ∀ a, t.spaces[sp.id]? = some a → a.dedupeKey = sp.dedupeKey) :
    ((t.mergeSpace now sp).records = t.records ∧
      (t.place sp.conversation = none → ¬t.Anchored sp.id) ∧
        ∀ i, t.place sp.conversation = some i → i = sp.id) ∨
      ∃ i, t.place sp.conversation = some i ∧ i ≠ sp.id ∧ ¬t.Anchored sp.id ∧
        (t.mergeSpace now sp).records =
          (rewriteOutbox t.outbox (max i sp.id) (min i sp.id),
            rewriteInbox t.inbox (max i sp.id) (min i sp.id),
            rewriteMarkers t.markers (max i sp.id) (min i sp.id)) := by
  have hmerge : t.mergeSpace now sp = (t.applySpaceWithCanonicalization sp).1 := by
    simp [mergeSpace, hacc.1]
  have hlive : sp.id ∉ t.tombstones := (gateSpace_eq_ok.mp hacc.2).2.1
  rw [hmerge]
  unfold applySpaceWithCanonicalization applySpace
  simp only [hacc.2]
  cases hget : t.spaces[sp.id]? with
  | some a =>
    left
    have hc : a.conversation = sp.conversation :=
      Space.conversation_eq (hids a hget) fun _ => h.ownId sp.id a hget
    have hplace := (place_eq_some h.toTableShape).mpr ⟨a, hget, hc⟩
    refine ⟨?_, fun hnone => ?_, fun i hi => ?_⟩
    · cases hchk : sameIdChecks a sp with
      | error e => simp only [hchk]
      | ok =>
        simp only [hchk]
        rfl
    · rw [hplace] at hnone
      cases hnone
    · rw [hplace] at hi
      exact (Option.some.inj hi).symm
  | none =>
    have hfree : ¬t.Anchored sp.id := by
      simp [Anchored, hget, hlive]
    cases hf : findDedupe t.spaces sp.dedupeKey with
    | none =>
      left
      have hplace : t.place sp.conversation = none := by
        unfold place
        rw [row_of_fresh h.toTableShape hget hf, Option.map_none]
      refine ⟨rfl, fun _ => hfree, fun i hi => ?_⟩
      rw [hplace] at hi
      cases hi
    | some p =>
      right
      obtain ⟨i, a⟩ := p
      obtain ⟨hdk, hga, hka⟩ := findDedupe_eq_some hf
      have hc : a.conversation = sp.conversation :=
        Space.conversation_eq hka fun hnone => absurd (hka ▸ hnone) hdk
      have hne : i ≠ sp.id := by
        intro he
        rw [← he] at hget
        rw [hga] at hget
        cases hget
      exact ⟨i, (place_eq_some h.toTableShape).mpr ⟨a, hga, hc⟩, hne, hfree, rfl⟩

end Step

/-- What stays while the rows of a snapshot are offered to a state with records:
the records stay anchored, those of a conversation follow it to its id, and those of a
deleted id stay under it. -/
structure Filing (now : Option ℕ) (s remote : OwnerState) (done : List (SpaceId × Space))
    (t : OwnerState) : Prop extends Offering now s remote done t where
  ownKeys : OwnKeys t
  anchored : NoDangling t
  received : ∀ (c : DedupeKey × Option SpaceId) (cid : ContentId),
    ((t.place c).bind fun i => t.inbox[(toLex (i, cid) : InboxKey)]?.map InboxEntry.receivedAt) =
      (s.place c).bind fun i => s.inbox[(toLex (i, cid) : InboxKey)]?.map InboxEntry.receivedAt
  read : ∀ c : DedupeKey × Option SpaceId,
    ((t.place c).bind fun i => t.markers[i]?.map ReadMarker.lastReadAt) =
      (s.place c).bind fun i => s.markers[i]?.map ReadMarker.lastReadAt
  delivered : ∀ k : OutboxEntryId, ∃ x, t.outbox[k]? = s.outbox[k]?.map (fun e => { e with spaceId := x }) ∧
    ∀ e, s.outbox[k]? = some e → (∀ c, s.place c = some e.spaceId → t.place c = some x) ∧
      (e.spaceId ∈ s.tombstones → x = e.spaceId)

section Refile

variable {t t' : OwnerState} {i j : SpaceId} {c0 : DedupeKey × Option SpaceId}

/-- The step of a collapse: the conversation that stands at `i` meets the free id `j`
and is filed under the smaller of the two. -/
structure Refiled (t t' : OwnerState) (c0 : DedupeKey × Option SpaceId) (i j : SpaceId) : Prop where
  held : t.place c0 = some i
  ne : i ≠ j
  free : ¬t.Anchored j
  places : ∀ c, t'.place c = if c0 = c then some (min i j) else t.place c
  tombstones : t'.tombstones = t.tombstones
  outbox : t'.outbox = rewriteOutbox t.outbox (max i j) (min i j)
  inbox : t'.inbox = rewriteInbox t.inbox (max i j) (min i j)
  markers : t'.markers = rewriteMarkers t.markers (max i j) (min i j)

theorem Refiled.live (h : Refiled t t' c0 i j) (ht : TableShape t) : max i j ∉ t.tombstones := by
  obtain ⟨a, ha, -⟩ := (place_eq_some ht).mp h.held
  rcases max_choice i j with hm | hm <;> rw [hm]
  · exact ht.live i a ha
  · exact fun hj => h.free (Or.inr hj)

theorem max_ne_min_of_ne (h : i ≠ j) : max i j ≠ min i j := by
  rcases lt_or_gt_of_ne h with hlt | hlt
  · rw [max_eq_right hlt.le, min_eq_left hlt.le]
    exact hlt.ne'
  · rw [max_eq_left hlt.le, min_eq_right hlt.le]
    exact hlt.ne'

theorem Refiled.inbox_get (h : Refiled t t' c0 i j) (hkeys : OwnKeys t) (x : SpaceId)
    (cid : ContentId) :
    t'.inbox[(toLex (x, cid) : InboxKey)]? =
      if x = max i j then none
      else if x = min i j then
        t.inbox[(toLex (max i j, cid) : InboxKey)]?.elim t.inbox[(toLex (min i j, cid) : InboxKey)]?
          fun e => some (earlier t.inbox[(toLex (min i j, cid) : InboxKey)]?
            { e with spaceId := min i j })
      else t.inbox[(toLex (x, cid) : InboxKey)]? := by
  rw [h.inbox]
  exact rewriteInbox_get hkeys.inbox (max_ne_min_of_ne h.ne) x cid

theorem Refiled.markers_get (h : Refiled t t' c0 i j) (x : SpaceId) :
    t'.markers[x]? =
      if x = max i j then none
      else if x = min i j then
        t.markers[max i j]?.elim t.markers[min i j]? fun m =>
          some (later t.markers[min i j]? { m with spaceId := min i j })
      else t.markers[x]? := by
  rw [h.markers]
  exact rewriteMarkers_get (max_ne_min_of_ne h.ne) x

theorem Refiled.ownKeys (h : Refiled t t' c0 i j) (hkeys : OwnKeys t) : OwnKeys t' := by
  refine ⟨?_, ?_, ?_⟩
  · intro k e he
    rw [h.outbox, rewriteOutbox_get, Option.map_eq_some_iff] at he
    obtain ⟨e', he', rfl⟩ := he
    have hid := hkeys.outbox k e' he'
    split_ifs <;> exact hid
  · intro k e he
    obtain ⟨x, cid⟩ := k
    change t'.inbox[(toLex (x, cid) : InboxKey)]? = some e at he
    change e.key = toLex (x, cid)
    rw [h.inbox_get hkeys] at he
    split_ifs at he with h1 h2
    · subst h2
      cases hl : t.inbox[(toLex (max i j, cid) : InboxKey)]? with
      | none =>
        rw [hl] at he
        exact hkeys.inbox _ e he
      | some y =>
        rw [hl, Option.elim_some] at he
        have hcid : y.messageCid = cid :=
          congrArg (fun k : InboxKey => (ofLex k).2) (hkeys.inbox _ y hl)
        obtain rfl := Option.some.inj he
        unfold earlier
        split
        · exact congrArg (fun c => (toLex (min i j, c) : InboxKey)) hcid
        · next z hz =>
          split_ifs
          · exact congrArg (fun c => (toLex (min i j, c) : InboxKey)) hcid
          · exact hkeys.inbox _ z hz
    · exact hkeys.inbox _ e he
  · intro k m hm
    rw [h.markers_get] at hm
    split_ifs at hm with h1 h2
    · subst h2
      cases hl : t.markers[max i j]? with
      | none =>
        rw [hl] at hm
        exact hkeys.markers _ m hm
      | some y =>
        rw [hl, Option.elim_some] at hm
        obtain rfl := Option.some.inj hm
        unfold later
        split
        · rfl
        · next z hz =>
          split_ifs
          · rfl
          · exact hkeys.markers _ z hz
    · exact hkeys.markers _ m hm

theorem Refiled.anchored_of_ne (h : Refiled t t' c0 i j) (ht : TableShape t) (ht' : TableShape t')
    {x : SpaceId} (hx : t.Anchored x) (hne : x ≠ i) : t'.Anchored x := by
  rw [anchored_iff ht] at hx
  rw [anchored_iff ht', h.tombstones]
  rcases hx with ⟨c, hc⟩ | hx
  · refine Or.inl ⟨c, ?_⟩
    rw [h.places, if_neg, hc]
    rintro rfl
    exact hne (Option.some.inj (hc.symm.trans h.held))
  · exact Or.inr hx

theorem Refiled.anchored_min (h : Refiled t t' c0 i j) (ht' : TableShape t') :
    t'.Anchored (min i j) :=
  anchored_of_place ht' (by rw [h.places, if_pos rfl])

theorem Refiled.anchored_of_ne_max (h : Refiled t t' c0 i j) (ht : TableShape t)
    (ht' : TableShape t') {x : SpaceId} (hx : t.Anchored x) (hne : x ≠ max i j) : t'.Anchored x := by
  by_cases hxi : x = i
  · subst hxi
    have hmin : min x j = x := by
      rcases le_total x j with hle | hle
      · exact min_eq_left hle
      · exact absurd (max_eq_left hle).symm hne
    exact hmin ▸ h.anchored_min ht'
  · exact h.anchored_of_ne ht ht' hx hxi

theorem Refiled.noDangling (h : Refiled t t' c0 i j) (ht : TableShape t) (ht' : TableShape t')
    (hkeys : OwnKeys t) (hd : NoDangling t) : NoDangling t' := by
  have hkeys' := h.ownKeys hkeys
  refine ⟨?_, ?_, ?_⟩
  · intro k e he
    rw [h.outbox, rewriteOutbox_get, Option.map_eq_some_iff] at he
    obtain ⟨e', he', rfl⟩ := he
    split_ifs with hl
    · exact h.anchored_min ht'
    · exact h.anchored_of_ne_max ht ht' (hd.outbox k e' he') hl
  · intro k e he
    have hid : e.spaceId = (ofLex k).1 :=
      congrArg (fun k : InboxKey => (ofLex k).1) (hkeys'.inbox k e he)
    rw [hid]
    obtain ⟨x, cid⟩ := k
    change t'.inbox[(toLex (x, cid) : InboxKey)]? = some e at he
    change t'.Anchored x
    rw [h.inbox_get hkeys] at he
    split_ifs at he with h1 h2
    · exact h2 ▸ h.anchored_min ht'
    · have hx : e.spaceId = x := hid
      exact h.anchored_of_ne_max ht ht' (hx ▸ hd.inbox _ e he) h1
  · intro k m hm
    rw [hkeys'.markers k m hm]
    rw [h.markers_get] at hm
    split_ifs at hm with h1 h2
    · exact h2 ▸ h.anchored_min ht'
    · exact h.anchored_of_ne_max ht ht' (hkeys.markers k m hm ▸ hd.markers k m hm) h1

theorem Refiled.other_place (h : Refiled t t' c0 i j) (ht : TableShape t)
    {c : DedupeKey × Option SpaceId} {x : SpaceId} (hc : t.place c = some x) (hne : c0 ≠ c) :
    x ≠ max i j ∧ x ≠ min i j := by
  have hxi : x ≠ i := fun he => hne (place_inj ht h.held (he ▸ hc))
  have hxj : x ≠ j := fun he => h.free (he ▸ anchored_of_place ht hc)
  constructor
  · rcases max_choice i j with hm | hm <;> rw [hm] <;> assumption
  · rcases min_choice i j with hm | hm <;> rw [hm] <;> assumption

theorem Refiled.received (h : Refiled t t' c0 i j) (ht : TableShape t) (hkeys : OwnKeys t)
    (hd : NoDangling t) (c : DedupeKey × Option SpaceId) (cid : ContentId) :
    ((t'.place c).bind fun i => t'.inbox[(toLex (i, cid) : InboxKey)]?.map InboxEntry.receivedAt) =
      (t.place c).bind fun i => t.inbox[(toLex (i, cid) : InboxKey)]?.map InboxEntry.receivedAt := by
  have hfree := (hd.unfiled hkeys h.free).2.1 cid
  by_cases hc : c0 = c
  · subst hc
    rw [h.places, if_pos rfl, h.held, Option.bind_some, Option.bind_some, h.inbox_get hkeys,
      if_neg (max_ne_min_of_ne h.ne).symm, if_pos rfl]
    rcases lt_or_gt_of_ne h.ne with hlt | hlt
    · rw [max_eq_right hlt.le, min_eq_left hlt.le, hfree]
      rfl
    · rw [max_eq_left hlt.le, min_eq_right hlt.le, hfree]
      cases t.inbox[(toLex (i, cid) : InboxKey)]? <;> rfl
  · rw [h.places, if_neg hc]
    cases hx : t.place c with
    | none => rfl
    | some x =>
      obtain ⟨h1, h2⟩ := h.other_place ht hx hc
      rw [Option.bind_some, Option.bind_some, h.inbox_get hkeys, if_neg h1, if_neg h2]

theorem Refiled.read (h : Refiled t t' c0 i j) (ht : TableShape t) (hkeys : OwnKeys t)
    (hd : NoDangling t) (c : DedupeKey × Option SpaceId) :
    ((t'.place c).bind fun i => t'.markers[i]?.map ReadMarker.lastReadAt) =
      (t.place c).bind fun i => t.markers[i]?.map ReadMarker.lastReadAt := by
  have hfree := (hd.unfiled hkeys h.free).2.2
  by_cases hc : c0 = c
  · subst hc
    rw [h.places, if_pos rfl, h.held, Option.bind_some, Option.bind_some, h.markers_get,
      if_neg (max_ne_min_of_ne h.ne).symm, if_pos rfl]
    rcases lt_or_gt_of_ne h.ne with hlt | hlt
    · rw [max_eq_right hlt.le, min_eq_left hlt.le, hfree]
      rfl
    · rw [max_eq_left hlt.le, min_eq_right hlt.le, hfree]
      cases t.markers[i]? <;> rfl
  · rw [h.places, if_neg hc]
    cases hx : t.place c with
    | none => rfl
    | some x =>
      obtain ⟨h1, h2⟩ := h.other_place ht hx hc
      rw [Option.bind_some, Option.bind_some, h.markers_get, if_neg h1, if_neg h2]

end Refile

section Loop

variable {now : Option ℕ} {s t remote : OwnerState} {done done' rest : List (SpaceId × Space)}
  {j : SpaceId} {sp : Space}

theorem Filing.start (hs : SpaceTable s) (hkeys : OwnKeys s) (hd : NoDangling s) :
    Filing now s remote [] s where
  toOffering := Offering.start hs
  ownKeys := hkeys
  anchored := hd
  received _ _ := rfl
  read _ := rfl
  delivered k := by
    cases he : s.outbox[k]? with
    | none => exact ⟨0, rfl, fun _ h => by cases h⟩
    | some e =>
      refine ⟨e.spaceId, rfl, fun e' h => ?_⟩
      rw [Option.some.inj h]
      exact ⟨fun _ hc => hc, fun _ => rfl⟩

/-- Rows that are placed anew under a free id leave the records where they are. -/
theorem Filing.same (h : Filing now s remote done t) {t' : OwnerState}
    (hoff : Offering now s remote done' t') (hrec : t'.records = t.records)
    (hplace : ∀ c, t'.place c = t.place c ∨
      t.place c = none ∧ ∃ j, t'.place c = some j ∧ ¬t.Anchored j) :
    Filing now s remote done' t' := by
  obtain ⟨ho, hi, hm⟩ : t'.outbox = t.outbox ∧ t'.inbox = t.inbox ∧ t'.markers = t.markers := by
    simpa [records] using hrec
  have hanchor : ∀ x, t.Anchored x → t'.Anchored x := by
    intro x hx
    rw [anchored_iff h.table.toTableShape] at hx
    rw [anchored_iff hoff.table.toTableShape]
    rcases hx with ⟨c, hc⟩ | hx
    · refine Or.inl ⟨c, ?_⟩
      rcases hplace c with hsame | ⟨hnone, -⟩
      · rw [hsame, hc]
      · rw [hnone] at hc
        cases hc
    · rw [hoff.tombstones, ← h.tombstones]
      exact Or.inr hx
  refine { toOffering := hoff, ownKeys := ?_, anchored := ?_, received := ?_, read := ?_,
           delivered := ?_ }
  · exact ⟨ho ▸ h.ownKeys.outbox, hi ▸ h.ownKeys.inbox, hm ▸ h.ownKeys.markers⟩
  · refine ⟨fun k e he => ?_, fun k e he => ?_, fun k m he => ?_⟩
    · exact hanchor _ (h.anchored.outbox k e (ho ▸ he))
    · exact hanchor _ (h.anchored.inbox k e (hi ▸ he))
    · exact hanchor _ (h.anchored.markers k m (hm ▸ he))
  · intro c cid
    rw [← h.received c cid, hi]
    rcases hplace c with hsame | ⟨hnone, j, hj, hfree⟩
    · rw [hsame]
    · rw [hnone, hj, Option.bind_some, (h.anchored.unfiled h.ownKeys hfree).2.1 cid]
      rfl
  · intro c
    rw [← h.read c, hm]
    rcases hplace c with hsame | ⟨hnone, j, hj, hfree⟩
    · rw [hsame]
    · rw [hnone, hj, Option.bind_some, (h.anchored.unfiled h.ownKeys hfree).2.2]
      rfl
  · intro k
    obtain ⟨x, hx, hplaced⟩ := h.delivered k
    refine ⟨x, ho ▸ hx, fun e he => ⟨fun c hc => ?_, (hplaced e he).2⟩⟩
    have hcx := (hplaced e he).1 c hc
    rcases hplace c with hsame | ⟨hnone, -⟩
    · rw [hsame, hcx]
    · rw [hnone] at hcx
      cases hcx

theorem Filing.refiled (h : Filing now s remote done t) {t' : OwnerState}
    (hoff : Offering now s remote done' t') {c0 : DedupeKey × Option SpaceId} {i j : SpaceId}
    (hre : Refiled t t' c0 i j) : Filing now s remote done' t' := by
  have ht := h.table.toTableShape
  refine { toOffering := hoff, ownKeys := hre.ownKeys h.ownKeys,
           anchored := hre.noDangling ht hoff.table.toTableShape h.ownKeys h.anchored,
           received := fun c cid => ?_, read := fun c => ?_, delivered := fun k => ?_ }
  · rw [hre.received ht h.ownKeys h.anchored, h.received]
  · rw [hre.read ht h.ownKeys h.anchored, h.read]
  · obtain ⟨x, hx, hplaced⟩ := h.delivered k
    refine ⟨if x = max i j then min i j else x, ?_, fun e he => ⟨fun c hc => ?_, fun hdel => ?_⟩⟩
    · rw [hre.outbox, rewriteOutbox_get, hx]
      cases s.outbox[k]? with
      | none => rfl
      | some e =>
        simp only [Option.map_some, Option.some.injEq]
        split_ifs <;> rfl
    · have hcx := (hplaced e he).1 c hc
      rw [hre.places]
      split_ifs with hc0 hx' hx'
      · rfl
      · -- the record was filed under the smaller id already
        subst hc0
        have hxi := Option.some.inj (hcx.symm.trans hre.held)
        rcases max_choice i j with hm | hm
        · exact absurd (hxi.trans hm.symm) hx'
        · rw [hxi, min_eq_left (max_eq_right_iff.mp hm)]
      · exact absurd hx' (hre.other_place ht hcx hc0).1
      · exact hcx
    · have hxe := (hplaced e he).2 hdel
      rw [if_neg, hxe]
      rintro rfl
      exact hre.live ht (h.tombstones.symm ▸ hxe ▸ hdel)

theorem Filing.step (h : Filing now s remote done t) (hr : TableShape remote)
    (hsplit : remote.spaces.toList = done ++ (j, sp) :: rest) :
    Filing now s remote (done ++ [(j, sp)]) (t.mergeSpace now sp) := by
  have hoff := h.toOffering.step hr hsplit
  have hid := hr.ownId j sp (offered_get hsplit)
  have hiff := h.toOffering.clash_iff hsplit
  rw [← hid] at hiff
  by_cases hclash : Clash now s remote sp.id
  · obtain ⟨a, ha, hne⟩ := hiff.mp hclash
    rw [mergeSpace_of_other ha hne] at hoff ⊢
    exact h.same hoff rfl fun c => Or.inl rfl
  have hids : ∀ a, t.spaces[sp.id]? = some a → a.dedupeKey = sp.dedupeKey := by
    intro a ha
    by_contra hne
    exact hclash (hiff.mpr ⟨a, ha, hne⟩)
  by_cases hacc : Accepts now t sp
  · have hplaces := place_mergeSpace h.table hids hacc
    rcases records_mergeSpace h.table hacc hids with ⟨hrec, hfree, hsame⟩ | ⟨i, hi, hne, hfree, hrec⟩
    · refine h.same hoff hrec fun c => ?_
      rw [hplaces]
      split_ifs with hc
      · subst hc
        cases hp : t.place sp.conversation with
        | none => exact Or.inr ⟨rfl, sp.id, rfl, hfree hp⟩
        | some i =>
          rw [hsame i hp, Option.elim_some, min_self]
          exact Or.inl rfl
      · exact Or.inl rfl
    · simp only [records, Prod.mk.injEq] at hrec
      have hre : Refiled t (t.mergeSpace now sp) sp.conversation i sp.id := by
        refine ⟨hi, hne, hfree, fun c => ?_, hoff.tombstones.trans h.tombstones.symm, hrec.1,
          hrec.2.1, hrec.2.2⟩
        rw [hplaces]
        split_ifs with hc
        · rw [← hc, hi, Option.elim_some]
        · rfl
      exact h.refiled hoff hre
  · rw [mergeSpace_of_not_accepts hacc] at hoff ⊢
    exact h.same hoff rfl fun c => Or.inl rfl

theorem filing_mergeSpaces (now : Option ℕ) (hs : SpaceTable s) (hr : TableShape remote)
    (hkeys : OwnKeys s) (hd : NoDangling s) :
    Filing now s remote remote.spaces.toList (s.mergeSpaces now remote) := by
  unfold mergeSpaces
  rw [Std.ExtTreeMap.foldl_eq_foldl_toList]
  exact foldl_prefix (P := Filing now s remote) (fun _ _ _ hsplit _ ht => ht.step hr hsplit)
    (Filing.start hs hkeys hd)

end Loop

section Merged

variable {keys : IdentityKeys} {now : Option ℕ} {s remote : OwnerState}

theorem mergeSpaces_outboxTombstones (now : Option ℕ) (s remote : OwnerState) :
    (s.mergeSpaces now remote).outboxTombstones = s.outboxTombstones := by
  refine foldl_induction (P := fun t : OwnerState => t.outboxTombstones = s.outboxTombstones)
    remote.spaces rfl ?_
  intro t _ sp _ ht
  unfold mergeSpace
  split_ifs
  · exact ht
  · obtain ⟨_, _, _, _, heq⟩ := t.applySpaceWithCanonicalization_eq sp
    rw [heq]
    exact ht

theorem foldl_tombstoneSpace_records (ids : List SpaceId) (s : OwnerState) :
    (ids.foldl tombstoneSpace s).records = s.records ∧
      (ids.foldl tombstoneSpace s).outboxTombstones = s.outboxTombstones := by
  induction ids generalizing s with
  | nil => exact ⟨rfl, rfl⟩
  | cons id ids ih => exact ih _

theorem anchored_foldl_tombstoneSpace (ids : List SpaceId) (s : OwnerState) (x : SpaceId) :
    (ids.foldl tombstoneSpace s).Anchored x ↔ s.Anchored x ∨ x ∈ ids := by
  unfold Anchored
  rw [foldl_tombstoneSpace_get, mem_foldl_tombstoneSpace]
  split_ifs <;> simp [*]

/-- The merged records, and what anchors them. -/
theorem mergeRemoteIntoLocal_records (keys : IdentityKeys) (now : Option ℕ) (s remote : OwnerState) :
    (s.mergeRemoteIntoLocal keys now remote).records =
        (remote.outbox.foldl
          (fun m _ e => (putOutbox (s.sweepOutbox remote).outboxTombstones m e).1)
            (s.beforeDeletions now remote).outbox,
          remote.inbox.foldl (fun m _ e => (putInbox m e).1) (s.beforeDeletions now remote).inbox,
          remote.markers.foldl (fun m _ e => mergeMarker now m e)
            (s.beforeDeletions now remote).markers) ∧
      (s.mergeRemoteIntoLocal keys now remote).outboxTombstones =
        (s.sweepOutbox remote).outboxTombstones ∧
      ∀ x, (s.mergeRemoteIntoLocal keys now remote).Anchored x ↔
        (s.beforeDeletions now remote).Anchored x ∨ x ∈ remote.tombstones := by
  have htomb : (s.beforeDeletions now remote).outboxTombstones =
      (s.sweepOutbox remote).outboxTombstones := mergeSpaces_outboxTombstones now _ remote
  change (s.mergeConversations now remote).records = _ ∧
    (s.mergeConversations now remote).outboxTombstones = _ ∧
      ∀ x, (s.mergeConversations now remote).Anchored x ↔ _
  rw [← htomb]
  unfold mergeConversations
  extract_lets maps s1 s2 s3 s4 s5
  have h5 := foldl_tombstoneSpace_records s5.dedupeDominated s5
  have h4 := foldl_tombstoneSpace_records (remote.tombstones.sort (· ≤ ·)) s3
  refine ⟨h5.1.trans h4.1, h5.2.trans h4.2, fun x => ?_⟩
  rw [anchored_foldl_tombstoneSpace]
  have hswept : x ∈ s5.dedupeDominated → s5.Anchored x := fun hx => by
    obtain ⟨sp, hsp, -⟩ := mem_dedupeDominated.mp hx
    exact Or.inl (by rw [hsp]; rfl)
  change s4.Anchored x ∨ _ ↔ _
  have hdel : s4.Anchored x ↔ s3.Anchored x ∨ x ∈ remote.tombstones := by
    rw [anchored_foldl_tombstoneSpace, Finset.mem_sort]
  change (s4.Anchored x ∨ x ∈ s5.dedupeDominated) ↔ s3.Anchored x ∨ x ∈ remote.tombstones
  rw [← hdel]
  exact ⟨fun h => h.elim (fun h => h) hswept, Or.inl⟩

theorem place_kept (hs : SpaceTable s) (hr : TableShape remote) {c : DedupeKey × Option SpaceId}
    (hkept : ∀ sp, remote.row c = some sp → Clash now s remote sp.id ∨ ¬Accepts now s sp) :
    (s.beforeDeletions now remote).place c = s.place c := by
  unfold place
  rw [row_beforeDeletions now hs hr c]
  cases hrr : remote.row c with
  | none => rfl
  | some sp =>
    rw [Option.elim_some]
    by_cases hclash : Clash now s remote sp.id
    · rw [taken_of_clash hclash]
    · rw [taken_of_not_clash hclash, met_of_not_accepts ((hkept sp hrr).resolve_left hclash)]

theorem place_taken (hs : SpaceTable s) (hr : TableShape remote) {id : SpaceId} {sp : Space}
    (hsp : remote.spaces[id]? = some sp) (hclash : ¬Clash now s remote id) (hacc : Accepts now s sp) :
    (s.beforeDeletions now remote).place sp.conversation =
      some ((s.place sp.conversation).elim id fun i => min i id) := by
  obtain rfl := hr.ownId id sp hsp
  have hrow := (row_eq_some hr).mpr ⟨hsp, rfl⟩
  unfold place
  rw [row_beforeDeletions now hs hr, hrow, Option.elim_some, taken_of_not_clash hclash,
    met_of_accepts hacc, Option.map_some, meet_id]
  cases s.row sp.conversation <;> rfl

/-- What stands under an id once the snapshot's rows are in stood there, or was taken in. -/
theorem source_beforeDeletions (hs : SpaceTable s) (hr : TableShape remote)
    {c : DedupeKey × Option SpaceId} {x : SpaceId}
    (hx : (s.beforeDeletions now remote).place c = some x) :
    s.place c = some x ∨
      ∃ r, remote.spaces[x]? = some r ∧ r.conversation = c ∧ Accepts now s r := by
  by_cases hkept : ∀ sp, remote.row c = some sp → Clash now s remote sp.id ∨ ¬Accepts now s sp
  · exact Or.inl ((place_kept hs hr hkept).symm.trans hx)
  · push Not at hkept
    obtain ⟨r, hrr, hclash, hacc⟩ := hkept
    obtain ⟨hget, rfl⟩ := (row_eq_some hr).mp hrr
    have hplace := place_taken hs hr hget hclash hacc
    rw [hplace, Option.some.injEq] at hx
    cases hp : s.place r.conversation with
    | none =>
      rw [hp, Option.elim_none] at hx
      exact Or.inr ⟨r, hx ▸ hget, rfl, hacc⟩
    | some i =>
      rw [hp, Option.elim_some] at hx
      rcases min_choice i r.id with hm | hm
      · exact Or.inl (by rw [← hx, hm])
      · exact Or.inr ⟨r, hx ▸ hm.symm ▸ hget, rfl, hacc⟩

/-- A row of the snapshot clashes when another conversation still stands under its id
once the rows are in. -/
theorem clash_of_stands (hs : SpaceTable s) (hr : TableShape remote) {j : SpaceId} {b sp : Space}
    (hb : s.spaces[j]? = some b) (hsp : remote.spaces[j]? = some sp)
    (hne : b.dedupeKey ≠ sp.dedupeKey)
    (hplace : (s.beforeDeletions now remote).place b.conversation = some j) :
    Clash now s remote j := by
  refine .intro hb hsp hne fun i r hi hri hk hnone hacc => ?_
  by_contra hclash
  have hconv : r.conversation = b.conversation :=
    Space.conversation_eq hk fun h => absurd (hk ▸ h) hnone
  have hleft := (place_eq_some hs.toTableShape).mpr ⟨b, hb, rfl⟩
  have htaken := place_taken hs hr hri hclash hacc
  rw [hconv, hleft, Option.elim_some, hplace] at htaken
  exact absurd ((Option.some.inj htaken).trans_le (min_le_right j i)) hi.not_ge

end Merged

end OwnerState

end Harmony.Owner
