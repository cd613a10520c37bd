import Harmony.Channel.Runs

/-! What the derived views of a log say about its events: the watermark of a lane is its
latest mark, the reactions do not depend on the order of the events unless two of them
tie, and any keys of the log are resolved. -/

namespace Harmony.Channel

open Harmony.Lib Harmony.Reconcile
open Harmony.Membership (OwnerAddr SpaceId ChannelId)

/-! ### Watermarks -/

theorem get_raiseWatermark (idx : WatermarkVector) (e : SignedChannelEvent) (lane : Lane) :
    (raiseWatermark idx e.author e.at_)[lane]? =
      if e.lane = lane then some (max (idx[lane]?.getD (toLex (0, 0))) e.at_.mark)
      else idx[lane]? := by
  have hmax : ∀ a b : Fin (2 ^ 64) ×ₗ Fin (2 ^ 32), (if a < b then b else a) = max a b := by
    intro a b
    by_cases hab : a < b
    · rw [if_pos hab, max_eq_right hab.le]
    · rw [if_neg hab, max_eq_left (not_lt.mp hab)]
  rw [raiseWatermark, BTreeMap.get_alter]
  simp only [hmax]
  rfl

theorem zero_le_mark (m : Fin (2 ^ 64) ×ₗ Fin (2 ^ 32)) : toLex (0, 0) ≤ m := by
  rw [Prod.Lex.le_iff]
  rcases eq_or_lt_of_le (Fin.zero_le (ofLex m).1) with h | h
  · exact Or.inr ⟨h, Fin.zero_le _⟩
  · exact Or.inl h

theorem max?_concat {α : Type} [Max α] (l : List α) (a : α) :
    (l ++ [a]).max? = some (l.max?.elim a fun m => max m a) := by
  cases l with
  | nil => rfl
  | cons b l =>
    rw [List.cons_append, List.max?_cons', List.max?_cons', List.foldl_append, List.foldl_cons,
      List.foldl_nil]
    rfl

theorem max?_perm {α : Type} [LinearOrder α] {l l' : List α} (hp : l.Perm l') :
    l.max? = l'.max? := by
  cases h : l'.max? with
  | none =>
    rw [List.max?_eq_none_iff] at h ⊢
    rw [h] at hp
    exact hp.eq_nil
  | some m =>
    rw [List.max?_eq_some_iff] at h ⊢
    exact ⟨hp.mem_iff.mpr h.1, fun b hb => h.2 b (hp.mem_iff.mp hb)⟩

theorem foldl_raiseWatermark (events : List SignedChannelEvent) (lane : Lane) :
    (events.foldl (fun idx ev => raiseWatermark idx ev.author ev.at_) ∅)[lane]? =
      ((events.filter fun e => e.lane = lane).map fun e => e.at_.mark).max? := by
  induction events using List.reverseRecOn with
  | nil => simp
  | append_singleton events e ih =>
    rw [List.foldl_append, List.foldl_cons, List.foldl_nil, get_raiseWatermark, ih,
      List.filter_append, List.map_append]
    by_cases hlane : e.lane = lane
    · rw [if_pos hlane, List.filter_cons_of_pos (by simpa using hlane), List.filter_nil,
        List.map_cons, List.map_nil, max?_concat]
      cases ((events.filter fun e => e.lane = lane).map fun e => e.at_.mark).max? with
      | none => simp [max_eq_right (zero_le_mark _)]
      | some m => simp
    · rw [if_neg hlane, List.filter_cons_of_neg (by simpa using hlane)]
      simp

/-! ### Reactions -/

/-- The reactions to a message under one key, in order. -/
def reactsOn (target : MessageId) (key : String) (events : List SignedChannelEvent) :
    List ChannelReactSignedSet :=
  events.filterMap fun e =>
    match e.signed with
    | .post _ => none
    | .react f => if f.target = target ∧ f.groupingKey = key then some f else none

/-- Two reactions that the stamp does not order and that disagree. -/
def Tied (a b : SignedChannelEvent) : Prop :=
  match a.signed, b.signed with
  | .react f, .react g => f.target = g.target ∧ f.groupingKey = g.groupingKey ∧
      f.author = g.author ∧ f.at_ = g.at_ ∧ f.add ≠ g.add
  | _, _ => False

instance (a b : SignedChannelEvent) : Decidable (Tied a b) := by
  unfold Tied
  split <;> infer_instance

def ReactionDto.withoutSize (d : ReactionDto) : ReactionDto := { d with emojiSize := none }

namespace ReactionKeyState

/-- What a summary shows of a key, apart from the size. -/
def shown (state : ReactionKeyState) : Option (ByteArr 32) × BTreeMap OwnerAddr ReactionAuthorCell :=
  (state.descriptor.map ChannelAttachment.cid, state.authors)

theorem dto_congr {encryptedFlag : ByteArr 32 → Bool} {me : OwnerAddr} {key : String}
    {state state' : ReactionKeyState} (h : state.shown = state'.shown) :
    (state.dto encryptedFlag me key).map ReactionDto.withoutSize =
      (state'.dto encryptedFlag me key).map ReactionDto.withoutSize := by
  obtain ⟨descriptor, authors⟩ := state
  obtain ⟨descriptor', authors'⟩ := state'
  simp only [shown, Prod.mk.injEq] at h
  obtain ⟨hd, rfl⟩ := h
  unfold dto
  dsimp only
  split_ifs
  · rfl
  · cases descriptor with
    | none =>
      cases descriptor' with
      | none => rfl
      | some att' => exact absurd hd (by simp)
    | some att =>
      cases descriptor' with
      | none => exact absurd hd (by simp)
      | some att' =>
        simp only [Option.map_some, Option.some.injEq] at hd
        simp [ReactionDto.withoutSize, hd]

theorem get_apply_authors (state : ReactionKeyState) (f : ChannelReactSignedSet) (a : OwnerAddr) :
    (state.apply f).authors[a]? =
      if f.author = a then
        some (state.authors[a]?.elim (f.at_, f.add) fun c => if c.1 < f.at_ then (f.at_, f.add) else c)
      else state.authors[a]? := by
  unfold apply
  dsimp only
  by_cases ha : f.author = a
  · subst ha
    rw [if_pos rfl]
    cases hc : state.authors[f.author]? with
    | none => simp
    | some c =>
      obtain ⟨h, b⟩ := c
      simp only [Hlc.isStrictlyNewerThan_iff, Option.elim_some]
      split_ifs
      · simp
      · exact hc
  · rw [if_neg ha]
    cases hc : state.authors[f.author]? with
    | none => simp [BTreeMap.get_insert, ha]
    | some c =>
      obtain ⟨h, b⟩ := c
      dsimp only
      split_ifs
      · simp [BTreeMap.get_insert, ha]
      · rfl

theorem foldl_apply_descriptor (rs : List ChannelReactSignedSet) (state : ReactionKeyState) :
    (rs.foldl apply state).descriptor =
      state.descriptor.or (rs.findSome? ChannelReactSignedSet.emojiAttachment) := by
  induction rs generalizing state with
  | nil => simp
  | cons f rs ih =>
    rw [List.foldl_cons, ih, List.findSome?_cons]
    unfold apply
    cases state.descriptor with
    | some att => simp
    | none => cases f.emojiAttachment <;> simp

/-- An author's cell comes from one of the author's reactions, and none is newer. -/
theorem foldl_apply_cell (rs : List ChannelReactSignedSet) (a : OwnerAddr) :
    match (rs.foldl apply {}).authors[a]? with
    | none => ∀ f ∈ rs, f.author ≠ a
    | some c => (∃ f ∈ rs, f.author = a ∧ (f.at_, f.add) = c) ∧
        ∀ f ∈ rs, f.author = a → f.at_ ≤ c.1 := by
  induction rs using List.reverseRecOn with
  | nil => simp
  | append_singleton rs g ih =>
    rw [List.foldl_append, List.foldl_cons, List.foldl_nil, get_apply_authors]
    by_cases ha : g.author = a
    · rw [if_pos ha]
      dsimp only
      cases hc : (rs.foldl apply {}).authors[a]? with
      | none =>
        rw [hc] at ih
        refine ⟨⟨g, by simp, ha, rfl⟩, fun f hf hfa => ?_⟩
        rcases List.mem_append.mp hf with hf | hf
        · exact absurd hfa (ih f hf)
        · rw [List.mem_singleton.mp hf]
          exact le_rfl
      | some c =>
        rw [hc] at ih
        obtain ⟨⟨f₀, hf₀, hfa₀, hcell⟩, hle⟩ := ih
        rw [Option.elim_some]
        split_ifs with hlt
        · refine ⟨⟨g, by simp, ha, rfl⟩, fun f hf hfa => ?_⟩
          rcases List.mem_append.mp hf with hf | hf
          · exact (hle f hf hfa).trans hlt.le
          · rw [List.mem_singleton.mp hf]
        · refine ⟨⟨f₀, List.mem_append_left _ hf₀, hfa₀, hcell⟩, fun f hf hfa => ?_⟩
          rcases List.mem_append.mp hf with hf | hf
          · exact hle f hf hfa
          · rw [List.mem_singleton.mp hf]
            exact not_lt.mp hlt
    · rw [if_neg ha]
      cases hc : (rs.foldl apply {}).authors[a]? with
      | none =>
        rw [hc] at ih
        intro f hf
        rcases List.mem_append.mp hf with hf | hf
        · exact ih f hf
        · rw [List.mem_singleton.mp hf]
          exact ha
      | some c =>
        rw [hc] at ih
        obtain ⟨⟨f₀, hf₀, hfa₀, hcell⟩, hle⟩ := ih
        refine ⟨⟨f₀, List.mem_append_left _ hf₀, hfa₀, hcell⟩, fun f hf hfa => ?_⟩
        rcases List.mem_append.mp hf with hf | hf
        · exact hle f hf hfa
        · rw [List.mem_singleton.mp hf] at hfa
          exact absurd hfa ha

/-- Reactions under one key give the same summary in any order, if equal stamps of an
author agree. -/
theorem shown_perm {rs rs' : List ChannelReactSignedSet} (hp : rs.Perm rs') (key : String)
    (hkey : ∀ f ∈ rs, f.groupingKey = key)
    (huntied : ∀ f ∈ rs, ∀ g ∈ rs, f.author = g.author → f.at_ = g.at_ → f.add = g.add) :
    (rs.foldl apply {}).shown = (rs'.foldl apply {}).shown := by
  refine Prod.ext ?_ (Std.ExtTreeMap.ext_getElem? fun a => ?_)
  · -- every descriptor under the key names the content of the key
    have hcid : ∀ l : List ChannelReactSignedSet, (∀ f ∈ l, f.groupingKey = key) →
        ∀ att, l.findSome? ChannelReactSignedSet.emojiAttachment = some att →
        customEmojiKey att.cid = key := by
      intro l hl att hatt
      obtain ⟨f, hf, hfa⟩ := List.exists_of_findSome?_eq_some hatt
      rw [← hl f hf, ChannelReactSignedSet.groupingKey, hfa]
    have hkey' : ∀ f ∈ rs', f.groupingKey = key := fun f hf => hkey f (hp.mem_iff.mpr hf)
    change (rs.foldl apply {}).descriptor.map _ = (rs'.foldl apply {}).descriptor.map _
    rw [foldl_apply_descriptor, foldl_apply_descriptor]
    simp only [Option.none_or]
    cases h : rs.findSome? ChannelReactSignedSet.emojiAttachment with
    | none =>
      have hnone : rs'.findSome? ChannelReactSignedSet.emojiAttachment = none := by
        rw [List.findSome?_eq_none_iff] at h ⊢
        exact fun f hf => h f (hp.mem_iff.mpr hf)
      rw [hnone]
    | some att =>
      cases h' : rs'.findSome? ChannelReactSignedSet.emojiAttachment with
      | none =>
        obtain ⟨f, hf, hfa⟩ := List.exists_of_findSome?_eq_some h
        rw [List.findSome?_eq_none_iff] at h'
        exact absurd (hfa.symm.trans (h' f (hp.mem_iff.mp hf))) (by simp)
      | some att' =>
        have heq := customEmojiKey_injective ((hcid rs hkey att h).trans (hcid rs' hkey' att' h').symm)
        rw [Option.map_some, Option.map_some, heq]
  · change (rs.foldl apply {}).authors[a]? = (rs'.foldl apply {}).authors[a]?
    have hcell := foldl_apply_cell rs a
    have hcell' := foldl_apply_cell rs' a
    cases hc : (rs.foldl apply {}).authors[a]? with
    | none =>
      rw [hc] at hcell
      cases hc' : (rs'.foldl apply {}).authors[a]? with
      | none => rfl
      | some c' =>
        rw [hc'] at hcell'
        obtain ⟨⟨f, hf, hfa, -⟩, -⟩ := hcell'
        exact absurd hfa (hcell f (hp.mem_iff.mpr hf))
    | some c =>
      rw [hc] at hcell
      obtain ⟨⟨f, hf, hfa, rfl⟩, hle⟩ := hcell
      cases hc' : (rs'.foldl apply {}).authors[a]? with
      | none =>
        rw [hc'] at hcell'
        exact absurd hfa (hcell' f (hp.mem_iff.mp hf))
      | some c' =>
        rw [hc'] at hcell'
        obtain ⟨⟨g, hg, hga, rfl⟩, hle'⟩ := hcell'
        have hg' := hp.mem_iff.mpr hg
        have hat : f.at_ = g.at_ :=
          le_antisymm (hle' f (hp.mem_iff.mp hf) hfa) (hle g hg' hga)
        rw [hat, huntied f hf g hg' (hfa.trans hga.symm) hat]

end ReactionKeyState

namespace ReactionIndex

def keysOf (ix : ReactionIndex) (target : MessageId) : ReactionEmojiMap :=
  ix.byTarget[target]?.getD ∅

theorem reactionsFor_eq (encryptedFlag : ByteArr 32 → Bool) (ix : ReactionIndex)
    (target : MessageId) (me : OwnerAddr) :
    ix.reactionsFor encryptedFlag target me =
      (ix.keysOf target).toList.filterMap fun p => p.2.dto encryptedFlag me p.1 := by
  unfold reactionsFor keysOf
  cases ix.byTarget[target]? with
  | none => simp
  | some byKey => rfl

/-- Indexes that show the same of every key summarise a message alike. -/
theorem reactionsFor_congr (encryptedFlag : ByteArr 32 → Bool) {ix ix' : ReactionIndex}
    {target : MessageId} (me : OwnerAddr)
    (h : ∀ key : String, (ix.keysOf target)[key]?.map ReactionKeyState.shown =
      (ix'.keysOf target)[key]?.map ReactionKeyState.shown) :
    (ix.reactionsFor encryptedFlag target me).map ReactionDto.withoutSize =
      (ix'.reactionsFor encryptedFlag target me).map ReactionDto.withoutSize := by
  have hmap : (ix.keysOf target).map (fun _ s => s.shown) =
      (ix'.keysOf target).map fun _ s => s.shown := by
    refine Std.ExtTreeMap.ext_getElem? fun key => ?_
    rw [Std.ExtTreeMap.getElem?_map, Std.ExtTreeMap.getElem?_map]
    exact h key
  have hlist := congrArg Std.ExtTreeMap.toList hmap
  rw [Std.ExtTreeMap.toList_map, Std.ExtTreeMap.toList_map] at hlist
  rw [reactionsFor_eq, reactionsFor_eq, List.map_filterMap, List.map_filterMap]
  generalize (ix.keysOf target).toList = l at hlist ⊢
  generalize (ix'.keysOf target).toList = l' at hlist ⊢
  induction l generalizing l' with
  | nil =>
    cases l' with
    | nil => rfl
    | cons p' l' => exact absurd hlist (by simp)
  | cons p l ih =>
    cases l' with
    | nil => exact absurd hlist (by simp)
    | cons p' l' =>
      simp only [List.map_cons, List.cons.injEq, Prod.mk.injEq] at hlist
      obtain ⟨⟨hkey, hshown⟩, hrest⟩ := hlist
      rw [List.filterMap_cons, List.filterMap_cons, ih l' hrest, hkey,
        ReactionKeyState.dto_congr hshown]

def react (state : Option ReactionKeyState) (f : ChannelReactSignedSet) : Option ReactionKeyState :=
  some ((state.getD {}).apply f)

theorem get_keysOf_apply (ix : ReactionIndex) (e : SignedChannelEvent) (target : MessageId)
    (key : String) :
    ((ix.apply e).keysOf target)[key]? =
      (reactsOn target key [e]).foldl react (ix.keysOf target)[key]? := by
  unfold apply reactsOn keysOf
  cases hs : e.signed with
  | post f => simp [hs]
  | react f =>
    dsimp only
    rw [BTreeMap.get_alter]
    by_cases ht : f.target = target
    · subst ht
      rw [if_pos rfl, Option.getD_some, BTreeMap.get_alter]
      by_cases hk : f.groupingKey = key
      · subst hk
        simp [hs, react]
      · simp [hs, hk]
    · simp [hs, ht]

theorem get_keysOf_foldl (events : List SignedChannelEvent) (ix : ReactionIndex)
    (target : MessageId) (key : String) :
    ((events.foldl apply ix).keysOf target)[key]? =
      (reactsOn target key events).foldl react (ix.keysOf target)[key]? := by
  induction events generalizing ix with
  | nil => rfl
  | cons e events ih =>
    have hcons : reactsOn target key (e :: events) =
        reactsOn target key [e] ++ reactsOn target key events := by
      rw [reactsOn, reactsOn, reactsOn, ← List.filterMap_append]
      rfl
    rw [List.foldl_cons, ih, get_keysOf_apply, hcons, List.foldl_append]

theorem foldl_react (rs : List ChannelReactSignedSet) (state : ReactionKeyState) :
    rs.foldl react (some state) = some (rs.foldl ReactionKeyState.apply state) := by
  induction rs generalizing state with
  | nil => rfl
  | cons f rs ih =>
    rw [List.foldl_cons, List.foldl_cons]
    exact ih (state.apply f)

theorem foldl_react_none (rs : List ChannelReactSignedSet) :
    rs.foldl react none = if rs = [] then none else some (rs.foldl ReactionKeyState.apply {}) := by
  cases rs with
  | nil => rfl
  | cons f rs =>
    rw [if_neg (List.cons_ne_nil f rs), List.foldl_cons, List.foldl_cons]
    exact foldl_react rs _

theorem mem_reactsOn {target : MessageId} {key : String} {events : List SignedChannelEvent}
    {f : ChannelReactSignedSet} (hf : f ∈ reactsOn target key events) :
    ∃ e ∈ events, e.signed = .react f ∧ f.target = target ∧ f.groupingKey = key := by
  obtain ⟨e, he, hmatch⟩ := List.mem_filterMap.mp hf
  cases hs : e.signed with
  | post g => simp [hs] at hmatch
  | react g =>
    simp only [hs, Option.ite_none_right_eq_some, Option.some.injEq] at hmatch
    obtain ⟨hon, rfl⟩ := hmatch
    exact ⟨e, he, hs, hon⟩

/-- Without ties the reactions are the fold of the events in any order, up to the size
of a custom emoji. -/
theorem reactionsFor_perm (encryptedFlag : ByteArr 32 → Bool) {events order : List SignedChannelEvent}
    (hp : order.Perm events) (huntied : ∀ a ∈ events, ∀ b ∈ events, ¬Tied a b)
    (target : MessageId) (me : OwnerAddr) :
    ((events.foldl apply {}).reactionsFor encryptedFlag target me).map ReactionDto.withoutSize =
      ((order.foldl apply {}).reactionsFor encryptedFlag target me).map ReactionDto.withoutSize := by
  refine reactionsFor_congr encryptedFlag me fun key => ?_
  have hperm : (reactsOn target key events).Perm (reactsOn target key order) :=
    hp.symm.filterMap _
  have hempty : (({} : ReactionIndex).keysOf target)[key]? = none := by simp [keysOf]
  rw [get_keysOf_foldl, get_keysOf_foldl, hempty, foldl_react_none, foldl_react_none]
  by_cases hnil : reactsOn target key events = []
  · have hnil' : reactsOn target key order = [] := by
      rw [hnil] at hperm
      exact hperm.nil_eq.symm
    rw [if_pos hnil, if_pos hnil']
  · have hnil' : reactsOn target key order ≠ [] := fun h => by
      rw [h] at hperm
      exact hnil hperm.eq_nil
    rw [if_neg hnil, if_neg hnil', Option.map_some, Option.map_some]
    refine congrArg some (ReactionKeyState.shown_perm hperm key (fun f hf => ?_) ?_)
    · obtain ⟨-, -, -, -, hk⟩ := mem_reactsOn hf
      exact hk
    · intro f hf g hg hauthor hat
      obtain ⟨a, ha, hsa, hta, hka⟩ := mem_reactsOn hf
      obtain ⟨b, hb, hsb, htb, hkb⟩ := mem_reactsOn hg
      by_contra hadd
      refine huntied a ha b hb ?_
      unfold Tied
      rw [hsa, hsb]
      exact ⟨hta.trans htb.symm, hka.trans hkb.symm, hauthor, hat, hadd⟩

end ReactionIndex

end Harmony.Channel
