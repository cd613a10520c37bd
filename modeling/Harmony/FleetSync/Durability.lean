import Harmony.FleetSync.Delivery

/-! The durability indicator. A sibling is counted when its digest of the device shows the
latest stamp that the device minted. Writes mint stamps as well as publishes, and a publish
mints its own long after its snapshot, so a write may fall in between: its stamp is below
that of a frame that does not hold it. Where no write does, a counted sibling has all. -/

namespace Harmony.FleetSync

open Harmony.Lib
open Harmony.Membership (Hlc)
open Harmony.Owner (isStrictlyNewerThan isStrictlyNewerThan_iff)

variable {K : CrdtSync} {S : Type}

/-! ## Writes and snapshots -/

def Write.stamp : Write S → Option Hlc
  | .minted t => some t
  | .done t _ _ _ => t

/-- The write is in a state, if it has minted a stamp. -/
def Write.Within [LE S] (s : S) : Write S → Prop
  | .minted _ => False
  | .done (some _) _ after _ => after ≤ s
  | .done none _ _ _ => True

/-- The write is among the first mutations, if it has minted a stamp. -/
def Write.Before (n : ℕ) : Write S → Prop
  | .minted _ => False
  | .done (some _) i _ _ => i < n
  | .done none _ _ _ => True

/-- When a root gets its stamp, every write that has minted one was made before the
snapshot of the root. -/
def InTime [LE S] (e : Engine K S) (a : Act S) : Prop :=
  Inflationary e a ∧ match a with
    | .mintRoot => ∀ job s n, e.task = .encode job (.stored s n) → ∀ w ∈ e.writes, w.Before n
    | _ => True

theorem Write.Within.mono [Preorder S] {s s' : S} {w : Write S} (h : w.Within s) (hs : s ≤ s') :
    w.Within s' := by
  cases w with
  | minted t => exact h
  | done t i after signal =>
    cases t with
    | none => trivial
    | some t => exact Preorder.le_trans _ _ _ h hs

/-- The writes of a device up to a stamp are in a state. -/
def Complete [LE S] (writes : List (Write S)) (t : Hlc) (s : S) : Prop :=
  ∀ w ∈ writes, ∀ u, w.stamp = some u → u ≤ t → w.Within s

/-- The mutations below a number are in a snapshot. -/
def Captures [LE S] (writes : List (Write S)) (n : ℕ) (s : S) : Prop :=
  ∀ t i after signal, .done t i after signal ∈ writes → i < n → after ≤ s

def Task.Complete [LE S] (e : Engine K S) : Task K S → Prop
  | .encode _ (.snapped s n) => n ≤ e.mutations ∧ Captures e.writes n s
  | .encode _ (.stored s n) => n ≤ e.mutations ∧ Captures e.writes n s
  | .encode _ (.minted s _ t) => FleetSync.Complete e.writes t s
  | .encode _ (.built f _) => FleetSync.Complete e.writes f.stamp f.root
  | _ => True

/-- The writes of a device, seen beside the frames that it has emitted. -/
structure Records [LE S] (d : String) (mine : Frame S → Prop) (e : Engine K S) : Prop where
  stamps : ∀ w ∈ e.writes, ∀ t, w.stamp = some t → UpTo (K.accepted e.tracker) d t
  made : Captures e.writes e.mutations e.state
  numbers : ∀ t i after signal, .done t i after signal ∈ e.writes → i < e.mutations
  frames : ∀ f, mine f → Complete e.writes f.stamp f.root
  task : e.task.Complete e

section

variable [LE S] {pre post ws : List (Write S)} {w w' : Write S} {u : Hlc} {n : ℕ} {s : S}

theorem Complete.advance (h : Complete (pre ++ w :: post) u s) (hstamp : w'.stamp = w.stamp)
    (hwithin : w.Within s → w'.Within s) : Complete (pre ++ w' :: post) u s := by
  intro x hx t ht hle
  rcases mem_of_mem_advance hx with rfl | hx
  · exact hwithin (h w (List.mem_append_right _ List.mem_cons_self) t (hstamp ▸ ht) hle)
  · exact h x hx t ht hle

theorem Complete.append (h : Complete ws u s) (hw : ∀ t, w.stamp = some t → u < t) :
    Complete (ws ++ [w]) u s := by
  intro x hx t ht hle
  rcases List.mem_append.mp hx with hx | hx
  · exact h x hx t ht hle
  · obtain rfl := List.mem_singleton.mp hx
    exact absurd (hw t ht) hle.not_gt

theorem Captures.advance (h : Captures (pre ++ w :: post) n s)
    (hw : ∀ t i after signal, w' = .done t i after signal → i < n → after ≤ s) :
    Captures (pre ++ w' :: post) n s := by
  intro t i after signal hx hi
  rcases mem_of_mem_advance hx with hx | hx
  · exact hw t i after signal hx.symm hi
  · exact h t i after signal hx hi

theorem Captures.append (h : Captures ws n s)
    (hw : ∀ t i after signal, w = .done t i after signal → i < n → after ≤ s) :
    Captures (ws ++ [w]) n s := by
  intro t i after signal hx hi
  rcases List.mem_append.mp hx with hx | hx
  · exact h t i after signal hx hi
  · exact hw t i after signal (List.mem_singleton.mp hx).symm hi

end

/-! ## What a step records -/

section

variable [SemilatticeSup S] {d : String} {mine : Frame S → Prop} {e e' : Engine K S}

theorem Records.of_task (h : Records d mine e) {task : Task K S} (htask : e.task = task) :
    task.Complete e :=
  htask ▸ h.task

/-- The engine goes on with its writes as they are. -/
theorem Records.goes (h : Records d mine e) {out : Option (Frame S)} (hwrites : e'.writes = e.writes)
    (hmutations : e'.mutations = e.mutations) (hstate : e.state ≤ e'.state)
    (htracker : ∀ t, UpTo (K.accepted e.tracker) d t → UpTo (K.accepted e'.tracker) d t)
    (htask : e'.task.Complete e') (hout : ∀ f, out = some f → Complete e.writes f.stamp f.root) :
    Records d (fun f => out = some f ∨ mine f) e' := by
  refine ⟨fun w hw t ht => ?_, fun t i after signal hw hi => ?_, fun t i after signal hw => ?_,
    fun f hf => ?_, htask⟩
  · exact htracker t (h.stamps w (hwrites ▸ hw) t ht)
  · exact (h.made t i after signal (hwrites ▸ hw) (hmutations ▸ hi)).trans hstate
  · exact hmutations ▸ h.numbers t i after signal (hwrites ▸ hw)
  · rw [hwrites]
    exact hf.elim (hout f) (h.frames f)

/-- A write goes on, and what was complete stays so. -/
theorem Records.change (h : Records d mine e) (hp : Publishes d mine e) (htask : e'.task = e.task)
    (hmutations : e.mutations ≤ e'.mutations)
    (hstamps : ∀ w ∈ e'.writes, ∀ t, w.stamp = some t → UpTo (K.accepted e'.tracker) d t)
    (hmade : Captures e'.writes e'.mutations e'.state)
    (hnumbers : ∀ t i after signal, .done t i after signal ∈ e'.writes → i < e'.mutations)
    (hcaptures : ∀ n s, n ≤ e.mutations → Captures e.writes n s → Captures e'.writes n s)
    (hcomplete : ∀ t s, UpTo (K.accepted e.tracker) d t → Complete e.writes t s → Complete e'.writes t s) :
    Records d (fun f => (none : Option (Frame S)) = some f ∨ mine f) e' := by
  refine ⟨hstamps, hmade, hnumbers, fun f hf => ?_, ?_⟩
  · have hf := hf.resolve_left nofun
    exact hcomplete _ _ (hp.stamps f hf) (h.frames f hf)
  · rw [htask]
    have hpub := hp.task
    have hrec := h.task
    cases htask : e.task with
    | encode job encoding =>
      rw [htask] at hpub hrec
      cases encoding with
      | start => trivial
      | snapped s n => exact ⟨hrec.1.trans hmutations, hcaptures n s hrec.1 hrec.2⟩
      | stored s n => exact ⟨hrec.1.trans hmutations, hcaptures n s hrec.1 hrec.2⟩
      | minted s n t => exact hcomplete t s (Stamped.upTo hpub) hrec
      | built f n => exact hcomplete f.stamp f.root (Stamped.upTo hpub) hrec
    | _ => trivial

/-- A new write comes behind the others. -/
theorem Records.append (h : Records d mine e) (hp : Publishes d mine e) {w : Write S}
    (hw : e'.writes = e.writes ++ [w]) (htask : e'.task = e.task)
    (hmutations : e.mutations ≤ e'.mutations) (hstate : e.state ≤ e'.state)
    (htracker : ∀ t, UpTo (K.accepted e.tracker) d t → UpTo (K.accepted e'.tracker) d t)
    (hstamp : ∀ t, w.stamp = some t → UpTo (K.accepted e'.tracker) d t ∧
      ∀ u, UpTo (K.accepted e.tracker) d u → u < t)
    (hdone : ∀ t i after signal, w = .done t i after signal →
      e.mutations ≤ i ∧ i < e'.mutations ∧ after ≤ e'.state) :
    Records d (fun f => (none : Option (Frame S)) = some f ∨ mine f) e' := by
  have hmem : ∀ x ∈ e'.writes, x ∈ e.writes ∨ x = w := fun x hx => by
    rw [hw, List.mem_append, List.mem_singleton] at hx
    exact hx
  refine h.change hp htask hmutations (fun x hx t ht => ?_) (fun t i after signal hx _ => ?_)
    (fun t i after signal hx => ?_) (fun n s hn hc => ?_) fun t s ht hc => ?_
  · rcases hmem x hx with hx | rfl
    · exact htracker t (h.stamps x hx t ht)
    · exact (hstamp t ht).1
  · rcases hmem _ hx with hx | hx
    · exact (h.made t i after signal hx (h.numbers t i after signal hx)).trans hstate
    · exact (hdone t i after signal hx.symm).2.2
  · rcases hmem _ hx with hx | hx
    · exact (h.numbers t i after signal hx).trans_le hmutations
    · exact (hdone t i after signal hx.symm).2.1
  · rw [hw]
    refine hc.append fun t i after signal hx hi => ?_
    exact absurd hi (hn.trans (hdone t i after signal hx).1).not_gt
  · rw [hw]
    exact hc.append fun u hu => (hstamp u hu).2 t ht

/-- One write goes on, with its stamp, and is no longer missing where it was not before. -/
theorem Records.advance (h : Records d mine e) (hp : Publishes d mine e) {pre post : List (Write S)}
    {w w' : Write S} (hw : e.writes = pre ++ w :: post) (hw' : e'.writes = pre ++ w' :: post)
    (htask : e'.task = e.task) (htracker : e'.tracker = e.tracker)
    (hmutations : e.mutations ≤ e'.mutations) (hstate : e.state ≤ e'.state)
    (hstamp : w'.stamp = w.stamp) (hwithin : ∀ s, w.Within s → w'.Within s)
    (hmade : ∀ t i after signal, w' = .done t i after signal → i < e'.mutations ∧ after ≤ e'.state ∧
      ∀ n s, n ≤ e.mutations → Captures e.writes n s → i < n → after ≤ s) :
    Records d (fun f => (none : Option (Frame S)) = some f ∨ mine f) e' := by
  refine h.change hp htask hmutations (fun x hx t ht => ?_) ?_ (fun t i after signal hx => ?_)
    (fun n s hn hc => ?_) fun t s _ hc => ?_
  · rw [htracker]
    rcases mem_of_mem_advance (hw' ▸ hx) with rfl | hx
    · exact h.stamps w (hw ▸ List.mem_append_right _ List.mem_cons_self) t (hstamp ▸ ht)
    · exact h.stamps x (hw ▸ hx) t ht
  · intro t i after signal hx hi
    rcases mem_of_mem_advance (hw' ▸ hx) with hx | hx
    · exact (hmade t i after signal hx.symm).2.1
    · have hx := hw ▸ hx
      exact (h.made t i after signal hx (h.numbers t i after signal hx)).trans hstate
  · rcases mem_of_mem_advance (hw' ▸ hx) with hx | hx
    · exact (hmade t i after signal hx.symm).1
    · exact (h.numbers t i after signal (hw ▸ hx)).trans_le hmutations
  · rw [hw']
    have hold := hw ▸ hc
    exact hold.advance fun t i after signal hx hi => (hmade t i after signal hx).2.2 n s hn hc hi
  · rw [hw']
    have hold := hw ▸ hc
    exact hold.advance hstamp (hwithin s)

/-- `notify_dirty` changes no write. -/
theorem Records.signal (h : Records d mine e) (hp : Publishes d mine e) {pre post : List (Write S)}
    {t : Option Hlc} {i : ℕ} {after : S} {signal signal' : Signal}
    (hw : e.writes = pre ++ .done t i after signal :: post)
    (hw' : e'.writes = pre ++ .done t i after signal' :: post) (htask : e'.task = e.task)
    (htracker : e'.tracker = e.tracker) (hmutations : e'.mutations = e.mutations)
    (hstate : e'.state = e.state) :
    Records d (fun f => (none : Option (Frame S)) = some f ∨ mine f) e' := by
  have hmem : Write.done t i after signal ∈ e.writes := hw ▸ List.mem_append_right _ List.mem_cons_self
  have hi := h.numbers t i after signal hmem
  refine h.advance hp hw hw' htask htracker hmutations.ge hstate.ge rfl (fun s hs => ?_) ?_
  · cases t <;> exact hs
  · intro t' i' after' signal'' hdone
    cases hdone
    exact ⟨hmutations ▸ hi, hstate ▸ h.made _ _ _ _ hmem hi, fun n s _ hc => hc _ _ _ _ hmem⟩

theorem Captures.within {ws : List (Write S)} {n : ℕ} {s : S} (h : Captures ws n s) {w : Write S}
    (hw : w ∈ ws) (hbefore : w.Before n) : w.Within s := by
  cases w with
  | minted t => exact hbefore
  | done t i after signal =>
    cases t with
    | none => trivial
    | some t => exact h _ i after signal hw hbefore

end

theorem Step.records [SemilatticeSup S] (hK : K.TracksStamps) {ctx : Ctx S}
    (hmerger : ctx.merger = (· ⊔ ·)) {net mine : Frame S → Prop} {e e' : Engine K S} {a : Act S}
    {out : Option (Frame S)} (hs : Step ctx net e a out e') (ha : InTime e a)
    (hsound : e.Sound ctx.deviceId net) (hp : Publishes ctx.deviceId mine e)
    (h : Records ctx.deviceId mine e) : Records ctx.deviceId (fun f => out = some f ∨ mine f) e' := by
  have hstate := hs.state_le hmerger ha.1
  have hupTo : ∀ t, UpTo (K.accepted e.tracker) ctx.deviceId t →
      UpTo (K.accepted e'.tracker) ctx.deviceId t := fun t => hs.upTo hK hsound
  cases hs with
  | mint wallMs =>
    have hnew := computeNextHlc_newer hK (K.accepted e.tracker) ctx.deviceId wallMs
    refine h.append hp rfl rfl le_rfl le_rfl hupTo (fun t ht => ?_) nofun
    cases ht
    refine ⟨(accepted_mintNextHlc hK e.tracker ctx.deviceId wallMs).symm ▸ upTo_insert_self _ _ _,
      fun u hu => ?_⟩
    obtain ⟨g, hg, hle⟩ := hu
    exact hle.trans_lt (hnew g hg)
  | apply s' hw =>
    refine h.advance hp hw rfl rfl rfl (Nat.le_succ _) hstate rfl (fun s hs => absurd hs id) ?_
    intro t i after signal hdone
    cases hdone
    exact ⟨Nat.lt_succ_self _, le_rfl, fun n s hn _ hi => absurd hi hn.not_gt⟩
  | mutate s' =>
    refine h.append hp rfl rfl (Nat.le_succ _) hstate hupTo nofun fun t i after signal hdone => ?_
    cases hdone
    exact ⟨le_rfl, Nat.lt_succ_self _, le_rfl⟩
  | flag hw => exact h.signal hp hw rfl rfl rfl rfl rfl
  | notify hw => exact h.signal hp hw rfl rfl rfl rfl rfl
  | mintRoot wallMs htask =>
    have hsnap : _ ∧ Captures e.writes _ _ := h.of_task htask
    refine h.goes rfl rfl hstate hupTo (fun w hw t ht hle => ?_) nofun
    exact hsnap.2.within hw (ha.2 _ _ _ htask w hw)
  | snapshot htask hkeys => exact h.goes rfl rfl hstate hupTo ⟨le_rfl, h.made⟩ nofun
  | store htask =>
    have hsnap : _ ∧ Captures e.writes _ _ := h.of_task htask
    exact h.goes rfl rfl hstate hupTo hsnap nofun
  | build htask =>
    have hcomplete : Complete e.writes _ _ := h.of_task htask
    exact h.goes rfl rfl hstate hupTo hcomplete nofun
  | send htask =>
    have hcomplete : Complete e.writes _ _ := h.of_task htask
    refine h.goes rfl rfl hstate hupTo trivial fun f hf => ?_
    cases hf
    exact hcomplete
  | reply htask =>
    have hcomplete : Complete e.writes _ _ := h.of_task htask
    refine h.goes rfl rfl hstate hupTo trivial fun f hf => ?_
    cases hf
    exact hcomplete
  | persist => exact h.goes rfl rfl hstate hupTo h.task nofun
  | idle htask hpoll => exact h.goes rfl rfl hstate hupTo h.task nofun
  | notified nowMs htask hpoll => exact h.goes rfl rfl hstate hupTo h.task nofun
  | shutdown htask =>
    refine h.goes rfl rfl hstate hupTo ?_ nofun
    change Task.Complete _ (ite _ _ _)
    split_ifs <;> trivial
  | @settle arm claim outcome nowMs htask =>
    have hwrites := e.settlePublish_writes claim outcome nowMs
    have hmutations := e.settlePublish_mutations claim outcome nowMs
    cases arm with
    | shutdown => exact h.goes rfl rfl hstate hupTo trivial nofun
    | wake => exact h.goes hwrites hmutations hstate hupTo trivial nofun
    | flush => exact h.goes hwrites hmutations hstate hupTo trivial nofun
  | @keyless job htask hkeys => cases job <;> exact h.goes rfl rfl hstate hupTo trivial nofun
  | @fail job encoding htask hkeys => cases job <;> exact h.goes rfl rfl hstate hupTo trivial nofun
  | _ => exact h.goes rfl rfl hstate hupTo trivial nofun

/-! ## Acknowledgements -/

/-- What the siblings of a device have shown of it: their digests, and its record of them,
are not ahead of their trackers. -/
structure Fleet.Acknowledges (d : String) (F : Fleet K S) : Prop where
  acks : ∀ (r : String) h, (F.engine d).siblingAcks[r]? = some h → UpTo (K.accepted (F.engine r).tracker) d h
  seen : ∀ f ∈ F.net, ∀ h, f.seen[d]? = some h →
    UpTo (K.accepted (F.engine f.stamp.deviceId).tracker) d h
  built : ∀ r job f n h, (F.engine r).task = .encode job (.built f n) → f.seen[d]? = some h →
    UpTo (K.accepted (F.engine r).tracker) d h

/-- A digest is built from the tracker. -/
theorem Step.built_cases {ctx : Ctx S} {net : Frame S → Prop} {e e' : Engine K S} {a : Act S}
    {out : Option (Frame S)} (hs : Step ctx net e a out e') {job : Job K} {f : Frame S} {n : ℕ}
    (hf : e'.task = .encode job (.built f n)) :
    e.task = .encode job (.built f n) ∨
      e'.tracker = e.tracker ∧ ∀ (d : String) h, f.seen[d]? = some h →
        (K.accepted e.tracker)[d]? = some h := by
  cases hs with
  | build htask =>
    cases hf
    refine Or.inr ⟨rfl, fun d h hd => ?_⟩
    change (if ctx.publishSeen = true then seenDigest (K.accepted e.tracker) else ∅)[d]? = some h at hd
    split_ifs at hd
    · exact seenDigest_sound hd
    · cases hd
  | shutdown htask =>
    change ite _ _ _ = _ at hf
    split_ifs at hf
    cases hf
  | @settle arm claim outcome nowMs htask => cases arm <;> cases hf
  | @keyless job htask hkeys => cases job <;> cases hf
  | @fail job encoding htask hkeys => cases job <;> cases hf
  | mint wallMs => exact Or.inl hf
  | apply s hw => exact Or.inl hf
  | mutate s => exact Or.inl hf
  | flag hw => exact Or.inl hf
  | notify hw => exact Or.inl hf
  | persist => exact Or.inl hf
  | idle htask hpoll => exact Or.inl hf
  | notified nowMs htask hpoll => exact Or.inl hf
  | _ => cases hf

theorem Step.acks_cases (hK : K.TracksStamps) {ctx : Ctx S} {net : Frame S → Prop} {e e' : Engine K S}
    {a : Act S} {out : Option (Frame S)} (hs : Step ctx net e a out e') (hsound : e.Sound ctx.deviceId net)
    {r : String} {h : Hlc} (hr : e'.siblingAcks[r]? = some h) :
    e.siblingAcks[r]? = some h ∨
      ∃ f, net f ∧ f.stamp.deviceId = r ∧ f.seen[ctx.deviceId]? = some h := by
  cases hs with
  | @ack f htask =>
    have hf : net f := hsound.of_task htask
    change (if ctx.publishSeen = true then f.seen[ctx.deviceId]?.elim e.siblingAcks
      (K.observe e.siblingAcks f.stamp.deviceId) else e.siblingAcks)[r]? = some h at hr
    split_ifs at hr
    · cases hseen : f.seen[ctx.deviceId]? with
      | none =>
        rw [hseen] at hr
        exact Or.inl hr
      | some g =>
        rw [hseen, Option.elim_some, hK.observe_get] at hr
        split_ifs at hr with hfr
        · cases hold : e.siblingAcks[f.stamp.deviceId]? with
          | none =>
            rw [hold] at hr
            exact Or.inr ⟨f, hf, hfr, hseen.trans hr⟩
          | some g' =>
            rw [hold, Option.elim_some] at hr
            split_ifs at hr
            · exact Or.inr ⟨f, hf, hfr, hseen.trans hr⟩
            · exact Or.inl (hfr ▸ hold.trans hr)
        · exact Or.inl hr
    · exact Or.inl hr
  | @settle arm claim outcome nowMs htask =>
    have hacks := e.settlePublish_siblingAcks claim outcome nowMs
    cases arm with
    | shutdown => exact Or.inl hr
    | wake => exact Or.inl (hacks ▸ hr)
    | flush => exact Or.inl (hacks ▸ hr)
  | @keyless job htask hkeys => cases job <;> exact Or.inl hr
  | @fail job encoding htask hkeys => cases job <;> exact Or.inl hr
  | _ => exact Or.inl hr

theorem Fleet.Acknowledges.step (hK : K.TracksStamps) {ds : Dataset S} {F : Fleet K S} {d r : String}
    {e : Engine K S} {a : Act S} {out : Option (Frame S)}
    (hs : Step (ds.ctx r) (· ∈ F.net) (F.engine r) a out e) (hsound : (F.engine r).Sound r (· ∈ F.net))
    (h : F.Acknowledges d) :
    ({ engine := Function.update F.engine r e, net := out.toList ++ F.net } : Fleet K S).Acknowledges d := by
  have hupTo : ∀ x t, UpTo (K.accepted (F.engine x).tracker) d t →
      UpTo (K.accepted (Function.update F.engine r e x).tracker) d t := by
    intro x t ht
    by_cases hx : x = r
    · subst hx
      rw [Function.update_self]
      exact hs.upTo hK hsound ht
    · rwa [Function.update_of_ne hx]
  refine ⟨fun x t ht => ?_, fun f hf t ht => hupTo _ _ ?_, fun x job f n t hx ht => ?_⟩
  · refine hupTo x t ?_
    change (Function.update F.engine r e d).siblingAcks[x]? = some t at ht
    by_cases hd : d = r
    · subst hd
      rw [Function.update_self] at ht
      rcases hs.acks_cases hK hsound ht with ht | ⟨f, hf, rfl, hseen⟩
      · exact h.acks x t ht
      · exact h.seen f hf t hseen
    · rw [Function.update_of_ne hd] at ht
      exact h.acks x t ht
  · rcases List.mem_append.mp hf with hf | hf
    · rw [Option.mem_toList] at hf
      subst hf
      have hdev := hs.out_deviceId hsound
      rw [hdev]
      cases hs with
      | send htask => exact h.built r _ _ _ t htask ht
      | reply htask => exact h.built r _ _ _ t htask ht
    · exact h.seen f hf t ht
  · change (Function.update F.engine r e x).task = _ at hx
    change UpTo (K.accepted (Function.update F.engine r e x).tracker) d t
    by_cases hxr : x = r
    · subst hxr
      rw [Function.update_self] at hx ⊢
      rcases hs.built_cases hx with hx | ⟨htracker, hseen⟩
      · exact hs.upTo hK hsound (h.built x _ _ _ t hx ht)
      · rw [htracker]
        exact ⟨t, hseen d t ht, le_rfl⟩
    · rw [Function.update_of_ne hxr] at hx ⊢
      exact h.built x job f n t hx ht

theorem Fleet.Run.acknowledges (hK : K.TracksStamps) {ds : Dataset S} {F : Fleet K S}
    {admissible : Engine K S → Act S → Prop} (h : F.Run ds admissible fun _ => False) (d : String) : F.Acknowledges d := by
  induction h with
  | start state =>
    refine ⟨fun r t ht => ?_, fun f hf => absurd hf List.not_mem_nil, fun r job f n t ht => ?_⟩
    · cases ht
    · cases ht
  | step r hrun hs ha ih => exact ih.step hK hs (hrun.sound hK r)
  | crash r hrun hr ih => exact absurd hr id

theorem mem_synced {e : Engine K S} {d r : String} {latest h : Hlc}
    (hlatest : (K.accepted e.tracker)[d]? = some latest) (hr : (e.synced d)[r]? = some h) :
    e.siblingAcks[r]? = some h ∧ latest ≤ h := by
  rw [Engine.synced, hlatest, Std.ExtTreeMap.getElem?_filter', Option.filter_eq_some_iff] at hr
  refine ⟨hr.1, le_of_not_gt fun hlt => ?_⟩
  have hnot := hr.2
  rw [isStrictlyNewerThan_iff.mpr hlt] at hnot
  cases hnot

/-! ## Runs -/

section Runs

variable [SemilatticeSup S] {ds : Dataset S} {F : Fleet K S}

theorem Fleet.Run.records (hK : K.TracksStamps) (hmerger : ds.merger = (· ⊔ ·)) 
    (h : F.Run ds InTime fun _ => False) (d : String) : Records d (F.From d) (F.engine d) := by
  induction h with
  | start state =>
    refine ⟨fun w hw => absurd hw List.not_mem_nil, fun t i after signal hw => absurd hw List.not_mem_nil,
      fun t i after signal hw => absurd hw List.not_mem_nil, fun f hf => absurd hf.1 List.not_mem_nil,
      trivial⟩
  | @step F a out r e hrun hs ha ih =>
    have hsound := hrun.sound hK r
    have hout : ∀ f, out = some f → f.stamp.deviceId = r := by
      rintro f rfl
      exact hs.out_deviceId hsound
    change Records d _ (Function.update F.engine r e d)
    by_cases hd : d = r
    · subst hd
      rw [Function.update_self, Fleet.from_own hout]
      exact hs.records hK hmerger ha hsound
        (hrun.delivers hK hmerger (fun _ _ => And.left) (d := d) id).publishes ih
    · rw [Function.update_of_ne hd,
        Fleet.from_other _ _ _ fun f hf hfd => hd (hfd.symm.trans (hout f hf))]
      exact ih
  | crash r hrun hr ih => exact absurd hr id

/-- In a run in which every root gets its stamp in time, a sibling that the indicator counts
has every write of the device. -/
theorem counted_sibling_has_every_write (hK : K.TracksStamps) (hmerger : ds.merger = (· ⊔ ·))
    (h : F.Run ds InTime fun _ => False) {d r : String} (hr : r ≠ d)
    (hcounted : (((F.engine d).synced d)[r]?).isSome) {w : Write S} (hw : w ∈ (F.engine d).writes) :
    w.Within (F.engine r).state := by
  have hrecords := h.records hK hmerger d
  have hreceives := (h.delivers hK hmerger (fun _ _ => And.left) (d := d) id).receives r hr
  obtain ⟨t, ht⟩ := Option.isSome_iff_exists.mp hcounted
  cases hlatest : (K.accepted (F.engine d).tracker)[d]? with
  | none =>
    rw [Engine.synced, hlatest] at ht
    cases ht
  | some latest =>
    obtain ⟨hack, hle⟩ := mem_synced hlatest ht
    obtain ⟨g, hg, htg⟩ := (h.acknowledges hK d).acks r t hack
    obtain ⟨⟨f, hf, rfl⟩, hroots⟩ := hreceives.knows g hg
    have hroot := hroots f hf le_rfl
    cases hstamp : w.stamp with
    | some u =>
      obtain ⟨g', hg', hu⟩ := hrecords.stamps w hw u hstamp
      have hlu : u ≤ latest := (Option.some.inj (hg'.symm.trans hlatest)) ▸ hu
      exact (hrecords.frames f hf w hw u hstamp ((hlu.trans hle).trans htg)).mono hroot
    | none =>
      cases w with
      | minted t => cases hstamp
      | done t i after signal =>
        cases hstamp
        trivial

end Runs

/-- The write comes first, and the indicator counts the phone once it has it. -/
theorem counted_sibling_has_every_write_phone : ∃ F : Fleet kernel (Finset ℕ),
    F.Run notes InTime (fun _ => False) ∧ (F.engine "desk").syncedDeviceCount "desk" = 1 ∧
      {1} ≤ (F.engine "phone").state := by
  have h₀ : alone.Run notes InTime (fun _ => False) := .start fun _ => ∅
  have h₁ := h₀.step "desk" (.mint 1) ⟨trivial, trivial⟩
  have h₂ := h₁.step "desk" (.apply {1} (List.nil_append _).symm) ⟨Finset.empty_subset _, trivial⟩
  have h₃ := h₂.step "desk" (.flush rfl) ⟨trivial, trivial⟩
  have h₄ := h₃.step "desk" (.snapshot rfl rfl) ⟨trivial, trivial⟩
  have h₅ := h₄.step "desk" (.store rfl) ⟨trivial, trivial⟩
  have h₆ := h₅.step "desk" (.mintRoot 2 rfl) ⟨trivial, by
    intro job s n htask w hw
    cases htask
    obtain rfl := List.mem_singleton.mp hw
    exact Nat.one_pos⟩
  have h₇ := h₆.step "desk" (.build rfl) ⟨trivial, trivial⟩
  have h₈ := h₇.step "desk" (.send rfl) ⟨trivial, trivial⟩
  have h₉ := h₈.step "desk" (.settle 0 rfl) ⟨trivial, trivial⟩
  have h₁₀ := h₉.step "phone" (.receive rfl rfl List.mem_cons_self rfl) ⟨trivial, trivial⟩
  have h₁₁ := h₁₀.step "phone" (.fetched rfl) ⟨trivial, trivial⟩
  have h₁₂ := h₁₁.step "phone" (.merge rfl) ⟨trivial, trivial⟩
  have h₁₃ := h₁₂.step "phone" (.commit rfl) ⟨trivial, trivial⟩
  have h₁₄ := h₁₃.step "phone" (.ack rfl) ⟨trivial, trivial⟩
  have h₁₅ := h₁₄.step "phone" (.flush rfl) ⟨trivial, trivial⟩
  have h₁₆ := h₁₅.step "phone" (.snapshot rfl rfl) ⟨trivial, trivial⟩
  have h₁₇ := h₁₆.step "phone" (.store rfl) ⟨trivial, trivial⟩
  have h₁₈ := h₁₇.step "phone" (.mintRoot 3 rfl) ⟨trivial, by
    intro job s n htask w hw
    exact absurd hw List.not_mem_nil⟩
  have h₁₉ := h₁₈.step "phone" (.build rfl) ⟨trivial, trivial⟩
  have h₂₀ := h₁₉.step "phone" (.send rfl) ⟨trivial, trivial⟩
  have h₂₁ := h₂₀.step "desk" (.receive rfl rfl List.mem_cons_self rfl) ⟨trivial, trivial⟩
  have h₂₂ := h₂₁.step "desk" (.fetched rfl) ⟨trivial, trivial⟩
  have h₂₃ := h₂₂.step "desk" (.merge rfl) ⟨trivial, trivial⟩
  have h₂₄ := h₂₃.step "desk" (.commit rfl) ⟨trivial, trivial⟩
  have h₂₅ := h₂₄.step "desk" (.ack rfl) ⟨trivial, trivial⟩
  refine ⟨_, h₂₅, by decide +kernel, ?_⟩
  exact counted_sibling_has_every_write kernel_tracksStamps rfl h₂₅ (d := "desk") (r := "phone")
    (by decide) (by decide +kernel) List.mem_cons_self

/-! ### A write between the snapshot and the stamp -/

/-- The phone has merged and acknowledged a frame that the desk took before it wrote. -/
theorem indicator_overstates : ¬∀ F : Fleet kernel (Finset ℕ),
    F.Run notes Inflationary (fun _ => False) → ∀ d r, r ≠ d →
      (((F.engine d).synced d)[r]?).isSome → ∀ w ∈ (F.engine d).writes, w.Within (F.engine r).state := by
  intro h
  have h₀ : alone.Run notes Inflationary (fun _ => False) := .start fun _ => ∅
  have h₁ := h₀.step "desk" (.flush rfl) trivial
  have h₂ := h₁.step "desk" (.snapshot rfl rfl) trivial
  have h₃ := h₂.step "desk" (.store rfl) trivial
  have h₄ := h₃.step "desk" (.mint 1) trivial
  have h₅ := h₄.step "desk" (.apply {1} (List.nil_append _).symm) (Finset.empty_subset _)
  have h₆ := h₅.step "desk" (.mintRoot 2 rfl) trivial
  have h₇ := h₆.step "desk" (.build rfl) trivial
  have h₈ := h₇.step "desk" (.send rfl) trivial
  have h₉ := h₈.step "desk" (.settle 0 rfl) trivial
  have h₁₀ := h₉.step "phone" (.receive rfl rfl List.mem_cons_self rfl) trivial
  have h₁₁ := h₁₀.step "phone" (.fetched rfl) trivial
  have h₁₂ := h₁₁.step "phone" (.merge rfl) trivial
  have h₁₃ := h₁₂.step "phone" (.commit rfl) trivial
  have h₁₄ := h₁₃.step "phone" (.ack rfl) trivial
  have h₁₅ := h₁₄.step "phone" (.flush rfl) trivial
  have h₁₆ := h₁₅.step "phone" (.snapshot rfl rfl) trivial
  have h₁₇ := h₁₆.step "phone" (.store rfl) trivial
  have h₁₈ := h₁₇.step "phone" (.mintRoot 3 rfl) trivial
  have h₁₉ := h₁₈.step "phone" (.build rfl) trivial
  have h₂₀ := h₁₉.step "phone" (.send rfl) trivial
  have h₂₁ := h₂₀.step "desk" (.receive rfl rfl List.mem_cons_self rfl) trivial
  have h₂₂ := h₂₁.step "desk" (.fetched rfl) trivial
  have h₂₃ := h₂₂.step "desk" (.merge rfl) trivial
  have h₂₄ := h₂₃.step "desk" (.commit rfl) trivial
  have h₂₅ := h₂₄.step "desk" (.ack rfl) trivial
  have hcounted : ({1} : Finset ℕ) ≤ ∅ :=
    h _ h₂₅ "desk" "phone" (by decide) (by decide +kernel) _ List.mem_cons_self
  exact absurd hcounted (by decide)

end Harmony.FleetSync
