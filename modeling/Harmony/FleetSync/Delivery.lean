import Harmony.FleetSync.Engine

/-! A fleet of engines and the frames between them, which may be lost, repeated and
reordered. No engine marks a frame as received before it has merged it, nor what is saved:
a stamp in its tracker stands for everything that its device published up to that stamp. -/

namespace Harmony.FleetSync

open Harmony.Lib Std
open Harmony.Membership (Hlc)

variable {K : CrdtSync} {S : Type}

/-! ## Fleets -/

structure Fleet (K : CrdtSync) (S : Type) where
  engine : String → Engine K S
  net : List (Frame S)

/-- What the engines of a fleet have in common, and which of them have keys. -/
structure Dataset (S : Type) where
  keys : String → Bool
  publishSeen : Bool
  merger : S → S → S

def Dataset.ctx (ds : Dataset S) (deviceId : String) : Ctx S where
  deviceId := deviceId
  keys := ds.keys deviceId
  publishSeen := ds.publishSeen
  merger := ds.merger

/-- The runs of a fleet whose engines take admissible steps and of which some devices may
crash at any moment, and boot from what they saved last. -/
inductive Fleet.Run (ds : Dataset S) (admissible : Engine K S → Act S → Prop)
    (crashes : String → Prop) : Fleet K S → Prop where
  | start (state : String → S) : Run ds admissible crashes
      { engine := fun d => Engine.boot d (state d, ∅), net := [] }
  | step {F : Fleet K S} {a : Act S} {out : Option (Frame S)} (d : String) {e : Engine K S}
      (h : Run ds admissible crashes F) (hs : Step (ds.ctx d) (· ∈ F.net) (F.engine d) a out e)
      (ha : admissible (F.engine d) a) : Run ds admissible crashes
      { engine := Function.update F.engine d e, net := out.toList ++ F.net }
  | crash {F : Fleet K S} (d : String) (h : Run ds admissible crashes F) (hd : crashes d) :
      Run ds admissible crashes
        { F with engine := Function.update F.engine d (Engine.boot d (F.engine d).saved) }

/-- The frames around that a device has emitted. -/
def Fleet.From (F : Fleet K S) (d : String) (f : Frame S) : Prop := f ∈ F.net ∧ f.stamp.deviceId = d

theorem Fleet.from_other (F : Fleet K S) (engine : String → Engine K S) {out : Option (Frame S)}
    (d : String) (hout : ∀ f, out = some f → f.stamp.deviceId ≠ d) :
    ({ engine := engine, net := out.toList ++ F.net } : Fleet K S).From d = F.From d := by
  funext f
  rw [Fleet.From, Fleet.From, List.mem_append, Option.mem_toList]
  refine propext ⟨fun ⟨hf, hfd⟩ => ⟨hf.resolve_left fun hf => hout f hf hfd, hfd⟩, fun ⟨hf, hfd⟩ => ?_⟩
  exact ⟨Or.inr hf, hfd⟩

theorem Fleet.from_own {F : Fleet K S} {engine : String → Engine K S} {out : Option (Frame S)}
    {d : String} (hout : ∀ f, out = some f → f.stamp.deviceId = d) :
    ({ engine := engine, net := out.toList ++ F.net } : Fleet K S).From d =
      fun f => out = some f ∨ F.From d f := by
  funext f
  rw [Fleet.From, Fleet.From, List.mem_append, Option.mem_toList]
  refine propext ⟨fun ⟨hf, hfd⟩ => hf.imp_right fun hf => ⟨hf, hfd⟩, fun hf => ?_⟩
  rcases hf with hf | ⟨hf, hfd⟩
  · exact ⟨Or.inl hf, hout f hf⟩
  · exact ⟨Or.inr hf, hfd⟩

/-- Local writes only add to the state. -/
def Inflationary [LE S] (e : Engine K S) : Act S → Prop
  | .apply s => e.state ≤ s
  | .mutate s => e.state ≤ s
  | _ => True

/-! ## Trackers -/

def UpTo (m : BTreeMap String Hlc) (d : String) (h : Hlc) : Prop := ∃ g, m[d]? = some g ∧ h ≤ g

theorem UpTo.insert {m : BTreeMap String Hlc} {d a : String} {h g : Hlc} (hh : UpTo m d h)
    (hnew : Newer m a g) : UpTo (m.insert a g) d h := by
  obtain ⟨g', hg', hle⟩ := hh
  rw [UpTo, BTreeMap.get_insert]
  split_ifs with had
  · exact ⟨g, rfl, hle.trans (hnew g' (had ▸ hg')).le⟩
  · exact ⟨g', hg', hle⟩

theorem upTo_insert_self (m : BTreeMap String Hlc) (d : String) (h : Hlc) : UpTo (m.insert d h) d h :=
  ⟨h, (BTreeMap.get_insert m d d h).trans (if_pos rfl), le_rfl⟩

theorem Newer.insert_of_ne {m : BTreeMap String Hlc} {d a : String} {h g : Hlc} (hh : Newer m d h)
    (had : a ≠ d) : Newer (m.insert a g) d h := by
  intro g' hg'
  rw [BTreeMap.get_insert, if_neg had] at hg'
  exact hh g' hg'

/-- A frame whose ticket the task holds: it was admitted, and still is new. -/
structure Admitted (net : Frame S → Prop) (tracker : K.Tracker) (f : Frame S) (k : K.Ticket) : Prop where
  received : net f
  ticket : ∃ t, K.own t = K.own tracker ∧ K.admitStamp t f.stamp.deviceId f.stamp = .accept k
  newer : Newer (K.accepted tracker) f.stamp.deviceId f.stamp

def Task.Sound (d : String) (net : Frame S → Prop) (tracker : K.Tracker) : Task K S → Prop
  | .encode _ (.minted _ _ t) => t.deviceId = d
  | .encode _ (.built f _) => f.stamp.deviceId = d
  | .fetching f k => Admitted net tracker f k
  | .merging f k => Admitted net tracker f k
  | .merged f k => Admitted net tracker f k
  | .acking f => net f
  | _ => True

structure Engine.Sound (d : String) (net : Frame S → Prop) (e : Engine K S) : Prop where
  own : K.own e.tracker = d
  task : e.task.Sound d net e.tracker

section

variable {net net' : Frame S → Prop} {tracker : K.Tracker} {f : Frame S} {k : K.Ticket} {d : String}
  {task : Task K S}

theorem Admitted.ne_own (hK : K.TracksStamps) (h : Admitted net tracker f k) :
    f.stamp.deviceId ≠ K.own tracker := by
  obtain ⟨t, hown, hk⟩ := h.ticket
  exact hown ▸ (hK.admit_accept t _ _ k hk).1

theorem Admitted.accepted_commit (hK : K.TracksStamps) (h : Admitted net tracker f k) :
    K.accepted (K.commit tracker k) = (K.accepted tracker).insert f.stamp.deviceId f.stamp := by
  obtain ⟨t, -, hk⟩ := h.ticket
  exact hK.accepted_commit t _ _ k hk tracker h.newer

theorem Admitted.mint (hK : K.TracksStamps) (h : Admitted net tracker f k) (hown : K.own tracker = d)
    (wallMs : ℕ) : Admitted net (mintNextHlc K tracker d wallMs).2 f k := by
  obtain ⟨t, ht, hk⟩ := h.ticket
  refine ⟨h.received, ⟨t, ht.trans (hK.own_observeLocal _ _).symm, hk⟩, ?_⟩
  rw [accepted_mintNextHlc hK]
  exact h.newer.insert_of_ne (hown ▸ (h.ne_own hK).symm)

theorem Task.Sound.mint (hK : K.TracksStamps) (h : task.Sound d net tracker) (hown : K.own tracker = d)
    (wallMs : ℕ) : task.Sound d net (mintNextHlc K tracker d wallMs).2 := by
  cases task with
  | encode job encoding => cases encoding <;> exact h
  | fetching f k => exact Admitted.mint hK h hown wallMs
  | merging f k => exact Admitted.mint hK h hown wallMs
  | merged f k => exact Admitted.mint hK h hown wallMs
  | _ => exact h

theorem Task.Sound.mono (h : task.Sound d net tracker) (hnet : ∀ f, net f → net' f) :
    task.Sound d net' tracker := by
  have hadm : ∀ {f : Frame S} {k}, Admitted net tracker f k → Admitted net' tracker f k := fun ha =>
    ⟨hnet _ ha.received, ha.ticket, ha.newer⟩
  cases task with
  | encode job encoding => cases encoding <;> exact h
  | fetching f k => exact hadm h
  | merging f k => exact hadm h
  | merged f k => exact hadm h
  | acking f => exact hnet f h
  | _ => trivial

end

theorem Engine.Sound.boot (hK : K.TracksStamps) (d : String) (net : Frame S → Prop)
    (saved : S × BTreeMap String Hlc) : (Engine.boot d saved : Engine K S).Sound d net :=
  ⟨hK.own_restore d saved.2, trivial⟩

theorem Engine.Sound.of_task {d : String} {net : Frame S → Prop} {e : Engine K S} (h : e.Sound d net)
    {task : Task K S} (htask : e.task = task) : task.Sound d net e.tracker :=
  htask ▸ h.task

theorem Step.sound (hK : K.TracksStamps) {ctx : Ctx S} {net : Frame S → Prop} {e e' : Engine K S}
    {a : Act S} {out : Option (Frame S)} (hs : Step ctx net e a out e') (h : e.Sound ctx.deviceId net) :
    e'.Sound ctx.deviceId net := by
  have hmint : ∀ wallMs, K.own (mintNextHlc K e.tracker ctx.deviceId wallMs).2 = ctx.deviceId :=
    fun wallMs => (hK.own_observeLocal _ _).trans h.own
  cases hs with
  | mint wallMs => exact ⟨hmint wallMs, h.task.mint hK h.own wallMs⟩
  | mintRoot wallMs htask => exact ⟨hmint wallMs, rfl⟩
  | build htask =>
    have ht : Hlc.deviceId _ = ctx.deviceId := h.of_task htask
    exact ⟨h.own, ht⟩
  | receive htask hkeys hf hk =>
    exact ⟨h.own, hf, ⟨_, rfl, hk⟩, (hK.admit_accept _ _ _ _ hk).2⟩
  | fetched htask =>
    have hadm : Admitted net e.tracker _ _ := h.of_task htask
    exact ⟨h.own, hadm⟩
  | merge htask =>
    have hadm : Admitted net e.tracker _ _ := h.of_task htask
    exact ⟨h.own, hadm⟩
  | commit htask =>
    have hadm : Admitted net e.tracker _ _ := h.of_task htask
    exact ⟨(hK.own_commit _ _).trans h.own, hadm.received⟩
  | @settle arm claim outcome nowMs htask =>
    have htracker := e.settlePublish_tracker claim outcome nowMs
    cases arm with
    | shutdown => exact ⟨h.own, trivial⟩
    | wake => exact ⟨(congrArg K.own htracker).trans h.own, trivial⟩
    | flush => exact ⟨(congrArg K.own htracker).trans h.own, trivial⟩
  | @keyless job htask hkeys => cases job <;> exact ⟨h.own, trivial⟩
  | @fail job encoding htask hkeys => cases job <;> exact ⟨h.own, trivial⟩
  | shutdown htask =>
    refine ⟨h.own, ?_⟩
    change Task.Sound _ _ _ (ite _ _ _)
    split_ifs <;> trivial
  | apply s hw => exact ⟨h.own, h.task⟩
  | mutate s => exact ⟨h.own, h.task⟩
  | flag hw => exact ⟨h.own, h.task⟩
  | notify hw => exact ⟨h.own, h.task⟩
  | persist => exact ⟨h.own, h.task⟩
  | idle htask hpoll => exact ⟨h.own, h.task⟩
  | notified nowMs htask hpoll => exact ⟨h.own, h.task⟩
  | wake htask hwake => exact ⟨h.own, trivial⟩
  | flush htask => exact ⟨h.own, trivial⟩
  | serve htask => exact ⟨h.own, trivial⟩
  | snapshot htask hkeys => exact ⟨h.own, trivial⟩
  | store htask => exact ⟨h.own, trivial⟩
  | send htask => exact ⟨h.own, trivial⟩
  | reply htask => exact ⟨h.own, trivial⟩
  | dropped htask => exact ⟨h.own, trivial⟩
  | ack htask => exact ⟨h.own, trivial⟩

/-- What a step does to the stamps that are accepted: a mint adds one's own, a commit that
of the frame that was merged. -/
theorem Step.accepted_cases (hK : K.TracksStamps) {ctx : Ctx S} {net : Frame S → Prop}
    {e e' : Engine K S} {a : Act S} {out : Option (Frame S)} (hs : Step ctx net e a out e')
    (h : e.Sound ctx.deviceId net) :
    K.accepted e'.tracker = K.accepted e.tracker ∨
    (∃ t, Newer (K.accepted e.tracker) ctx.deviceId t ∧
      K.accepted e'.tracker = (K.accepted e.tracker).insert ctx.deviceId t) ∨
    ∃ f k, e.task = .merged f k ∧ e'.state = e.state ∧ Admitted net e.tracker f k ∧
      K.accepted e'.tracker = (K.accepted e.tracker).insert f.stamp.deviceId f.stamp := by
  have hmint : ∀ wallMs, ∃ t, Newer (K.accepted e.tracker) ctx.deviceId t ∧
      K.accepted (mintNextHlc K e.tracker ctx.deviceId wallMs).2 =
        (K.accepted e.tracker).insert ctx.deviceId t := fun wallMs =>
    ⟨_, computeNextHlc_newer hK _ _ wallMs, accepted_mintNextHlc hK _ _ wallMs⟩
  cases hs with
  | mint wallMs => exact Or.inr (Or.inl (hmint wallMs))
  | mintRoot wallMs htask => exact Or.inr (Or.inl (hmint wallMs))
  | commit htask =>
    have hadm : Admitted net e.tracker _ _ := h.of_task htask
    exact Or.inr (Or.inr ⟨_, _, htask, rfl, hadm, hadm.accepted_commit hK⟩)
  | @settle arm claim outcome nowMs htask =>
    have htracker := e.settlePublish_tracker claim outcome nowMs
    cases arm with
    | shutdown => exact Or.inl rfl
    | wake => exact Or.inl (congrArg K.accepted htracker)
    | flush => exact Or.inl (congrArg K.accepted htracker)
  | @keyless job htask hkeys => cases job <;> exact Or.inl rfl
  | @fail job encoding htask hkeys => cases job <;> exact Or.inl rfl
  | _ => exact Or.inl rfl

theorem Step.upTo (hK : K.TracksStamps) {ctx : Ctx S} {net : Frame S → Prop} {e e' : Engine K S}
    {a : Act S} {out : Option (Frame S)} (hs : Step ctx net e a out e') (h : e.Sound ctx.deviceId net)
    {d : String} {t : Hlc} (ht : UpTo (K.accepted e.tracker) d t) : UpTo (K.accepted e'.tracker) d t := by
  rcases hs.accepted_cases hK h with heq | ⟨g, hnew, heq⟩ | ⟨f, k, -, -, hadm, heq⟩
  · rwa [heq]
  · rw [heq]
    exact ht.insert hnew
  · rw [heq]
    exact ht.insert hadm.newer

theorem Step.saved_cases {ctx : Ctx S} {net : Frame S → Prop} {e e' : Engine K S} {a : Act S}
    {out : Option (Frame S)} (hs : Step ctx net e a out e') :
    e'.saved = e.saved ∨ e'.saved = (e.state, K.accepted e.tracker) := by
  cases hs with
  | persist => exact Or.inr rfl
  | @settle arm claim outcome nowMs htask =>
    have hsaved := e.settlePublish_saved claim outcome nowMs
    cases arm with
    | shutdown => exact Or.inl rfl
    | wake => exact Or.inl hsaved
    | flush => exact Or.inl hsaved
  | @keyless job htask hkeys => cases job <;> exact Or.inl rfl
  | @fail job encoding htask hkeys => cases job <;> exact Or.inl rfl
  | _ => exact Or.inl rfl

theorem Step.out_deviceId {ctx : Ctx S} {net : Frame S → Prop} {e e' : Engine K S} {a : Act S}
    {f : Frame S} (hs : Step ctx net e a (some f) e') (h : e.Sound ctx.deviceId net) :
    f.stamp.deviceId = ctx.deviceId := by
  cases hs with
  | send htask => exact h.of_task htask
  | reply htask => exact h.of_task htask

theorem Fleet.Run.sound (hK : K.TracksStamps) {ds : Dataset S} {admissible : Engine K S → Act S → Prop}
    {crashes : String → Prop} {F : Fleet K S} (h : F.Run ds admissible crashes) (d : String) :
    (F.engine d).Sound d (· ∈ F.net) := by
  induction h generalizing d with
  | start state => exact Engine.Sound.boot hK d _ _
  | @step F a out r e _ hs ha ih =>
    by_cases hr : d = r
    · subst hr
      have hsound := hs.sound hK (ih d)
      change (Function.update F.engine d e d).Sound d _
      rw [Function.update_self]
      exact ⟨hsound.own, hsound.task.mono fun f => List.mem_append_right _⟩
    · change (Function.update F.engine r e d).Sound d _
      rw [Function.update_of_ne hr]
      exact ⟨(ih d).own, (ih d).task.mono fun f => List.mem_append_right _⟩
  | @crash F r _ hr ih =>
    by_cases hd : d = r
    · subst hd
      change (Function.update F.engine d _ d).Sound d _
      rw [Function.update_self]
      exact Engine.Sound.boot hK d _ _
    · change (Function.update F.engine r _ d).Sound d _
      rw [Function.update_of_ne hd]
      exact ih d

/-! ## What an engine has published -/

section Published

variable [SemilatticeSup S]

theorem Step.state_le {ctx : Ctx S} (hmerger : ctx.merger = (· ⊔ ·)) {net : Frame S → Prop}
    {e e' : Engine K S} {a : Act S} {out : Option (Frame S)} (hs : Step ctx net e a out e')
    (ha : Inflationary e a) : e.state ≤ e'.state := by
  cases hs with
  | apply s hw => exact ha
  | mutate s => exact ha
  | merge htask =>
    change e.state ≤ ctx.merger e.state _
    rw [hmerger]
    exact le_sup_left
  | @settle arm claim outcome nowMs htask =>
    have hstate := e.settlePublish_state claim outcome nowMs
    cases arm with
    | shutdown => exact le_rfl
    | wake => exact hstate.ge
    | flush => exact hstate.ge
  | @keyless job htask hkeys => cases job <;> exact le_rfl
  | @fail job encoding htask hkeys => cases job <;> exact le_rfl
  | _ => exact le_rfl

/-- A snapshot is below the state it was taken of, and above all that was published before. -/
structure Recent (mine : Frame S → Prop) (state snapshot : S) : Prop where
  le_state : snapshot ≤ state
  above : ∀ f, mine f → f.root ≤ snapshot

/-- Its stamp is newer than all that were published before. -/
structure Stamped (d : String) (mine : Frame S → Prop) (accepted : BTreeMap String Hlc)
    (state snapshot : S) (t : Hlc) : Prop extends Recent mine state snapshot where
  newer : ∀ f, mine f → f.stamp < t
  upTo : UpTo accepted d t

def Task.Published (d : String) (mine : Frame S → Prop) (accepted : BTreeMap String Hlc) (state : S) :
    Task K S → Prop
  | .encode _ (.snapped s _) => Recent mine state s
  | .encode _ (.stored s _) => Recent mine state s
  | .encode _ (.minted s _ t) => Stamped d mine accepted state s t
  | .encode _ (.built f _) => Stamped d mine accepted state f.root f.stamp
  | _ => True

/-- The frames that a device has emitted, seen from its engine. -/
structure Publishes (d : String) (mine : Frame S → Prop) (e : Engine K S) : Prop where
  stamps : ∀ f, mine f → UpTo (K.accepted e.tracker) d f.stamp
  roots : ∀ f, mine f → f.root ≤ e.state
  ordered : ∀ f g, mine f → mine g → f.stamp ≤ g.stamp → f.root ≤ g.root
  task : e.task.Published d mine (K.accepted e.tracker) e.state

theorem Task.Published.mono {d : String} {mine : Frame S → Prop} {m m' : BTreeMap String Hlc}
    {s s' : S} {task : Task K S} (h : task.Published d mine m s) (hs : s ≤ s')
    (hm : ∀ t, UpTo m d t → UpTo m' d t) : task.Published d mine m' s' := by
  have hrecent : ∀ {x}, Recent mine s x → Recent mine s' x := fun hx => ⟨hx.le_state.trans hs, hx.above⟩
  have hstamped : ∀ {x t}, Stamped d mine m s x t → Stamped d mine m' s' x t := fun hx =>
    ⟨hrecent hx.toRecent, hx.newer, hm _ hx.upTo⟩
  cases task with
  | encode job encoding =>
    cases encoding with
    | start => trivial
    | snapped s n => exact hrecent h
    | stored s n => exact hrecent h
    | minted s n t => exact hstamped h
    | built f n => exact hstamped h
  | _ => trivial

section

variable {d : String} {mine : Frame S → Prop} {e e' : Engine K S}

theorem Publishes.quiet (h : Publishes d mine e) (hstate : e.state ≤ e'.state)
    (htracker : ∀ t, UpTo (K.accepted e.tracker) d t → UpTo (K.accepted e'.tracker) d t)
    (htask : e'.task.Published d mine (K.accepted e'.tracker) e'.state) :
    Publishes d (fun f => (none : Option (Frame S)) = some f ∨ mine f) e' := by
  have hmine : (fun f => (none : Option (Frame S)) = some f ∨ mine f) = mine := by
    funext f
    simp
  rw [hmine]
  exact ⟨fun f hf => htracker _ (h.stamps f hf), fun f hf => (h.roots f hf).trans hstate, h.ordered, htask⟩

theorem Publishes.emit (h : Publishes d mine e) {f₀ : Frame S}
    (hf₀ : Stamped d mine (K.accepted e.tracker) e.state f₀.root f₀.stamp)
    (hstate : e'.state = e.state) (htracker : e'.tracker = e.tracker)
    (htask : ∀ mine m s, e'.task.Published d mine m s) :
    Publishes d (fun f => some f₀ = some f ∨ mine f) e' := by
  refine ⟨fun f hf => ?_, fun f hf => ?_, fun f g hf hg hle => ?_, htask _ _ _⟩
  · rw [htracker]
    rcases hf with hf | hf
    · exact Option.some.inj hf ▸ hf₀.upTo
    · exact h.stamps f hf
  · rw [hstate]
    rcases hf with hf | hf
    · exact Option.some.inj hf ▸ hf₀.le_state
    · exact h.roots f hf
  · rcases hf with hf | hf <;> rcases hg with hg | hg
    · rw [← Option.some.inj hf, ← Option.some.inj hg]
    · rw [← Option.some.inj hf] at hle
      exact absurd (hf₀.newer g hg) hle.not_gt
    · exact Option.some.inj hg ▸ hf₀.above f hf
    · exact h.ordered f g hf hg hle

theorem Publishes.of_task (h : Publishes d mine e) {task : Task K S} (htask : e.task = task) :
    task.Published d mine (K.accepted e.tracker) e.state :=
  htask ▸ h.task

end

theorem Step.publishes (hK : K.TracksStamps) {ctx : Ctx S} (hmerger : ctx.merger = (· ⊔ ·))
    {net mine : Frame S → Prop} {e e' : Engine K S} {a : Act S} {out : Option (Frame S)}
    (hs : Step ctx net e a out e') (ha : Inflationary e a) (hsound : e.Sound ctx.deviceId net)
    (h : Publishes ctx.deviceId mine e) :
    Publishes ctx.deviceId (fun f => out = some f ∨ mine f) e' := by
  have hstate := hs.state_le hmerger ha
  have hupTo : ∀ t, UpTo (K.accepted e.tracker) ctx.deviceId t →
      UpTo (K.accepted e'.tracker) ctx.deviceId t := fun t => hs.upTo hK hsound
  cases hs with
  | snapshot htask hkeys => exact h.quiet hstate hupTo ⟨le_rfl, h.roots⟩
  | store htask =>
    have hrecent : Recent mine e.state _ := h.of_task htask
    exact h.quiet hstate hupTo hrecent
  | mintRoot wallMs htask =>
    have hrecent : Recent mine e.state _ := h.of_task htask
    refine h.quiet hstate hupTo ⟨hrecent, fun f hf => ?_, ?_⟩
    · obtain ⟨g, hg, hle⟩ := h.stamps f hf
      exact hle.trans_lt (computeNextHlc_newer hK _ _ wallMs g hg)
    · exact (accepted_mintNextHlc hK e.tracker ctx.deviceId wallMs).symm ▸ upTo_insert_self _ _ _
  | build htask =>
    have hstamped : Stamped ctx.deviceId mine _ e.state _ _ := h.of_task htask
    exact h.quiet hstate hupTo hstamped
  | send htask => exact h.emit (h.of_task htask) rfl rfl fun _ _ _ => trivial
  | reply htask => exact h.emit (h.of_task htask) rfl rfl fun _ _ _ => trivial
  | mint wallMs => exact h.quiet hstate hupTo (h.task.mono hstate hupTo)
  | apply s hw => exact h.quiet hstate hupTo (h.task.mono hstate hupTo)
  | mutate s => exact h.quiet hstate hupTo (h.task.mono hstate hupTo)
  | flag hw => exact h.quiet hstate hupTo h.task
  | notify hw => exact h.quiet hstate hupTo h.task
  | persist => exact h.quiet hstate hupTo h.task
  | idle htask hpoll => exact h.quiet hstate hupTo h.task
  | notified nowMs htask hpoll => exact h.quiet hstate hupTo h.task
  | shutdown htask =>
    refine h.quiet hstate hupTo ?_
    change Task.Published _ _ _ _ (ite _ _ _)
    split_ifs <;> trivial
  | @settle arm claim outcome nowMs htask => cases arm <;> exact h.quiet hstate hupTo trivial
  | @keyless job htask hkeys => cases job <;> exact h.quiet hstate hupTo trivial
  | @fail job encoding htask hkeys => cases job <;> exact h.quiet hstate hupTo trivial
  | _ => exact h.quiet hstate hupTo trivial

/-! ## What an engine has received -/

/-- A stamp of a device stands for all that it emitted up to it. -/
def Covers (d : String) (mine : Frame S → Prop) (accepted : BTreeMap String Hlc) (state : S) : Prop :=
  ∀ h, accepted[d]? = some h → (∃ f, mine f ∧ f.stamp = h) ∧ ∀ f, mine f → f.stamp ≤ h → f.root ≤ state

/-- The frames of a device, seen from another engine. -/
structure Receives (d : String) (mine : Frame S → Prop) (e : Engine K S) : Prop where
  knows : Covers d mine (K.accepted e.tracker) e.state
  saved : Covers d mine e.saved.2 e.saved.1
  merged : ∀ f k, e.task = .merged f k → f.stamp.deviceId = d → f.root ≤ e.state

theorem Covers.mono {d : String} {mine : Frame S → Prop} {m : BTreeMap String Hlc} {s s' : S}
    (h : Covers d mine m s) (hs : s ≤ s') : Covers d mine m s' := fun t ht =>
  ⟨(h t ht).1, fun f hf hle => ((h t ht).2 f hf hle).trans hs⟩

theorem Covers.emit {d : String} {mine : Frame S → Prop} {m : BTreeMap String Hlc} {s : S}
    (h : Covers d mine m s) {out : Option (Frame S)}
    (hnew : ∀ f₀, out = some f₀ → ∀ f, mine f → f.stamp < f₀.stamp) :
    Covers d (fun f => out = some f ∨ mine f) m s := by
  intro t ht
  obtain ⟨⟨f, hf, rfl⟩, hle⟩ := h t ht
  refine ⟨⟨f, Or.inr hf, rfl⟩, fun g hg hgt => ?_⟩
  rcases hg with hg | hg
  · exact absurd (hnew g hg f hf) hgt.not_gt
  · exact hle g hg hgt

theorem Step.merged_cases {ctx : Ctx S} (hmerger : ctx.merger = (· ⊔ ·)) {net : Frame S → Prop}
    {e e' : Engine K S} {a : Act S} {out : Option (Frame S)} (hs : Step ctx net e a out e')
    {f : Frame S} {k : K.Ticket} (hf : e'.task = .merged f k) :
    e.task = .merged f k ∨ f.root ≤ e'.state := by
  cases hs with
  | @merge f₀ k₀ htask =>
    cases hf
    refine Or.inr ?_
    change f.root ≤ ctx.merger e.state f.root
    rw [hmerger]
    exact le_sup_right
  | shutdown htask =>
    change ite _ _ _ = _ at hf
    split_ifs at hf
  | @settle arm claim outcome nowMs htask => cases arm <;> cases hf
  | @keyless job htask hkeys => cases job <;> cases hf
  | @fail job encoding htask hkeys => cases job <;> cases hf
  | mint wallMs => exact Or.inl hf
  | apply s hw => exact Or.inl hf
  | mutate s => exact Or.inl hf
  | flag hw => exact Or.inl hf
  | notify hw => exact Or.inl hf
  | persist => exact Or.inl hf
  | idle htask hpoll => exact Or.inl hf
  | notified nowMs htask hpoll => exact Or.inl hf
  | _ => cases hf

theorem Step.receives (hK : K.TracksStamps) {ctx : Ctx S} (hmerger : ctx.merger = (· ⊔ ·))
    {net mine : Frame S → Prop} {e e' : Engine K S} {a : Act S} {out : Option (Frame S)}
    (hs : Step ctx net e a out e') (ha : Inflationary e a) (hsound : e.Sound ctx.deviceId net)
    {d : String} (hd : ctx.deviceId ≠ d) (hmine : ∀ f, net f → f.stamp.deviceId = d → mine f)
    (hord : ∀ f g, mine f → mine g → f.stamp ≤ g.stamp → f.root ≤ g.root) (h : Receives d mine e) :
    Receives d mine e' := by
  have hstate := hs.state_le hmerger ha
  refine ⟨?_, ?_, fun f k hf hfd => ?_⟩
  · rcases hs.accepted_cases hK hsound with heq | ⟨g, -, heq⟩ | ⟨f, k, htask, -, hadm, heq⟩
    · rw [heq]
      exact h.knows.mono hstate
    · intro t ht
      rw [heq, BTreeMap.get_insert, if_neg hd] at ht
      exact h.knows.mono hstate t ht
    · intro t ht
      rw [heq, BTreeMap.get_insert] at ht
      split_ifs at ht with hfd
      · obtain rfl := Option.some.inj ht
        have hf := hmine f hadm.received hfd
        refine ⟨⟨f, hf, rfl⟩, fun g hg hgt => ?_⟩
        exact ((hord g f hg hf hgt).trans (h.merged f k htask hfd)).trans hstate
      · exact h.knows.mono hstate t ht
  · rcases hs.saved_cases with heq | heq <;> rw [heq]
    · exact h.saved
    · exact h.knows
  · exact (hs.merged_cases hmerger hf).elim (fun ht => (h.merged f k ht hfd).trans hstate) id

/-! ## Runs of a fleet -/

structure Fleet.Delivers (d : String) (F : Fleet K S) : Prop where
  publishes : Publishes d (F.From d) (F.engine d)
  receives : ∀ r, r ≠ d → Receives d (F.From d) (F.engine r)

theorem Step.out_newer {ctx : Ctx S} {net mine : Frame S → Prop} {e e' : Engine K S} {a : Act S}
    {f₀ : Frame S} (hs : Step ctx net e a (some f₀) e') {d : String} (h : Publishes d mine e)
    {f : Frame S} (hf : mine f) : f.stamp < f₀.stamp := by
  cases hs with
  | send htask =>
    have hstamped : Stamped d mine _ e.state _ _ := h.of_task htask
    exact hstamped.newer f hf
  | reply htask =>
    have hstamped : Stamped d mine _ e.state _ _ := h.of_task htask
    exact hstamped.newer f hf

theorem Receives.emit {d : String} {mine : Frame S → Prop} {e : Engine K S} (h : Receives d mine e)
    {out : Option (Frame S)} (hnew : ∀ f₀, out = some f₀ → ∀ f, mine f → f.stamp < f₀.stamp) :
    Receives d (fun f => out = some f ∨ mine f) e :=
  ⟨h.knows.emit hnew, h.saved.emit hnew, h.merged⟩

theorem Fleet.Delivers.start (hK : K.TracksStamps) (d : String) (state : String → S) :
    ({ engine := fun d => Engine.boot d (state d, ∅), net := [] } : Fleet K S).Delivers d := by
  have hnone : ∀ f, ¬({ engine := fun d => Engine.boot d (state d, ∅), net := [] } : Fleet K S).From d f :=
    fun f hf => absurd hf.1 List.not_mem_nil
  refine ⟨⟨fun f hf => absurd hf (hnone f), fun f hf => absurd hf (hnone f),
    fun f g hf => absurd hf (hnone f), trivial⟩, fun r _ => ⟨fun t ht => ?_, fun t ht => ?_, nofun⟩⟩
  · change (K.accepted (K.restore r ∅))[d]? = some t at ht
    rw [hK.accepted_restore] at ht
    cases ht
  · cases ht

theorem Fleet.Run.delivers (hK : K.TracksStamps) {ds : Dataset S} (hmerger : ds.merger = (· ⊔ ·))
    {admissible : Engine K S → Act S → Prop} (hadm : ∀ e a, admissible e a → Inflationary e a)
    {crashes : String → Prop} {d : String} (hd : ¬crashes d) {F : Fleet K S}
    (h : F.Run ds admissible crashes) : F.Delivers d := by
  induction h with
  | start state => exact Fleet.Delivers.start hK d state
  | @step F a out r e hrun hs ha ih =>
    have hsound := hrun.sound hK r
    have hout : ∀ f, out = some f → f.stamp.deviceId = r := by
      rintro f rfl
      exact hs.out_deviceId hsound
    by_cases hrd : r = d
    · subst hrd
      have hpub := hs.publishes hK hmerger (hadm _ _ ha) hsound ih.publishes
      constructor
      · change Publishes r _ (Function.update F.engine r e r)
        rw [Function.update_self, Fleet.from_own hout]
        exact hpub
      · intro r' hr'
        change Receives r _ (Function.update F.engine r e r')
        rw [Function.update_of_ne hr', Fleet.from_own hout]
        refine (ih.receives r' hr').emit fun f₀ hf₀ f hf => ?_
        subst hf₀
        exact hs.out_newer ih.publishes hf
    · have hfrom := Fleet.from_other F (Function.update F.engine r e) d
        fun f hf hfd => hrd ((hout f hf).symm.trans hfd)
      constructor
      · change Publishes d _ (Function.update F.engine r e d)
        rw [Function.update_of_ne (Ne.symm hrd), hfrom]
        exact ih.publishes
      · intro r' hr'
        change Receives d _ (Function.update F.engine r e r')
        rw [hfrom]
        by_cases hrr : r' = r
        · subst hrr
          rw [Function.update_self]
          exact hs.receives hK hmerger (hadm _ _ ha) hsound hrd (fun f hf hfd => ⟨hf, hfd⟩)
            ih.publishes.ordered (ih.receives r' hr')
        · rw [Function.update_of_ne hrr]
          exact ih.receives r' hr'
  | @crash F r _ hr ih =>
    have hrd : d ≠ r := fun heq => hd (heq ▸ hr)
    constructor
    · change Publishes d (F.From d) (Function.update F.engine r _ d)
      rw [Function.update_of_ne hrd]
      exact ih.publishes
    · intro r' hr'
      change Receives d (F.From d) (Function.update F.engine r _ r')
      by_cases hrr : r' = r
      · subst hrr
        rw [Function.update_self]
        refine ⟨?_, (ih.receives r' hr').saved, nofun⟩
        change Covers d _ (K.accepted (K.restore r' _)) _
        rw [hK.accepted_restore]
        exact (ih.receives r' hr').saved
      · rw [Function.update_of_ne hrr]
        exact ih.receives r' hr'

/-- A stamp in the tracker of an engine, or in what it saved, stands for what it has merged,
so that a duplicate brings nothing new. -/
theorem received_only_when_merged (hK : K.TracksStamps) {ds : Dataset S} (hmerger : ds.merger = (· ⊔ ·))
    {crashes : String → Prop} {d : String} (hd : ¬crashes d) {F : Fleet K S}
    (h : F.Run ds Inflationary crashes) {r : String} (hr : r ≠ d) :
    (∀ t, (K.accepted (F.engine r).tracker)[d]? = some t → ∀ f ∈ F.net, f.stamp.deviceId = d →
      f.stamp ≤ t → f.root ≤ (F.engine r).state) ∧
    (∀ t, (F.engine r).saved.2[d]? = some t → ∀ f ∈ F.net, f.stamp.deviceId = d →
      f.stamp ≤ t → f.root ≤ (F.engine r).saved.1) ∧
    ∀ f ∈ F.net, f.stamp.deviceId = d → K.admitStamp (F.engine r).tracker d f.stamp = .duplicate →
      f.root ≤ (F.engine r).state := by
  have hrec := (h.delivers hK hmerger (fun _ _ => id) hd).receives r hr
  refine ⟨fun t ht f hf hfd hle => (hrec.knows t ht).2 f ⟨hf, hfd⟩ hle,
    fun t ht f hf hfd hle => (hrec.saved t ht).2 f ⟨hf, hfd⟩ hle, fun f hf hfd hdup => ?_⟩
  obtain ⟨g, hg, hle⟩ := hK.admit_duplicate _ d f.stamp hdup
  exact (hrec.knows g hg).2 f ⟨hf, hfd⟩ hle

end Published

/-! ### One frame on its way -/

def notes : Dataset (Finset ℕ) where
  keys _ := true
  publishSeen := true
  merger := (· ⊔ ·)

def alone : Fleet kernel (Finset ℕ) := { engine := fun d => Engine.boot d (∅, ∅), net := [] }

/-- The phone crashes once before and once after it has saved what it received; the frame is
there all the time. -/
theorem one_frame : ∃ F : Fleet kernel (Finset ℕ), F.Run notes Inflationary (fun d => d = "phone") ∧
    ∃ f ∈ F.net, f.stamp.deviceId = "desk" ∧ f.root = {1} ∧
      (F.engine "phone").saved.2["desk"]? = some f.stamp ∧
      kernel.admitStamp (F.engine "phone").tracker "desk" f.stamp = .duplicate := by
  have h₀ : alone.Run notes Inflationary (fun d => d = "phone") := .start fun _ => ∅
  have h₁ := h₀.step "desk" (.mutate {1}) (Finset.empty_subset _)
  have h₂ := h₁.step "desk" (.flush rfl) trivial
  have h₃ := h₂.step "desk" (.snapshot rfl rfl) trivial
  have h₄ := h₃.step "desk" (.store rfl) trivial
  have h₅ := h₄.step "desk" (.mintRoot 5 rfl) trivial
  have h₆ := h₅.step "desk" (.build rfl) trivial
  have h₇ := h₆.step "desk" (.send rfl) trivial
  have h₈ := h₇.step "phone" (.receive rfl rfl List.mem_cons_self rfl) trivial
  have h₉ := h₈.step "phone" (.fetched rfl) trivial
  have h₁₀ := h₉.step "phone" (.merge rfl) trivial
  have h₁₁ := (h₁₀.step "phone" (.commit rfl) trivial).crash "phone" rfl
  -- nothing was saved, so the frame is new again
  have h₁₂ := h₁₁.step "phone" (.receive rfl rfl List.mem_cons_self rfl) trivial
  have h₁₃ := h₁₂.step "phone" (.fetched rfl) trivial
  have h₁₄ := h₁₃.step "phone" (.merge rfl) trivial
  have h₁₅ := h₁₄.step "phone" (.commit rfl) trivial
  have h₁₆ := (h₁₅.step "phone" .persist trivial).crash "phone" rfl
  refine ⟨_, h₁₆, _, List.mem_cons_self, rfl, rfl, ?_, ?_⟩
  · decide +kernel
  · rfl

theorem received_only_when_merged_phone : ∃ F : Fleet kernel (Finset ℕ),
    F.Run notes Inflationary (fun d => d = "phone") ∧ {1} ≤ (F.engine "phone").state ∧
      {1} ≤ (F.engine "phone").saved.1 := by
  obtain ⟨F, hF, f, hf, hfd, hroot, hsaved, hdup⟩ := one_frame
  obtain ⟨-, hkept, hduplicate⟩ := received_only_when_merged kernel_tracksStamps rfl (d := "desk")
    (by decide) hF (r := "phone") (by decide)
  exact ⟨F, hF, hroot ▸ hduplicate f hf hfd hdup, hroot ▸ hkept _ hsaved f hf hfd le_rfl⟩

end Harmony.FleetSync
