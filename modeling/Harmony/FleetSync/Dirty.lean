import Harmony.FleetSync.Engine

/-! No notified mutation is forgotten. Between the mutation and a frame that is sent with it,
either the dirty flag is set and something will wake the task, or a publish that took the
flag is under way with it. -/

namespace Harmony.FleetSync

open Harmony.Lib Std
open Harmony.Membership (Hlc)

variable {K : CrdtSync} {S : Type} {ctx : Ctx S}

/-! ## Publishes under way -/

/-- The snapshot is still to be taken, or it holds the mutation of a number. -/
def Encoding.Holds (i : ℕ) : Encoding S → Prop
  | .start => True
  | .snapped _ n => i < n
  | .stored _ n => i < n
  | .minted _ n _ => i < n
  | .built _ n => i < n

def Job.Publishes : Job K → Prop
  | .publish _ _ => True
  | .serve => False

/-- The publish took the dirty flag, and gives it back if it fails. -/
def Job.Takes : Job K → Prop
  | .publish _ claim => K.settle claim .failed = .restore
  | .serve => False

def Job.ShuttingDown : Job K → Prop
  | .publish arm _ => arm = .shutdown
  | .serve => False

namespace Task

def Publishing : Task K S → Prop
  | .encode job _ => job.Publishes
  | .settling _ _ _ => True
  | _ => False

/-- A publish that took the dirty flag is under way with the mutation of a number. -/
def Carries (i : ℕ) : Task K S → Prop
  | .encode job encoding => job.Takes ∧ encoding.Holds i
  | .settling _ claim outcome => outcome = .failed ∧ K.settle claim .failed = .restore
  | _ => False

def ShuttingDown : Task K S → Prop
  | .encode job _ => job.ShuttingDown
  | .settling arm _ _ => arm = .shutdown
  | .stopped => True
  | _ => False

end Task

namespace Engine

/-- The next poll of the notifier is ready. -/
def Notified (e : Engine K S) : Prop := (K.poll e.notify).1 = true

/-- Something will wake the task: a notification, the debounce deadline or a retry. -/
def WakeupOwed (e : Engine K S) : Prop := e.Notified ∨ e.wakeAt.isSome

/-- While a publish is under way, what it does not carry was notified after its start. -/
def Alarmed (e : Engine K S) : Prop := e.Notified ∨ ¬e.task.Publishing ∧ e.wakeAt.isSome

def Keeps (e : Engine K S) (i : ℕ) (signal : Signal) : Prop :=
  (e.hasPendingDirty = true ∧ (e.Alarmed ∨ signal = .flagged)) ∨ e.task.Carries i

section Select

variable {e : Engine K S} (htask : e.task = .select)
include htask

theorem not_publishing : ¬e.task.Publishing := by
  rw [htask]
  exact id

theorem not_carries (i : ℕ) : ¬e.task.Carries i := by
  rw [htask]
  exact id

theorem not_shuttingDown : ¬e.task.ShuttingDown := by
  rw [htask]
  exact id

end Select

theorem wakeAt_isSome_iff (e : Engine K S) :
    e.wakeAt.isSome ↔ (K.deadline e.latch).isSome ∨ (K.pendingAt e.retry).isSome := by
  rw [wakeAt]
  cases K.deadline e.latch <;> cases K.pendingAt e.retry <;> simp

theorem settlePublish_flag (e : Engine K S) (claim : K.Claim) (outcome : PublishOutcome) (nowMs : ℕ)
    (h : e.hasPendingDirty = true) : (e.settlePublish claim outcome nowMs).hasPendingDirty = true := by
  rw [settlePublish]
  cases K.settle claim outcome <;> simp only <;> split_ifs <;> first | rfl | exact h

theorem Keeps.mono {e e' : Engine K S} {i : ℕ} {signal : Signal} (h : e.Keeps i signal)
    (hflag : e.hasPendingDirty = true → e'.hasPendingDirty = true)
    (hnotify : e.Notified → e'.Notified) (hwake : e.wakeAt.isSome → e'.wakeAt.isSome)
    (htask : e'.task.Publishing → e.task.Publishing) (hcarries : e.task.Carries i → e'.task.Carries i) :
    e'.Keeps i signal := by
  refine h.imp (fun ⟨hf, ha⟩ => ⟨hflag hf, ha.imp_left fun ha => ?_⟩) hcarries
  exact ha.imp hnotify fun ⟨hp, hw⟩ => ⟨fun h => hp (htask h), hwake hw⟩

theorem Keeps.flag {e : Engine K S} {i : ℕ} {signal : Signal} (h : e.Keeps i signal)
    (hcarries : ¬e.task.Carries i) : e.hasPendingDirty = true :=
  (h.resolve_right hcarries).1

end Engine

/-! ## What a step keeps -/

structure Remembered (e : Engine K S) : Prop where
  numbered : ∀ t i s signal, Write.done t i s signal ∈ e.writes → i < e.mutations
  kept : ¬e.task.ShuttingDown → ∀ t i s signal, Write.done t i s signal ∈ e.writes →
    signal ≠ .due → e.sent ≤ i → e.Keeps i signal

theorem Remembered.boot (deviceId : String) (saved : S × BTreeMap String Hlc) :
    Remembered (Engine.boot deviceId saved : Engine K S) :=
  ⟨fun _ _ _ _ h => absurd h (List.not_mem_nil), fun _ _ _ _ _ h => absurd h (List.not_mem_nil)⟩

theorem Remembered.same {e e' : Engine K S} (h : Remembered e) (hwrites : e'.writes = e.writes)
    (hmutations : e'.mutations = e.mutations) (hdown : e.task.ShuttingDown → e'.task.ShuttingDown)
    (hkeeps : ∀ i signal, signal ≠ .due → i < e.mutations → e'.sent ≤ i → ¬e'.task.ShuttingDown →
      (e.sent ≤ i → e.Keeps i signal) → e'.Keeps i signal) : Remembered e' := by
  refine ⟨fun t i s signal hw => ?_, fun hrun t i s signal hw hdue hsent => ?_⟩
  · rw [hwrites] at hw
    rw [hmutations]
    exact h.numbered t i s signal hw
  · rw [hwrites] at hw
    exact hkeeps i signal hdue (h.numbered t i s signal hw) hsent hrun
      (h.kept (fun hd => hrun (hdown hd)) t i s signal hw hdue)

/-- The task goes on, and with it what is kept of each write. -/
theorem Remembered.goes {e : Engine K S} (h : Remembered e) {task task' : Task K S}
    (htask : e.task = task) (state : S) (tracker : K.Tracker) (siblingAcks : BTreeMap String Hlc)
    (hdown : task.ShuttingDown → task'.ShuttingDown) (hpublishing : task'.Publishing → task.Publishing)
    (hcarries : ∀ i < e.mutations, task.Carries i → task'.Carries i) :
    Remembered
      { e with state := state, tracker := tracker, siblingAcks := siblingAcks, task := task' } := by
  subst htask
  refine h.same rfl rfl hdown fun i signal _ hi hsent _ hk => ?_
  exact (hk hsent).mono id id id hpublishing (hcarries i hi)

/-- No publish is under way, and none is begun. -/
theorem Remembered.goes_idle {e : Engine K S} (h : Remembered e) {task task' : Task K S}
    (htask : e.task = task) (state : S) (tracker : K.Tracker) (siblingAcks : BTreeMap String Hlc)
    (hdown : ¬task.ShuttingDown) (hcarries : ∀ i, ¬task.Carries i) (hpublishing : ¬task'.Publishing) :
    Remembered
      { e with state := state, tracker := tracker, siblingAcks := siblingAcks, task := task' } :=
  h.goes htask state tracker siblingAcks (fun hd => absurd hd hdown) (fun hp => absurd hp hpublishing)
    fun i _ hc => absurd hc (hcarries i)

theorem Engine.Keeps.settlePublish (hK : K.Schedules) {e : Engine K S} {i : ℕ} {signal : Signal}
    (h : e.Keeps i signal) {arm : Arm} {claim : K.Claim} {outcome : PublishOutcome} (nowMs : ℕ)
    (htask : e.task = .settling arm claim outcome) :
    ({ e.settlePublish claim outcome nowMs with task := .select } : Engine K S).Keeps i signal := by
  left
  rcases h with ⟨hflag, halarm⟩ | hc
  · refine ⟨e.settlePublish_flag claim outcome nowMs hflag, halarm.imp_left fun ha => Or.inl ?_⟩
    change (K.poll (e.settlePublish claim outcome nowMs).notify).1 = true
    rw [Engine.settlePublish_notify]
    refine ha.resolve_right fun hw => hw.1 ?_
    rw [htask]
    trivial
  · rw [htask] at hc
    obtain ⟨rfl, hrestore⟩ := hc
    rw [Engine.settlePublish, hrestore]
    refine ⟨rfl, Or.inl (Or.inr ⟨id, ?_⟩)⟩
    rw [Engine.wakeAt_isSome_iff]
    exact Or.inr (hK.pendingAt_onFailure _ _)

theorem Remembered.finish (hK : K.Schedules) {e : Engine K S} (h : Remembered e) {arm : Arm}
    {claim : K.Claim} {outcome : PublishOutcome} (nowMs : ℕ) (htask : e.task = .settling arm claim outcome) :
    Remembered (e.finish claim outcome nowMs arm) := by
  have hwrites := e.settlePublish_writes claim outcome nowMs
  have hmutations := e.settlePublish_mutations claim outcome nowMs
  have hsent := e.settlePublish_sent claim outcome nowMs
  cases arm with
  | shutdown => exact h.same rfl rfl (fun _ => trivial) fun _ _ _ _ _ hrun _ => absurd trivial hrun
  | wake =>
    refine h.same hwrites hmutations ?_ fun i signal _ _ hi _ hk => ?_
    · rw [htask]
      exact nofun
    · exact (hk (hsent ▸ hi)).settlePublish hK nowMs htask
  | flush =>
    refine h.same hwrites hmutations ?_ fun i signal _ _ hi _ hk => ?_
    · rw [htask]
      exact nofun
    · exact (hk (hsent ▸ hi)).settlePublish hK nowMs htask

/-- The writes go on and the task stays where it is. -/
theorem Remembered.change {e e' : Engine K S} (h : Remembered e)
    (hmutations : e.mutations ≤ e'.mutations) (hsent : e'.sent = e.sent) (htask : e'.task = e.task)
    (hwrites : ∀ t i s signal, Write.done t i s signal ∈ e'.writes →
      Write.done t i s signal ∈ e.writes ∨ i < e'.mutations ∧
        (¬e.task.ShuttingDown → signal ≠ .due → e.sent ≤ i → e'.Keeps i signal))
    (hkeeps : ∀ i signal, e.Keeps i signal → e'.Keeps i signal) : Remembered e' := by
  refine ⟨fun t i s signal hw => ?_, fun hrun t i s signal hw hdue hi => ?_⟩
  · rcases hwrites t i s signal hw with hold | hnew
    · exact (h.numbered t i s signal hold).trans_le hmutations
    · exact hnew.1
  · rw [htask] at hrun
    rw [hsent] at hi
    rcases hwrites t i s signal hw with hold | hnew
    · exact hkeeps i signal (h.kept hrun t i s signal hold hdue hi)
    · exact hnew.2 hrun hdue hi

/-- The write at one place goes on to its next signal. -/
theorem Remembered.advance {e e' : Engine K S} (h : Remembered e) {pre post : List (Write S)}
    {t : Option Hlc} {i : ℕ} {s : S} {signal signal' : Signal}
    (hw : e.writes = pre ++ .done t i s signal :: post)
    (hw' : e'.writes = pre ++ .done t i s signal' :: post) (hmutations : e'.mutations = e.mutations)
    (hsent : e'.sent = e.sent) (htask : e'.task = e.task)
    (hnew : (signal ≠ .due → e.Keeps i signal) → e'.Keeps i signal')
    (hkeeps : ∀ i signal, e.Keeps i signal → e'.Keeps i signal) : Remembered e' := by
  have hold : Write.done t i s signal ∈ e.writes := hw ▸ List.mem_append_right _ List.mem_cons_self
  refine h.change hmutations.ge hsent htask (fun t₀ i₀ s₀ signal₀ hmem => ?_) hkeeps
  rw [hw'] at hmem
  rcases mem_of_mem_advance hmem with heq | hmem
  · cases heq
    refine Or.inr ⟨(h.numbered _ _ _ _ hold).trans_eq hmutations.symm, fun hrun _ hi => ?_⟩
    exact hnew fun hdue => h.kept hrun _ _ _ _ hold hdue hi
  · exact Or.inl (hw ▸ hmem)

/-- A publish begins, and takes the flag if it is up. -/
theorem Remembered.begins {e e' : Engine K S} (h : Remembered e) (htask : e.task = .select)
    (hwrites : e'.writes = e.writes) (hmutations : e'.mutations = e.mutations)
    (hsent : e'.sent = e.sent) (hcarries : e.hasPendingDirty = true → ∀ i, e'.task.Carries i) :
    Remembered e' := by
  refine h.same hwrites hmutations (fun hd => absurd hd (Engine.not_shuttingDown htask))
    fun i signal _ _ hi _ hk => ?_
  exact Or.inr (hcarries ((hk (hsent ▸ hi)).flag (Engine.not_carries htask i)) i)

/-- The frame goes out: what it does not hold keeps its alarm. -/
theorem Remembered.send {e : Engine K S} (h : Remembered e) {arm : Arm} {claim : K.Claim}
    {f : Frame S} {n : ℕ} (htask : e.task = .encode (.publish arm claim) (.built f n)) :
    Remembered { e with sent := max e.sent n, task := .settling arm claim .succeeded } := by
  refine h.same rfl rfl ?_ fun i signal _ _ hsent _ hk => ?_
  · rw [htask]
    exact id
  · have hkept := hk ((le_max_left _ _).trans hsent)
    have hn : n ≤ i := (le_max_right e.sent n).trans hsent
    have hnone : ¬e.task.Carries i := by
      rw [htask]
      exact fun hc => absurd hc.2 (hn.not_gt)
    obtain ⟨hflag, halarm⟩ := hkept.resolve_right hnone
    refine Or.inl ⟨hflag, halarm.imp_left fun ha => Or.inl (ha.resolve_right fun hw => hw.1 ?_)⟩
    rw [htask]
    trivial

theorem Step.remembered (hK : K.Schedules) (hkeys : ctx.keys = true) {net : Frame S → Prop}
    {e e' : Engine K S} {a : Act S} {out : Option (Frame S)} (hs : Step ctx net e a out e')
    (h : Remembered e) : Remembered e' := by
  cases hs with
  | mint wallMs =>
    exact h.change le_rfl rfl rfl (fun t i s signal hw => Or.inl (by simpa using hw)) fun _ _ => id
  | apply s' hw =>
    refine h.change (Nat.le_succ _) rfl rfl (fun t i s signal hmem => ?_) fun _ _ => id
    rcases mem_of_mem_advance hmem with heq | hmem
    · cases heq
      exact Or.inr ⟨Nat.lt_succ_self _, fun _ hdue => absurd rfl hdue⟩
    · exact Or.inl (hw ▸ hmem)
  | mutate s' =>
    refine h.change (Nat.le_succ _) rfl rfl (fun t i s signal hmem => ?_) fun _ _ => id
    rcases List.mem_append.mp hmem with hmem | hmem
    · exact Or.inl hmem
    · cases List.mem_singleton.mp hmem
      exact Or.inr ⟨Nat.lt_succ_self _, fun _ hdue => absurd rfl hdue⟩
  | flag hw =>
    exact h.advance hw rfl rfl rfl rfl (fun _ => Or.inl ⟨rfl, Or.inr rfl⟩)
      fun i signal hk => hk.mono (fun _ => rfl) id id id id
  | notify hw =>
    have howed := hK.poll_notifyOne e.notify
    refine h.advance hw rfl rfl rfl rfl (fun hk => ?_)
      fun i signal hk => hk.mono id (fun _ => howed) id id id
    exact (hk nofun).imp (fun hf => ⟨hf.1, Or.inl (Or.inl howed)⟩) id
  | persist => exact ⟨h.numbered, h.kept⟩
  | idle htask hpoll =>
    refine h.same rfl rfl id fun i signal _ _ hsent _ hk => (hk hsent).mono id ?_ id id id
    intro hready
    rw [Engine.Notified, hpoll] at hready
    cases hready
  | notified nowMs htask hpoll =>
    refine h.same rfl rfl id fun i signal _ _ hsent _ hk => ?_
    have hflag := (hk hsent).flag (Engine.not_carries htask i)
    refine Or.inl ⟨hflag, Or.inl (Or.inr ⟨Engine.not_publishing htask, ?_⟩)⟩
    · rw [Engine.wakeAt_isSome_iff, hflag, if_pos rfl]
      exact Or.inl (hK.deadline_markDirty _ _)
  | wake htask hwake =>
    exact h.begins htask rfl rfl rfl fun hflag i => ⟨(hK.settle_onDeadline _ _).mpr hflag, trivial⟩
  | flush htask =>
    exact h.begins htask rfl rfl rfl fun hflag i => ⟨(hK.settle_onFlush _ _).mpr hflag, trivial⟩
  | shutdown htask =>
    refine h.same rfl rfl (fun hd => absurd hd (Engine.not_shuttingDown htask))
      fun i signal _ _ _ hrun _ => absurd ?_ hrun
    change Task.ShuttingDown (ite _ _ _)
    split_ifs
    · rfl
    · trivial
  | serve htask => exact h.goes_idle htask _ _ _ id (fun _ => id) id
  | receive htask _ hf hk' => exact h.goes_idle htask _ _ _ id (fun _ => id) id
  | keyless htask hkeys' =>
    rw [hkeys] at hkeys'
    cases hkeys'
  | snapshot htask _ =>
    exact h.goes htask _ _ _ id id fun i hi hc => ⟨hc.1, hi⟩
  | store htask => exact h.goes htask _ _ _ id id fun i hi hc => hc
  | mintRoot wallMs htask => exact h.goes htask _ _ _ id id fun i hi hc => hc
  | build htask => exact h.goes htask _ _ _ id id fun i hi hc => hc
  | send htask => exact h.send htask
  | reply htask => exact h.goes_idle htask _ _ _ id (fun _ hc => hc.1) id
  | @fail job encoding htask _ =>
    cases job with
    | serve => exact h.goes_idle htask _ _ _ id (fun _ hc => hc.1) id
    | publish arm claim => exact h.goes htask _ _ _ id id fun i hi hc => ⟨rfl, hc.1⟩
  | settle nowMs htask => exact h.finish hK nowMs htask
  | fetched htask => exact h.goes_idle htask _ _ _ id (fun _ => id) id
  | dropped htask => exact h.goes_idle htask _ _ _ id (fun _ => id) id
  | merge htask => exact h.goes_idle htask _ _ _ id (fun _ => id) id
  | commit htask => exact h.goes_idle htask _ _ _ id (fun _ => id) id
  | ack htask => exact h.goes_idle htask _ _ _ id (fun _ => id) id

/-! ## Runs -/

/-- What an engine reaches from a boot, whatever frames come in. -/
inductive Reachable (ctx : Ctx S) : Engine K S → Prop where
  | boot (saved : S × BTreeMap String Hlc) : Reachable ctx (Engine.boot ctx.deviceId saved)
  | step {e e' : Engine K S} {a : Act S} {out : Option (Frame S)} (h : Reachable ctx e)
      (hs : Step ctx (fun _ => True) e a out e') : Reachable ctx e'

theorem Reachable.remembered (hK : K.Schedules) (hkeys : ctx.keys = true) {e : Engine K S}
    (h : Reachable ctx e) : Remembered e := by
  induction h with
  | boot saved => exact Remembered.boot ctx.deviceId saved
  | step _ hs ih => exact hs.remembered hK hkeys ih

/-- A mutation was notified, and no frame that was sent holds it. -/
def Engine.Unsent (e : Engine K S) (i : ℕ) : Prop :=
  e.sent ≤ i ∧ ∃ t s, Write.done t i s .notified ∈ e.writes

theorem notified_mutation_never_forgotten (hK : K.Schedules) (hkeys : ctx.keys = true) {e : Engine K S}
    (h : Reachable ctx e) {i : ℕ} (hi : e.Unsent i) :
    (¬e.task.ShuttingDown → e.hasPendingDirty = true ∧ e.WakeupOwed ∨ e.task.Carries i) ∧
      ∀ {net out e'}, Step ctx net e .shutdown out e' →
        ∃ claim, e'.task = .encode (.publish .shutdown claim) .start := by
  obtain ⟨hsent, t, s, hw⟩ := hi
  have hkeeps : ¬e.task.ShuttingDown → e.Keeps i .notified := fun hrun =>
    (h.remembered hK hkeys).kept hrun t i s _ hw nofun hsent
  constructor
  · intro hrun
    refine (hkeeps hrun).imp_left fun ⟨hflag, halarm⟩ => ⟨hflag, ?_⟩
    exact (halarm.resolve_right nofun).imp_right And.right
  · intro net out e' hs
    cases hs with
    | shutdown htask =>
      have hflag : e.hasPendingDirty = true :=
        (hkeeps (Engine.not_shuttingDown htask)).flag (Engine.not_carries htask i)
      refine ⟨(K.onShutdown e.latch e.hasPendingDirty).2, if_pos ?_⟩
      rw [hK.shouldPublish_onShutdown, hflag]

/-! ### A mutation on its way

While a publish encodes or sends its frame the flag is clear and nothing is scheduled: the
mutation is in the snapshot, and the claim gives the flag back if the publish fails. -/

def desk : Ctx Unit where
  deviceId := "desk"
  keys := true
  publishSeen := false
  merger _ _ := ()

/-- One mutation, up to the snapshot of the publish that is to carry it. -/
theorem one_mutation : ∃ e : Engine kernel Unit, Reachable desk e ∧ e.Unsent 0 ∧
    e.hasPendingDirty = false ∧ ¬e.WakeupOwed ∧ ¬e.task.ShuttingDown ∧
    ∀ job, e.task ≠ .encode job .start := by
  have h₀ : Reachable desk (Engine.boot "desk" ((), ∅) : Engine kernel Unit) := .boot ((), ∅)
  have h₁ := h₀.step (.mutate ())
  have h₂ := h₁.step (.flag (List.nil_append _).symm)
  have h₃ := h₂.step (.notify (List.nil_append _).symm)
  have h₄ := h₃.step (.notified 0 rfl rfl)
  have h₅ := h₄.step (.wake rfl rfl)
  have h₆ := h₅.step (.snapshot rfl rfl)
  refine ⟨_, h₆, ⟨le_rfl, none, (), List.mem_cons_self⟩, rfl, ?_, nofun, nofun⟩
  rintro (hp | hw)
  · cases hp
  · cases hw

theorem snapshot_clears_the_flag : ¬∀ (e : Engine kernel Unit) (i : ℕ), Reachable desk e → e.Unsent i →
    ¬e.task.ShuttingDown →
      (e.hasPendingDirty = true ∨ ∃ job, e.task = .encode job .start) ∧ e.WakeupOwed := by
  intro h
  obtain ⟨e, he, hunsent, -, howed, hrun, -⟩ := one_mutation
  exact howed (h e 0 he hunsent hrun).2

theorem notified_mutation_never_forgotten_desk : ∃ e : Engine kernel Unit, Reachable desk e ∧
    e.Unsent 0 ∧ e.task.Carries 0 := by
  obtain ⟨e, he, hunsent, hflag, -, hrun, -⟩ := one_mutation
  refine ⟨e, he, hunsent, ?_⟩
  refine ((notified_mutation_never_forgotten kernel_schedules rfl he hunsent).1 hrun).resolve_left ?_
  rw [hflag]
  exact fun hd => absurd hd.1 (by decide)

end Harmony.FleetSync
