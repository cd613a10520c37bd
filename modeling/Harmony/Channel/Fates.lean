import Harmony.Channel.EngineRuns

/-! The fate of a packet that comes by reconciliation. While the engine is up, the packet's
event ends held by the log or refused by a check, and nothing that is held is lost; the
reconcile index answers as the plain list of the log's keys does. -/

namespace Harmony.Channel

open Harmony.Lib Harmony.Reconcile
open Harmony.Membership (OwnerAddr SpaceId ChannelId)

def PacketTask.heals : PacketTask → Bool
  | .doubted _ => true
  | .received _ provenance | .verified _ provenance | .committed _ provenance =>
    provenance = .reconcile
  | .minted _ | .recorded _ => false

def ChannelStep.isRestart : ChannelStep → Bool
  | .restart _ _ => true
  | _ => false

namespace ChannelLog

variable {sha256 : SignedSet → ByteArr 32} {communityId : SpaceId} {channelId : ChannelId}
  {log : ChannelLog} {dir : ChannelDir}

theorem Consistent.ascending (h : Consistent sha256 communityId channelId log dir) :
    Ascending Prod.fst log.reconcileEntries := by
  obtain ⟨order, -, hviews⟩ := h.views
  exact hviews.ascending

def sliced (log : ChannelLog) (h : Ascending Prod.fst log.reconcileEntries) : SliceSource :=
  ⟨log.reconcileEntries, h⟩

section Slices

variable {α κ : Type} [LinearOrder κ] (key : α → κ) (lo hi : κ) (l : List α)

theorem length_slice : (slice key lo hi l).length =
    partitionPoint (fun a => decide (key a < hi)) l -
      partitionPoint (fun a => decide (key a < lo)) l := by
  have hhi : partitionPoint (fun a => decide (key a < hi)) l ≤ l.length :=
    (List.takeWhile_sublist _).length_le
  have hlo : partitionPoint (fun a => decide (key a < lo)) l ≤ l.length :=
    (List.takeWhile_sublist _).length_le
  rw [slice, List.length_drop, List.length_take]
  omega

theorem getElem_slice {i : ℕ} (h : i < (slice key lo hi l).length) :
    (slice key lo hi l)[i]? = l[partitionPoint (fun a => decide (key a < lo)) l + i]? := by
  rw [length_slice] at h
  rw [slice, List.getElem?_drop, List.getElem?_take, if_pos (by omega)]

end Slices

theorem Consistent.alike (h : Consistent sha256 communityId channelId log dir) :
    Alike log (log.sliced h.ascending) where
  fingerprint lo hi := by
    obtain ⟨order, -, hviews⟩ := h.views
    change log.chunkIndex.rangeFingerprint lo hi (spanOf log.reconcileEntries) =
      fingerprintOf (slice Prod.fst lo hi log.reconcileEntries)
    rw [hviews.chunks, rangeFingerprint_buildFromSorted h.ascending (spanOf_reads h.ascending),
      slice_eq_within h.ascending]
  count lo hi := (length_slice Prod.fst lo hi log.reconcileEntries).symm
  keys lo hi := rfl
  split lo hi := by
    have hlen := length_slice Prod.fst lo hi log.reconcileEntries
    change (if partitionPoint (fun x => decide (x.1 < hi)) log.reconcileEntries -
        partitionPoint (fun x => decide (x.1 < lo)) log.reconcileEntries < 2 then none else _) =
      if (slice Prod.fst lo hi log.reconcileEntries).length < 2
      then none else ((slice Prod.fst lo hi log.reconcileEntries)[
        (slice Prod.fst lo hi log.reconcileEntries).length / 2]?).map Prod.fst
    rw [← hlen]
    split_ifs with hshort
    · rfl
    · rw [getElem_slice Prod.fst lo hi log.reconcileEntries (by omega)]

theorem Consistent.mem_keys (h : Consistent sha256 communityId channelId log dir)
    {k : ReconcileKey} : k ∈ (log.sliced h.ascending).keys ↔
      k ∈ (log.storedEvents dir).map (reconcileKey sha256) := by
  obtain ⟨order, hperm, hviews⟩ := h.views
  exact hviews.mem_keys.trans (hperm.map _).mem_iff

end ChannelLog

namespace ChannelLogEngine

variable {P : ChannelLogEngineParams} {engine : ChannelLogEngine} {s : ChannelStep}
  {steps : List ChannelStep} {e : SignedChannelEvent}

/-! ### The fate of a packet -/

def Held (P : ChannelLogEngineParams) (engine : ChannelLogEngine) (e : SignedChannelEvent) : Prop :=
  reconcileKey P.sha256 e ∈ engine.stored.map (reconcileKey P.sha256)

/-- A packet of the event that came by reconciliation is being processed. -/
def Healing (engine : ChannelLogEngine) (e : SignedChannelEvent) : Prop :=
  ∃ task ∈ engine.tasks, task.heals = true ∧ task.event = e

/-- A view of the steps does not admit the event. -/
def RefusedIn (P : ChannelLogEngineParams) (steps : List ChannelStep) (e : SignedChannelEvent) :
    Prop :=
  ∃ view ∈ steps.filterMap viewOf, ¬AdmittedIn P view e

theorem RefusedIn.mono {steps' : List ChannelStep} (h : RefusedIn P steps e)
    (hsub : ∀ s ∈ steps, s ∈ steps') : RefusedIn P steps' e := by
  obtain ⟨view, hview, hrefused⟩ := h
  obtain ⟨s, hs, hv⟩ := List.mem_filterMap.mp hview
  exact ⟨view, List.mem_filterMap.mpr ⟨s, hsub s hs, hv⟩, hrefused⟩

theorem Authorized.bound (h : Authorized P steps e) :
    e.communityId = P.communityId ∧ e.channelId = P.channelId := by
  rcases h with h | ⟨view, -, h⟩
  · obtain ⟨s, -, hs⟩ := List.mem_filterMap.mp h
    unfold authoredBy at hs
    split at hs
    · split_ifs at hs
      cases hs
      exact ⟨rfl, rfl⟩
    · split_ifs at hs
      cases hs
      exact ⟨rfl, rfl⟩
    · cases hs
  · exact ⟨h.community, h.channel⟩

theorem open_of_step (hrestart : s.isRestart = false)
    (hopen : (engine.step P s).closing = false) : engine.closing = false := by
  have hcases := step_cases P engine s
  generalize engine.step P s = after at hcases hopen
  cases hcases with
  | went hi hsection => exact hsection.frame.2.symm.trans hopen
  | closed => cases hopen
  | restarted renamed written => cases hrestart
  | _ => exact hopen

theorem Sound.append_held (h : Sound P engine) (hopen : engine.closing = false)
    (hbound : e.communityId = P.communityId ∧ e.channelId = P.channelId) (always : Bool) :
    Held P (engine.append P e always) e := by
  unfold ChannelLogEngine.append
  rw [if_neg (by simp [hopen])]
  cases happ : engine.log.append P.sha256 e with
  | error err =>
    exfalso
    unfold ChannelLog.append at happ
    rw [if_neg (by simp [h.consistent.community, h.consistent.channel, hbound])] at happ
    dsimp only at happ
    split_ifs at happ
  | ok r =>
    obtain ⟨outcome, log⟩ := r
    rcases h.consistent.append_ok happ with ⟨-, rfl, hmem⟩ | ⟨-, hstored, -⟩
    · exact hmem
    · change _ ∈ (log.storedEvents engine.dir).map _
      rw [hstored]
      exact List.mem_map_of_mem (by simp)

theorem Sound.stored_mono (h : Sound P engine) (hs : SoundStep P engine s)
    (hrestart : s.isRestart = false) {x : SignedChannelEvent} (hx : x ∈ engine.stored) :
    x ∈ (engine.step P s).stored := by
  have happend : ∀ event always, x ∈ (engine.append P event always).stored := by
    intro event always
    rcases h.append_stored event always with hstored | hstored
    · rwa [hstored]
    · rw [hstored]
      exact List.mem_append_left _ hx
  have hcases := step_cases P engine s
  generalize engine.step P s = after at hcases
  cases hcases with
  | idle => exact hx
  | arrived hevent hcleared => exact hx
  | minted hauthored => exact hx
  | went hi hsection =>
    cases hsection with
    | append event provenance => exact happend event false
    | appendOwn event => exact happend event true
    | _ => exact hx
  | flushed written =>
    change x ∈ engine.log.storedEvents (engine.log.flushTail written engine.dir).2
    rwa [ChannelLog.storedEvents_flushTail h.consistent.filed]
  | sealed written =>
    exact (ChannelLog.sealedIn_sealAndPersist h.consistent hs written).1.mem_iff.mpr hx
  | closed => exact hx
  | restarted renamed written => cases hrestart

/-- Without a restart a task stays, or goes through its next section. -/
theorem task_step (hrestart : s.isRestart = false) {task : PacketTask} (ht : task ∈ engine.tasks) :
    task ∈ (engine.step P s).tasks ∨ ∃ i view after, viewOf s = some view ∧
      engine.tasks[i]? = some task ∧ Section P engine view task after ∧
      engine.step P s = { after.1 with
        tasks := after.2.elim (after.1.tasks.eraseIdx i) fun next => after.1.tasks.set i next } := by
  have hcases := step_cases P engine s
  generalize engine.step P s = new at hcases
  cases hcases with
  | arrived hevent hcleared => exact Or.inl (List.mem_append_left _ ht)
  | minted hauthored => exact Or.inl (List.mem_append_left _ ht)
  | @went i view moved after hi hsection =>
    obtain ⟨j, hj⟩ := List.mem_iff_getElem?.mp ht
    by_cases hij : j = i
    · subst hij
      rw [hj] at hi
      cases hi
      exact Or.inr ⟨j, view, after, rfl, hj, hsection, rfl⟩
    · left
      obtain ⟨after, next⟩ := after
      have htasks : after.tasks = engine.tasks := hsection.frame.1
      dsimp only
      rw [htasks]
      cases next with
      | none => exact List.mem_eraseIdx_iff_getElem?.mpr ⟨j, hij, hj⟩
      | some next =>
        exact List.mem_of_getElem? ((List.getElem?_set_ne (Ne.symm hij)).trans hj)
  | restarted renamed written => cases hrestart
  | _ => exact Or.inl ht

theorem Sound.healing_step (h : Sound P engine) (hv : Vetted P steps engine)
    (hrestart : s.isRestart = false) (hopen : (engine.step P s).closing = false)
    (hheal : Healing engine e) :
    Healing (engine.step P s) e ∨ Held P (engine.step P s) e ∨ RefusedIn P [s] e := by
  obtain ⟨task, ht, hheals, rfl⟩ := hheal
  rcases task_step (P := P) hrestart ht with hkept | ⟨i, view, after, hview, hi, hsection, heq⟩
  · exact Or.inl ⟨task, hkept, hheals, rfl⟩
  have hlt : i < engine.tasks.length := (List.getElem?_eq_some_iff.mp hi).1
  have hgoes : ∀ (after : ChannelLogEngine) (next : PacketTask), after.tasks = engine.tasks →
      engine.step P s = { after with tasks := after.tasks.set i next } → next.heals = true →
      next.event = task.event → Healing (engine.step P s) task.event := by
    intro after next htasks heq hnext hevent
    refine ⟨next, ?_, hnext, hevent⟩
    rw [heq]
    dsimp only
    rw [htasks]
    exact List.mem_of_getElem? (List.getElem?_set_self hlt)
  cases hsection with
  | held e hk =>
    right
    left
    rw [heq]
    obtain ⟨order, hperm, hviews⟩ := h.consistent.views
    exact (hperm.map _).mem_iff.mp (hviews.mem_keys.mp
      ((ChannelLog.containsKey_iff hviews.ascending _).mp hk))
  | missing e hk => exact Or.inl (hgoes _ _ rfl heq rfl rfl)
  | admitted e provenance hadmitted => exact Or.inl (hgoes _ _ rfl heq hheals rfl)
  | refused e provenance hrefused =>
    refine Or.inr (Or.inr ⟨view, ?_, hrefused⟩)
    rw [List.filterMap_cons, hview]
    exact List.mem_singleton_self view
  | newer e provenance hnew =>
    exact Or.inl (hgoes { engine with tracker := engine.tracker.record e } (.committed e provenance)
      rfl heq hheals rfl)
  | belowHead e hcover => exact Or.inl (hgoes _ _ rfl heq rfl rfl)
  | replayed e hcover => cases hheals
  | append e provenance =>
    right
    left
    rw [heq]
    exact h.append_held (open_of_step hrestart hopen) (hv.tasks _ ht rfl).bound false
  | record e => cases hheals
  | appendOwn e => cases hheals

theorem receive_reconcile (engine : ChannelLogEngine) (e : SignedChannelEvent) :
    Healing (engine.receive e .reconcile) e := by
  unfold receive
  split
  · exact ⟨_, List.mem_append_right _ (List.mem_singleton_self _), rfl, rfl⟩
  · exact ⟨_, List.mem_append_right _ (List.mem_singleton_self _), rfl, rfl⟩
  · contradiction

/-! ### A stretch of a run -/

theorem SoundRun.left {rest : List ChannelStep} (h : SoundRun P (steps ++ rest)) :
    SoundRun P steps := by
  induction rest using List.reverseRecOn with
  | nil => rwa [List.append_nil] at h
  | append_singleton rest s ih =>
    rw [← List.append_assoc] at h
    exact ih h.snoc.1

/-- The steps keep the engine up and open. -/
structure Running (P : ChannelLogEngineParams) (steps rest : List ChannelStep) : Prop where
  sound : SoundRun P (steps ++ rest)
  up : ∀ s ∈ rest, s.isRestart = false
  opened : (run P (steps ++ rest)).closing = false

theorem Running.snoc {rest : List ChannelStep} (h : Running P steps (rest ++ [s])) :
    Running P steps rest ∧ SoundStep P (run P (steps ++ rest)) s ∧ s.isRestart = false ∧
      run P (steps ++ (rest ++ [s])) = (run P (steps ++ rest)).step P s := by
  obtain ⟨hsound, hup, hopened⟩ := h
  rw [← List.append_assoc] at hsound hopened ⊢
  rw [run_snoc] at hopened ⊢
  have hs := hup s (by simp)
  exact ⟨⟨hsound.snoc.1, fun s hs => hup s (List.mem_append_left _ hs), open_of_step hs hopened⟩,
    hsound.snoc.2, hs, rfl⟩

theorem Running.left {rest rest' : List ChannelStep} (h : Running P steps (rest ++ rest')) :
    Running P steps rest := by
  induction rest' using List.reverseRecOn with
  | nil => rwa [List.append_nil] at h
  | append_singleton rest' s ih =>
    rw [← List.append_assoc] at h
    exact ih h.snoc.1

theorem Running.right {rest rest' : List ChannelStep} (h : Running P steps (rest ++ rest')) :
    Running P (steps ++ rest) rest' where
  sound := by
    rw [List.append_assoc]
    exact h.sound
  up s hs := h.up s (List.mem_append_right _ hs)
  opened := by
    rw [List.append_assoc]
    exact h.opened

theorem Running.stored {rest : List ChannelStep} (h : Running P steps rest) {x : SignedChannelEvent}
    (hx : x ∈ (run P steps).stored) : x ∈ (run P (steps ++ rest)).stored := by
  induction rest using List.reverseRecOn with
  | nil => rwa [List.append_nil]
  | append_singleton rest s ih =>
    obtain ⟨hrest, hs, hrestart, hrun⟩ := h.snoc
    rw [hrun]
    exact (run_sound hrest.sound).stored_mono hs hrestart (ih hrest)

theorem Running.held {rest : List ChannelStep} (h : Running P steps rest)
    (hheld : Held P (run P steps) e) : Held P (run P (steps ++ rest)) e := by
  obtain ⟨x, hx, hkey⟩ := List.mem_map.mp hheld
  exact List.mem_map.mpr ⟨x, h.stored hx, hkey⟩

/-- A packet that came in the stretch is still being processed at its end, or its event is
held, or refused. -/
theorem Running.settles {rest : List ChannelStep} (h : Running P steps rest)
    (hcame : ChannelStep.receive e .reconcile ∈ rest) :
    Healing (run P (steps ++ rest)) e ∨ Held P (run P (steps ++ rest)) e ∨ RefusedIn P rest e := by
  induction rest using List.reverseRecOn with
  | nil => exact absurd hcame List.not_mem_nil
  | append_singleton rest s ih =>
    obtain ⟨hrest, hs, hrestart, hrun⟩ := h.snoc
    have hopen : ((run P (steps ++ rest)).step P s).closing = false := hrun ▸ h.opened
    have hsound := run_sound hrest.sound
    rw [hrun]
    rcases List.mem_append.mp hcame with hcame | hcame
    · rcases ih hrest hcame with hheal | hheld | hrefused
      · rcases hsound.healing_step (run_vetted hrest.sound) hrestart hopen hheal with
          hheal | hheld | hrefused
        · exact Or.inl hheal
        · exact Or.inr (Or.inl hheld)
        · exact Or.inr (Or.inr (hrefused.mono fun s' hs' => List.mem_append_right _ hs'))
      · obtain ⟨x, hx, hkey⟩ := List.mem_map.mp hheld
        exact Or.inr (Or.inl (List.mem_map.mpr ⟨x, hsound.stored_mono hs hrestart hx, hkey⟩))
      · exact Or.inr (Or.inr (hrefused.mono fun s' hs' => List.mem_append_left _ hs'))
    · rw [← List.mem_singleton.mp hcame]
      exact Or.inl (receive_reconcile _ e)

end ChannelLogEngine

end Harmony.Channel
