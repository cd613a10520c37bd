import Harmony.Lib.Grace
import Harmony.Lib.Hex
import Harmony.Owner.Merge

/-! The hold of outbound direct messages (`dm-outhold-v1`) and its sweeper. A row keeps the
sealed blob of a message until it is delivered; its key is made of the conversation's id
and the message's content id, and the outbox entry that decides about it lives in the
owner state, a dataset of its own. Removals do not replicate. -/

namespace Harmony.Transport

open Harmony.Lib
open Harmony.Membership (SpaceId Hlc Bytes)
open Harmony.Owner (ContentId OutboxEntryId OutboxEntry DeliveryStatus OwnerState)

def outholdOrphanGcGraceMs : ℕ := 10 * 60 * 1000

structure DmOutholdEntry where
  storageBlob : Bytes
  spaceId : SpaceId
  createdAt : Hlc

structure DmOutholdDoc where
  entries : BTreeMap String DmOutholdEntry := ∅

/-- The two parts of a text around the first occurrence of a character. -/
def splitOnce (c : Char) (text : List Char) : Option (List Char × List Char) :=
  match text.span (· ≠ c) with
  | (before, _ :: after) => some (before, after)
  | (_, []) => none

/-- `hex::decode` into a fixed number of bytes. -/
def decodeHex (bytes : ℕ) (cs : List Char) : Option ℕ :=
  if cs.length = 2 * bytes then readHexDigits cs else none

/-- The space id of sixteen bytes and the content id of thirty-two. -/
def parseOutholdKey (key : String) : Option (SpaceId × ContentId) := do
  let (spaceHex, cidHex) ← splitOnce ':' key.toList
  let spaceId ← decodeHex 16 spaceHex
  let cid ← decodeHex 32 cidHex
  return (spaceId, cid)

namespace DmOutholdDoc

def key (spaceId : SpaceId) (messageCid : ContentId) : String :=
  String.ofList (hexPad 32 spaceId ++ ':' :: hexPad 64 messageCid)

section Merge

-- `ContentId::for_book` with the encrypted flag, none where it is an error
variable (forBook : Bytes → Option ContentId)

/-- One remote row: a key that is held stays as it is, and a new row must stand under the
key that its payload asks for. -/
def mergeRow (acc : BTreeMap String DmOutholdEntry × Bool) (k : String) (r : DmOutholdEntry) :
    BTreeMap String DmOutholdEntry × Bool :=
  if acc.1[k]?.isSome then acc
  else
    match forBook r.storageBlob with
    | none => acc
    | some cid => if k ≠ key r.spaceId cid then acc else (acc.1.insert k r, true)

/-- `merge_from`, with the flag of its outcome. -/
def mergeFrom (doc remote : DmOutholdDoc) : DmOutholdDoc × Bool :=
  let (entries, changed) := remote.entries.foldl (mergeRow forBook) (doc.entries, false)
  (⟨entries⟩, changed)

end Merge

end DmOutholdDoc

/-- The production `outbox_status`: the first entry in id order that matches decides. -/
def outboxStatus (owner : OwnerState) (spaceId : SpaceId) (messageCid : ContentId) :
    Option DeliveryStatus :=
  (owner.outbox.toList.find? fun p =>
    p.2.spaceId = spaceId ∧ p.2.messageCid = some messageCid).map fun p => p.2.deliveryStatus

structure SweepStats where
  admitted : ℕ := 0
  gcRemoved : ℕ := 0
  casErrorRetains : ℕ := 0
  orphanRetains : ℕ := 0
deriving DecidableEq

/-- The variables of the loop of `sweep_once`. -/
structure SweepPass where
  toRemove : List String := []
  orphanFirstSeen : BTreeMap String ℕ
  stats : SweepStats := {}

namespace SweepPass

def remove (p : SweepPass) (key : String) : SweepPass :=
  { p with
    toRemove := p.toRemove ++ [key]
    stats := { p.stats with gcRemoved := p.stats.gcRemoved + 1 } }

def forget (p : SweepPass) (key : String) : SweepPass :=
  { p with orphanFirstSeen := p.orphanFirstSeen.erase key }

def put (p : SweepPass) (stored : Bool) : SweepPass :=
  if stored then { p with stats := { p.stats with admitted := p.stats.admitted + 1 } }
  else { p with stats := { p.stats with casErrorRetains := p.stats.casErrorRetains + 1 } }

def retain (p : SweepPass) : SweepPass :=
  { p with stats := { p.stats with orphanRetains := p.stats.orphanRetains + 1 } }

def restart (p : SweepPass) (key : String) (nowMs : ℕ) : SweepPass :=
  { p with orphanFirstSeen := p.orphanFirstSeen.insert key nowMs }

end SweepPass

section Sweep

-- `casPut` is the content store's answer for a row
variable (owner : OwnerState) (casPut : String → ContentId → Bytes → Bool) (nowMs : ℕ)

def sweepRow (p : SweepPass) (key : String) (entry : DmOutholdEntry) : SweepPass :=
  match parseOutholdKey key with
  | none => p.remove key
  | some (spaceId, cid) =>
    match outboxStatus owner spaceId cid with
    | some .pending | some .partialAcks => (p.forget key).put (casPut key cid entry.storageBlob)
    | some .complete | some .expired => (p.forget key).remove key
    | none =>
      match p.orphanFirstSeen[key]? with
      | none => (p.restart key nowMs).retain
      | some first =>
        -- the clock stepped back past the start of the window
        if nowMs < first then (p.restart key nowMs).retain
        else if nowMs - first < outholdOrphanGcGraceMs then p.retain
        else p.remove key

structure Swept where
  doc : DmOutholdDoc
  orphanFirstSeen : BTreeMap String ℕ
  stats : SweepStats
  dirty : Bool

/-- `sweep_once`; `dirty` tells whether `notify_dirty` is called. -/
def sweepOnce (orphanFirstSeen : BTreeMap String ℕ) (doc : DmOutholdDoc) : Swept :=
  let p := doc.entries.foldl (sweepRow owner casPut nowMs) { orphanFirstSeen }
  { doc := ⟨p.toRemove.foldl (fun m k => m.erase k) doc.entries⟩
    orphanFirstSeen :=
      (p.toRemove.foldl (fun m k => m.erase k) p.orphanFirstSeen).filter
        fun k _ => doc.entries[k]?.isSome
    stats := p.stats
    dirty := !p.toRemove.isEmpty }

end Sweep

/-! ### Keys -/

theorem splitOnce_append {c : Char} {before : List Char} (h : c ∉ before) (after : List Char) :
    splitOnce c (before ++ c :: after) = some (before, after) := by
  have hspan : (before ++ c :: after).span (· ≠ c) = (before, c :: after) := by
    rw [List.span_eq_takeWhile_dropWhile, List.takeWhile_append_of_pos, List.dropWhile_append_of_pos]
    · simp
    all_goals
      intro d hd
      exact decide_eq_true fun hdc => h (hdc ▸ hd)
  rw [splitOnce, hspan]

theorem decodeHex_hexPad {bytes width n : ℕ} (hwidth : width = 2 * bytes) (hn : n < 16 ^ width) :
    decodeHex bytes (hexPad width n) = some n := by
  rw [decodeHex, if_pos ((hexPad_length width n).trans hwidth), readHexDigits_hexPad,
    Nat.mod_eq_of_lt hn]

theorem parseOutholdKey_key {spaceId : SpaceId} {cid : ContentId} (hs : spaceId < 2 ^ 128)
    (hc : cid < 2 ^ 256) : parseOutholdKey (DmOutholdDoc.key spaceId cid) = some (spaceId, cid) := by
  have hsplit : splitOnce ':' (DmOutholdDoc.key spaceId cid).toList =
      some (hexPad 32 spaceId, hexPad 64 cid) := by
    rw [DmOutholdDoc.key, String.toList_ofList]
    exact splitOnce_append (notMem_hexPad (by decide) 32 spaceId) _
  have hspace : decodeHex 16 (hexPad 32 spaceId) = some spaceId := decodeHex_hexPad rfl (by omega)
  have hcid : decodeHex 32 (hexPad 64 cid) = some cid := decodeHex_hexPad rfl (by omega)
  simp [parseOutholdKey, hsplit, hspace, hcid]

/-! ### Merging -/

namespace DmOutholdDoc

variable {forBook : Bytes → Option ContentId} {doc : DmOutholdDoc}

/-- The key that a well-behaved writer gives the row. -/
def Binds (forBook : Bytes → Option ContentId) (k : String) (r : DmOutholdEntry) : Prop :=
  ∃ cid, forBook r.storageBlob = some cid ∧ k = key r.spaceId cid

theorem Binds.parse {k : String} {r : DmOutholdEntry} (h : Binds forBook k r)
    (hs : r.spaceId < 2 ^ 128) (hc : ∀ blob cid, forBook blob = some cid → cid < 2 ^ 256) :
    ∃ cid, forBook r.storageBlob = some cid ∧ parseOutholdKey k = some (r.spaceId, cid) := by
  obtain ⟨cid, hcid, rfl⟩ := h
  exact ⟨cid, hcid, parseOutholdKey_key hs (hc _ cid hcid)⟩

theorem mergeRow_cases (forBook : Bytes → Option ContentId)
    (acc : BTreeMap String DmOutholdEntry × Bool) (k : String) (r : DmOutholdEntry) :
    mergeRow forBook acc k r = acc ∨
      acc.1[k]? = none ∧ Binds forBook k r ∧ mergeRow forBook acc k r = (acc.1.insert k r, true) := by
  unfold mergeRow
  split_ifs with hheld
  · exact Or.inl rfl
  · cases hcid : forBook r.storageBlob with
    | none => exact Or.inl rfl
    | some cid =>
      by_cases hk : k = key r.spaceId cid
      · exact Or.inr ⟨by simpa using hheld, ⟨cid, hcid, hk⟩, by simp [← hk]⟩
      · exact Or.inl (by simp [hk])

theorem mergeFrom_binds (remote : DmOutholdDoc)
    (h : ∀ k r, doc.entries[k]? = some r → Binds forBook k r) {k : String} {r : DmOutholdEntry}
    (hr : (doc.mergeFrom forBook remote).1.entries[k]? = some r) : Binds forBook k r := by
  suffices hall : ∀ k r, (doc.mergeFrom forBook remote).1.entries[k]? = some r → Binds forBook k r
    from hall k r hr
  refine foldl_induction (P := fun acc : BTreeMap String DmOutholdEntry × Bool =>
    ∀ k r, acc.1[k]? = some r → Binds forBook k r) _ h ?_
  intro acc k' r' _ hacc k r hr
  rcases mergeRow_cases forBook acc k' r' with heq | ⟨-, hbinds, heq⟩ <;> rw [heq] at hr
  · exact hacc k r hr
  · rw [BTreeMap.get_insert] at hr
    split_ifs at hr with hk
    · rw [← hk, ← Option.some.inj hr]
      exact hbinds
    · exact hacc k r hr

end DmOutholdDoc

/-! ### The answer of the outbox -/

def filedUnder (spaceId : SpaceId) (cid : ContentId) (e : OutboxEntry) : Prop :=
  e.spaceId = spaceId ∧ e.messageCid = some cid

theorem outboxStatus_eq_none_iff {owner : OwnerState} {spaceId : SpaceId} {cid : ContentId} :
    outboxStatus owner spaceId cid = none ↔
      ∀ (id : OutboxEntryId) (e : OutboxEntry), owner.outbox[id]? = some e →
        ¬filedUnder spaceId cid e := by
  rw [outboxStatus, Option.map_eq_none_iff, List.find?_eq_none]
  simp only [mem_toList_iff, Prod.forall, decide_eq_true_eq, filedUnder]

theorem outboxStatus_eq_some_iff {owner : OwnerState} {spaceId : SpaceId} {cid : ContentId}
    {status : DeliveryStatus} :
    outboxStatus owner spaceId cid = some status ↔
      ∃ (id : OutboxEntryId) (e : OutboxEntry), owner.outbox[id]? = some e ∧
        filedUnder spaceId cid e ∧ e.deliveryStatus = status ∧
          ∀ (id' : OutboxEntryId) (e' : OutboxEntry), owner.outbox[id']? = some e' → id' < id →
            ¬filedUnder spaceId cid e' := by
  rw [outboxStatus, Option.map_eq_some_iff]
  simp only [find?_toList_eq_some_iff, Prod.exists, Prod.forall, decide_eq_true_eq,
    decide_eq_false_iff_not, Nat.compare_eq_lt, filedUnder]
  constructor
  · rintro ⟨id, e, ⟨he, hfiled, hfirst⟩, hstatus⟩
    exact ⟨id, e, he, hfiled, hstatus, hfirst⟩
  · rintro ⟨id, e, he, hfiled, hstatus, hfirst⟩
    exact ⟨id, e, ⟨he, hfiled, hfirst⟩, hstatus⟩

/-! ### One sweep -/

def rowStatus (owner : OwnerState) (key : String) : Option (Option DeliveryStatus) :=
  (parseOutholdKey key).map fun (spaceId, cid) => outboxStatus owner spaceId cid

def isLive : DeliveryStatus → Bool
  | .pending | .partialAcks => true
  | .complete | .expired => false

def goes (nowMs : ℕ) (first : Option ℕ) : Option (Option DeliveryStatus) → Bool
  | none => true
  | some (some status) => !isLive status
  | some none => lapsed outholdOrphanGcGraceMs nowMs first

def window (nowMs : ℕ) (first : Option ℕ) : Option (Option DeliveryStatus) → Option ℕ
  | none => first
  | some (some _) => none
  | some none => some (rebase nowMs first)

/-- What the loop holds about a row: the start of its window unless it is to go. -/
def SweepPass.row (p : SweepPass) (key : String) : Option ℕ × Bool :=
  (p.orphanFirstSeen[key]?, p.toRemove.contains key)

section Row

variable {owner : OwnerState} {casPut : String → ContentId → Bytes → Bool} {nowMs : ℕ}

theorem row_remove (p : SweepPass) (k a : String) :
    (p.remove k).row a = if k = a then ((p.row a).1, true) else p.row a := by
  by_cases h : k = a <;> simp [SweepPass.row, SweepPass.remove, h, Ne.symm]

theorem row_forget (p : SweepPass) (k a : String) :
    (p.forget k).row a = if k = a then (none, (p.row a).2) else p.row a := by
  by_cases h : k = a <;> simp [SweepPass.row, SweepPass.forget, h, BTreeMap.get_erase]

theorem row_restart (p : SweepPass) (k a : String) :
    (p.restart k nowMs).row a = if k = a then (some nowMs, (p.row a).2) else p.row a := by
  by_cases h : k = a <;> simp [SweepPass.row, SweepPass.restart, h, BTreeMap.get_insert]

theorem row_put (p : SweepPass) (stored : Bool) (a : String) : (p.put stored).row a = p.row a := by
  cases stored <;> rfl

theorem row_retain (p : SweepPass) (a : String) : p.retain.row a = p.row a := rfl

theorem stepsAtKey_sweepRow :
    StepsAtKey SweepPass.row (sweepRow owner casPut nowMs) fun k _ row =>
      (window nowMs row.1 (rowStatus owner k), row.2 || goes nowMs row.1 (rowStatus owner k)) := by
  intro p k entry a
  change (sweepRow owner casPut nowMs p k entry).row a =
    if k = a then (window nowMs (p.row a).1 (rowStatus owner k),
      (p.row a).2 || goes nowMs (p.row a).1 (rowStatus owner k)) else p.row a
  unfold sweepRow
  cases hkey : parseOutholdKey k with
  | none =>
    have hrow : rowStatus owner k = none := by rw [rowStatus, hkey, Option.map_none]
    simp [row_remove, hrow, window, goes]
  | some ids =>
    obtain ⟨spaceId, cid⟩ := ids
    have hrow : rowStatus owner k = some (outboxStatus owner spaceId cid) := by
      rw [rowStatus, hkey, Option.map_some]
    simp only [hrow]
    cases hstatus : outboxStatus owner spaceId cid with
    | some status =>
      by_cases hka : k = a <;> cases status <;>
        simp [row_remove, row_forget, row_put, hka, window, goes, isLive]
    | none =>
      by_cases hka : k = a
      · subst hka
        have hfst : (p.row k).1 = p.orphanFirstSeen[k]? := rfl
        cases hfirst : p.orphanFirstSeen[k]? with
        | none => simp [row_retain, row_restart, hfst, hfirst, window, goes, lapsed, rebase]
        | some first =>
          rw [hfirst] at hfst
          simp only [window, goes, hfst]
          split_ifs with hback hyoung
          · simp [row_retain, row_restart, rebase_of_lt hback, lapsed_of_lt hback]
          · rw [row_retain, rebase_of_le (not_lt.mp hback), lapsed_of_young hyoung,
              Bool.or_false, ← hfst]
          · simp [row_remove, rebase_of_le (not_lt.mp hback),
              lapsed_of_old (not_lt.mp hback) hyoung, hfst]
      · cases hfirst : p.orphanFirstSeen[k]? with
        | none => simp [row_retain, row_restart, hka]
        | some first =>
          dsimp only
          split_ifs <;> simp [row_retain, row_restart, row_remove, hka]

variable (owner casPut nowMs) (first : BTreeMap String ℕ) {doc : DmOutholdDoc}

theorem foldl_sweepRow_row {k : String} {e : DmOutholdEntry} (h : doc.entries[k]? = some e) :
    (doc.entries.foldl (sweepRow owner casPut nowMs) { orphanFirstSeen := first }).row k =
      (window nowMs first[k]? (rowStatus owner k), goes nowMs first[k]? (rowStatus owner k)) := by
  rw [stepsAtKey_sweepRow.foldl, h, Option.elim_some]
  simp [SweepPass.row]

theorem sweepOnce_get (doc : DmOutholdDoc) (k : String) :
    (sweepOnce owner casPut nowMs first doc).doc.entries[k]? =
      if goes nowMs first[k]? (rowStatus owner k) then none else doc.entries[k]? := by
  change (List.foldl _ doc.entries _)[k]? = _
  rw [BTreeMap.get_foldl_erase]
  simp only [← List.contains_iff_mem]
  cases hk : doc.entries[k]? with
  | none => simp
  | some e =>
    have hrow := foldl_sweepRow_row owner casPut nowMs first hk
    rw [show List.contains _ k = _ from congrArg Prod.snd hrow]

/-- The window of an orphan row that stays is open afterwards, and no other. -/
theorem sweepOnce_orphanFirstSeen (doc : DmOutholdDoc) (k : String) :
    (sweepOnce owner casPut nowMs first doc).orphanFirstSeen[k]? =
      if (sweepOnce owner casPut nowMs first doc).doc.entries[k]?.isSome ∧
          rowStatus owner k = some none then some (rebase nowMs first[k]?)
      else none := by
  rw [sweepOnce_get]
  change (Std.ExtTreeMap.filter _ (List.foldl _ _ _))[k]? = _
  rw [Std.ExtTreeMap.getElem?_filter', BTreeMap.get_foldl_erase]
  simp only [← List.contains_iff_mem]
  cases hk : doc.entries[k]? with
  | none => simp
  | some e =>
    have hrow := foldl_sweepRow_row owner casPut nowMs first hk
    have hwindow := congrArg Prod.fst hrow
    have hgoes := congrArg Prod.snd hrow
    simp only [SweepPass.row] at hwindow hgoes
    rw [hwindow, hgoes]
    cases hstatus : rowStatus owner k with
    | none => simp [goes]
    | some status =>
      cases status with
      | none =>
        by_cases hdue : lapsed outholdOrphanGcGraceMs nowMs first[k]? = true <;> simp [goes, window, hdue]
      | some status =>
        by_cases hlive : isLive status = true <;> simp [goes, window, hlive]

end Row

end Harmony.Transport
