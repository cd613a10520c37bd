import Harmony.Lib.Segments
import Harmony.Reconcile.Source

/-! The in-memory index that answers range fingerprints from per-chunk summaries.
Chunks are the segments of the sorted events under a boundary that depends on the
hash alone, so the index after any inserts is the one built from the whole set. -/

namespace Harmony.Reconcile

open Harmony.Lib

/-- A chunk ends where the low bits of the hash are all zero. -/
def chunkMaskBits : ℕ := 8

def isBoundary (elementHash : ByteArr 32) : Bool :=
  leValue (elementHash.1.take 8) % 2 ^ chunkMaskBits == 0

structure ChunkSummary where
  first : ReconcileKey
  last : ReconcileKey
  count : ℕ
  rawSum : ByteArr 32
deriving DecidableEq

@[ext] structure ChunkIndex where
  chunks : List ChunkSummary
deriving DecidableEq

/-- Returns the indexed events of an inclusive span. -/
abbrev ChunkEventReader := ReconcileKey → ReconcileKey → List Entry

namespace ChunkIndex

def new : ChunkIndex := ⟨[]⟩

/-- The locals of `build_from_sorted`. -/
structure BuildState where
  chunks : List ChunkSummary := []
  acc : RangeFingerprint := RangeFingerprint.zero
  first : Option ReconcileKey := none
  last : Option ReconcileKey := none

def buildStep (st : BuildState) (x : Entry) : BuildState :=
  let first := st.first.getD x.1
  let acc := st.acc.fold x.2
  if isBoundary x.2 then { chunks := st.chunks ++ [⟨first, x.1, acc.count, acc.rawSum⟩] }
  else { st with acc, first := some first, last := some x.1 }

/-- The open chunk at the end is closed there. -/
def BuildState.finish (st : BuildState) : ChunkIndex :=
  match st.first, st.last with
  | some first, some last => ⟨st.chunks ++ [⟨first, last, st.acc.count, st.acc.rawSum⟩]⟩
  | _, _ => ⟨st.chunks⟩

def buildFromSorted (entries : List Entry) : ChunkIndex := (entries.foldl buildStep {}).finish

/-- One chunk of `range_fingerprint`: skipped, taken from its summary, or read. -/
def aggregate (boundaryEvents : ChunkEventReader) (lo hi : ReconcileKey) (agg : RangeFingerprint)
    (c : ChunkSummary) : RangeFingerprint :=
  if c.last < lo ∨ hi ≤ c.first then agg
  else if lo ≤ c.first ∧ c.last < hi then agg.combine ⟨c.rawSum, c.count⟩
  else (boundaryEvents c.first c.last).foldl (fun agg x =>
    if lo ≤ x.1 ∧ x.1 < hi then agg.fold x.2 else agg) agg

def rangeFingerprint (ix : ChunkIndex) (lo hi : ReconcileKey) (boundaryEvents : ChunkEventReader) :
    RangeFingerprint :=
  ix.chunks.foldl (aggregate boundaryEvents lo hi) RangeFingerprint.zero

def insert (ix : ChunkIndex) (key : ReconcileKey) (hash : ByteArr 32)
    (chunkEvents : ChunkEventReader) : ChunkIndex :=
  if ix.chunks.isEmpty then buildFromSorted [(key, hash)]
  else
    let pos := partitionPoint (fun c => decide (c.last < key)) ix.chunks
    -- past every chunk the last one is extended
    let idx := if pos = ix.chunks.length then pos - 1 else pos
    match ix.chunks[idx]? with
    | some c =>
      let window := sortDedup Prod.fst (chunkEvents c.first c.last ++ [(key, hash)])
      ⟨ix.chunks.take idx ++ ((buildFromSorted window).chunks ++ ix.chunks.drop (idx + 1))⟩
    | none => ix

end ChunkIndex

/-! ### Chunks are segments -/

def ends (x : Entry) : Bool := isBoundary x.2

def summarize (seg : List Entry) : ChunkSummary :=
  ⟨(seg.head?.map Prod.fst).getD minKey, (seg.getLast?.map Prod.fst).getD minKey,
    (fingerprintOf seg).count, (fingerprintOf seg).rawSum⟩

open ChunkIndex

/-- The loop is midway through the segment `cur`. -/
def Midway (st : BuildState) (cur : List Entry) : Prop :=
  st.acc = fingerprintOf cur ∧ st.first = cur.head?.map Prod.fst ∧
    st.last = cur.getLast?.map Prod.fst

theorem fingerprintOf_concat (cur : List Entry) (x : Entry) :
    fingerprintOf (cur ++ [x]) = (fingerprintOf cur).fold x.2 := by
  rw [fingerprintOf, List.foldl_append]
  rfl

theorem build_from (entries : List Entry) (st : BuildState) (cur : List Entry)
    (h : Midway st cur) :
    (entries.foldl buildStep st).finish.chunks =
      st.chunks ++ (segmentsFrom ends cur entries).map summarize := by
  induction entries generalizing st cur with
  | nil =>
    obtain ⟨hacc, hfirst, hlast⟩ := h
    unfold segmentsFrom BuildState.finish
    rcases List.eq_nil_or_concat' cur with rfl | ⟨init, x, rfl⟩
    · simp [hfirst]
    · cases init with
      | nil => simp_all [summarize]
      | cons y init => simp_all [summarize, List.getLast?_cons]
  | cons x entries ih =>
    obtain ⟨hacc, hfirst, hlast⟩ := h
    have hhead : st.first.getD x.1 = ((cur ++ [x]).head?.map Prod.fst).getD minKey := by
      rw [hfirst]
      cases cur <;> rfl
    rw [List.foldl_cons, segmentsFrom]
    by_cases hb : isBoundary x.2 = true
    · have hstep : buildStep st x = { chunks := st.chunks ++ [summarize (cur ++ [x])] } := by
        simp [buildStep, hb, summarize, hhead, hacc, fingerprintOf_concat]
      rw [hstep, if_pos (show ends x = true from hb), ih _ [] ⟨rfl, rfl, rfl⟩, List.map_cons, List.append_assoc]
      rfl
    · have hstep : buildStep st x = { st with
          acc := st.acc.fold x.2, first := some (st.first.getD x.1), last := some x.1 } := by
        simp [buildStep, hb]
      rw [hstep, if_neg (show ¬ends x = true from hb)]
      refine ih _ (cur ++ [x]) ⟨?_, ?_, ?_⟩
      · rw [hacc, fingerprintOf_concat]
      · rw [hfirst]
        cases cur <;> rfl
      · simp

theorem buildFromSorted_chunks (entries : List Entry) :
    (buildFromSorted entries).chunks = (segments ends entries).map summarize := by
  have h := build_from entries {} [] ⟨rfl, rfl, rfl⟩
  simpa [buildFromSorted, segments] using h

/-! ### Insertion -/

/-- The reader returns exactly the indexed events of an inclusive span. -/
def Reads (reader : ChunkEventReader) (es : List Entry) : Prop :=
  ∀ first last, (reader first last).Perm
    (es.filter fun x => decide (first ≤ x.1 ∧ x.1 ≤ last))

/-- An ascending list cut into segments: the keys of each segment lie strictly
between those before it and those after it. -/
theorem ascending_parts {pre post : List (List Entry)} {seg : List Entry}
    (h : Ascending Prod.fst (pre ++ seg :: post).flatten) :
    Ascending Prod.fst pre.flatten ∧ Ascending Prod.fst seg ∧ Ascending Prod.fst post.flatten ∧
      (∀ x ∈ pre.flatten, ∀ y ∈ seg, x.1 < y.1) ∧ (∀ x ∈ seg, ∀ y ∈ post.flatten, x.1 < y.1) ∧
      ∀ x ∈ pre.flatten, ∀ y ∈ post.flatten, x.1 < y.1 := by
  rw [List.flatten_append, List.flatten_cons] at h
  obtain ⟨hpre, hrest, hcross⟩ := List.pairwise_append.mp h
  obtain ⟨hseg, hpost, hcross'⟩ := List.pairwise_append.mp hrest
  exact ⟨hpre, hseg, hpost, fun x hx y hy => hcross x hx y (List.mem_append_left _ hy), hcross',
    fun x hx y hy => hcross x hx y (List.mem_append_right _ hy)⟩

theorem first_le {seg : List Entry} (h : Ascending Prod.fst seg) {x : Entry} (hx : x ∈ seg) :
    (summarize seg).first ≤ x.1 := by
  cases seg with
  | nil => simp at hx
  | cons y seg =>
    rcases List.mem_cons.mp hx with rfl | hx
    · exact le_rfl
    · exact ((List.pairwise_cons.mp h).1 x hx).le

theorem le_last {seg : List Entry} (h : Ascending Prod.fst seg) {x : Entry} (hx : x ∈ seg) :
    x.1 ≤ (summarize seg).last := by
  rcases List.eq_nil_or_concat' seg with rfl | ⟨init, y, rfl⟩
  · simp at hx
  · simp only [summarize, List.getLast?_concat, Option.map_some, Option.getD_some]
    rcases List.mem_append.mp hx with hx | hx
    · exact ((List.pairwise_append.mp h).2.2 x hx y (by simp)).le
    · rw [List.mem_singleton.mp hx]

theorem span_eq_segment {pre post : List (List Entry)} {seg : List Entry}
    (h : Ascending Prod.fst (pre ++ seg :: post).flatten) (hne : seg ≠ []) :
    (pre ++ seg :: post).flatten.filter
      (fun x => decide ((summarize seg).first ≤ x.1 ∧ x.1 ≤ (summarize seg).last)) = seg := by
  obtain ⟨-, hseg, -, hpre, hpost, -⟩ := ascending_parts h
  obtain ⟨y, hy, hfirst⟩ : ∃ y ∈ seg, (summarize seg).first = y.1 := by
    cases seg with
    | nil => exact absurd rfl hne
    | cons y seg => exact ⟨y, List.mem_cons_self, rfl⟩
  obtain ⟨z, hz, hlast⟩ : ∃ z ∈ seg, (summarize seg).last = z.1 := by
    rcases List.eq_nil_or_concat' seg with rfl | ⟨init, z, rfl⟩
    · exact absurd rfl hne
    · exact ⟨z, by simp, by simp [summarize]⟩
  rw [List.flatten_append, List.flatten_cons, List.filter_append, List.filter_append,
    List.filter_eq_nil_iff.mpr, List.filter_eq_self.mpr, List.filter_eq_nil_iff.mpr,
    List.append_nil, List.nil_append]
  · intro x hx hw
    simp only [decide_eq_true_eq, hlast] at hw
    exact absurd hw.2 (not_le.mpr (hpost z hz x hx))
  · intro x hx
    simpa using ⟨first_le hseg hx, le_last hseg hx⟩
  · intro x hx hw
    simp only [decide_eq_true_eq, hfirst] at hw
    exact absurd hw.1 (not_le.mpr (hpre x hx y hy))

section Insert

variable {es : List Entry} {key : ReconcileKey} {hash : ByteArr 32} {reader : ChunkEventReader}

theorem hash_determined {es : List Entry} (h : ∀ a ∈ es, ∀ b ∈ es, a.1 = b.1 → a = b)
    (hk : ∀ x ∈ es, x.1 = key → x.2 = hash) :
    ∀ a ∈ es ++ [(key, hash)], ∀ b ∈ es ++ [(key, hash)], a.1 = b.1 → a = b := by
  intro a ha b hb hab
  rcases List.mem_append.mp ha with ha | ha <;> rcases List.mem_append.mp hb with hb | hb
  · exact h a ha b hb hab
  · obtain rfl := List.mem_singleton.mp hb
    exact Prod.ext hab (hk a ha hab)
  · obtain rfl := List.mem_singleton.mp ha
    exact Prod.ext hab (hk b hb hab.symm).symm
  · rw [List.mem_singleton.mp ha, List.mem_singleton.mp hb]

theorem window_spec {seg events : List Entry} (h : Ascending Prod.fst seg)
    (hk : ∀ x ∈ seg, x.1 = key → x.2 = hash) (hp : events.Perm seg) :
    Ascending Prod.fst (sortDedup Prod.fst (events ++ [(key, hash)])) ∧
      ∀ x, x ∈ sortDedup Prod.fst (events ++ [(key, hash)]) ↔ x ∈ seg ∨ x = (key, hash) := by
  refine ⟨sortDedup_ascending _, fun x => ?_⟩
  have hkey := hash_determined (fun a ha b hb hab => h.keyNodup.inj (hp.mem_iff.mp ha)
    (hp.mem_iff.mp hb) hab) fun x hx => hk x (hp.mem_iff.mp hx)
  rw [mem_sortDedup hkey, List.mem_append, hp.mem_iff, List.mem_singleton]

/-- The set with the new event, cut around the chunk it lands in. -/
theorem sortDedup_splice (hk : ∀ x ∈ es, x.1 = key → x.2 = hash) (h : Ascending Prod.fst es)
    {pre post : List (List Entry)} {seg w : List Entry} (hes : es = (pre ++ seg :: post).flatten)
    (hw : Ascending Prod.fst w) (hmem : ∀ x, x ∈ w ↔ x ∈ seg ∨ x = (key, hash))
    (hpre : ∀ x ∈ pre.flatten, x.1 < key) (hpost : ∀ x ∈ post.flatten, key < x.1) :
    sortDedup Prod.fst (es ++ [(key, hash)]) = pre.flatten ++ (w ++ post.flatten) := by
  obtain ⟨hp, -, hq, hps, hsq, hpq⟩ := ascending_parts (hes ▸ h)
  refine (sortDedup_ascending _).ext ?_ fun x => ?_
  · refine List.pairwise_append.mpr ⟨hp, List.pairwise_append.mpr ⟨hw, hq, ?_⟩, ?_⟩
    · intro x hx y hy
      rcases (hmem x).mp hx with hx | rfl
      · exact hsq x hx y hy
      · exact hpost y hy
    · intro x hx y hy
      rcases List.mem_append.mp hy with hy | hy
      · rcases (hmem y).mp hy with hy | rfl
        · exact hps x hx y hy
        · exact hpre x hx
      · exact hpq x hx y hy
  · rw [mem_sortDedup (hash_determined (fun a ha b hb hab => h.keyNodup.inj ha hb hab) hk), hes]
    simp only [List.flatten_append, List.flatten_cons, List.mem_append, List.mem_singleton, hmem]
    tauto

/-- If the chunk ended with a marked event and the new event sorts no later, the
window ends with that event too. -/
theorem window_endsSegment {seg w : List Entry} (hseg : Ascending Prod.fst seg)
    (hw : Ascending Prod.fst w) (hmem : ∀ x, x ∈ w ↔ x ∈ seg ∨ x = (key, hash))
    (hkey : key ≤ (summarize seg).last) (hend : EndsSegment ends seg) (hne : seg ≠ []) :
    EndsSegment ends w := by
  rcases List.eq_nil_or_concat' seg with rfl | ⟨init, y, rfl⟩
  · exact absurd rfl hne
  have hy : ends y = true := hend y (by simp)
  have hyw : y ∈ w := (hmem y).mpr (Or.inl (by simp))
  have hlast : (summarize (init ++ [y])).last = y.1 := by simp [summarize]
  rw [hlast] at hkey
  intro z hz
  obtain ⟨init', rfl⟩ := List.getLast?_eq_some_iff.mp hz
  rcases List.mem_append.mp hyw with hyi | hyz
  · -- nothing in the window sorts after `y`
    have hlt : y.1 < z.1 := (List.pairwise_append.mp hw).2.2 y hyi z (by simp)
    rcases (hmem z).mp (by simp) with hzs | rfl
    · have hle := le_last hseg hzs
      rw [hlast] at hle
      exact absurd hlt (not_lt.mpr hle)
    · exact absurd hlt (not_lt.mpr hkey)
  · rw [← List.mem_singleton.mp hyz]
    exact hy

/-- Inserting into the index of a set gives the index of the set with the event. -/
theorem insert_buildFromSorted (h : Ascending Prod.fst es) (hr : Reads reader es)
    (hk : ∀ x ∈ es, x.1 = key → x.2 = hash) :
    (buildFromSorted es).insert key hash reader =
      buildFromSorted (sortDedup Prod.fst (es ++ [(key, hash)])) := by
  have hchunks := buildFromSorted_chunks es
  have hflat := show (segments ends es).flatten = es from flatten_segments es
  cases hL : segments ends es with
  | nil =>
    obtain rfl : es = [] := by rw [← hflat, hL]; rfl
    rw [List.nil_append, sortDedup_of_ascending (List.pairwise_singleton _ _)]
    rfl
  | cons seg0 segs =>
    rw [hL] at hchunks hflat
    -- the chunk at the clamped partition point, and the chunks around it
    obtain ⟨pre, seg, post, hsplit, hidx, hpre, hpost⟩ := exists_at_partitionPoint
      (fun s => decide ((summarize s).last < key)) (List.cons_ne_nil seg0 segs)
    have hseg := hL.trans hsplit
    rw [hsplit] at hchunks hflat
    obtain ⟨-, hsegAsc, -, -, hafter, -⟩ := ascending_parts (hflat.symm ▸ h)
    have hne : seg ≠ [] := by
      rintro rfl
      exact nil_notMem_segments es (show [] ∈ segments ends es by simp [hseg])
    have hsub : ∀ x ∈ seg, x ∈ es := fun x hx => by
      rw [← hflat]
      simp [hx]
    have hread : (reader (summarize seg).first (summarize seg).last).Perm seg := by
      have hspan := hr (summarize seg).first (summarize seg).last
      rwa [← hflat, span_eq_segment (hflat.symm ▸ h) hne] at hspan
    obtain ⟨hw, hmem⟩ := window_spec hsegAsc (fun x hx => hk x (hsub x hx)) hread
    have hbefore : ∀ x ∈ pre.flatten, x.1 < key := by
      intro x hx
      obtain ⟨s, hs, hxs⟩ := List.mem_flatten.mp hx
      obtain ⟨pre₁, pre₂, rfl⟩ := List.append_of_mem hs
      have hasc : Ascending Prod.fst s := by
        refine h.sublist ?_
        rw [← hflat]
        simp only [List.flatten_append, List.flatten_cons, List.append_assoc]
        exact (List.sublist_append_left _ _).trans (List.sublist_append_right _ _)
      exact (le_last hasc hxs).trans_lt (of_decide_eq_true (hpre s hs))
    have hkey : post ≠ [] → key ≤ (summarize seg).last := fun hp =>
      not_lt.mp (of_decide_eq_false (hpost hp))
    have hafter' : ∀ x ∈ post.flatten, key < x.1 := by
      intro x hx
      have hp : post ≠ [] := by
        rintro rfl
        simp at hx
      obtain ⟨init, y, rfl⟩ := (List.eq_nil_or_concat' seg).resolve_left hne
      have hlast := hkey hp
      simp only [summarize, List.getLast?_concat, Option.map_some, Option.getD_some] at hlast
      exact hlast.trans_lt (hafter y (by simp) x hx)
    have hrecut := segments_replace hseg fun hp => window_endsSegment hsegAsc hw hmem (hkey hp)
      (segments_endsSegment hseg hp) hne
    refine ChunkIndex.ext ?_
    rw [buildFromSorted_chunks, sortDedup_splice hk h hflat.symm hw hmem hbefore hafter', hrecut]
    rw [hsplit] at hidx
    unfold ChunkIndex.insert
    rw [hchunks, if_neg (by simp), partitionPoint_map, List.length_map]
    dsimp only
    rw [← hidx, List.map_append, List.map_cons, List.getElem?_append_right (by simp)]
    simp [buildFromSorted_chunks, List.drop_append]

end Insert

/-! ### Range queries -/

section Range

variable {reader : ChunkEventReader} {lo hi : ReconcileKey}

/-- A chunk adds the fingerprint of its events inside the range: none of them, all of
them through the summary, or those the reader finds. -/
theorem aggregate_summarize {seg : List Entry} (hseg : Ascending Prod.fst seg)
    (hr : (reader (summarize seg).first (summarize seg).last).Perm seg)
    (agg : RangeFingerprint) :
    aggregate reader lo hi agg (summarize seg) =
      agg.combine (fingerprintOf (within Prod.fst lo hi seg)) := by
  unfold aggregate
  split
  · rename_i hout
    have hnil : within Prod.fst lo hi seg = [] := by
      refine List.filter_eq_nil_iff.mpr fun x hx hw => ?_
      simp only [decide_eq_true_eq] at hw
      rcases hout with hlast | hfirst
      · exact absurd ((le_last hseg hx).trans_lt hlast) (not_lt.mpr hw.1)
      · exact absurd hw.2 (not_lt.mpr (hfirst.trans (first_le hseg hx)))
    rw [hnil]
    exact (combine_zero agg).symm
  · split
    · rename_i hin
      have hall : within Prod.fst lo hi seg = seg := by
        refine List.filter_eq_self.mpr fun x hx => ?_
        simpa using ⟨hin.1.trans (first_le hseg hx), (le_last hseg hx).trans_lt hin.2⟩
      rw [hall]
      rfl
    · have hfold := foldl_entries agg
        (within Prod.fst lo hi (reader (summarize seg).first (summarize seg).last))
      rw [within, List.foldl_filter] at hfold
      simp only [decide_eq_true_eq] at hfold
      rw [hfold]
      exact congrArg agg.combine (fingerprintOf_perm (hr.filter _))

/-- The query on the index of a set is the fold over the events in the range. -/
theorem rangeFingerprint_buildFromSorted {es : List Entry} (h : Ascending Prod.fst es)
    (hr : Reads reader es) (lo hi : ReconcileKey) :
    (buildFromSorted es).rangeFingerprint lo hi reader =
      fingerprintOf (within Prod.fst lo hi es) := by
  have hflat := show (segments ends es).flatten = es from flatten_segments es
  have hfold : ∀ (post pre : List (List Entry)) (agg : RangeFingerprint),
      segments ends es = pre ++ post →
      (post.map summarize).foldl (aggregate reader lo hi) agg =
        agg.combine (fingerprintOf (within Prod.fst lo hi post.flatten)) := by
    intro post
    induction post with
    | nil => exact fun _ agg _ => (combine_zero agg).symm
    | cons seg post ih =>
      intro pre agg hs
      rw [hs] at hflat
      have hasc := hflat.symm ▸ h
      have hne : seg ≠ [] := by
        rintro rfl
        exact nil_notMem_segments es (show [] ∈ segments ends es by simp [hs])
      have hread := hr (summarize seg).first (summarize seg).last
      rw [← hflat, span_eq_segment hasc hne] at hread
      rw [List.map_cons, List.foldl_cons, aggregate_summarize (ascending_parts hasc).2.1 hread,
        ih (pre ++ [seg]) _ (by simp [hs]), combine_assoc, ← fingerprintOf_append,
        List.flatten_cons, within, within, ← List.filter_append]
      rfl
  have hall := hfold (segments ends es) [] RangeFingerprint.zero rfl
  rw [hflat, ← buildFromSorted_chunks, zero_combine] at hall
  exact hall

end Range

/-- The index after a sequence of inserts, and the pairs it was given. -/
inductive Indexed : ChunkIndex → List Entry → Prop
  | new : Indexed ChunkIndex.new []
  | built {es : List Entry} (h : Ascending Prod.fst es) : Indexed (buildFromSorted es) es
  | insert {ix : ChunkIndex} {es : List Entry} {key : ReconcileKey} {hash : ByteArr 32}
      {reader : ChunkEventReader} (h : Indexed ix es) (hr : Reads reader (sortDedup Prod.fst es))
      (hk : ∀ x ∈ es, x.1 = key → x.2 = hash) :
      Indexed (ix.insert key hash reader) (es ++ [(key, hash)])

theorem Indexed.hash_of_key {ix : ChunkIndex} {es : List Entry} (h : Indexed ix es) :
    ∀ a ∈ es, ∀ b ∈ es, a.1 = b.1 → a = b := by
  induction h with
  | new => simp
  | built h => exact fun a ha b hb hab => h.keyNodup.inj ha hb hab
  | insert _ _ hk ih => exact hash_determined ih hk

/-- After any inserts the index is the one built from the set of all pairs, and a
query folds exactly the events in its range. -/
theorem index_refines_set {ix : ChunkIndex} {es : List Entry} (h : Indexed ix es) :
    ix.chunks = (buildFromSorted (sortDedup Prod.fst es)).chunks ∧
      ∀ reader, Reads reader (sortDedup Prod.fst es) → ∀ lo hi,
        ix.rangeFingerprint lo hi reader = fingerprintOf
          ((sortDedup Prod.fst es).filter fun x => decide (lo ≤ x.1 ∧ x.1 < hi)) := by
  have hix : ix = buildFromSorted (sortDedup Prod.fst es) := by
    induction h with
    | new => rfl
    | built h => rw [sortDedup_of_ascending h]
    | @insert ix es key hash reader h hr hk ih =>
      have hkey := (h.insert hr hk).hash_of_key
      have hk' : ∀ x ∈ sortDedup Prod.fst es, x.1 = key → x.2 = hash := fun x hx =>
        hk x ((mem_sortDedup h.hash_of_key).mp hx)
      rw [ih, insert_buildFromSorted (sortDedup_ascending es) hr hk']
      refine congrArg buildFromSorted ((sortDedup_ascending _).ext (sortDedup_ascending _) ?_)
      intro x
      rw [mem_sortDedup hkey,
        mem_sortDedup (hash_determined (fun a ha b hb hab =>
          (sortDedup_ascending es).keyNodup.inj ha hb hab) hk'),
        List.mem_append, List.mem_append, mem_sortDedup h.hash_of_key]
  rw [hix]
  exact ⟨rfl, fun reader hr lo hi =>
    rangeFingerprint_buildFromSorted (sortDedup_ascending es) hr lo hi⟩

/-- An event inserted before the one already there. -/
theorem index_refines_set_twoInserts :
    let a : Entry := (⟨5, 0, "d", 0⟩, 0)
    let b : Entry := (⟨3, 0, "d", 0⟩, 0)
    let ix := (ChunkIndex.new.insert a.1 a.2 fun _ _ => []).insert b.1 b.2 fun first last =>
      [a].filter fun x => decide (first ≤ x.1 ∧ x.1 ≤ last)
    ix.chunks = (buildFromSorted (sortDedup Prod.fst [a, b])).chunks ∧
      ∀ reader, Reads reader (sortDedup Prod.fst [a, b]) → ∀ lo hi,
        ix.rangeFingerprint lo hi reader = fingerprintOf
          ((sortDedup Prod.fst [a, b]).filter fun x => decide (lo ≤ x.1 ∧ x.1 < hi)) := by
  intro a b ix
  refine index_refines_set (.insert (.insert .new (fun _ _ => .refl _) (by simp)) ?_ ?_)
  · exact fun _ _ => .refl _
  · intro x hx
    obtain rfl := List.mem_singleton.mp hx
    exact fun h => absurd h (by decide)

end Harmony.Reconcile
