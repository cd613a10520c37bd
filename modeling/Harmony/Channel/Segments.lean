import Harmony.Channel.Reload

/-! The files of a log between calls: the manifest on disk is the one in memory, every
segment it lists reads back, and the tail on disk is a prefix of the tail. -/

namespace Harmony.Channel

open Harmony.Lib Harmony.Reconcile
open Harmony.Membership (SpaceId ChannelId)

namespace ChannelLog

/-! ### Where a sealed segment is written -/

def segmentFileName (index : ℕ) : List Char := hexPad 8 index ++ ".cbor".toList

theorem segmentsDir_toList : "segments/".toList = "segments".toList ++ ['/'] := by decide

theorem segmentRelPath_toList (index : ℕ) :
    (segmentRelPath index).toList = "segments".toList ++ '/' :: segmentFileName index := by
  have hname : (segmentRelPath index).toList =
      "segments/".toList ++ hexPad 8 index ++ ".cbor".toList := String.toList_ofList
  rw [hname, segmentsDir_toList]
  generalize "segments".toList = dirname
  simp [segmentFileName]

theorem splitOn_segmentRelPath (index : ℕ) :
    (segmentRelPath index).toList.splitOn '/' = ["segments".toList, segmentFileName index] := by
  have hjoin : (segmentRelPath index).toList =
      ['/'].intercalate ["segments".toList, segmentFileName index] := by
    rw [segmentRelPath_toList]
    simp [List.intercalate]
  rw [hjoin]
  refine List.splitOn_intercalate '/' ?_ (by simp)
  have hname : '/' ∉ segmentFileName index := by
    rw [segmentFileName, List.mem_append, not_or]
    exact ⟨notMem_hexPad (by decide) 8 index, by decide⟩
  intro part hpart
  simp only [List.mem_cons, List.not_mem_nil, or_false] at hpart
  rcases hpart with rfl | rfl
  · decide
  · exact hname

theorem segmentFileName_ne (index : ℕ) (part : List Char) (h : part.length < 13) :
    segmentFileName index ≠ part := by
  rintro rfl
  rw [segmentFileName, List.length_append, hexPad_length] at h
  exact absurd h (by decide)

theorem head_segmentRelPath (index : ℕ) : (segmentRelPath index).toList.head? ≠ some '/' := by
  have hdir : "segments".toList = 's' :: "egments".toList := by decide
  rw [segmentRelPath_toList, hdir, List.cons_append, List.head?_cons]
  decide

theorem filePath_segmentRelPath (index : ℕ) :
    filePath (segmentRelPath index) = ["segments".toList, segmentFileName index] := by
  unfold filePath
  rw [splitOn_segmentRelPath, if_neg (head_segmentRelPath index)]
  have hempty := segmentFileName_ne index [] (by decide)
  have hdot := segmentFileName_ne index ['.'] (by decide)
  simp [hempty, hdot]

theorem validSegmentPath_segmentRelPath (index : ℕ) :
    validSegmentPath (segmentRelPath index) = true := by
  have hdots := segmentFileName_ne index ['.', '.'] (by decide)
  have hhead := head_segmentRelPath index
  simp only [validSegmentPath, splitOn_segmentRelPath, filePath_segmentRelPath, decide_eq_true_eq]
  refine ⟨hhead, ?_, ?_, by simp⟩
  · rw [List.head?_cons]
    decide
  simp only [List.mem_cons, List.not_mem_nil, or_false, not_or]
  exact ⟨by decide, hdots.symm⟩

theorem filePath_segmentRelPath_inj {i j : ℕ} (hi : i < 2 ^ 32) (hj : j < 2 ^ 32)
    (h : filePath (segmentRelPath i) = filePath (segmentRelPath j)) : i = j := by
  rw [filePath_segmentRelPath, filePath_segmentRelPath] at h
  have hname : hexPad 8 i ++ ".cbor".toList = hexPad 8 j ++ ".cbor".toList := by
    simpa [segmentFileName] using h
  exact hexPad_injOn (by omega) (by omega) (List.append_cancel_right hname)

theorem segmentIndexOf_segmentRelPath {index : ℕ} (h : index < 2 ^ 32) (range : Hlc × Hlc)
    (count : ℕ) : segmentIndexOf ⟨range, count, .localFile (segmentRelPath index)⟩ = some index := by
  have hrest : (segmentRelPath index).toList.dropPrefix? "segments/".toList =
      some (segmentFileName index) := by
    rw [List.dropPrefix?_eq_some_iff]
    refine ⟨"segments/".toList, ?_, by simp⟩
    rw [segmentRelPath_toList, segmentsDir_toList, List.append_assoc, List.singleton_append]
  have hhex : (segmentFileName index).dropSuffix? ".cbor".toList = some (hexPad 8 index) := by
    rw [List.dropSuffix?_eq_some_iff]
    exact ⟨".cbor".toList, rfl, by simp⟩
  unfold segmentIndexOf
  change ((segmentRelPath index).toList.dropPrefix? "segments/".toList).bind _ = _
  rw [hrest, Option.bind_some]
  change ((segmentFileName index).dropSuffix? ".cbor".toList).bind _ = _
  rw [hhex, Option.bind_some]
  exact u32FromHex_hexPad h

theorem segmentPath_ne_manifest (index : ℕ) :
    filePath (segmentRelPath index) ≠ filePath manifestFilename := by
  have hlen : (filePath manifestFilename).length = 1 := by decide
  intro h
  rw [← h, filePath_segmentRelPath] at hlen
  exact absurd hlen (by simp)

theorem segmentPath_ne_tail (index : ℕ) :
    filePath (segmentRelPath index) ≠ filePath tailFilename := by
  have hlen : (filePath tailFilename).length = 1 := by decide
  intro h
  rw [← h, filePath_segmentRelPath] at hlen
  exact absurd hlen (by simp)

theorem tailPath_ne_manifest : filePath tailFilename ≠ filePath manifestFilename := by decide

/-! ### Reading what was written -/

variable {log : ChannelLog} {dir : ChannelDir}

/-- A file as this log writes it. -/
def sealedFile (log : ChannelLog) (rel : String) (inner : Inner) : StoredFile :=
  .sealed (channelSealLabel log.manifest.communityId log.manifest.channelId rel) inner

@[simp] theorem writeChannelFile_self (log : ChannelLog) (rel : String) (inner : Inner)
    (dir : ChannelDir) :
    log.writeChannelFile rel inner dir (filePath rel) = some (log.sealedFile rel inner) :=
  Function.update_self _ _ _

theorem writeChannelFile_of_ne (log : ChannelLog) {rel : String} (inner : Inner) (dir : ChannelDir)
    {p : FilePath} (h : p ≠ filePath rel) : log.writeChannelFile rel inner dir p = dir p :=
  Function.update_of_ne h _ _

theorem readSegment_congr {dir' : ChannelDir} {seg : SegmentDescriptor}
    (h : dir' (filePath seg.handle.relPath) = dir (filePath seg.handle.relPath)) :
    log.readSegment dir' seg = log.readSegment dir seg := by
  unfold readSegment readSegmentAt openSegmentImage readImage
  dsimp only
  rw [h]

theorem segmentEvents_congr {dir' : ChannelDir} {seg : SegmentDescriptor}
    (h : dir' (filePath seg.handle.relPath) = dir (filePath seg.handle.relPath)) :
    log.segmentEvents dir' seg = log.segmentEvents dir seg := by
  unfold segmentEvents
  rw [readSegment_congr h]

theorem readSegment_sealed (log : ChannelLog) {index : ℕ} {evs : List SignedChannelEvent} (range : Hlc × Hlc)
    (count : ℕ)
    (h : dir (filePath (segmentRelPath index)) =
      some (log.sealedFile (segmentRelPath index) (.events evs))) :
    log.readSegment dir ⟨range, count, .localFile (segmentRelPath index)⟩ = .ok evs := by
  have hvalid := validSegmentPath_segmentRelPath index
  unfold readSegment readSegmentAt openSegmentImage readImage
  simp only [SegmentHandle.relPath, if_pos hvalid, h, sealedFile, if_true]
  rfl

/-! ### The files between calls -/

/-- Some index is left: the largest one in the manifest is not the last of a `u32`. -/
def Room (log : ChannelLog) : Prop :=
  (log.manifest.segments.filterMap segmentIndexOf).max? ≠ some (2 ^ 32 - 1)

instance (log : ChannelLog) : Decidable log.Room := inferInstanceAs (Decidable (_ ≠ _))

/-- The segments were sealed by this log. -/
def Indexed (log : ChannelLog) : Prop :=
  ∀ seg ∈ log.manifest.segments, ∃ i < 2 ^ 32, seg.handle = .localFile (segmentRelPath i)

structure Filed (log : ChannelLog) (dir : ChannelDir) : Prop where
  indexed : log.Indexed
  readable : ∀ seg ∈ log.manifest.segments, ∃ evs, log.readSegment dir seg = .ok evs ∧
    ∀ e ∈ evs, seg.range.1 ≤ e.at_ ∧ e.at_ ≤ seg.range.2
  sorted : log.manifest.segments.Pairwise fun a b => a.range.1 ≤ b.range.1
  manifestFile : dir (filePath manifestFilename) =
      some (log.sealedFile manifestFilename (.manifest log.manifest)) ∨
    dir (filePath manifestFilename) = none ∧ log.manifest.segments = []
  tailFile : ∃ t, t <+: log.tail ∧
    (dir (filePath tailFilename) = some (log.sealedFile tailFilename (.events t)) ∨
      dir (filePath tailFilename) = none ∧ t = []) ∧
    (dir (filePath manifestFilename) = none → t = [])

theorem Indexed.index_lt_nextIndex (h : log.Indexed) (hroom : log.Room) :
    log.nextIndex < 2 ^ 32 ∧ ∀ seg ∈ log.manifest.segments, ∀ i < 2 ^ 32,
      seg.handle = .localFile (segmentRelPath i) → i < log.nextIndex := by
  have hmem : ∀ seg ∈ log.manifest.segments, ∀ i < 2 ^ 32,
      seg.handle = .localFile (segmentRelPath i) →
      i ∈ log.manifest.segments.filterMap segmentIndexOf := by
    rintro ⟨range, count, handle⟩ hseg i hi rfl
    exact List.mem_filterMap.mpr ⟨_, hseg, segmentIndexOf_segmentRelPath hi range count⟩
  unfold nextIndex
  cases hmax : (log.manifest.segments.filterMap segmentIndexOf).max? with
  | none =>
    have hnil := List.max?_eq_none_iff.mp hmax
    refine ⟨by decide, fun seg hseg i hi hh => ?_⟩
    have hi := hmem seg hseg i hi hh
    rw [hnil] at hi
    exact absurd hi (by simp)
  | some m =>
    obtain ⟨hm, hle⟩ := List.max?_eq_some_iff.mp hmax
    obtain ⟨⟨range, count, handle⟩, hseg, hindex⟩ := List.mem_filterMap.mp hm
    obtain ⟨j, hj, hhandle⟩ := h _ hseg
    have hmj : m = j := by
      dsimp only at hhandle
      rw [hhandle, segmentIndexOf_segmentRelPath hj] at hindex
      exact (Option.some.inj hindex).symm
    have hne : m ≠ 2 ^ 32 - 1 := fun he => hroom (he ▸ hmax)
    rw [Option.elim_some, Nat.mod_eq_of_lt (by omega)]
    refine ⟨by omega, fun seg hseg i hi hh => ?_⟩
    have hi := hle i (hmem seg hseg i hi hh)
    omega

theorem Indexed.nextPath_fresh (h : log.Indexed) (hroom : log.Room) :
    ∀ seg ∈ log.manifest.segments,
      filePath seg.handle.relPath ≠ filePath (segmentRelPath log.nextIndex) := by
  obtain ⟨hlt, hfresh⟩ := h.index_lt_nextIndex hroom
  intro seg hseg hpath
  obtain ⟨i, hi, hhandle⟩ := h seg hseg
  rw [hhandle] at hpath
  have hix := filePath_segmentRelPath_inj hi hlt hpath
  have hless := hfresh seg hseg i hi hhandle
  omega

theorem Indexed.path_ne (h : log.Indexed) {seg : SegmentDescriptor}
    (hseg : seg ∈ log.manifest.segments) :
    filePath seg.handle.relPath ≠ filePath manifestFilename ∧
      filePath seg.handle.relPath ≠ filePath tailFilename := by
  obtain ⟨i, -, hhandle⟩ := h seg hseg
  rw [hhandle]
  exact ⟨segmentPath_ne_manifest i, segmentPath_ne_tail i⟩

theorem storedEvents_congr {dir' : ChannelDir}
    (h : ∀ seg ∈ log.manifest.segments,
      dir' (filePath seg.handle.relPath) = dir (filePath seg.handle.relPath)) :
    log.storedEvents dir' = log.storedEvents dir := by
  unfold storedEvents
  congr 1
  exact List.flatMap_congr fun seg hseg => segmentEvents_congr (h seg hseg)

theorem Filed.of_same_segments {dir' : ChannelDir} (h : Filed log dir)
    (hsegs : ∀ seg ∈ log.manifest.segments,
      dir' (filePath seg.handle.relPath) = dir (filePath seg.handle.relPath))
    (hmanifest : dir' (filePath manifestFilename) =
        some (log.sealedFile manifestFilename (.manifest log.manifest)) ∨
      dir' (filePath manifestFilename) = none ∧ log.manifest.segments = [])
    (htail : ∃ t, t <+: log.tail ∧
      (dir' (filePath tailFilename) = some (log.sealedFile tailFilename (.events t)) ∨
        dir' (filePath tailFilename) = none ∧ t = []) ∧
      (dir' (filePath manifestFilename) = none → t = [])) : Filed log dir' := by
  refine ⟨h.indexed, fun seg hseg => ?_, h.sorted, hmanifest, htail⟩
  rw [readSegment_congr (hsegs seg hseg)]
  exact h.readable seg hseg

theorem Filed.write_segment (h : Filed log dir) (hroom : log.Room) (inner : Inner) :
    Filed log (log.writeChannelFile (segmentRelPath log.nextIndex) inner dir) := by
  have hm := (segmentPath_ne_manifest log.nextIndex).symm
  have ht := (segmentPath_ne_tail log.nextIndex).symm
  refine h.of_same_segments (fun seg hseg => ?_) ?_ ?_
  · exact writeChannelFile_of_ne log inner dir (h.indexed.nextPath_fresh hroom seg hseg)
  · rw [writeChannelFile_of_ne log inner dir hm]
    exact h.manifestFile
  · rw [writeChannelFile_of_ne log inner dir hm, writeChannelFile_of_ne log inner dir ht]
    exact h.tailFile

theorem Filed.write_tail (h : Filed log dir) {t : List SignedChannelEvent} (ht : t <+: log.tail)
    (hm : dir (filePath manifestFilename) = none → t = []) :
    Filed log (log.writeChannelFile tailFilename (.events t) dir) := by
  have hne := tailPath_ne_manifest.symm
  refine h.of_same_segments (fun seg hseg => ?_) ?_ ⟨t, ht, Or.inl ?_, ?_⟩
  · exact writeChannelFile_of_ne log _ dir (h.indexed.path_ne hseg).2
  · rw [writeChannelFile_of_ne log _ dir hne]
    exact h.manifestFile
  · exact writeChannelFile_self log tailFilename _ dir
  · rwa [writeChannelFile_of_ne log _ dir hne]

theorem Filed.write_manifest (h : Filed log dir) :
    Filed log (log.writeChannelFile manifestFilename (.manifest log.manifest) dir) := by
  obtain ⟨t, ht, hfile, -⟩ := h.tailFile
  refine h.of_same_segments (fun seg hseg => ?_) (Or.inl ?_) ⟨t, ht, ?_, ?_⟩
  · exact writeChannelFile_of_ne log _ dir (h.indexed.path_ne hseg).1
  · exact writeChannelFile_self log manifestFilename _ dir
  · rwa [writeChannelFile_of_ne log _ dir tailPath_ne_manifest]
  · rw [writeChannelFile_self]
    exact fun hnone => absurd hnone (by simp)

end ChannelLog

end Harmony.Channel
