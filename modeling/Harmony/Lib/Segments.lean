import Harmony.Lib.Slice

/-! Content-defined segmentation: a list is cut after each element that `isEnd`
marks. A cut depends on the marked element alone, so replacing one segment of a list
recuts nothing but that segment. -/

namespace Harmony.Lib

variable {α : Type} {isEnd : α → Bool}

def segmentsFrom (isEnd : α → Bool) : List α → List α → List (List α)
  | cur, [] => if cur.isEmpty then [] else [cur]
  | cur, a :: l =>
    if isEnd a then (cur ++ [a]) :: segmentsFrom isEnd [] l else segmentsFrom isEnd (cur ++ [a]) l

def segments (isEnd : α → Bool) (l : List α) : List (List α) := segmentsFrom isEnd [] l

@[simp] theorem segments_nil : segments isEnd [] = [] := rfl

theorem flatten_segmentsFrom (cur l : List α) :
    (segmentsFrom isEnd cur l).flatten = cur ++ l := by
  induction l generalizing cur with
  | nil =>
    unfold segmentsFrom
    cases cur <;> simp
  | cons a l ih =>
    unfold segmentsFrom
    split <;> simp [ih]

theorem flatten_segments (l : List α) : (segments isEnd l).flatten = l :=
  flatten_segmentsFrom [] l

theorem nil_notMem_segments (l : List α) : [] ∉ segments isEnd l := by
  have h : ∀ cur, [] ∉ segmentsFrom isEnd cur l := by
    induction l with
    | nil =>
      intro cur
      unfold segmentsFrom
      cases cur <;> simp
    | cons a l ih =>
      intro cur
      unfold segmentsFrom
      split
      · simp [ih]
      · exact ih _
  exact h []

/-- The list is empty or its last element is marked. -/
def EndsSegment (isEnd : α → Bool) (l : List α) : Prop := ∀ a ∈ l.getLast?, isEnd a = true

/-- After a marked element the segmentation starts afresh. -/
theorem segments_append {xs : List α} (h : EndsSegment isEnd xs) (ys : List α) :
    segments isEnd (xs ++ ys) = segments isEnd xs ++ segments isEnd ys := by
  have hfrom : ∀ cur, xs ≠ [] → segmentsFrom isEnd cur (xs ++ ys) =
      segmentsFrom isEnd cur xs ++ segments isEnd ys := by
    induction xs with
    | nil => exact fun _ hne => absurd rfl hne
    | cons a xs ih =>
      intro cur _
      cases xs with
      | nil =>
        have ha : isEnd a = true := h a rfl
        simp [segmentsFrom, ha, segments]
      | cons b xs =>
        have ih := ih (fun c hc => h c (by simpa [List.getLast?_cons] using hc))
        rw [List.cons_append, segmentsFrom, segmentsFrom]
        split
        · rw [ih [] (by simp), List.cons_append]
        · exact ih _ (by simp)
  cases xs with
  | nil => rfl
  | cons a xs => exact hfrom [] (by simp)

/-- Every segment but the last one ends with a marked element. -/
theorem segments_endsSegment {l : List α} {pre post : List (List α)} {seg : List α}
    (h : segments isEnd l = pre ++ seg :: post) (hpost : post ≠ []) : EndsSegment isEnd seg := by
  have hfrom : ∀ l cur pre, segmentsFrom isEnd cur l = pre ++ seg :: post →
      EndsSegment isEnd seg := by
    intro l
    induction l with
    | nil =>
      intro cur pre h
      unfold segmentsFrom at h
      have hlen := congrArg List.length h
      have := List.length_pos_of_ne_nil hpost
      split at hlen
      · simp at hlen
      · simp only [List.length_append, List.length_cons, List.length_nil] at hlen
        omega
    | cons a l ih =>
      intro cur pre h
      unfold segmentsFrom at h
      split at h
      · rename_i ha
        cases pre with
        | nil =>
          obtain ⟨rfl, -⟩ := List.cons.inj h
          intro b hb
          obtain rfl : a = b := by simpa using hb
          exact ha
        | cons s pre => exact ih [] pre (List.cons.inj h).2
      · exact ih _ pre h
  exact hfrom l [] pre h

theorem endsSegment_flatten {l : List α} {pre post : List (List α)} {seg : List α}
    (h : segments isEnd l = pre ++ seg :: post) : EndsSegment isEnd pre.flatten := by
  rcases List.eq_nil_or_concat' pre with rfl | ⟨init, last, rfl⟩
  · intro a ha
    simp at ha
  · have hlast : EndsSegment isEnd last :=
      segments_endsSegment (h.trans (List.append_assoc init [last] _)) (by simp)
    have hne : last ≠ [] := by
      rintro rfl
      exact nil_notMem_segments l (show [] ∈ segments isEnd l by simp [h])
    intro a ha
    rw [List.flatten_append, List.flatten_singleton, List.getLast?_append_of_ne_nil _ hne] at ha
    exact hlast a ha

/-- Nonempty parts of a list are determined by what they hold. -/
theorem append_inj_of_flatten {P S Q T : List (List α)} (h : P ++ S = Q ++ T)
    (hf : P.flatten = Q.flatten) (hn : [] ∉ P ++ S) : P = Q ∧ S = T := by
  have hnil : ∀ R : List (List α), [] ∉ R → R.flatten = [] → R = [] := by
    intro R hR hflat
    cases R with
    | nil => rfl
    | cons r R =>
      have hr : r = [] := (List.append_eq_nil_iff.mp hflat).1
      exact absurd (hr ▸ List.mem_cons_self) hR
  rcases List.append_eq_append_iff.mp h with ⟨R, rfl, rfl⟩ | ⟨R, rfl, rfl⟩
  · have hR := hnil R (fun hm => hn (by simp [hm])) (by simpa using hf)
    subst hR
    simp
  · have hR := hnil R (fun hm => hn (by simp [hm])) (by simpa using hf)
    subst hR
    simp

/-- The segments up to one of them, and those from it on, are the segments of what
they hold. -/
theorem segments_parts {l : List α} {pre rest : List (List α)}
    (h : segments isEnd l = pre ++ rest) :
    segments isEnd pre.flatten = pre ∧ segments isEnd rest.flatten = rest := by
  have hl : l = pre.flatten ++ rest.flatten := by
    rw [← List.flatten_append, ← h, flatten_segments]
  cases rest with
  | nil => simpa [hl] using h
  | cons seg post =>
    have hcut := segments_append (endsSegment_flatten h) (seg :: post).flatten
    rw [← hl, h] at hcut
    obtain ⟨hp, hr⟩ := append_inj_of_flatten hcut (flatten_segments _).symm
      (h ▸ nil_notMem_segments l)
    exact ⟨hp.symm, hr.symm⟩

/-- Replacing a segment recuts only its replacement. -/
theorem segments_replace {l w : List α} {pre post : List (List α)} {seg : List α}
    (h : segments isEnd l = pre ++ seg :: post) (hw : post ≠ [] → EndsSegment isEnd w) :
    segments isEnd (pre.flatten ++ (w ++ post.flatten)) = pre ++ (segments isEnd w ++ post) := by
  have hpost : segments isEnd post.flatten = post :=
    (segments_parts (h.trans (List.append_cons pre seg post))).2
  rw [segments_append (endsSegment_flatten h), (segments_parts h).1]
  cases post with
  | nil => simp
  | cons p post => rw [segments_append (hw (by simp)), hpost]

end Harmony.Lib
