import Mathlib

/-! Who holds what, as a set of pairs of an owner and an object. An object is freed when
its last pair goes; along a chain of shrinking sets the freed objects add up, and none is
freed twice. -/

namespace Harmony.Lib

variable {ω κ : Type}

def objects (A : Set (ω × κ)) : Set κ := {c | ∃ o, (o, c) ∈ A}

theorem objects_mono {A A' : Set (ω × κ)} (h : A' ⊆ A) : objects A' ⊆ objects A :=
  fun _ ⟨o, ho⟩ => ⟨o, h ho⟩

/-- The list names the objects that leave with the pairs from `A` to `A'`. -/
structure Frees (A A' : Set (ω × κ)) (freed : List κ) : Prop where
  sub : A' ⊆ A
  mem : ∀ c, c ∈ freed ↔ c ∈ objects A ∧ c ∉ objects A'

namespace Frees

variable {A A' A'' : Set (ω × κ)} {freed freed' : List κ}

theorem refl (A : Set (ω × κ)) : Frees A A [] :=
  ⟨subset_rfl, fun c => by simp⟩

theorem trans (h : Frees A A' freed) (h' : Frees A' A'' freed') : Frees A A'' (freed ++ freed') := by
  refine ⟨h'.sub.trans h.sub, fun c => ?_⟩
  rw [List.mem_append, h.mem, h'.mem]
  constructor
  · rintro (⟨hc, hgone⟩ | ⟨hc, hgone⟩)
    · exact ⟨hc, fun h'' => hgone (objects_mono h'.sub h'')⟩
    · exact ⟨objects_mono h.sub hc, hgone⟩
  · rintro ⟨hc, hgone⟩
    by_cases hmid : c ∈ objects A'
    · exact .inr ⟨hmid, hgone⟩
    · exact .inl ⟨hc, hmid⟩

/-- What is freed later was still held. -/
theorem nodup_append (h : Frees A A' freed) (h' : Frees A' A'' freed') (hnd : freed.Nodup)
    (hnd' : freed'.Nodup) : (freed ++ freed').Nodup := by
  rw [List.nodup_append]
  refine ⟨hnd, hnd', fun c hc d hd hcd => ?_⟩
  subst hcd
  exact ((h.mem c).mp hc).2 ((h'.mem c).mp hd).1

/-- One pair goes, and its object with it if nobody else holds it. -/
theorem of_remove {o : ω} {c : κ} (hmem : (o, c) ∈ A) (hA' : ∀ p, p ∈ A' ↔ p ∈ A ∧ p ≠ (o, c)) :
    Frees A A' [] ∧ c ∈ objects A' ∨ Frees A A' [c] := by
  have hsub : A' ⊆ A := fun p hp => ((hA' p).mp hp).1
  have hother : ∀ d, d ≠ c → d ∈ objects A → d ∈ objects A' := by
    rintro d hd ⟨o', ho'⟩
    exact ⟨o', (hA' _).mpr ⟨ho', fun h => hd (congrArg Prod.snd h)⟩⟩
  by_cases hheld : c ∈ objects A'
  · refine .inl ⟨⟨hsub, fun d => ?_⟩, hheld⟩
    by_cases hd : d = c
    · subst hd
      simp [hheld]
    · simp only [List.not_mem_nil, false_iff, not_and, not_not]
      exact hother d hd
  · refine .inr ⟨hsub, fun d => ?_⟩
    rw [List.mem_singleton]
    constructor
    · rintro rfl
      exact ⟨⟨o, hmem⟩, hheld⟩
    · rintro ⟨hd, hgone⟩
      by_contra hne
      exact hgone (hother d hne hd)

end Frees
end Harmony.Lib
