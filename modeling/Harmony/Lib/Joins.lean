import Harmony.Lib.Register
import Harmony.Lib.Smallest

/-! Joins that are lawful on values that may meet. A replicated record seldom has a
lattice order on all its values: two copies of one record join, two records under
one key do not. The laws are stated for values related by `R`, and carried over to
records that may be missing, to records that a growing mark sweeps away, and to
states that read such records at many places. -/

namespace Harmony.Lib

variable {α μ : Type} {R : α → α → Prop} {join : α → α → α}

/-- A join that is commutative, associative and idempotent on the values that meet, and
that meets what both its parts meet. -/
structure JoinOn (R : α → α → Prop) (join : α → α → α) : Prop where
  symm : ∀ {x y}, R x y → R y x
  meets : ∀ {x y z}, R x y → R y z → R x z → R (join x y) z
  comm : ∀ {x y}, R x y → join x y = join y x
  assoc : ∀ {x y z}, R x y → R y z → R x z → join (join x y) z = join x (join y z)
  idem : ∀ {x}, R x x → join x x = x

theorem JoinOn.meets_right (h : JoinOn R join) {x y z : α} (h1 : R x y) (h2 : R y z) (h3 : R x z) :
    R x (join y z) :=
  h.symm (h.meets h2 (h.symm h3) (h.symm h1))

theorem joinOn_latest {τ : Type} [LinearOrder τ] (stamp : α → τ) :
    JoinOn (StampsTell stamp) (latest stamp) where
  symm h := h.symm
  meets {x y z} _ h2 h3 := by
    rcases latest_eq_or stamp x y with h | h <;> rw [h]
    · exact h3
    · exact h2
  comm h := latest_comm h
  assoc _ _ _ := latest_assoc _ _ _
  idem _ := latest_self _

def Meets (R : α → α → Prop) (o o' : Option α) : Prop := ∀ x, o = some x → ∀ y, o' = some y → R x y

@[simp] theorem meets_none_left (o : Option α) : Meets R none o := nofun

@[simp] theorem meets_none_right (o : Option α) : Meets R o none := fun _ _ => nofun

@[simp] theorem meets_some {x y : α} : Meets R (some x) (some y) ↔ R x y := by simp [Meets]

theorem JoinOn.option (h : JoinOn R join) : JoinOn (Meets R) (Option.merge join) where
  symm hR x hx y hy := h.symm (hR y hy x hx)
  meets {o o' o''} h1 h2 h3 := by
    cases o with
    | none => simpa using h2
    | some x =>
      cases o' with
      | none => simpa using h3
      | some y =>
        cases o'' with
        | none => simp
        | some z =>
          simpa using h.meets (meets_some.mp h1) (meets_some.mp h2) (meets_some.mp h3)
  comm {o o'} hR := by
    cases o with
    | none => simp
    | some x =>
      cases o' with
      | none => simp
      | some y => simp [h.comm (meets_some.mp hR)]
  assoc {o o' o''} h1 h2 h3 := by
    cases o with
    | none => simp
    | some x =>
      cases o' with
      | none => simp
      | some y =>
        cases o'' with
        | none => simp
        | some z => simp [h.assoc (meets_some.mp h1) (meets_some.mp h2) (meets_some.mp h3)]
  idem {o} hR := by
    cases o with
    | none => rfl
    | some x => simp [h.idem (meets_some.mp hR)]

theorem JoinOn.pi {ι : Type} {β : ι → Type} {R : ∀ i, β i → β i → Prop}
    {join : ∀ i, β i → β i → β i} (h : ∀ i, JoinOn (R i) (join i)) :
    JoinOn (fun f g : ∀ i, β i => ∀ i, R i (f i) (g i)) fun f g i => join i (f i) (g i) where
  symm hR i := (h i).symm (hR i)
  meets h1 h2 h3 i := (h i).meets (h1 i) (h2 i) (h3 i)
  comm hR := funext fun i => (h i).comm (hR i)
  assoc h1 h2 h3 := funext fun i => (h i).assoc (h1 i) (h2 i) (h3 i)
  idem hR := funext fun i => (h i).idem (hR i)

/-! ### Marks that sweep -/

/-- A mark that only grows and decides, together with what all values that meet share,
which of them are gone. -/
structure SweepsOn (R : α → α → Prop) (join : α → α → α) (mark : μ → μ → μ)
    (dead : μ → α → Bool) : Prop where
  grows : ∀ m m' x, dead (mark m m') x = (dead m x || dead m' x)
  shared : ∀ m x y, R x y → dead m x = dead m y
  joined : ∀ m x y, R x y → dead m (join x y) = dead m x

/-- What the mark leaves. -/
def swept (dead : μ → α → Bool) (m : μ) (o : Option α) : Option α := o.filter fun x => !dead m x

/-- The join of two marked records: the marks meet, and sweep what they condemn. -/
def joinSwept (mark : μ → μ → μ) (dead : μ → α → Bool) (join : α → α → α) (u v : μ × Option α) :
    μ × Option α :=
  (mark u.1 v.1, swept dead (mark u.1 v.1) (Option.merge join u.2 v.2))

/-- Marked records whose values meet, each with what its mark leaves. -/
structure MeetsSwept (R : α → α → Prop) (dead : μ → α → Bool) (u v : μ × Option α) : Prop where
  meets : Meets R u.2 v.2
  left : swept dead u.1 u.2 = u.2
  right : swept dead v.1 v.2 = v.2

section Swept

variable {mark : μ → μ → μ} {dead : μ → α → Bool} {m m' m'' : μ} {o o' o'' : Option α}

theorem swept_some (m : μ) (x : α) : swept dead m (some x) = if dead m x then none else some x := by
  simp only [swept, Option.filter_some]
  cases dead m x <;> rfl

/-- What a larger mark condemns may be swept before the join. -/
theorem SweepsOn.swept_merge (hs : SweepsOn R join mark dead)
    (hle : ∀ x, dead m x = false → dead m' x = false)
    (hle' : ∀ x, dead m x = false → dead m'' x = false) (hR : Meets R o o') :
    swept dead m (Option.merge join (swept dead m' o) (swept dead m'' o')) =
      swept dead m (Option.merge join o o') := by
  have hone : ∀ {k : μ} {x : α}, (dead m x = false → dead k x = false) →
      swept dead m (swept dead k (some x)) = swept dead m (some x) := by
    intro k x h
    rw [swept_some (m := k)]
    cases hk : dead k x with
    | false => rfl
    | true =>
      have hm : dead m x = true := by
        by_contra hm
        rw [h (by simpa using hm)] at hk
        cases hk
      rw [if_pos rfl, swept_some, if_pos hm]
      rfl
  cases o with
  | none =>
    cases o' with
    | none => rfl
    | some y => simpa [swept] using hone (hle' y)
  | some x =>
    cases o' with
    | none => simpa [swept] using hone (hle x)
    | some y =>
      have hR := meets_some.mp hR
      have hxy := hs.shared m x y hR
      rw [Option.merge_some_some, swept_some (x := join x y), hs.joined m x y hR]
      cases hm : dead m x with
      | false =>
        simp [swept_some, hle x hm, hle' y (hxy ▸ hm), hs.joined m x y hR, hm]
      | true =>
        rw [if_pos rfl, swept_some, swept_some]
        split_ifs <;> simp [swept, hs.joined m x y hR, hm, hxy ▸ hm]

theorem swept_swept (m : μ) (o : Option α) : swept dead m (swept dead m o) = swept dead m o := by
  cases o with
  | none => rfl
  | some x =>
    rw [swept_some]
    split_ifs with h
    · rfl
    · rw [swept_some, if_neg h]

theorem Meets.swept (h : Meets R o o') (m : μ) : Meets R (Lib.swept dead m o) o' := by
  intro x hx
  exact h x (Option.filter_eq_some_iff.mp hx).1

theorem joinOn_joinSwept (h : JoinOn R join) (hm : JoinOn (fun _ _ => True) mark)
    (hs : SweepsOn R join mark dead) :
    JoinOn (MeetsSwept R dead) (joinSwept mark dead join) where
  symm hR := ⟨h.option.symm hR.meets, hR.right, hR.left⟩
  meets h1 h2 h3 :=
    ⟨(h.option.meets h1.meets h2.meets h3.meets).swept _, swept_swept _ _, h2.right⟩
  comm {u v} hR := by
    simp only [joinSwept]
    rw [h.option.comm hR.meets, hm.comm trivial]
  assoc {u v w} h1 h2 h3 := by
    have hmark : mark (mark u.1 v.1) w.1 = mark u.1 (mark v.1 w.1) :=
      hm.assoc trivial trivial trivial
    have hleft := h.option.meets h1.meets h2.meets h3.meets
    have hright := h.option.meets_right h1.meets h2.meets h3.meets
    have hgrows : ∀ {k k' x}, dead (mark k k') x = false → dead k x = false ∧ dead k' x = false := by
      intro k k' x hx
      simpa [hs.grows] using hx
    simp only [joinSwept, Prod.mk.injEq]
    refine ⟨hmark, ?_⟩
    calc swept dead (mark (mark u.1 v.1) w.1) (Option.merge join
            (swept dead (mark u.1 v.1) (Option.merge join u.2 v.2)) w.2)
        = swept dead (mark (mark u.1 v.1) w.1)
            (Option.merge join (Option.merge join u.2 v.2) w.2) := by
          conv_lhs => rw [← h2.right]
          exact hs.swept_merge (fun _ hx => (hgrows hx).1) (fun _ hx => (hgrows hx).2) hleft
      _ = swept dead (mark u.1 (mark v.1 w.1))
            (Option.merge join u.2 (Option.merge join v.2 w.2)) := by
          rw [hmark, h.option.assoc h1.meets h2.meets h3.meets]
      _ = swept dead (mark u.1 (mark v.1 w.1)) (Option.merge join u.2
            (swept dead (mark v.1 w.1) (Option.merge join v.2 w.2))) := by
          conv_rhs => rw [← h1.left]
          exact (hs.swept_merge (fun _ hx => (hgrows hx).1) (fun _ hx => (hgrows hx).2)
            hright).symm
  idem {u} hR := by
    simp only [joinSwept, hm.idem trivial, h.option.idem hR.meets, hR.left]

end Swept

/-- Sets that are cut down to their smallest elements after every union. -/
theorem joinOn_smallest {β : Type} [LinearOrder β] (n : ℕ) :
    JoinOn (fun s t : Finset β => s.card ≤ n ∧ t.card ≤ n)
      fun s t => (smallest n (s ∪ t)).toFinset where
  symm h := ⟨h.2, h.1⟩
  meets _ h2 _ := ⟨(List.toFinset_card_le _).trans (List.length_take_le _ _), h2.2⟩
  comm _ := by rw [Finset.union_comm]
  assoc {s t u} _ _ _ := by
    have hcut : ∀ {s : Finset β}, (smallest n s).toFinset ⊆ s := fun {s} a ha =>
      mem_of_mem_smallest (List.mem_toFinset.mp ha)
    have hleft := smallest_union (n := n) (s := s ∪ t) (t := u) hcut (Finset.Subset.refl _)
      (fun a ha => List.mem_toFinset.mpr ha) fun a ha => mem_of_mem_smallest ha
    have hright := smallest_union (n := n) (s := s) (t := t ∪ u) (Finset.Subset.refl _) hcut
      (fun a ha => mem_of_mem_smallest ha) fun a ha => List.mem_toFinset.mpr ha
    rw [hleft, hright, Finset.union_assoc]
  idem h := by rw [Finset.union_self, smallest_of_card_le h.1, Finset.sort_toFinset]

/-! ### Registers of a state -/

/-- What a state reads at one place, and the lawful join of two readings. -/
structure Register (σ : Type) where
  Value : Type
  read : σ → Value
  Meets : Value → Value → Prop
  join : Value → Value → Value
  lawful : JoinOn Meets join

namespace Register

variable {σ : Type} {r : Register σ} {s t u m n p q : σ}

/-- The readings of two states may meet. -/
def MeetsIn (r : Register σ) (s t : σ) : Prop := r.Meets (r.read s) (r.read t)

/-- A state that reads the join of what two others read. -/
def Joined (r : Register σ) (s t m : σ) : Prop := r.read m = r.join (r.read s) (r.read t)

theorem MeetsIn.symm (h : r.MeetsIn s t) : r.MeetsIn t s := r.lawful.symm h

theorem Joined.meetsIn (hm : r.Joined s t m) (hst : r.MeetsIn s t) (htu : r.MeetsIn t u)
    (hsu : r.MeetsIn s u) : r.MeetsIn m u := by
  unfold MeetsIn
  rw [hm]
  exact r.lawful.meets hst htu hsu

theorem Joined.comm (hm : r.Joined s t m) (hn : r.Joined t s n) (hst : r.MeetsIn s t) :
    r.read m = r.read n := by
  rw [hm, hn, r.lawful.comm hst]

theorem Joined.assoc (hm : r.Joined s t m) (hp : r.Joined m u p) (hn : r.Joined t u n)
    (hq : r.Joined s n q) (hst : r.MeetsIn s t) (htu : r.MeetsIn t u) (hsu : r.MeetsIn s u) :
    r.read p = r.read q := by
  rw [hp, hm, hq, hn, r.lawful.assoc hst htu hsu]

theorem Joined.idem (hm : r.Joined s s m) (hss : r.MeetsIn s s) : r.read m = r.read s := by
  rw [hm, r.lawful.idem hss]

end Register

end Harmony.Lib
