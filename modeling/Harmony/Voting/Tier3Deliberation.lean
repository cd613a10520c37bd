import Harmony.Voting.Tier3InPlace

/-! Declines, statements and votes that arrive behind recorded events and are dropped. -/

namespace Harmony.Voting.Tier3PollState

open Harmony.Lib
open Harmony.Membership (OwnerAddr Digest Hlc)

variable {cx : Codec} {cv : Curve} {r x y : Tier3PollState} {e f : SignedVotingEvent}
  {A B pre post events : List SignedVotingEvent}

theorem replay_declines_append (cx : Codec) (cv : Curve) (x : Tier3PollState) (l : List SignedVotingEvent) :
    ∃ D, (x.replay cx cv l).declines = x.declines ++ D ∧
      ∀ d ∈ D, ∃ f ∈ l, f.kind = .miniPublicDecline ∧ d = (f.actor, f.hlc) := by
  induction l using List.reverseRecOn with
  | nil => exact ⟨[], (List.append_nil _).symm, by simp⟩
  | append_singleton l f ih =>
    obtain ⟨D, hD, hmem⟩ := ih
    refine ⟨D ++ ((x.replay cx cv l).declineOf cx f).toList, ?_, fun d hd => ?_⟩
    · rw [replay_snoc, (stepped cx cv _ f).declines, hD, List.append_assoc]
    · rcases List.mem_append.mp hd with hd | hd
      · obtain ⟨g, hg, hkind⟩ := hmem d hd
        exact ⟨g, by simp [hg], hkind⟩
      · rw [Option.mem_toList, declineOf] at hd
        split_ifs at hd with hcond
        exact ⟨f, by simp, hcond.2.1, (Option.some.inj hd).symm⟩

namespace Arrival

theorem same_of_decline (h : Arrival cx cv r A B e) (hk : e.kind = .miniPublicDecline)
    (hdropped : (r.replay cx cv (A ++ B)).declineOf cx e = none)
    (hc : ∀ f ∈ B, (r.replay cx cv (A ++ B)).conflicts cx cv events e f = false) :
    Same (r.replay cx cv (A ++ e :: B)) ((r.replay cx cv (A ++ B)).applyEvent cx cv e).1 := by
  have hcap : maxDeclinesPerActor ≤
      countOf (r.replay cx cv (A ++ B)).declinesPerActor e.actor := by
    by_contra hlt
    simp [declineOf, h.admitted, hk, not_le.mp hlt] at hdropped
  have hfirst : (r.replay cx cv A).declineOf cx e = none := by
    by_contra hsome
    have hlt : countOf (r.replay cx cv A).declinesPerActor e.actor < maxDeclinesPerActor := by
      by_contra hge
      simp [declineOf, hge] at hsome
    obtain ⟨f, hf, x, hactor, hwrite, hcounted⟩ := h.exists_counted_of_cap
      SameParts.declinesPerActor (fun x f => (stepped cx cv x f).declinesPerActor) hlt hcap
    have hkf : f.kind = .miniPublicDecline := by
      by_contra hne
      rw [declineOf_of_ne hne] at hwrite
      cases hwrite
    have hconflict := hc f hf
    simp [conflicts, hk, hkf, hactor, capReached, hcap, hcounted] at hconflict
  refine h.same_of_quiet (sameParts_of_nothing h.admits_first (by simp [hk]) hfirst (by simp [hk])
    (by simp [hk]) (by simp [hk]) (by simp [lateWrite, hk])) ?_
  exact sameParts_of_nothing h.admitted (by simp [hk]) hdropped (by simp [hk])
    (by simp [hk]) (by simp [hk]) (by simp [lateWrite, hk])

theorem stage_at (h : Arrival cx cv r A B e) :
    ∀ post, A ++ B = pre ++ post → (r.replay cx cv pre).stage = r.stage := by
  induction pre using List.reverseRecOn with
  | nil => exact fun _ _ => rfl
  | append_singleton pre f ih =>
    intro post hl
    have hopen : ¬(r.replay cx cv (pre ++ [f])).Terminal := h.open_at hl
    rw [List.append_assoc] at hl
    rw [← ih _ hl]
    rw [replay_snoc] at hopen ⊢
    have hstage := (stepped cx cv (r.replay cx cv pre) f).stage
    rw [hstage]
    rw [Terminal, hstage] at hopen
    split_ifs at hopen ⊢ with hfails hresult
    · exact absurd (.inl rfl) hopen
    · exact absurd (.inr rfl) hopen
    · rfl

theorem selection_at (h : Arrival cx cv r A B e) : ∀ post, A ++ B = pre ++ post →
    (r.replay cx cv pre).sortitionResult = (pre.filterMap (selectionIn cx)).getLast? := by
  induction pre using List.reverseRecOn with
  | nil => exact fun _ _ => h.unselected
  | append_singleton pre f ih =>
    intro post hl
    rw [List.append_assoc, List.singleton_append] at hl
    rw [replay_snoc, (stepped cx cv _ f).sortitionResult, List.filterMap_append, ih _ hl]
    by_cases hk : f.kind = .sortitionSelection
    · cases hp : cx.sortitionSelection f.payload with
      | error reason => simp [selectionOf, selectionIn, hp, Except.toOption]
      | ok payload =>
        have hd : Tier3PollState.decodes cx f = true := by
          simp [Tier3PollState.decodes, hk, hp, Except.isOk, Except.toBool]
        have ha : (r.replay cx cv pre).admits cx f = true := h.admits_at hl hd
        simp [selectionOf, selectionIn, ha, hk, hp, Except.toOption]
    · simp [selectionIn, hk]

theorem selection_first (h : Arrival cx cv r A B e)
    (hevents : sortBy (canonicalKey cx) events = A ++ B) :
    (r.replay cx cv A).sortitionResult = selectionBefore cx events e := by
  have hA : A.filter (fun g => canonicalKey cx g ≤ canonicalKey cx e) = A :=
    List.filter_eq_self.mpr fun g hg => by simpa using h.le g hg
  have hB : B.filter (fun g => canonicalKey cx g ≤ canonicalKey cx e) = [] :=
    List.filter_eq_nil_iff.mpr fun g hg => by simpa using h.lt g hg
  rw [h.selection_at B rfl, selectionBefore, hevents, List.filter_append, hA, hB, List.append_nil]

/-- Only a later selection, or a decline of the same time, takes the floor from an actor. -/
theorem floor_taken (h : Arrival cx cv r A B e)
    (hevents : sortBy (canonicalKey cx) events = A ++ B)
    (hfirst : (r.replay cx cv A).mayDeliberate e = true)
    (hlast : (r.replay cx cv (A ++ B)).mayDeliberate e = false) :
    (∃ f ∈ B, f.kind = .miniPublicDecline ∧ f.key = e.key) ∨
      ∃ f ∈ B, f.kind = .sortitionSelection ∧ mayDeliberate { r.replay cx cv (A ++ B) with
        sortitionResult := selectionBefore cx events e } e = true := by
  by_contra hnot
  rw [not_or] at hnot
  obtain ⟨hdecline, hselection⟩ := hnot
  have hdeclined : (r.replay cx cv A).declinedAt e.hlc =
      (r.replay cx cv (A ++ B)).declinedAt e.hlc := by
    obtain ⟨D, hD, hmem⟩ := replay_declines_append cx cv (r.replay cx cv A) B
    have hlate : D.filter (fun d => hlcKey d.2 ≤ hlcKey e.hlc) = [] := by
      refine List.filter_eq_nil_iff.mpr fun d hd => ?_
      obtain ⟨f, hf, hk, rfl⟩ := hmem d hd
      have hle : e.key ≤ f.key := key_le_of_canonicalKey_le (h.lt f hf).le
      have hlt : e.key < f.key := lt_of_le_of_ne hle fun heq => hdecline ⟨f, hf, hk, heq.symm⟩
      rw [decide_eq_true_eq]
      exact hlt.not_ge
    rw [declinedAt, declinedAt, replay_append, hD, List.filter_append, hlate, List.append_nil]
  have hstage : (r.replay cx cv A).stage = (r.replay cx cv (A ++ B)).stage :=
    (h.stage_at B rfl).trans (h.stage_at [] (List.append_nil _).symm).symm
  have hmeta : (r.replay cx cv A).meta = (r.replay cx cv (A ++ B)).meta := by
    rw [meta_at, meta_at]
  by_cases hB : ∃ f ∈ B, f.kind = .sortitionSelection
  · obtain ⟨f, hf, hk⟩ := hB
    have hunder : (r.replay cx cv A).mayDeliberate e = mayDeliberate { r.replay cx cv (A ++ B) with
        sortitionResult := selectionBefore cx events e } e :=
      mayDeliberate_congr hstage hmeta (h.selection_first hevents) hdeclined
    exact hselection ⟨f, hf, hk, hunder ▸ hfirst⟩
  · have hsame : (r.replay cx cv A).sortitionResult = (r.replay cx cv (A ++ B)).sortitionResult := by
      have hnil : B.filterMap (selectionIn cx) = [] :=
        List.filterMap_eq_nil_iff.mpr fun f hf => if_neg fun hk => hB ⟨f, hf, hk⟩
      rw [h.selection_at B rfl, h.selection_at [] (List.append_nil _).symm, List.filterMap_append,
        hnil, List.append_nil]
    rw [mayDeliberate_congr hstage hmeta hsame hdeclined, hlast] at hfirst
    cases hfirst

theorem eligible_statement (hk : e.kind = .deliberationStatement) (x : Tier3PollState) :
    x.eligible cx cv e = (x.mayDeliberate e &&
      (cx.deliberationStatement e.payload).toOption.any fun payload => textOk payload.text) := by
  simp [eligible, hk]

theorem statementOf_isSome_iff (cv : Curve) (ha : x.admits cx e = true) (hk : e.kind = .deliberationStatement) :
    (x.statementOf cx e).isSome = true ↔ x.eligible cx cv e = true ∧
      countOf x.deliberation.statementsPerAuthor e.actor < maxStatementsPerAuthor := by
  rw [eligible_statement hk, statementOf]
  have hd : Tier3PollState.decodes cx e = true := (admits_eq_true_iff.mp ha).2.2.2
  simp only [Tier3PollState.decodes, hk, isOk_iff] at hd
  obtain ⟨payload, hp⟩ := hd
  split_ifs with hcond
  · simp [hp, Except.toOption, Option.isSome_map, hcond.2.2.1, hcond.2.2.2]
  · simp only [ha, hk, true_and, not_and, not_lt] at hcond
    simp only [Option.isSome_none, Bool.false_eq_true, Bool.and_eq_true, false_iff, not_and, not_lt]
    exact fun hmay => hcond hmay.1

/-- A statement that was dropped would have been dropped in its place. -/
theorem same_of_statement (h : Arrival cx cv r A B e) (hk : e.kind = .deliberationStatement)
    (hevents : sortBy (canonicalKey cx) events = A ++ B)
    (hdropped : (r.replay cx cv (A ++ B)).statementOf cx e = none)
    (hc : ∀ f ∈ B, (r.replay cx cv (A ++ B)).conflicts cx cv events e f = false) :
    Same (r.replay cx cv (A ++ e :: B)) ((r.replay cx cv (A ++ B)).applyEvent cx cv e).1 := by
  have hlast := mt (statementOf_isSome_iff cv h.admitted hk).mpr (by simp [hdropped])
  have hfirst : (r.replay cx cv A).statementOf cx e = none := by
    by_contra hsome
    obtain ⟨heligible, hcap⟩ := (statementOf_isSome_iff cv h.admits_first hk).mp
      (Option.isSome_iff_ne_none.mpr hsome)
    rw [eligible_statement hk, Bool.and_eq_true] at heligible
    obtain ⟨hmay, htext⟩ := heligible
    cases hmay' : (r.replay cx cv (A ++ B)).mayDeliberate e with
    | true =>
      have heligible' : (r.replay cx cv (A ++ B)).eligible cx cv e = true := by
        rw [eligible_statement hk, hmay', htext, Bool.and_self]
      have hcap' : maxStatementsPerAuthor ≤
          countOf (r.replay cx cv (A ++ B)).deliberation.statementsPerAuthor e.actor :=
        not_lt.mp fun hlt => hlast ⟨heligible', hlt⟩
      obtain ⟨f, hf, x, hactor, hwrite, hcounted⟩ := h.exists_counted_of_cap
        SameParts.statementsPerAuthor (fun x f => (stepped cx cv x f).statementsPerAuthor) hcap hcap'
      have hkf : f.kind = .deliberationStatement := by
        by_contra hne
        rw [statementOf_of_ne hne] at hwrite
        cases hwrite
      have hconflict := hc f hf
      simp [conflicts, hk, hkf, hactor, heligible', capReached, hcap', hcounted] at hconflict
    | false =>
      rcases h.floor_taken hevents hmay hmay' with ⟨f, hf, hkf, hkey⟩ | ⟨f, hf, hkf, hunder⟩
      · have hconflict := hc f hf
        simp [conflicts, hk, hkf, hmay', outranks, hkey] at hconflict
      · have hconflict := hc f hf
        simp [conflicts, hk, hkf, hmay', outranks, eligible_statement hk, hunder, htext] at hconflict
  have hquiet : ∀ {x : Tier3PollState}, x.admits cx e = true → x.statementOf cx e = none →
      SameParts (x.applyEvent cx cv e).1 x := fun ha hw =>
    sameParts_of_nothing ha (by simp [hk]) (by simp [hk]) hw (by simp [hk]) (by simp [hk])
      (by simp [lateWrite, hk])
  exact h.same_of_quiet (hquiet h.admits_first hfirst) (hquiet h.admitted hdropped)

/-! ### Votes -/

theorem replay_statements (hr : r.deliberation.statements = ∅) {l : List SignedVotingEvent}
    {hash : Digest} {statement : DeliberationStatement}
    (hs : (r.replay cx cv l).deliberation.statements[hash]? = some statement) :
    ∃ g ∈ l, sha256OfSigningBytes cx g = hash ∧ statement.author = g.actor := by
  induction l using List.reverseRecOn generalizing statement with
  | nil => simp [replay, hr] at hs
  | append_singleton l f ih =>
    have hold : (r.replay cx cv l).deliberation.statements[hash]? = some statement →
        ∃ g ∈ l ++ [f], sha256OfSigningBytes cx g = hash ∧ statement.author = g.actor := by
      intro hs
      obtain ⟨g, hg, hhash⟩ := ih hs
      exact ⟨g, List.mem_append_left _ hg, hhash⟩
    rw [replay_snoc, (stepped cx cv _ f).statements] at hs
    cases hw : (r.replay cx cv l).statementOf cx f with
    | none =>
      rw [hw] at hs
      exact hold hs
    | some made =>
      rw [hw, Option.elim_some, BTreeMap.get_insert] at hs
      rw [statementOf] at hw
      split_ifs at hw
      obtain ⟨payload, -, rfl⟩ := Option.map_eq_some_iff.mp hw
      split_ifs at hs with hhash
      · cases hs
        exact ⟨f, by simp, hhash, rfl⟩
      · exact hold hs

/-- A vote that is allowed in the event's place is allowed wherever its actor has the floor. -/
theorem voteOf_at (h : Arrival cx cv r A B e) {x : Tier3PollState}
    (ha : x.admits cx e = true) (hmay : x.mayDeliberate e = true)
    (hstatements : x.deliberation.statements = (r.replay cx cv (A ++ B)).deliberation.statements)
    {entry : DeliberationVoteEntry} (hw : (r.replay cx cv A).voteOf cx e = some entry) :
    x.voteOf cx e = some entry := by
  rw [voteOf] at hw ⊢
  split_ifs at hw with hcond
  rw [if_pos ⟨ha, hcond.2.1, hmay⟩]
  simp only [Option.bind_eq_bind, Option.bind_eq_some_iff] at hw ⊢
  obtain ⟨payload, hp, target, htarget, hw⟩ := hw
  have hgrows : Grows (r.replay cx cv A) (r.replay cx cv (A ++ B)) := grows_from B
  obtain ⟨target', htarget'⟩ := Option.isSome_iff_exists.mp
    (hgrows.statements payload.statementEventHash (by rw [htarget]; rfl))
  obtain ⟨g, hg, hhash, hauthor⟩ := replay_statements h.silent htarget
  obtain ⟨g', hg', hhash', hauthor'⟩ := replay_statements h.silent htarget'
  have hinput : g.toSigInput = g'.toSigInput :=
    h.free g (by simp [hg]) g' (by simp at hg' ⊢; grind) (hhash.trans hhash'.symm)
  have hactor : target'.author = target.author := by rw [hauthor, hauthor', hinput]
  refine ⟨payload, hp, target', by rw [hstatements, htarget'], ?_⟩
  rwa [hactor]

/-- A vote that changed nothing would not stand in its place either. -/
theorem same_of_vote (h : Arrival cx cv r A B e) (hk : e.kind = .deliberationVote)
    (hevents : sortBy (canonicalKey cx) events = A ++ B)
    (hdropped : ((r.replay cx cv (A ++ B)).applyEvent cx cv e).1.deliberation.votes =
      (r.replay cx cv (A ++ B)).deliberation.votes)
    (hc : ∀ f ∈ B, (r.replay cx cv (A ++ B)).conflicts cx cv events e f = false) :
    Same (r.replay cx cv (A ++ e :: B)) ((r.replay cx cv (A ++ B)).applyEvent cx cv e).1 := by
  cases hfirst : (r.replay cx cv A).voteOf cx e with
  | none =>
    refine h.same_of_quiet (sameParts_of_nothing h.admits_first (by simp [hk]) (by simp [hk])
      (by simp [hk]) (by simp [hk]) (by simp [hk]) (by simp [lateWrite, hk, hfirst])) ?_
    exact (stepped cx cv _ e).quiet (by simp [hk]) (by simp [hk]) (by simp [hk]) hdropped
      (by simp [hk]) (by simp [hk]) (by simp [hk]) (by simp [hk]) (by simp [hk])
  | some entry =>
    have hmay : (r.replay cx cv A).mayDeliberate e = true := by
      rw [voteOf] at hfirst
      split_ifs at hfirst with hcond
      exact hcond.2.2
    have hmay' : (r.replay cx cv (A ++ B)).mayDeliberate e = true := by
      by_contra hnot
      rw [Bool.not_eq_true] at hnot
      rcases h.floor_taken hevents hmay hnot with ⟨f, hf, hkf, hkey⟩ | ⟨f, hf, hkf, hunder⟩
      · have hconflict := hc f hf
        simp [conflicts, hk, hkf, hnot, outranks, hkey] at hconflict
      · have hvote := h.voteOf_at (x := { r.replay cx cv (A ++ B) with
          sortitionResult := selectionBefore cx events e }) h.admitted hunder rfl hfirst
        have hconflict := hc f hf
        simp [conflicts, hk, hkf, hnot, outranks, eligible, hvote] at hconflict
    have hlast : (r.replay cx cv (A ++ B)).voteOf cx e = some entry :=
      h.voteOf_at h.admitted hmay' rfl hfirst
    have hput : ∀ {x : Tier3PollState}, x.admits cx e = true → x.voteOf cx e = some entry →
        Same (x.applyEvent cx cv e).1 (put (.vote entry) e x) := by
      intro x ha hw
      have hwrite : lateWrite cx cv x e = .vote entry := by simp [lateWrite, hk, hw]
      rw [← hwrite]
      exact same_put_lateWrite ha (by simp [hk]) (by simp [hk]) (by simp [hk]) (by simp [hk])
        (by simp [hk])
    refine h.same_of_put (fun pre f post hB hd => ?_) (hput h.admits_first hfirst)
      (hput h.admitted hlast)
    exact {
      order := h.order hB
      kind := h.kind_ne_result hB hd
      vote := by
        intro entry₁ entry' hw hvote
        cases hw
        obtain ⟨-, -, -, -, hstamp⟩ := voteOf_eq_some hfirst
        obtain ⟨-, -, -, -, hstamp'⟩ := voteOf_eq_some hvote
        rw [hstamp, hstamp']
        exact h.lt f (by simp [hB])
      candidate := by simp
      candidateCap := by simp
      approved := by simp
      approval := by simp
      ballotCap := by simp
      size := fun _ _ => rfl }

end Arrival

end Harmony.Voting.Tier3PollState
