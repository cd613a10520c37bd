import Harmony.Channel.Fates

/-! A pull between two engines that go on running. Whatever else happens to the puller
meanwhile, once the pull has converged it has every event that the peer held throughout, or
has refused it; below the heads of the lanes as well as above. -/

namespace Harmony.Channel

open Harmony.Lib Harmony.Reconcile

namespace ChannelLogEngine

variable {P : ChannelLogEngineParams} {e : SignedChannelEvent}

/-- One round of a pull: the peer as it answers, the frames that come, and what the puller
does until it goes on. -/
structure Exchange where
  peer : ChannelLog
  peerDir : ChannelDir
  frames : List RbsrFrame
  steps : List ChannelStep

/-- The steps of a puller up to the end of some rounds. -/
def stepsAfter (start : List ChannelStep) (rounds : List Exchange) : List ChannelStep :=
  start ++ rounds.flatMap Exchange.steps

section Pulls

variable (P : ChannelLogEngineParams) (hash : List Byte → ByteArr 32) (start : List ChannelStep)

/-- The reply of a peer whose log is in order comes with the packets of its `Have` keys, all
packets are processed, and no two ranges that differ have one digest. -/
structure Answered (rounds : List Exchange) (x : Exchange) (request reply : RbsrMessage) : Prop where
  peer : ChannelLog.Consistent P.sha256 P.communityId P.channelId x.peer x.peerDir
  replied : ∃ events packets, rbsrRespond P hash request x.peer x.peerDir = some (reply, events) ∧
    rbsrFrames x.frames = some (reply, packets) ∧ (∀ e ∈ events, e ∈ packets) ∧
    ∀ e ∈ packets, ChannelStep.receive e .reconcile ∈ x.steps ∧
      ¬Healing (run P (stepsAfter start (rounds ++ [x]))) e
  asked : ∀ sp ∈ openSpans request.ranges,
    Telling hash x.peer (run P (stepsAfter start rounds)).log sp
  told : ∀ sp ∈ openSpans reply.ranges,
    Telling hash x.peer (run P (stepsAfter start (rounds ++ [x]))).log sp

/-- The rounds of a pull that goes on, and the request it goes on with. -/
inductive Pull : List Exchange → RbsrMessage → Prop
  | initial : Pull [] (rbsrBuildInitial hash (run P start))
  | next {rounds : List Exchange} {x : Exchange} {request reply next : RbsrMessage}
      (h : Pull rounds request) (hx : Answered P hash start rounds x request reply)
      (hnext : rbsrNext hash reply (run P (stepsAfter start (rounds ++ [x]))) = some next) :
      Pull (rounds ++ [x]) next

/-- The last round leaves nothing to ask for. -/
def Converged (rounds : List Exchange) (x : Exchange) : Prop :=
  ∃ request reply, Pull P hash start rounds request ∧
    Answered P hash start rounds x request reply ∧
    rbsrNext hash reply (run P (stepsAfter start (rounds ++ [x]))) = none

end Pulls

section Heal

variable {hash : List Byte → ByteArr 32} {start : List ChannelStep} {rounds : List Exchange}
  {x : Exchange} {request reply : RbsrMessage}

theorem stepsAfter_snoc (start : List ChannelStep) (rounds : List Exchange) (x : Exchange) :
    stepsAfter start (rounds ++ [x]) = stepsAfter start rounds ++ x.steps := by
  simp [stepsAfter]

theorem Answered.reply_eq (hx : Answered P hash start rounds x request reply) :
    respond hash request (x.peer.sliced hx.peer.ascending) = reply := by
  obtain ⟨events, packets, hrespond, -⟩ := hx.replied
  rw [← hx.peer.alike.respond]
  unfold rbsrRespond at hrespond
  dsimp only at hrespond
  split at hrespond
  · split_ifs at hrespond
    cases hrespond
    rfl
  · cases hrespond

/-- An event the peer hands over is processed: it is held at the end, or refused. -/
theorem Answered.handed (hx : Answered P hash start rounds x request reply)
    (hrun : Running P (stepsAfter start rounds) x.steps)
    (hpeer : e ∈ x.peer.storedEvents x.peerDir) (hk : reconcileKey P.sha256 e ∈ reply.haveKeys) :
    Held P (run P (stepsAfter start (rounds ++ [x]))) e ∨ RefusedIn P x.steps e := by
  obtain ⟨events, packets, hrespond, -, hsub, hcame⟩ := hx.replied
  have hevents : x.peer.eventsForKeys P.sha256 x.peerDir reply.haveKeys = .ok events := by
    unfold rbsrRespond at hrespond
    dsimp only at hrespond
    split at hrespond
    · rename_i evs hevs
      split_ifs at hrespond
      cases hrespond
      exact hevs
    · cases hrespond
  have hown : ∀ k ∈ reply.haveKeys, k ∈
      (x.peer.storedEvents x.peerDir).map (reconcileKey P.sha256) := by
    intro k hk
    rw [← hx.reply_eq] at hk
    exact hx.peer.mem_keys.mp (haveKeys_respond hk)
  obtain ⟨evs, hevs, -, hkeys, hstored⟩ := hx.peer.resolves hown
  rw [hevents] at hevs
  cases hevs
  obtain ⟨e', he', hsame⟩ := List.mem_map.mp ((hkeys _).mpr hk)
  obtain rfl : e' = e := hx.peer.nodup.inj (hstored e' he') hpeer hsame
  obtain ⟨hreceived, hended⟩ := hcame e' (hsub e' he')
  have hsettles := hrun.settles hreceived
  rw [stepsAfter_snoc] at hended ⊢
  exact hsettles.resolve_left hended

/-- One round over an open range: the event is held at the end, or refused, or a range that
is kept reaches over it. -/
theorem Answered.settles (hx : Answered P hash start rounds x request reply)
    (hrun : Running P (stepsAfter start rounds) x.steps)
    (hbefore : Sound P (run P (stepsAfter start rounds)))
    (hafter : Sound P (run P (stepsAfter start (rounds ++ [x]))))
    (hown : ∀ sp ∈ openSpans request.ranges,
      Own hash ((run P (stepsAfter start rounds)).log.sliced hbefore.consistent.ascending) sp)
    (hpeer : e ∈ x.peer.storedEvents x.peerDir)
    (hover : Over (openSpans request.ranges) (reconcileKey P.sha256 e)) :
    Held P (run P (stepsAfter start (rounds ++ [x]))) e ∨ RefusedIn P x.steps e ∨
      Over ((openSpans reply.ranges).flatMap (retry hash
        ((run P (stepsAfter start (rounds ++ [x]))).log.sliced hafter.consistent.ascending)))
        (reconcileKey P.sha256 e) := by
  have hreply := hx.reply_eq
  have hgrown : ∀ k ∈ ((run P (stepsAfter start rounds)).log.sliced hbefore.consistent.ascending).keys,
      k ∈ ((run P (stepsAfter start (rounds ++ [x]))).log.sliced hafter.consistent.ascending).keys := by
    intro k hk
    obtain ⟨y, hy, rfl⟩ := List.mem_map.mp (hbefore.consistent.mem_keys.mp hk)
    refine hafter.consistent.mem_keys.mpr (List.mem_map_of_mem ?_)
    rw [stepsAfter_snoc]
    exact hrun.stored hy
  rcases round_settles hown hgrown
      (fun sp hsp => (hx.asked sp hsp).alike hx.peer.alike hbefore.consistent.alike)
      (fun sp hsp => (hx.told sp (hreply ▸ hsp)).alike hx.peer.alike hafter.consistent.alike)
      (hx.peer.mem_keys.mpr (List.mem_map_of_mem hpeer)) hover with hk | hk | hk
  · exact Or.inl (hafter.consistent.mem_keys.mp hk)
  · rw [hreply] at hk
    exact (hx.handed hrun hpeer hk).imp_right Or.inl
  · rw [hreply] at hk
    exact Or.inr (Or.inr hk)

theorem stepsAfter_flatMap {rounds : List Exchange}
    (h : Running P start ((rounds ++ [x]).flatMap Exchange.steps)) :
    Running P start (rounds.flatMap Exchange.steps) ∧ Running P (stepsAfter start rounds) x.steps := by
  rw [List.flatMap_append, List.flatMap_singleton] at h
  exact ⟨h.left, h.right⟩

/-- One round more of a pull that so far held the event, refused it, or asks for it. -/
theorem Answered.carries (hx : Answered P hash start rounds x request reply)
    (hrun : Running P start ((rounds ++ [x]).flatMap Exchange.steps))
    (hbefore : Sound P (run P (stepsAfter start rounds)))
    (hafter : Sound P (run P (stepsAfter start (rounds ++ [x]))))
    (hown : ∀ sp ∈ openSpans request.ranges,
      Own hash ((run P (stepsAfter start rounds)).log.sliced hbefore.consistent.ascending) sp)
    (hpeer : e ∈ x.peer.storedEvents x.peerDir)
    (hopen : Held P (run P (stepsAfter start rounds)) e ∨
      RefusedIn P (rounds.flatMap Exchange.steps) e ∨
      Over (openSpans request.ranges) (reconcileKey P.sha256 e)) :
    Held P (run P (stepsAfter start (rounds ++ [x]))) e ∨
      RefusedIn P ((rounds ++ [x]).flatMap Exchange.steps) e ∨
      Over ((openSpans reply.ranges).flatMap (retry hash
        ((run P (stepsAfter start (rounds ++ [x]))).log.sliced hafter.consistent.ascending)))
        (reconcileKey P.sha256 e) := by
  obtain ⟨-, hstretch⟩ := stepsAfter_flatMap hrun
  have hall : (rounds ++ [x]).flatMap Exchange.steps = rounds.flatMap Exchange.steps ++ x.steps := by
    rw [List.flatMap_append, List.flatMap_singleton]
  rw [hall]
  rcases hopen with hheld | hrefused | hover
  · refine Or.inl ?_
    rw [stepsAfter_snoc]
    exact hstretch.held hheld
  · exact Or.inr (Or.inl (hrefused.mono fun s hs => List.mem_append_left _ hs))
  · rcases hx.settles hstretch hbefore hafter hown hpeer hover with hheld | hrefused | hover
    · exact Or.inl hheld
    · exact Or.inr (Or.inl (hrefused.mono fun s hs => List.mem_append_right _ hs))
    · exact Or.inr (Or.inr hover)

/-- After every round the open ranges carry the puller's digests, and one of them reaches
over an event that the peer held throughout, unless it is held or was refused. -/
theorem Pull.settles (h : Pull P hash start rounds request)
    (hrun : Running P start (rounds.flatMap Exchange.steps))
    (hkey : minKey ≤ reconcileKey P.sha256 e ∧ reconcileKey P.sha256 e < maxKey)
    (hpeer : ∀ y ∈ rounds, e ∈ y.peer.storedEvents y.peerDir)
    (hsound : Sound P (run P (stepsAfter start rounds))) :
    (∀ sp ∈ openSpans request.ranges,
      Own hash ((run P (stepsAfter start rounds)).log.sliced hsound.consistent.ascending) sp) ∧
    (Held P (run P (stepsAfter start rounds)) e ∨ RefusedIn P (rounds.flatMap Exchange.steps) e ∨
      Over (openSpans request.ranges) (reconcileKey P.sha256 e)) := by
  induction h with
  | initial =>
    have hopen : openSpans (rbsrBuildInitial hash (run P start)).ranges =
        [⟨minKey, maxKey, .fingerprint (digest hash (run P start).log minKey maxKey)⟩] := by
      simp [rbsrBuildInitial, initialRequest, openSpans, spans]
    rw [hopen]
    refine ⟨fun sp hsp => ?_, Or.inr (Or.inr ⟨_, List.mem_singleton_self _, hkey⟩)⟩
    rw [List.mem_singleton.mp hsp, Own]
    dsimp only
    rw [← hsound.consistent.alike.digest]
    simp [stepsAfter]
  | @next rounds x request reply next _ hx hnext ih =>
    obtain ⟨hrounds, -⟩ := stepsAfter_flatMap hrun
    obtain ⟨hown, hopen⟩ := ih hrounds (fun y hy => hpeer y (List.mem_append_left _ hy))
      (run_sound hrounds.sound)
    rw [rbsrNext, hsound.consistent.alike.processReply] at hnext
    obtain ⟨hranges, hnextOwn⟩ := next_own hnext
    refine ⟨hnextOwn, ?_⟩
    rw [hranges]
    exact hx.carries hrun (run_sound hrounds.sound) hsound hown (hpeer x (by simp)) hopen

/-- A pull that has converged: the puller holds every event the peer held throughout, or
has refused it, whatever else it did meanwhile. -/
theorem pull_heals (hrun : Running P start ((rounds ++ [x]).flatMap Exchange.steps))
    (h : Converged P hash start rounds x)
    (hkey : minKey ≤ reconcileKey P.sha256 e ∧ reconcileKey P.sha256 e < maxKey)
    (hpeer : ∀ y ∈ rounds ++ [x], e ∈ y.peer.storedEvents y.peerDir) :
    reconcileKey P.sha256 e ∈
        (run P (stepsAfter start (rounds ++ [x]))).stored.map (reconcileKey P.sha256) ∨
      RefusedIn P ((rounds ++ [x]).flatMap Exchange.steps) e := by
  obtain ⟨request, reply, hpull, hx, hnone⟩ := h
  obtain ⟨hrounds, -⟩ := stepsAfter_flatMap hrun
  have hafter : Sound P (run P (stepsAfter start (rounds ++ [x]))) := run_sound hrun.sound
  obtain ⟨hown, hopen⟩ := hpull.settles hrounds hkey
    (fun y hy => hpeer y (List.mem_append_left _ hy)) (run_sound hrounds.sound)
  rw [rbsrNext, hafter.consistent.alike.processReply] at hnone
  rcases hx.carries hrun (run_sound hrounds.sound) hafter hown (hpeer x (by simp)) hopen with
    hheld | hrefused | hover
  · exact Or.inl hheld
  · exact Or.inr hrefused
  · rw [converged_open hnone] at hover
    obtain ⟨sp, hsp, -⟩ := hover
    exact absurd hsp List.not_mem_nil

/-! ### The number of rounds -/

/-- The index of a log in order is that of the events it holds. -/
theorem sliced_of_perm {log : ChannelLog} {dir : ChannelDir} {events : List SignedChannelEvent}
    (h : ChannelLog.Consistent P.sha256 P.communityId P.channelId log dir)
    (hperm : (log.storedEvents dir).Perm events) :
    log.sliced h.ascending =
      SliceSource.fromUnsorted (events.map (ChannelLog.entryOf P.sha256)) := by
  obtain ⟨order, horder, hviews⟩ := h.views
  have hentries : log.reconcileEntries =
      sortDedup Prod.fst (events.map (ChannelLog.entryOf P.sha256)) :=
    ChannelLog.sortDedup_entries h.ascending fun x => by
      rw [hviews.mem_entries, ((horder.trans hperm).map _).mem_iff]
  unfold ChannelLog.sliced SliceSource.fromUnsorted
  simp only [hentries]

theorem Pull.bounded (h : Pull P hash start rounds request)
    (hrun : SoundRun P (stepsAfter start rounds)) {events : List SignedChannelEvent}
    (hstill : ∀ y ∈ rounds, (y.peer.storedEvents y.peerDir).Perm events) {n : ℕ}
    (hlen : events.length ≤ leafThreshold * 2 ^ n) :
    rounds.length ≤ n ∧ ∀ sp ∈ openSpans request.ranges, RangeReconcileSource.rangeCount
      (SliceSource.fromUnsorted (events.map (ChannelLog.entryOf P.sha256))) sp.lo sp.hi ≤
        leafThreshold * 2 ^ (n - rounds.length) := by
  induction h with
  | initial =>
    refine ⟨Nat.zero_le n, fun sp _ => le_trans ?_ hlen⟩
    rw [rangeCount_eq]
    refine (within_sublist _ _ _).length_le.trans ((sortDedup_sublist _).length_le.trans ?_)
    rw [List.Perm.length_eq (sortBy_perm _), List.length_map]
  | @next rounds x request reply next _ hx hnext ih =>
    rw [stepsAfter_snoc] at hrun
    have hafter : Sound P (run P (stepsAfter start (rounds ++ [x]))) := by
      rw [stepsAfter_snoc]
      exact run_sound hrun
    obtain ⟨hrounds, hcount⟩ := ih hrun.left fun y hy => hstill y (List.mem_append_left _ hy)
    rw [rbsrNext, hafter.consistent.alike.processReply, ← hx.reply_eq,
      sliced_of_perm hx.peer (hstill x (by simp))] at hnext
    obtain ⟨hpos, hhalf⟩ := next_count hcount hnext
    rw [List.length_append, List.length_singleton]
    refine ⟨by omega, fun sp hsp => ?_⟩
    rw [← Nat.sub_sub]
    exact hhalf sp hsp

/-- A pull from a peer whose events stay the same comes to its end within the rounds that
the driver allows, whatever the puller does meanwhile. -/
theorem pull_within_cap (h : Pull P hash start rounds request)
    (hrun : SoundRun P (stepsAfter start rounds)) {events : List SignedChannelEvent}
    (hstill : ∀ y ∈ rounds, (y.peer.storedEvents y.peerDir).Perm events) :
    (∀ n, events.length ≤ leafThreshold * 2 ^ n → rounds.length ≤ n) ∧
      (events.length ≤ 2 ^ 35 → rounds.length < maxRbsrRounds) := by
  refine ⟨fun n hlen => (h.bounded hrun hstill hlen).1, fun hlen => ?_⟩
  have hbound := (h.bounded hrun hstill (n := 31) (hlen.trans (by decide))).1
  rw [maxRbsrRounds]
  omega

end Heal

/-! ### A pull -/

instance (engine : ChannelLogEngine) (e : SignedChannelEvent) : Decidable (Healing engine e) :=
  inferInstanceAs (Decidable (∃ _ ∈ _, _))

instance (hash : List Byte → ByteArr 32) (a b : ChannelLog) (sp : Span) :
    Decidable (Telling hash a b sp) :=
  inferInstanceAs (Decidable (_ → _))

/-- SHA-256 on what is hashed for the posts below. -/
def pullSha256 (input : List Byte) : ByteArr 32 :=
  if input = List.replicate 32 2 ++ [1] then
    ⟨[90, 206, 136, 26, 151, 205, 25, 167, 19, 97, 170, 5, 125, 44, 211, 187, 212, 166, 147, 48,
      183, 68, 224, 81, 148, 209, 141, 152, 136, 255, 62, 119], rfl⟩
  else if input = List.replicate 32 6 ++ [2] then
    ⟨[157, 141, 127, 52, 83, 123, 229, 169, 16, 131, 179, 157, 123, 219, 64, 26, 159, 170, 129,
      143, 88, 83, 122, 201, 43, 221, 237, 54, 230, 11, 189, 5], rfl⟩
  else if input = List.replicate 32 7 ++ [3] then
    ⟨[58, 16, 34, 37, 103, 117, 55, 69, 138, 82, 46, 117, 18, 175, 149, 201, 15, 56, 80, 57, 108,
      126, 102, 199, 224, 162, 176, 97, 195, 218, 188, 21], rfl⟩
  else if input = List.replicate 32 36 ++ [8] then
    ⟨[33, 197, 44, 3, 200, 87, 65, 83, 7, 137, 79, 221, 252, 15, 123, 131, 130, 96, 153, 192, 158,
      94, 226, 205, 154, 26, 25, 184, 100, 42, 108, 227], rfl⟩
  else if input = List.replicate 32 117 ++ [9] then
    ⟨[20, 73, 128, 30, 241, 236, 139, 166, 67, 84, 12, 115, 74, 223, 155, 189, 103, 112, 211, 23,
      31, 175, 254, 154, 84, 79, 189, 107, 123, 79, 170, 166], rfl⟩
  else if input = List.replicate 32 153 ++ [17] then
    ⟨[182, 144, 178, 175, 133, 66, 0, 63, 127, 50, 75, 211, 107, 211, 49, 176, 108, 240, 35, 52,
      104, 123, 109, 56, 244, 31, 54, 90, 142, 142, 7, 56], rfl⟩
  else sampleSha256 input

def samplePeer : ChannelLogEngine :=
  run (sampleParams 2) [.publish { body := "hello" } 4 ⟨15, 0, "desk"⟩, .advance 0 sampleView,
    .advance 0 sampleView, .publish { body := "hello" } 2 ⟨20, 0, "desk"⟩, .advance 0 sampleView,
    .advance 0 sampleView]

def sampleStart : List ChannelStep :=
  [.receive (postFrom 2 2 20) .live, .advance 0 sampleView, .advance 0 sampleView,
    .advance 0 sampleView, .receive (postFrom 2 4 15) .live]

def sampleRound : Exchange where
  peer := samplePeer.log
  peerDir := samplePeer.dir
  frames := [.packet (postFrom 2 4 15), .message (respond pullSha256
    (rbsrBuildInitial pullSha256 (run (sampleParams 1) sampleStart)) samplePeer.log),
    .packet (postFrom 2 2 20)]
  steps := [.receive (postFrom 2 4 15) .reconcile, .publish { body := "hello" } 1 ⟨30, 0, "desk"⟩,
    .receive (postFrom 2 2 20) .reconcile, .advance 0 sampleView, .advance 0 sampleView,
    .advance 0 sampleView, .advance 0 sampleView, .advance 0 sampleView, .advance 0 sampleView,
    .advance 0 sampleView]

def sampleRequest : RbsrMessage := rbsrBuildInitial pullSha256 (run (sampleParams 1) sampleStart)

def sampleReply : RbsrMessage := respond pullSha256 sampleRequest samplePeer.log

theorem sampleRound_answered : Answered (sampleParams 1) pullSha256 sampleStart [] sampleRound
    sampleRequest sampleReply where
  peer := (run_sound (P := sampleParams 2) (by decide +kernel)).consistent
  replied := by
    have hcame : ∀ e ∈ [postFrom 2 4 15, postFrom 2 2 20],
        ChannelStep.receive e .reconcile ∈ sampleRound.steps := by simp [sampleRound]
    have hended : ∀ e ∈ [postFrom 2 4 15, postFrom 2 2 20],
        ¬Healing (run (sampleParams 1) (stepsAfter sampleStart ([] ++ [sampleRound]))) e := by
      decide +kernel
    exact ⟨[postFrom 2 4 15, postFrom 2 2 20], [postFrom 2 4 15, postFrom 2 2 20], by decide +kernel,
      by decide +kernel, fun _ he => he, fun e he => ⟨hcame e he, hended e he⟩⟩
  asked := by decide +kernel
  told := by decide +kernel

theorem pull_heals_sample :
    reconcileKey (sampleParams 1).sha256 (postFrom 2 4 15) ∈
        (run (sampleParams 1) (stepsAfter sampleStart ([] ++ [sampleRound]))).stored.map
          (reconcileKey (sampleParams 1).sha256) ∨
      RefusedIn (sampleParams 1) (([] ++ [sampleRound]).flatMap Exchange.steps)
        (postFrom 2 4 15) := by
  have hconverged : Converged (sampleParams 1) pullSha256 sampleStart [] sampleRound :=
    ⟨_, _, .initial, sampleRound_answered, by decide +kernel⟩
  have hrunning : Running (sampleParams 1) sampleStart
      (([] ++ [sampleRound]).flatMap Exchange.steps) :=
    ⟨by decide +kernel, by decide +kernel, by decide +kernel⟩
  exact pull_heals hrunning hconverged (by decide +kernel) (by decide +kernel)

@[irreducible] def sampleWriter : ChannelLogEngine :=
  run (sampleParams 2) ((List.range 17).flatMap fun i =>
    [.publish { body := "hello" } (i + 1) ⟨Fin.ofNat _ (i + 10), 0, "desk"⟩, .advance 0 sampleView,
      .advance 0 sampleView])

def halvingRequest : RbsrMessage := rbsrBuildInitial pullSha256 (run (sampleParams 1) [])

def sampleHalving : Exchange where
  peer := sampleWriter.log
  peerDir := sampleWriter.dir
  frames := [.message (respond pullSha256 halvingRequest sampleWriter.log)]
  steps := []

theorem sampleHalving_answered : Answered (sampleParams 1) pullSha256 [] [] sampleHalving
    halvingRequest (respond pullSha256 halvingRequest sampleWriter.log) where
  peer := by
    have hwriter : Sound (sampleParams 2) sampleWriter := by
      unfold sampleWriter
      exact run_sound (by decide +kernel)
    exact hwriter.consistent
  replied := ⟨[], [], by decide +kernel, by decide +kernel, by simp, by simp⟩
  asked := by decide +kernel
  told := by decide +kernel

theorem pull_within_cap_sample :
    (∀ n, sampleWriter.stored.length ≤ leafThreshold * 2 ^ n →
      ([] ++ [sampleHalving]).length ≤ n) ∧
      (sampleWriter.stored.length ≤ 2 ^ 35 →
        ([] ++ [sampleHalving]).length < maxRbsrRounds) := by
  have hnext : (rbsrNext pullSha256 (respond pullSha256 halvingRequest sampleWriter.log)
      (run (sampleParams 1) (stepsAfter [] ([] ++ [sampleHalving])))).isSome := by decide +kernel
  obtain ⟨next, hnext⟩ := Option.isSome_iff_exists.mp hnext
  exact pull_within_cap (.next .initial sampleHalving_answered hnext) (by decide +kernel)
    fun y hy => by rw [List.mem_singleton.mp hy]; exact .refl _

end ChannelLogEngine

end Harmony.Channel
