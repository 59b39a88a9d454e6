import LocalModelWorks.Events.Bus

/-!
# What a resumed subscriber receives

The stream of a subscriber that keeps up is a shuffle of the replayed rows and of the events
fanned out after its registration. It has each newer event once and in order as long as no
event is offered that the replay has, or ahead of events with smaller ids.
-/

namespace LocalModelWorks.Events

open Transition List Subscriber

variable {b : Bus} {s : Subscriber} {i : Nat} {e : Event}

def Subscriber.stream (s : Subscriber) : List Event := s.received ++ s.channel

def Stage.left : Stage → List Event
  | .replaying rest => rest
  | .registered | .returned | .cancelled => []

def KeepsUp (i : Nat) (b : Bus) : Step → Prop
  | .fanOut _ => ∀ s ∈ b.subs[i]?, s.channel.length < channelSize
  | .replay j => j = i → ∀ s ∈ b.subs[i]?, s.channel.length < channelSize
  | .append _ _ _ | .register _ | .query _ _ | .receive _ | .cancel _ => True

namespace Subscriber

theorem offer_eq (h : s.channel.length < channelSize) : s.offer e = { s with channel := s.channel ++ [e] } :=
  if_pos h

theorem replay_nil (h : s.stage = .replaying []) : s.replay = { s with stage := .returned } := by
  simp [replay, h]

theorem replay_cons {rest : List Event} (hStage : s.stage = .replaying (e :: rest))
    (h : s.channel.length < channelSize) :
    s.replay = { s with channel := s.channel ++ [e], stage := .replaying rest } := by
  simp [replay, hStage, offer_eq h]

theorem receive_stream (s : Subscriber) : s.receive.stream = s.stream := by
  unfold receive
  split
  · rfl
  · next e rest hChannel => simp [stream, hChannel]

theorem receive_eq (s : Subscriber) :
    ∃ channel received, s.receive = { s with channel := channel, received := received } := by
  unfold receive
  split
  · exact ⟨s.channel, s.received, rfl⟩
  · exact ⟨_, _, rfl⟩

theorem fan_cancelled (h : s.stage = .cancelled) : s.fan e = s := if_pos h

theorem fan_eq (hStage : s.stage ≠ .cancelled) (h : s.channel.length < channelSize) :
    s.fan e = { s with channel := s.channel ++ [e], live := s.live ++ [e] } := by
  rw [fan, if_neg hStage, offer_eq h]

end Subscriber

structure Shuffles {α : Type} (xs ys zs : List α) : Prop where
  perm : zs.Perm (xs ++ ys)
  left : xs.Sublist zs
  right : ys.Sublist zs

variable {α : Type} {pending events rest : List Event}

theorem Shuffles.nil : Shuffles ([] : List α) [] [] := ⟨.nil, .slnil, .slnil⟩

theorem Shuffles.push_left {xs ys zs : List α} (h : Shuffles xs ys zs) (a : α) :
    Shuffles (xs ++ [a]) ys (zs ++ [a]) where
  perm := by
    have hSwap : (xs ++ (ys ++ [a])).Perm (xs ++ ([a] ++ ys)) := perm_append_comm.append_left xs
    simpa using (h.perm.append_right [a]).trans (by simpa using hSwap)
  left := h.left.append (List.Sublist.refl [a])
  right := h.right.trans (sublist_append_left zs [a])

theorem Shuffles.push_right {xs ys zs : List α} (h : Shuffles xs ys zs) (a : α) :
    Shuffles xs (ys ++ [a]) (zs ++ [a]) where
  perm := by simpa using h.perm.append_right [a]
  left := h.left.trans (sublist_append_left zs [a])
  right := h.right.append (List.Sublist.refl [a])

structure Fed (events pending : List Event) (s : Subscriber) : Prop where
  sent : ∃ done, s.rows = done ++ s.stage.left ∧ Shuffles done s.live s.stream
  early : s.stage = .registered → s.rows = [] ∧ s.queried = none
  window : ∀ n, s.queried = some n → n ≤ events.length ∧ s.rows = listEventsSince (events.take n) s.since replayLimit
  covered : ∀ n, s.queried = some n → s.stage ≠ .cancelled → ∀ e ∈ events.drop n, e ∈ pending ∨ e ∈ s.live
  known : s.live ⊆ events

theorem Fed.new (events pending : List Event) (after : Int) : Fed events pending (new after) where
  sent := ⟨[], rfl, Shuffles.nil⟩
  early _ := ⟨rfl, rfl⟩
  window _ h := nomatch h
  covered _ h := nomatch h
  known := nil_subset _

section

variable (h : Fed events pending s)
include h

theorem Fed.append : Fed (events ++ [e]) (pending ++ [e]) s where
  sent := h.sent
  early := h.early
  window n hn := by
    obtain ⟨hLe, hRows⟩ := h.window n hn
    rw [take_append_of_le_length hLe, length_append]
    exact ⟨Nat.le_add_right_of_le hLe, hRows⟩
  covered n hn hStage d hd := by
    rw [drop_append_of_le_length (h.window n hn).1, mem_append] at hd
    rcases hd with hd | hd
    · exact (h.covered n hn hStage d hd).imp_left (mem_append_left _)
    · exact .inl (mem_append_right _ hd)
  known d hd := mem_append_left _ (h.known hd)

theorem Fed.fan (hChannel : s.channel.length < channelSize) (hStored : pending ⊆ events) (hPending : e ∈ pending) :
    Fed events (pending.erase e) (s.fan e) := by
  by_cases hStage : s.stage = .cancelled
  · rw [fan_cancelled hStage]
    exact ⟨h.sent, h.early, h.window, fun n _ hNot => absurd hStage hNot, h.known⟩
  rw [fan_eq hStage hChannel]
  constructor
  · obtain ⟨done, hRows, hShuffle⟩ := h.sent
    refine ⟨done, hRows, ?_⟩
    simpa [stream] using hShuffle.push_right e
  · exact h.early
  · exact h.window
  · intro n hn hNot d hd
    rcases h.covered n hn hNot d hd with hPend | hLive
    · by_cases hEq : d = e
      · exact .inr (mem_append_right _ (mem_singleton.mpr hEq))
      · exact .inl ((mem_erase_of_ne hEq).mpr hPend)
    · exact .inr (mem_append_left _ hLive)
  · exact append_subset.mpr ⟨h.known, fun d hd => mem_singleton.mp hd ▸ hStored hPending⟩

theorem Fed.query (hStage : s.stage = .registered) (ok : Bool) : Fed events pending (s.query events ok) := by
  obtain ⟨done, hRows, hShuffle⟩ := h.sent
  obtain ⟨hEmpty, hNone⟩ := h.early hStage
  obtain rfl : done = [] := (append_eq_nil_iff.mp (hRows.symm.trans hEmpty)).1
  cases ok with
  | false =>
    exact ⟨⟨[], hEmpty, hShuffle⟩, nofun, fun n hn => absurd (hNone.symm.trans hn) (Option.some_ne_none n).symm,
      fun n hn => absurd (hNone.symm.trans hn) (Option.some_ne_none n).symm, h.known⟩
  | true =>
    refine ⟨⟨[], rfl, hShuffle⟩, nofun, ?_, ?_, h.known⟩
    · rintro n ⟨⟩
      exact ⟨Nat.le_refl _, by rw [take_length]; rfl⟩
    rintro n ⟨⟩ _ d hd
    rw [drop_length] at hd
    cases hd

theorem Fed.replay (hChannel : s.channel.length < channelSize) (hStage : s.stage = .replaying rest) :
    Fed events pending s.replay := by
  obtain ⟨done, hRows, hShuffle⟩ := h.sent
  rw [hStage] at hRows
  have hNot : s.stage ≠ .cancelled := by simp [hStage]
  cases rest with
  | nil =>
    rw [replay_nil hStage]
    exact ⟨⟨done, hRows, hShuffle⟩, nofun, h.window, fun n hn _ => h.covered n hn hNot, h.known⟩
  | cons e rest =>
    rw [replay_cons hStage hChannel]
    refine ⟨⟨done ++ [e], by simpa [Stage.left] using hRows, ?_⟩, nofun, h.window, fun n hn _ => h.covered n hn hNot, h.known⟩
    simpa [stream] using hShuffle.push_left e

theorem Fed.receive : Fed events pending s.receive := by
  have hStream := s.receive_stream
  obtain ⟨channel, received, hReceive⟩ := s.receive_eq
  obtain ⟨done, hRows, hShuffle⟩ := h.sent
  rw [← hStream] at hShuffle
  rw [hReceive] at hShuffle ⊢
  exact { h with sent := ⟨done, hRows, hShuffle⟩ }

theorem Fed.cancel (hStage : s.stage = .returned) : Fed events pending s.cancel := by
  obtain ⟨done, hRows, hShuffle⟩ := h.sent
  rw [hStage] at hRows
  exact ⟨⟨done, hRows, hShuffle⟩, nofun, h.window, fun n _ hNot => absurd rfl hNot, h.known⟩

end

theorem preserved_fed (i : Nat) : Preserved (KeepsUp i) i Fed where
  new _ _ _ := Fed.new _ _ _
  append _ _ _ _ h := h.append
  fan hTable hGuard hSub hPend h := h.fan (hGuard _ hSub) hTable.stored hPend
  query _ _ _ hStage h := h.query hStage _
  replay _ hGuard hSub hStage h := h.replay (hGuard rfl _ hSub) hStage
  receive _ _ _ h := h.receive
  cancel _ _ hStage h := h.cancel hStage

def Bus.newer (b : Bus) (s : Subscriber) (n : Nat) : List Event := (b.events.take n).filter fun e => s.after < e.id

theorem listEventsSince_take (hTable : Tabled b) (s : Subscriber) (n : Nat) :
    listEventsSince (b.events.take n) s.since replayLimit = (b.newer s n).take replayLimit := by
  rw [listEventsSince]
  congr 1
  refine filter_congr fun e he => ?_
  have hPos := hTable.positive e (mem_of_mem_take he)
  rw [since, decide_eq_decide]
  omega

theorem Fed.rows_eq (h : Fed b.events b.pending s) (hTable : Tabled b) {n : Nat} (hQueried : s.queried = some n) :
    s.rows = (b.newer s n).take replayLimit := (h.window n hQueried).2.trans (listEventsSince_take hTable s n)

/-- A newer event that the replay does not have comes after all that it has. -/
theorem Fed.rows_lt (h : Fed b.events b.pending s) (hTable : Tabled b) {n : Nat} (hQueried : s.queried = some n)
    (he : e ∈ b.events) (hAfter : s.after < e.id) (hNot : e ∉ s.rows) : ∀ d ∈ s.rows, d.id < e.id := by
  have hPre : s.rows <+: b.events.filter fun e => s.after < e.id := by
    rw [h.rows_eq hTable hQueried]
    exact ( take_prefix _ _).trans (( take_prefix n b.events).filter _)
  obtain ⟨later, hSplit⟩ := hPre
  have hNewer : e ∈ s.rows ++ later := hSplit ▸ mem_filter.mpr ⟨he, decide_eq_true hAfter⟩
  have hOrder : (s.rows ++ later).Pairwise fun d e => d.id < e.id := hSplit ▸ hTable.ordered.sublist filter_sublist
  exact fun d hd => (pairwise_append.mp hOrder).2.2 d hd e ((mem_append.mp hNewer).resolve_left hNot)

theorem Fed.mem_stream (h : Fed events pending s) {d : Event} (hd : d ∈ s.stream) : d ∈ s.rows ∨ d ∈ s.live := by
  obtain ⟨done, hRows, hShuffle⟩ := h.sent
  rw [hRows]
  exact (mem_append.mp (hShuffle.perm.mem_iff.mp hd)).imp_left (mem_append_left _)

/-- The steps without a slip: the replay query answers, and a newer event is offered once the replay is sent, which
did not have it, and before every event with a greater id. -/
def Seamless (i : Nat) (b : Bus) : Step → Prop
  | .fanOut e => ∀ s ∈ b.subs[i]?, s.after < e.id →
      s.stage ≠ .registered ∧ s.stage.left = [] ∧ e ∉ s.rows ∧ ∀ d ∈ s.live, d.id < e.id
  | .query j ok => j = i → ok = true
  | .append _ _ _ | .register _ | .replay _ | .receive _ | .cancel _ => True

structure Seam (s : Subscriber) : Prop where
  early : s.stage = .registered → ∀ d ∈ s.stream, (d.id : Int) ≤ s.after
  asked : s.stage ≠ .registered → s.queried ≠ none
  ordered : ((s.stream ++ s.stage.left).filter fun e => s.after < e.id).Pairwise fun d e => d.id < e.id

theorem Seam.fan (h : Seam s) (hFed : Fed b.events b.pending s) (hTable : Tabled b)
    (hChannel : s.channel.length < channelSize) (hPend : e ∈ b.pending)
    (hGuard : s.after < e.id →
      s.stage ≠ .registered ∧ s.stage.left = [] ∧ e ∉ s.rows ∧ ∀ d ∈ s.live, d.id < e.id) : Seam (s.fan e) := by
  by_cases hStage : s.stage = .cancelled
  · rw [fan_cancelled hStage]
    exact h
  rw [fan_eq hStage hChannel]
  by_cases hAfter : s.after < e.id
  · obtain ⟨hAsked, hLeft, hNot, hLive⟩ := hGuard hAfter
    obtain ⟨n, hQueried⟩ := Option.ne_none_iff_exists'.mp (h.asked hAsked)
    refine ⟨fun hEarly => absurd hEarly hAsked, h.asked, ?_⟩
    have hOrder := h.ordered
    simp only [stream, hLeft, append_nil, ← append_assoc] at hOrder ⊢
    rw [filter_append]
    refine pairwise_append.mpr ⟨hOrder, (pairwise_singleton _ e).sublist filter_sublist, fun d hd d' hd' => ?_⟩
    rw [mem_singleton.mp (mem_of_mem_filter hd')]
    rcases hFed.mem_stream (mem_of_mem_filter hd) with hRow | hSent
    · exact hFed.rows_lt hTable hQueried (hTable.stored hPend) hAfter hNot d hRow
    · exact hLive d hSent
  · refine ⟨fun hEarly d hd => ?_, h.asked, ?_⟩
    · rw [stream, ← append_assoc] at hd
      rcases mem_append.mp hd with hOld | hNew
      · exact h.early hEarly d hOld
      · rw [mem_singleton.mp hNew]
        exact not_lt.mp hAfter
    · have hOrder := h.ordered
      simp only [stream, filter_append, filter_singleton, hAfter] at hOrder ⊢
      simpa using hOrder

theorem Seam.query (h : Seam s) (hTable : Tabled b) (hStage : s.stage = .registered) : Seam (s.query b.events true) := by
  refine ⟨nofun, fun _ => nofun, ?_⟩
  have hOld : s.stream.filter (fun e => s.after < e.id) = [] :=
    filter_eq_nil_iff.mpr fun d hd => by simpa using h.early hStage d hd
  have hRows : (listEventsSince b.events s.since replayLimit).Pairwise fun d e => d.id < e.id :=
    hTable.ordered.sublist ((take_sublist _ _).trans filter_sublist)
  change ((s.stream ++ listEventsSince b.events s.since replayLimit).filter fun e => s.after < e.id).Pairwise _
  rw [filter_append, hOld, nil_append]
  exact hRows.sublist filter_sublist

theorem Seam.replay (h : Seam s) (hChannel : s.channel.length < channelSize) (hStage : s.stage = .replaying rest) :
    Seam s.replay := by
  have hAsked := h.asked (by simp [hStage])
  have hOrder := h.ordered
  rw [hStage] at hOrder
  cases rest with
  | nil =>
    rw [replay_nil hStage]
    exact ⟨nofun, fun _ => hAsked, hOrder⟩
  | cons e rest =>
    rw [replay_cons hStage hChannel]
    refine ⟨nofun, fun _ => hAsked, ?_⟩
    simpa [stream, Stage.left] using hOrder

theorem Seam.receive (h : Seam s) : Seam s.receive := by
  have hStream := s.receive_stream
  obtain ⟨channel, received, hReceive⟩ := s.receive_eq
  rw [hReceive] at hStream ⊢
  exact ⟨fun hEarly d hd => h.early hEarly d (hStream ▸ hd), h.asked, hStream ▸ h.ordered⟩

theorem preserved_seam (i : Nat) : Preserved (fun b st => KeepsUp i b st ∧ Seamless i b st) i
    fun events pending s => Fed events pending s ∧ Seam s where
  new hTable hGuard hLen :=
    ⟨(preserved_fed i).new hTable hGuard.1 hLen, fun _ d hd => absurd hd not_mem_nil, fun h => absurd rfl h, .nil⟩
  append hTable hGuard hSub hID h := ⟨(preserved_fed i).append hTable hGuard.1 hSub hID h.1, h.2⟩
  fan hTable hGuard hSub hPend h :=
    ⟨(preserved_fed i).fan hTable hGuard.1 hSub hPend h.1,
      h.2.fan h.1 hTable (hGuard.1 _ hSub) hPend (hGuard.2 _ hSub)⟩
  query hTable hGuard hSub hStage h := by
    obtain rfl := hGuard.2 rfl
    exact ⟨h.1.query hStage true, h.2.query hTable hStage⟩
  replay hTable hGuard hSub hStage h :=
    ⟨(preserved_fed i).replay hTable hGuard.1 hSub hStage h.1, h.2.replay (hGuard.1 rfl _ hSub) hStage⟩
  receive _ _ _ h := ⟨h.1.receive, h.2.receive⟩
  cancel _ _ hStage h := by
    have hOrder := h.2.ordered
    rw [hStage] at hOrder
    exact ⟨h.1.cancel hStage, nofun, fun _ => h.2.asked (by simp [hStage]), hOrder⟩

def Bus.published (b : Bus) : List Event := b.events.filter fun e => e ∉ b.pending

/-- What a subscriber has been sent when so many events were stored at its replay query: newer events in the order of
their ids, and all that are published but those beyond the replay. -/
structure Resumed (b : Bus) (s : Subscriber) (n : Nat) : Prop where
  ordered : (s.stream.filter fun e => s.after < e.id).Pairwise fun d e => d.id < e.id
  stored : ∀ e ∈ s.stream, e ∈ b.events
  covered : ∀ e ∈ b.published, s.after < e.id → e ∈ s.stream ∨ e ∈ (b.newer s n).drop replayLimit

theorem Fed.covers (h : Fed b.events b.pending s) (hTable : Tabled b) {n : Nat} (hStage : s.stage = .returned)
    (hQueried : s.queried = some n) (he : e ∈ b.published) (hAfter : s.after < e.id) :
    e ∈ s.stream ∨ e ∈ (b.newer s n).drop replayLimit := by
  obtain ⟨done, hRows, hShuffle⟩ := h.sent
  rw [hStage, Stage.left, append_nil] at hRows
  obtain ⟨hEvent, hDone⟩ := mem_filter.mp he
  rw [← take_append_drop n b.events, mem_append] at hEvent
  rcases hEvent with hStored | hLater
  · have hNewer : e ∈ b.newer s n := mem_filter.mpr ⟨hStored, decide_eq_true hAfter⟩
    rw [← take_append_drop replayLimit (b.newer s n), ← h.rows_eq hTable hQueried, mem_append] at hNewer
    exact hNewer.imp_left fun hTake => hShuffle.left.subset (hRows ▸ hTake)
  · have hLive := (h.covered n hQueried (by simp [hStage]) e hLater).resolve_left (of_decide_eq_true hDone)
    exact .inl (hShuffle.right.subset hLive)

/-- In a run without such slips, a subscriber that keeps up is sent the published events newer than its last id once and
in order, but for those beyond the rows of the replay. -/
theorem resumed_stream {i : Nat} (hReach : system.Reachable (fun b st => KeepsUp i b st ∧ Seamless i b st) b)
    (hSub : b.subs[i]? = some s) (hStage : s.stage = .returned) : ∃ n, s.queried = some n ∧ Resumed b s n := by
  obtain ⟨hTable, hHolds⟩ := (preserved_seam i).holds hReach
  obtain ⟨hFed, hSeam⟩ := hHolds s hSub
  obtain ⟨n, hQueried⟩ := Option.ne_none_iff_exists'.mp (hSeam.asked (by simp [hStage]))
  have hOrder := hSeam.ordered
  rw [hStage, Stage.left, append_nil] at hOrder
  refine ⟨n, hQueried, hOrder, fun e he => ?_, fun e => hFed.covers hTable hStage hQueried⟩
  rcases hFed.mem_stream he with hRow | hLive
  · rw [hFed.rows_eq hTable hQueried] at hRow
    exact mem_of_mem_take (mem_of_mem_filter (mem_of_mem_take hRow))
  · exact hFed.known hLive

instance (i : Nat) (b : Bus) : ∀ st, Decidable (KeepsUp i b st)
  | .fanOut _ => inferInstanceAs (Decidable (∀ s ∈ b.subs[i]?, s.channel.length < channelSize))
  | .replay j => inferInstanceAs (Decidable (j = i → ∀ s ∈ b.subs[i]?, s.channel.length < channelSize))
  | .append _ _ _ | .register _ | .query _ _ | .receive _ | .cancel _ => inferInstanceAs (Decidable True)

instance (b : Bus) (st : Step) : Decidable (system.enabled b st) := inferInstanceAs (Decidable (b.enabled st = true))

theorem runs_replay_step (hSub : b.subs[i]? = some s) (hStage : s.stage = .replaying rest)
    (hChannel : s.channel.length < channelSize) : system.Runs (KeepsUp i) b (b.next (.replay i)) := by
  refine System.Runs.step (Step.replay i) .refl ?_ ?_
  · simp [system, Bus.enabled, hSub, hStage, Stage.isReplaying]
  intro _ s' hs'
  rw [Option.mem_def, hSub, Option.some.injEq] at hs'
  exact hs' ▸ hChannel

theorem runs_replay (hSub : b.subs[i]? = some s) (hStage : s.stage = .replaying rest)
    (hRoom : s.channel.length + rest.length < channelSize) :
    ∃ b', system.Runs (KeepsUp i) b b' ∧ b'.events = b.events ∧ b'.pending = b.pending ∧
      b'.subs[i]? = some { s with channel := s.channel ++ rest, stage := .returned } := by
  induction rest generalizing b s with
  | nil =>
    have hReplay : s.replay = { s with stage := .returned } := by simp [replay, hStage]
    refine ⟨b.next (.replay i), runs_replay_step hSub hStage hRoom, rfl, rfl, ?_⟩
    simp [Bus.next, hSub, hReplay]
  | cons e rest ih =>
    have hChannel : s.channel.length < channelSize := by omega
    have hReplay : s.replay = { s with channel := s.channel ++ [e], stage := .replaying rest } := by
      simp [replay, hStage, offer_eq hChannel]
    have hNext : (b.next (.replay i)).subs[i]? = some s.replay := by simp [Bus.next, hSub]
    have hFits : s.replay.channel.length + rest.length < channelSize := by
      rw [hReplay]
      simp only [length_append, length_cons, length_nil] at hRoom ⊢
      omega
    obtain ⟨b', hRun, hEvents, hPend, hSub'⟩ := ih hNext (by rw [hReplay]) hFits
    refine ⟨b', (runs_replay_step hSub hStage hChannel).trans hRun, hEvents, hPend, ?_⟩
    rw [hSub', hReplay]
    simp

def storedBus (n : Nat) : Bus := ⟨(List.range n).map fun k => ⟨k + 1, [], [], []⟩, n, [], []⟩

theorem storedBus_started (n : Nat) : (storedBus n).Started where
  ordered := pairwise_map.mpr (pairwise_lt_range.imp fun h => Nat.succ_lt_succ h)
  positive := by simp [storedBus]
  last := by
    simp only [storedBus, mem_map, mem_range]
    rintro e ⟨k, hk, rfl⟩
    exact hk
  pending := rfl
  subs := rfl

theorem listEventsSince_storedBus (n : Nat) : listEventsSince (storedBus n).events 0 replayLimit =
      (List.range (min replayLimit n)).map fun k => ⟨k + 1, [], [], []⟩ := by
  have hAll : (storedBus n).events.filter (fun e => (0 : Int) < e.id) = (storedBus n).events :=
    filter_eq_self.mpr fun e he => by
      have hPos := (storedBus_started n).positive e he
      simpa using hPos
  rw [listEventsSince, hAll, storedBus, ← map_take, take_range]

def resuming (n : Nat) : Bus := ((storedBus n).next (.register 0)).next (.query 0 true)

theorem mem_published_resuming (n : Nat) : (⟨n + 1, [], [], []⟩ : Event) ∈ (resuming (n + 1)).published := by
  have hPend : (resuming (n + 1)).pending = [] := rfl
  have hStored : (⟨n + 1, [], [], []⟩) ∈ (resuming (n + 1)).events :=
    mem_map.mpr ⟨n, mem_range.mpr (Nat.lt_succ_self n), rfl⟩
  rw [Bus.published, hPend]
  exact mem_filter.mpr ⟨hStored, by simp⟩

theorem resuming_sub (n : Nat) : (resuming n).subs[0]? = some ⟨0,
    .replaying ((List.range (min replayLimit n)).map fun k => ⟨k + 1, [], [], []⟩), [], [],
    (List.range (min replayLimit n)).map fun k => ⟨k + 1, [], [], []⟩, [], some (storedBus n).events.length⟩ := by
  rw [← listEventsSince_storedBus]
  rfl

theorem resuming_reachable (n : Nat) : system.Reachable (KeepsUp 0) (resuming n) := ⟨storedBus n, storedBus_started n,
    .step (S := system) (.query 0 true) (.step (S := system) (.register 0) .refl rfl trivial) rfl trivial⟩

def overlapping : List Step := [.append [] [] [], .register 0, .query 0 true, .replay 0, .replay 0, .fanOut ⟨1, [], [], []⟩]

theorem resume_loses_and_repeats :
    (∃ (b : Bus) (s : Subscriber) (e : Event), system.Reachable (KeepsUp 0) b ∧ b.subs[0]? = some s ∧
      s.stage = .returned ∧ e ∈ b.published ∧ s.after < e.id ∧ e ∉ s.stream) ∧
    ∃ (b : Bus) (s : Subscriber) (e : Event), system.Reachable (KeepsUp 0) b ∧ b.subs[0]? = some s ∧ s.stage = .returned ∧ e ∈ b.published ∧
      s.after < e.id ∧ s.stream = [e, e] := by
  constructor
  · obtain ⟨b, hRun, hEvents, hPend, hSub⟩ :=
      runs_replay (resuming_sub 501) rfl (by simp [channelSize])
    obtain ⟨b₀, hInit, hFirst⟩ := resuming_reachable 501
    refine ⟨b, _, ⟨501, [], [], []⟩, ⟨b₀, hInit, hFirst.trans hRun⟩, hSub, rfl, ?_, by decide, ?_⟩
    · rw [Bus.published, hEvents, hPend]
      exact mem_published_resuming 500
    · simp [stream, replayLimit]
  · refine ⟨system.exec (storedBus 0) overlapping, _, ⟨1, [], [], []⟩,
      .of_allowed (storedBus_started 0) (by decide +kernel), rfl, rfl, by decide +kernel, by decide, by decide +kernel⟩

instance (i : Nat) (b : Bus) : ∀ st, Decidable (Seamless i b st)
  | .fanOut e => inferInstanceAs (Decidable (∀ s ∈ b.subs[i]?, s.after < e.id →
      s.stage ≠ .registered ∧ s.stage.left = [] ∧ e ∉ s.rows ∧ ∀ d ∈ s.live, d.id < e.id))
  | .query j ok => inferInstanceAs (Decidable (j = i → ok = true))
  | .append _ _ _ | .register _ | .replay _ | .receive _ | .cancel _ => inferInstanceAs (Decidable True)

/-- An event is appended while the subscriber waits for its replay. -/
def resumed : List Step :=
  [.register 1, .query 0 true, .append [] [] [], .replay 0, .replay 0, .fanOut ⟨3, [], [], []⟩, .receive 0]

theorem resumed_stream_after_one : let b := system.exec (storedBus 2) resumed
    ∃ s, b.subs[0]? = some s ∧ s.stage = .returned ∧ s.stream = [⟨2, [], [], []⟩, ⟨3, [], [], []⟩] ∧ Resumed b s 2 := by
  refine ⟨_, rfl, rfl, rfl, ?_⟩
  have hRun : system.Allowed (fun b st => KeepsUp 0 b st ∧ Seamless 0 b st) (storedBus 2) resumed := by decide +kernel
  obtain ⟨n, hQueried, hResumed⟩ := resumed_stream (.of_allowed (storedBus_started 2) hRun) rfl rfl
  cases hQueried
  exact hResumed

end LocalModelWorks.Events
