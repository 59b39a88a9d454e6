import LocalModelWorks.Server.Isolation

/-!
# The recorded progress of a download item

`OnProgress` writes behind a comparison with the checkpoint that it read. A state transition
writes back the checkpoint of its own row, and its update does not compare it.
-/

namespace LocalModelWorks.Server.Messages

open Transition Option Controller
open Downloads (Item ItemID ItemState Token)

structure Copy where
  row : Item
  seen : Option DownloadProgress

inductive Hand
  | row (copy : Copy)
  | report (copy : Copy) (dp : DownloadProgress)

namespace Controller

def transition (c : Controller) (copy : Copy) (new : ItemState) (code : Option String) : Controller :=
  let moved := c.downloads.transition copy.row new code
  if moved.2 then
    { c with downloads := moved.1, checkpoints := Function.update c.checkpoints copy.row.id copy.seen }
  else c

def record (c : Controller) (copy : Copy) (dp : DownloadProgress) : Controller :=
  if c.checkpoints copy.row.id = copy.seen then c.recordCheckpoint copy.row dp else c

end Controller

structure Handlers where
  c : Controller
  hands : Nat → Option Hand

/-- `other` stands for the statements that bind or interrupt items and leave the checkpoints alone. -/
inductive HandlerEvent
  | read (thread : Nat) (id : ItemID)
  | report (thread : Nat) (node : NodeID) (dp : DownloadProgress)
  | record (thread : Nat)
  | transition (thread : Nat) (new : ItemState) (code : Option String)
  | other (w : Downloads.Shared)

namespace Handlers

def take (s : Handlers) (thread : Nat) (hand : Option Hand) : Handlers :=
  { s with hands := Function.update s.hands thread hand }

def next (s : Handlers) : HandlerEvent → Handlers
  | .read thread id => s.take thread ((s.c.downloads.getItem id).map fun row => .row ⟨row, s.c.checkpoints row.id⟩)
  | .report thread node dp => s.take thread ((s.c.itemByCommand dp.command node).bind fun row =>
      if s.c.accepts row dp then some (.report ⟨row, s.c.checkpoints row.id⟩ dp) else none)
  | .record thread => match s.hands thread with
    | some (.report copy dp) => { s with c := s.c.record copy dp }
    | _ => s
  | .transition thread new code => match s.hands thread with
    | some (.row copy) => { s with c := s.c.transition copy new code }
    | _ => s
  | .other w => { s with c := { s.c with downloads := w } }

end Handlers

def handlers : System Handlers HandlerEvent where
  init s := s.hands = fun _ => none
  enabled s
    | .other w => ∀ id item, w.getItem id = some item → item.state.terminal = false →
        ∃ old, s.c.downloads.getItem id = some old ∧ old.state.terminal = false
    | _ => True
  next := Handlers.next

def Behind (before after : Option DownloadProgress) : Prop :=
  ∀ p ∈ before, ∃ q ∈ after, p.bytesDone ≤ q.bytesDone ∧ p.filesDone ≤ q.filesDone

/-- No progress was recorded between the read of a row and its transition to a state that does not end it. -/
def Fresh (s : Handlers) : HandlerEvent → Prop
  | .transition thread new _ => ∀ copy, s.hands thread = some (.row copy) →
      new.terminal = true ∨ copy.seen = s.c.checkpoints copy.row.id
  | _ => True

variable {s t : Handlers} {c : Controller} {node : NodeID} {id : ItemID} {item row : Item}

theorem Behind.refl (p : Option DownloadProgress) : Behind p p := fun q hq => ⟨q, hq, Nat.le_refl _, Nat.le_refl _⟩

theorem Behind.trans {p q r : Option DownloadProgress} (hFirst : Behind p q) (hSecond : Behind q r) : Behind p r := by
  intro a ha
  obtain ⟨b, hb, hBytes, hFiles⟩ := hFirst a ha
  obtain ⟨d, hd, hBytes', hFiles'⟩ := hSecond b hb
  exact ⟨d, hd, hBytes.trans hBytes', hFiles.trans hFiles'⟩

def Hand.Checked : Hand → Prop
  | .row _ => True
  | .report copy dp => Behind copy.seen (some dp)

theorem behind_update {checkpoints : ItemID → Option DownloadProgress} {target : ItemID} {new : Option DownloadProgress}
    (h : id = target → Behind (checkpoints target) new) : Behind (checkpoints id) (Function.update checkpoints target new id) := by
  by_cases hID : id = target
  · subst hID
    rw [Function.update_self]
    exact h rfl
  · rw [Function.update_of_ne hID]
    exact .refl _

theorem behind_record {copy : Copy} {dp : DownloadProgress} (hChecked : Behind copy.seen (some dp)) :
    Behind (c.checkpoints id) ((c.record copy dp).checkpoints id) := by
  unfold record recordCheckpoint
  split
  next hSame =>
    split
    · exact .refl _
    split
    · exact behind_update fun _ => hSame ▸ hChecked
    · exact .refl _
  · exact .refl _

theorem downloads_record (copy : Copy) (dp : DownloadProgress) : (c.record copy dp).downloads = c.downloads := by
  unfold record recordCheckpoint
  split
  · split
    · rfl
    · split <;> rfl
  · rfl

theorem checked_next (hs : ∀ thread, ∀ hand ∈ s.hands thread, hand.Checked) (e : HandlerEvent) :
    ∀ thread, ∀ hand ∈ (s.next e).hands thread, hand.Checked := by
  have hTake thread {new : Option Hand} hNew :
      ∀ other, ∀ hand ∈ (s.take thread new).hands other, hand.Checked :=
    (Function.forall_update_iff s.hands fun _ entry => ∀ hand ∈ entry, hand.Checked).mpr ⟨hNew, fun other _ => hs other⟩
  cases e with
  | read thread id =>
    refine hTake thread fun hand hHand => ?_
    obtain ⟨row, _, rfl⟩ := map_eq_some_iff.mp hHand
    exact trivial
  | report thread node dp =>
    refine hTake thread fun hand hHand => ?_
    obtain ⟨row, _, hRow⟩ := bind_eq_some_iff.mp hHand
    split at hRow
    next hAccepts =>
      cases hRow
      intro p hp
      have hSeen : s.c.checkpoints row.id = some p := hp
      simp only [accepts, Bool.and_eq_true, hSeen, all_some, decide_eq_true_eq] at hAccepts
      exact ⟨dp, rfl, hAccepts.1.1.1.1.2⟩
    · cases hRow
  | record | transition =>
    dsimp only [Handlers.next]
    split <;> exact hs
  | other w => exact hs

theorem behind_next {e : HandlerEvent} (hs : ∀ thread, ∀ hand ∈ s.hands thread, hand.Checked)
    (hOn : handlers.enabled s e) (hFresh : Fresh s e) (hItem : (s.next e).c.downloads.getItem id = some item)
    (hActive : item.state.terminal = false) :
    (∃ old, s.c.downloads.getItem id = some old ∧ old.state.terminal = false) ∧
      Behind (s.c.checkpoints id) ((s.next e).c.checkpoints id) := by
  have hStill hItem :
      (∃ old, s.c.downloads.getItem id = some old ∧ old.state.terminal = false) ∧
        Behind (s.c.checkpoints id) (s.c.checkpoints id) := ⟨⟨item, hItem, hActive⟩, .refl _⟩
  cases e with
  | read | report => exact hStill hItem
  | record thread =>
    dsimp only [Handlers.next] at hItem ⊢
    split at hItem
    next copy dp hHand => exact ⟨⟨item, downloads_record copy dp ▸ hItem, hActive⟩, behind_record (hs thread _ hHand)⟩
    · exact hStill hItem
  | transition thread new code =>
    dsimp only [Handlers.next] at hItem ⊢
    split at hItem
    next copy hHand =>
      rcases s.c.downloads.transition_cases copy.row new code with hSame | ⟨old, moved, hOld, _, hOpen, hMoved, hGet⟩
      · simp only [transition, hSame] at hItem ⊢
        exact hStill hItem
      simp only [transition, hMoved, if_true, hGet id] at hItem ⊢
      split at hItem
      next hID =>
        cases hItem
        refine ⟨⟨old, hID ▸ hOld, hOpen⟩, behind_update fun _ => ?_⟩
        rcases hFresh copy hHand with hEnds | hSeen
        · rw [show new.terminal = false from hActive] at hEnds
          cases hEnds
        · exact hSeen ▸ .refl _
      next hID => exact ⟨⟨item, hItem, hActive⟩, behind_update fun h => absurd h hID⟩
    · exact hStill hItem
  | other w => exact ⟨hOn id item hItem hActive, .refl _⟩

theorem progress_never_goes_back (hReach : handlers.Reachable Fresh s) (hRun : handlers.Runs Fresh s t)
    (hItem : t.c.downloads.getItem id = some item) (hActive : item.state.terminal = false) :
    Behind (s.c.checkpoints id) (t.c.checkpoints id) := by
  have hStart : ∀ thread, ∀ hand ∈ s.hands thread, hand.Checked := by
    refine hReach.invariant (I := fun s => ∀ thread, ∀ hand ∈ s.hands thread, hand.Checked) ?_ fun s e hs _ _ => checked_next hs e
    intro s hs thread hand hHand
    rw [show s.hands = fun _ => none from hs] at hHand
    cases hHand
  induction hRun generalizing item with
  | refl => exact .refl _
  | @step mid e hRun hOn hFresh ih =>
    have hMid : ∀ thread, ∀ hand ∈ mid.hands thread, hand.Checked := by
      refine hRun.preserves (I := fun s => ∀ thread, ∀ hand ∈ s.hands thread, hand.Checked) ?_ hStart
      exact fun s e hs _ _ => checked_next hs e
    obtain ⟨⟨old, hOld, hOpen⟩, hBehind⟩ := behind_next hMid hOn hFresh hItem hActive
    exact (ih hOld hOpen).trans hBehind

def fetching : Item := ⟨0, 0, "a", "/m", .downloadOrigin, .transferring, some 0, none, none⟩

def fetcher : Handlers := ⟨{ fleet with downloads := ⟨[fetching], [], none, 1, [], [], []⟩ }, fun _ => none⟩

def bytesDone (n : Nat) : DownloadProgress := ⟨0, .download 0, "download", n, none, 0, none, ""⟩

def recordBytes (n : Nat) : List HandlerEvent := [.report 0 "a" (bytesDone n), .record 0]

def recordedTen : Handlers := handlers.exec fetcher (recordBytes 10)

def cancelTwenty : List HandlerEvent := recordBytes 20 ++ [.read 1 0, .transition 1 .cancelling none]

theorem progress_never_goes_back_recorded :
    recordedTen.c.checkpoints 0 = some (bytesDone 10) ∧
      (handlers.exec recordedTen cancelTwenty).c.checkpoints 0 = some (bytesDone 20) ∧
      Behind (recordedTen.c.checkpoints 0) ((handlers.exec recordedTen cancelTwenty).c.checkpoints 0) := by
  have hReach : handlers.Reachable Fresh recordedTen :=
    ⟨fetcher, rfl, .of_allowed ⟨⟨trivial, trivial⟩, ⟨trivial, trivial⟩, trivial⟩⟩
  have hFresh : Fresh (handlers.exec recordedTen (recordBytes 20 ++ [.read 1 0])) (.transition 1 .cancelling none) := by
    intro copy hHand
    cases hHand
    exact .inr (by decide +kernel)
  have hMay : handlers.Allowed Fresh recordedTen cancelTwenty :=
    ⟨⟨trivial, trivial⟩, ⟨trivial, trivial⟩, ⟨trivial, trivial⟩, ⟨trivial, hFresh⟩, trivial⟩
  have hItem : (handlers.exec recordedTen cancelTwenty).c.downloads.getItem 0 =
      some { fetching with state := .cancelling } := by decide +kernel
  exact ⟨by decide +kernel, by decide +kernel, progress_never_goes_back hReach (.of_allowed hMay) hItem rfl⟩

def staleRead : Handlers := handlers.exec fetcher (recordBytes 10 ++ [.read 1 0] ++ recordBytes 20)

theorem transition_takes_progress_back : ¬ ∀ s t id item, handlers.Reachable (fun _ _ => True) s →
    handlers.Runs (fun _ _ => True) s t → t.c.downloads.getItem id = some item → item.state.terminal = false →
    Behind (s.c.checkpoints id) (t.c.checkpoints id) := by
  intro h
  have hReach : handlers.Reachable (fun _ _ => True) staleRead := ⟨fetcher, rfl, .of_allowed (by repeat' constructor)⟩
  have hRun : handlers.Runs (fun _ _ => True) staleRead (staleRead.next (.transition 1 .cancelling none)) :=
    System.Runs.step (HandlerEvent.transition 1 .cancelling none) .refl trivial trivial
  obtain ⟨q, hq, hBytes, _⟩ := h _ _ 0 { fetching with state := .cancelling } hReach hRun (by decide +kernel) rfl
    (bytesDone 20) (by decide +kernel)
  have hTen : (staleRead.next (.transition 1 .cancelling none)).c.checkpoints 0 = some (bytesDone 10) := by
    decide +kernel
  cases hTen.symm.trans hq
  exact absurd hBytes (by decide)

def recorded (c : Controller) (id : ItemID) : Option (Nat × Nat) :=
  (c.checkpoints id).map fun p => (p.bytesDone, p.filesDone)

/-- An item at work: in the other states the update matches no row, whatever is reported. -/
structure Stored (c : Controller) (node : NodeID) (row : Item) : Prop where
  item : c.downloads.getItem row.id = some row
  working : row.state ∈ [.checking, .transferring, .verifying, .cancelling]
  command : ∀ token, row.commandID = some token → c.itemByCommand (.download token) node = some row

def peerReport (row : Item) (token : Token) (tp : TransferProgress) : DownloadProgress :=
  ⟨row.id, .download token, "peer-copy", tp.bytesDone, some tp.bytesTotal, 0, none, ""⟩

theorem recorded_onProgress {token : Token} {tp : TransferProgress} (hRow : Stored c node row)
    (hToken : row.commandID = some token)
    (hCounters : ∀ seen ∈ c.checkpoints row.id, seen.bytesDone ≤ tp.bytesDone ∧ seen.filesDone ≤ 0) :
    recorded (c.onProgress node (peerReport row token tp)) row.id =
      if tp.bytesDone ≤ tp.bytesTotal then some (tp.bytesDone, 0) else recorded c row.id := by
  have hSeen : (c.checkpoints row.id).all (fun seen => seen.bytesDone ≤ tp.bytesDone && seen.filesDone ≤ 0) = true := by
    cases hPoint : c.checkpoints row.id with
    | none => rfl
    | some seen =>
      obtain ⟨hBytes, hFiles⟩ := hCounters seen hPoint
      simp [hBytes, Nat.le_zero.mp hFiles]
  have hAccepts : c.accepts row (peerReport row token tp) = decide (tp.bytesDone ≤ tp.bytesTotal) := by
    dsimp only [accepts, peerReport]
    rw [hSeen, decide_eq_true rfl, all_none, Bool.and_true]
    exact Bool.true_and _
  rw [onProgress, show (peerReport row token tp).command = .download token from rfl, hRow.command token hToken]
  dsimp only
  rw [hAccepts]
  by_cases hTotal : tp.bytesDone ≤ tp.bytesTotal
  · rw [if_pos (decide_eq_true hTotal), if_pos hTotal]
    simp only [recordCheckpoint, hRow.item, hRow.working, and_self, if_true, recorded, Function.update_self]
    rfl
  · rw [if_neg (by simpa using hTotal), if_neg hTotal]

theorem peer_progress_as_origin_iff {origin : Controller} {fetched : Item} {token : Token} {tp : TransferProgress}
    (hPeer : c.itemByTransfer tp.transfer node = some row) (hRow : Stored c node row)
    (hFetched : Stored origin node fetched) (hToken : fetched.commandID = some token)
    (hSame : origin.checkpoints fetched.id = c.checkpoints row.id)
    (hCounters : ∀ seen ∈ c.checkpoints row.id, seen.bytesDone ≤ tp.bytesDone ∧ seen.filesDone ≤ 0) :
    recorded (c.applyTransferProgress node tp) row.id =
        recorded (origin.onProgress node (peerReport fetched token tp)) fetched.id ↔
      row.commandID ≠ none ∨ tp.bytesTotal < tp.bytesDone ∨ recorded c row.id = some (tp.bytesDone, 0) := by
  have hOrigin : recorded origin fetched.id = recorded c row.id := by rw [recorded, recorded, hSame]
  rw [recorded_onProgress hFetched hToken (hSame ▸ hCounters), hOrigin, applyTransferProgress, hPeer]
  dsimp only
  cases hCmd : row.commandID with
  | some own =>
    simp only [ne_eq, reduceCtorEq, not_false_eq_true, true_or, iff_true]
    exact recorded_onProgress hRow hCmd hCounters
  | none =>
    simp only [ne_eq, not_true_eq_false, false_or]
    by_cases hTotal : tp.bytesDone ≤ tp.bytesTotal
    · rw [if_pos hTotal, or_iff_right (Nat.not_lt.mpr hTotal)]
    · rw [if_neg hTotal]
      exact ⟨fun _ => .inl (Nat.lt_of_not_le hTotal), fun _ => rfl⟩

def copying : Item := ⟨0, 0, "a", "/m", .peerCopy, .transferring, none, some 0, none⟩

def copier (row : Item) : Controller := { fleet with downloads := ⟨[row], [], none, 1, [], [], []⟩ }

def commanded : Item := { copying with commandID := some 0 }

def tenOfTwenty : TransferProgress := ⟨.download 0, 10, 20⟩

theorem peer_progress_as_origin_commanded :
    recorded ((copier commanded).applyTransferProgress "a" tenOfTwenty) 0 = some (10, 0) ∧
      recorded ((copier commanded).applyTransferProgress "a" tenOfTwenty) 0 =
        recorded (fetcher.c.onProgress "a" (peerReport fetching 0 tenOfTwenty)) 0 := by
  have hPeer : (copier commanded).itemByTransfer tenOfTwenty.transfer "a" = some commanded := by decide +kernel
  have hRow : Stored (copier commanded) "a" commanded :=
    ⟨by decide +kernel, by decide, fun _ h => by cases h; decide +kernel⟩
  have hFetched : Stored fetcher.c "a" fetching := ⟨by decide +kernel, by decide, fun _ h => by cases h; decide +kernel⟩
  have hSame := peer_progress_as_origin_iff hPeer hRow hFetched rfl rfl fun _ h => by cases h
  exact ⟨by decide +kernel, hSame.mpr (.inl (by decide))⟩

theorem peer_progress_not_recorded : recorded ((copier copying).applyTransferProgress "a" tenOfTwenty) 0 = none ∧
      recorded (fetcher.c.onProgress "a" (peerReport fetching 0 tenOfTwenty)) 0 = some (10, 0) := by
  decide +kernel

end LocalModelWorks.Server.Messages
