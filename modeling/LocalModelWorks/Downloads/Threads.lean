import LocalModelWorks.Downloads.Acquire
import LocalModelWorks.Downloads.Statements

/-!
# What an acquisition knows at each of its points

Before its bind an acquisition knows its item unbound, before its send that the
bound id was not sent, and behind a reply that the id has ended. No step of another
thread takes that knowledge away.
-/

namespace LocalModelWorks.Downloads

variable {w w' : Shared} {actor : Option ItemID} {id : ItemID} {token : Token} {row item : Item}

section

variable (w : Shared) (id : ItemID)

def Mine (row : Item) : Prop := row.id = id ∧ Known w row

def Justified : QuiescenceProof → Prop
  | .neverDispatched => Unbound w id
  | .terminalAck => Ended w id

def IsPeer : Prop := ∃ item, w.getItem id = some item ∧ item.action = .peerCopy

def Carries : Option Token → Prop
  | some token => Unsent w id token
  | none => Unbound w id ∧ IsPeer w id

def Replied (token : Token) (reply : Option Bool) : Prop := reply = some true → token ∈ w.ended

end

namespace Acquisition

def Ok (w : Shared) (id : ItemID) : Acquisition → Prop
  | .idle | .rereadChecking => Unbound w id
  | .lock row | .busy row | .toChecking row | .inspect row => Mine w id row ∧ Unbound w id
  | .toFailed row _ proof | .toSucceeded row proof | .release row proof => row.id = id ∧ Justified w id proof
  | .bindCommand row => Mine w id row ∧ Unbound w id ∧ row.action ≠ .peerCopy
  | .rereadBound command | .rereadTransferring command => Carries w id command
  | .toTransferring _ command => Carries w id command
  | .fetch _ token => Unsent w id token
  | .copyPeer row | .bindTransfer row => Mine w id row ∧ Unbound w id ∧ row.action = .peerCopy
  | .dispatch _ token reply | .sending _ token reply => Unsent w id token ∧ Replied w token reply
  | .waiting _ token reply => Binds w id token ∧ Replied w token reply
  | .answered ok => ok = true → Ended w id
  | .toVerifying row | .verify row => row.id = id ∧ Ended w id
  | .rereadVerifying => Ended w id
  | .toCancelling _ | .done => True

end Acquisition

variable {proof : QuiescenceProof} {acquisition : Acquisition}

section

variable (h : Effect actor w w')
include h

theorem Effect.justified (hNe : actor ≠ some id) (hProof : Justified w id proof) : Justified w' id proof := by
  cases proof with
  | neverDispatched => exact h.unbound hNe hProof
  | terminalAck => exact h.ended hProof

theorem Effect.mine (hMine : Mine w id row) : Mine w' id row := ⟨hMine.1, h.known hMine.2⟩

theorem Effect.isPeer (hPeer : IsPeer w id) : IsPeer w' id := by
  obtain ⟨item, hItem, hAct⟩ := hPeer
  obtain ⟨item', hItem', hLe⟩ := h.le hItem
  exact ⟨item', hItem', hLe.action.trans hAct⟩

theorem Effect.carries (hs : Sound w) (hNe : actor ≠ some id) {command : Option Token}
    (hCarries : Carries w id command) : Carries w' id command := by
  cases command with
  | none => exact ⟨h.unbound hNe hCarries.1, h.isPeer hCarries.2⟩
  | some token => exact h.unsent hs hNe hCarries

theorem Effect.replied {reply : Option Bool} (hReplied : Replied w token reply) :
    Replied w' token reply := fun hReply => h.ended_subset (hReplied hReply)

end

theorem Acquisition.Ok.effect (hOk : acquisition.Ok w id) (hs : Sound w) (h : Effect actor w w')
    (hNe : actor ≠ some id) : acquisition.Ok w' id := by
  cases acquisition with
  | idle | rereadChecking => exact h.unbound hNe hOk
  | lock row | busy row | toChecking row | inspect row => exact ⟨h.mine hOk.1, h.unbound hNe hOk.2⟩
  | toFailed | toSucceeded | release => exact ⟨hOk.1, h.justified hNe hOk.2⟩
  | bindCommand row | copyPeer row | bindTransfer row => exact ⟨h.mine hOk.1, h.unbound hNe hOk.2.1, hOk.2.2⟩
  | rereadBound | rereadTransferring | toTransferring => exact h.carries hs hNe hOk
  | fetch row token => exact h.unsent hs hNe hOk
  | dispatch row token reply | sending row token reply => exact ⟨h.unsent hs hNe hOk.1, h.replied hOk.2⟩
  | waiting row token reply => exact ⟨h.binds hOk.1, h.replied hOk.2⟩
  | answered ok => exact fun hAns => h.ended (hOk hAns)
  | toVerifying row | verify row => exact ⟨hOk.1, h.ended hOk.2⟩
  | rereadVerifying => exact h.ended hOk
  | toCancelling row | done => exact hOk

theorem Sound.ended_of_justified (hs : Sound w) (hProof : Justified w id proof) (hBinds : Binds w id token) :
    token ∈ w.ended := by
  cases proof with
  | neverDispatched => exact absurd hBinds (hProof token)
  | terminalAck => exact hs.ended_of_binds hProof hBinds

theorem ok_reread {next : Item → Acquisition} (h : ∀ row, w.getItem id = some row → (next row).Ok w id) :
    (w.reread id next).Ok w id := by
  unfold Shared.reread
  split
  · exact trivial
  next row hRow => exact h row hRow

theorem mine_of_getItem (h : w.getItem id = some row) : Mine w id row := ⟨id_of_getItem h, known_of_getItem h⟩

namespace Acquisition

def Leaves (w : Shared) (id : ItemID) (result : Shared × Acquisition) : Prop :=
  Effect (some id) w result.1 ∧ result.2.Ok result.1 id

theorem leaves_of_effect (hs : Sound w) (h : Effect none w w') (hOk : acquisition.Ok w id) :
    Leaves w id (w', acquisition) :=
  ⟨h.weaken, hOk.effect hs h nofun⟩

theorem leaves_transition (hs : Sound w) (new : ItemState) (code : Option String) (hOk : acquisition.Ok w id) :
    Leaves w id ((w.transition row new code).1, acquisition) :=
  leaves_of_effect hs (transition_effect hs row new code) hOk

theorem leaves_quiet (dispatchMu : Option ItemID) (hs : Sound w) (hOk : acquisition.Ok w id) :
    Leaves w id ({ w with dispatchMu := dispatchMu }, acquisition) :=
  leaves_of_effect hs (.quiet dispatchMu w.nextID (Nat.le_refl _)) hOk

theorem ok_afterInspect (inspection : Inspection) (hMine : Mine w id row) (hUnbound : Unbound w id) :
    (afterInspect row inspection).Ok w id := by
  cases inspection with
  | failed => exact ⟨hMine.1, hUnbound⟩
  | available recorded =>
    cases recorded with
    | true | false => exact ⟨hMine.1, hUnbound⟩
  | missing room =>
    dsimp only [afterInspect]
    split
    · exact ⟨hMine.1, hUnbound⟩
    split
    · exact ⟨hMine.1, hUnbound⟩
    split
    next hPeer =>
      obtain ⟨item, hItem, hLe⟩ := hMine.2
      exact ⟨hUnbound, item, hMine.1 ▸ hItem, hLe.action.trans hPeer⟩
    next hOrigin => exact ⟨hMine, hUnbound, hOrigin⟩

theorem ok_afterVerify (inspection : Inspection) (hRow : row.id = id) (hEnded : Ended w id) :
    (afterVerify row inspection).Ok w id := by
  cases inspection with
  | available recorded =>
    cases recorded with
    | true | false => exact ⟨hRow, hEnded⟩
  | failed | missing => exact ⟨hRow, hEnded⟩

theorem ok_afterTransferring {command : Option Token} (hItem : w.getItem id = some row)
    (hCarries : Carries w id command) : (afterTransferring row command).Ok w id := by
  cases command with
  | some token => exact hCarries
  | none =>
    obtain ⟨hUnbound, item, hPeerItem, hPeer⟩ := hCarries
    obtain rfl : item = row := Option.some.inj (hPeerItem.symm.trans hItem)
    exact ⟨mine_of_getItem hItem, hUnbound, hPeer⟩

theorem ok_afterAnswer {ok : Bool} (hRow : row.id = id) (hEnded : ok = true → Ended w id) :
    (afterAnswer row ok).Ok w id := by
  unfold afterAnswer
  split
  · exact trivial
  split
  next hAns => exact ⟨hRow, hEnded hAns⟩
  · exact trivial

theorem leaves_drawn (hs : Sound w) (hOk : acquisition.Ok w id) :
    Leaves w id ({ w with nextID := w.nextID + 1 }, acquisition) :=
  leaves_of_effect hs (.quiet w.dispatchMu _ (Nat.le_succ _)) hOk

theorem Ok.step (hs : Sound w) (hOk : acquisition.Ok w id) (answer : Answer) :
    Leaves w id (acquisition.step w id answer) := by
  have hStay {next : Acquisition} h : Leaves w id (w, next) := leaves_of_effect hs (.refl w) h
  have hMoved {row new} {next : Acquisition} {result} (hRes : w.transition row new none = result) h :
      Leaves w id (result.1, next) := hRes ▸ leaves_transition hs new none h
  cases acquisition with
  | idle | done => exact hStay hOk
  | lock row =>
    dsimp only [step]
    split
    next locked hLocked => exact leaves_of_effect hs (lock_effect hLocked) hOk
    · exact hStay hOk
  | busy row => exact leaves_transition hs .failed _ trivial
  | toChecking row =>
    dsimp only [step]
    split
    next hRes => exact hMoved hRes hOk.2
    · exact hStay ⟨hOk.1.1, hOk.2⟩
  | rereadChecking => exact hStay (ok_reread fun row hRow => ⟨mine_of_getItem hRow, hOk⟩)
  | inspect row => exact hStay (ok_afterInspect _ hOk.1 hOk.2)
  | toFailed row code proof => exact leaves_transition hs .failed _ hOk
  | toSucceeded row proof =>
    dsimp only [step]
    split
    next hRes => exact hMoved hRes hOk
    · exact hStay trivial
  | release row proof =>
    exact leaves_of_effect hs (quiesce_effect fun _ hBinds => hs.ended_of_justified hOk.2 (hOk.1 ▸ hBinds)) trivial
  | bindCommand row =>
    obtain ⟨⟨rfl, hKnown⟩, hUnbound, hOrigin⟩ := hOk
    dsimp only [step]
    have hBind : BindResult w row.id (w.bindCommand row) :=
      bind_result hs hUnbound fun _ hItem => (if_neg (hKnown.action_eq hItem ▸ hOrigin)).symm
    rcases hBind with hNo | ⟨bound, hBound, hEffect, hUnsent⟩
    · rw [hNo]
      exact leaves_drawn hs ⟨rfl, hUnbound⟩
    · rw [hBound]
      exact ⟨hEffect, hUnsent⟩
  | rereadBound command => exact hStay (ok_reread fun row hRow => hOk)
  | toTransferring row command =>
    dsimp only [step]
    split
    next hRes => exact hMoved hRes hOk
    · exact hStay trivial
  | rereadTransferring command => exact hStay (ok_reread fun row hRow => ok_afterTransferring hRow hOk)
  | fetch row token =>
    refine hStay ?_
    split
    · exact ⟨hOk, nofun⟩
    · exact nofun
  | copyPeer row =>
    refine hStay ?_
    split
    · exact hOk
    · exact nofun
  | bindTransfer row =>
    obtain ⟨⟨rfl, hKnown⟩, hUnbound, hPeer⟩ := hOk
    dsimp only [step]
    have hBind : BindResult w row.id (w.bindTransfer row) :=
      bind_result hs hUnbound fun _ hItem => (if_pos ((hKnown.action_eq hItem).trans hPeer)).symm
    rcases hBind with hNo | ⟨bound, hBound, hEffect, hUnsent⟩
    · rw [hNo]
      exact leaves_drawn hs nofun
    · rw [hBound]
      exact ⟨hEffect, hUnsent, nofun⟩
  | dispatch row token reply =>
    dsimp only [step]
    split
    · exact leaves_quiet (some id) hs hOk
    · exact hStay nofun
  | sending row token reply =>
    dsimp only [step]
    split
    · have hEffect : Effect (some id) w { w.send id token with dispatchMu := none } := .send id token none rfl hOk.1
      exact ⟨hEffect, hEffect.binds hOk.1.1, hEffect.replied hOk.2⟩
    · exact leaves_quiet none hs nofun
  | waiting row token reply =>
    cases reply with
    | none => exact hStay hOk
    | some ok =>
      refine hStay fun hAns => ⟨token, hOk.1, hOk.2 ?_⟩
      rw [Bool.and_eq_true] at hAns
      rw [hAns.1]
  | answered ok => exact hStay (ok_reread fun row hRow => ok_afterAnswer (id_of_getItem hRow) hOk)
  | toCancelling row => exact leaves_transition hs .cancelling _ trivial
  | toVerifying row => exact leaves_transition hs .verifying _ hOk.2
  | rereadVerifying => exact hStay (ok_reread fun row hRow => ⟨id_of_getItem hRow, hOk⟩)
  | verify row => exact hStay (ok_afterVerify _ hOk.1 hOk.2)

end Acquisition

end LocalModelWorks.Downloads
