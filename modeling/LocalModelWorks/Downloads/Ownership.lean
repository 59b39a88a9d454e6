import LocalModelWorks.Downloads.Store

/-!
# Bound items own their destination

What a single statement of any thread can do to the tables, as a relation labelled with the
item whose acquisition acts. Only that acquisition binds the item and sends for it.
-/

namespace LocalModelWorks.Downloads

open List Option Table

variable {w w' : Shared} {actor : Option ItemID} {id : ItemID} {token : Token} {row item : Item}

def Item.binds (item : Item) (token : Token) : Prop := item.commandID = some token ∨ item.transferID = some token

structure Item.Le (a b : Item) : Prop where
  id : b.id = a.id
  nodeID : b.nodeID = a.nodeID
  destination : b.destination = a.destination
  action : b.action = a.action
  command : ∀ token, a.commandID = some token → b.commandID = some token
  transfer : ∀ token, a.transferID = some token → b.transferID = some token
  final : a.state.terminal = true → b = a

theorem Item.Le.refl (a : Item) : a.Le a := ⟨rfl, rfl, rfl, rfl, fun _ h => h, fun _ h => h, fun _ => rfl⟩

theorem Item.Le.binds {a b : Item} (h : a.Le b) (hBinds : a.binds token) : b.binds token :=
  hBinds.imp (h.command token) (h.transfer token)

theorem Item.Le.trans {a b c : Item} (hab : a.Le b) (hbc : b.Le c) : a.Le c where
  id := hbc.id.trans hab.id
  nodeID := hbc.nodeID.trans hab.nodeID
  destination := hbc.destination.trans hab.destination
  action := hbc.action.trans hab.action
  command token h := hbc.command token (hab.command token h)
  transfer token h := hbc.transfer token (hab.transfer token h)
  final h := by
    have hb : b = a := hab.final h
    exact (hbc.final (hb ▸ h)).trans hb

section

variable (w : Shared)

def Known (row : Item) : Prop := ∃ item, w.getItem row.id = some item ∧ row.Le item

variable (id : ItemID) (token : Token)

def Binds : Prop := ∃ item, w.getItem id = some item ∧ item.binds token

def Unbound : Prop := ∀ token, ¬ Binds w id token

def Ended : Prop := ∃ token, Binds w id token ∧ token ∈ w.ended

def Unsent : Prop := Binds w id token ∧ ∀ other, (other, token) ∉ w.sent

def HoldsLock (item : Item) : Prop :=
  ∃ lock, w.getLock item.nodeID item.destination = some lock ∧ lock.owner = .download item.id

end

theorem id_of_getItem (h : w.getItem id = some item) : item.id = id := key_of_lookup h

theorem known_of_getItem (h : w.getItem id = some item) : Known w item := by
  refine ⟨item, ?_, .refl item⟩
  rw [id_of_getItem h]
  exact h

theorem Known.binds (h : Known w row) (hBinds : row.binds token) : Binds w row.id token := by
  obtain ⟨item, hItem, hLe⟩ := h
  exact ⟨item, hItem, hLe.binds hBinds⟩

structure Sound (w : Shared) : Prop where
  keys : (w.items.map Item.id).Nodup
  kinds : ∀ id item, w.getItem id = some item →
    (item.action = .peerCopy → item.commandID = none) ∧ (item.action ≠ .peerCopy → item.transferID = none)
  drawn : ∀ id token, Binds w id token → token < w.nextID
  owner : ∀ id other token, Binds w id token → Binds w other token → id = other
  locked : ∀ id item token, w.getItem id = some item → item.binds token → token ∉ w.ended → HoldsLock w item
  bound : ∀ id token, (id, token) ∈ w.sent → Binds w id token
  writing : ∀ id token, (id, token) ∈ w.writers → Binds w id token ∧ token ∉ w.ended
  heard : ∀ token ∈ w.ended, ∃ id, (id, token) ∈ w.sent

theorem Sound.known_of_mem (hs : Sound w) (hMem : row ∈ w.items) : Known w row :=
  ⟨row, lookup_of_mem hs.keys hMem, .refl row⟩

theorem Sound.binds_unique (hs : Sound w) {other : Token} (h : Binds w id token) (hOther : Binds w id other) :
    other = token := by
  obtain ⟨item, hItem, hBinds⟩ := h
  obtain ⟨item', hItem', hBinds'⟩ := hOther
  obtain rfl : item' = item := some.inj (hItem'.symm.trans hItem)
  obtain ⟨hPeer, hOrigin⟩ := hs.kinds id item' hItem
  by_cases hAct : item'.action = .peerCopy
  · simp only [Item.binds, hPeer hAct, reduceCtorEq, false_or] at hBinds hBinds'
    exact some.inj (hBinds'.symm.trans hBinds)
  · simp only [Item.binds, hOrigin hAct, reduceCtorEq, or_false] at hBinds hBinds'
    exact some.inj (hBinds'.symm.trans hBinds)

theorem Sound.ended_of_binds (hs : Sound w) (hEnded : Ended w id) (h : Binds w id token) : token ∈ w.ended := by
  obtain ⟨other, hOther, hMem⟩ := hEnded
  rw [hs.binds_unique hOther h]
  exact hMem

structure Moves (w : Shared) (f : Item → Item) : Prop where
  id : ∀ item, (f item).id = item.id
  row : ∀ item ∈ w.items, f item = item ∨
    (item.state.terminal = false ∧ ∃ state code, f item = { item with state := state, errorCode := code })

def Item.bindTo (item : Item) (token : Token) : Item :=
  if item.action = .peerCopy then { item with transferID := some token } else { item with commandID := some token }

def KeepsLocks (w : Shared) (locks : List Lock) : Prop :=
  ∀ id item token, w.getItem id = some item → item.binds token → token ∉ w.ended → HoldsLock w item →
    HoldsLock { w with locks := locks } item

inductive Effect (actor : Option ItemID) (w : Shared) : Shared → Prop
  | quiet (dispatchMu : Option ItemID) (nextID : Token) (hDrawn : w.nextID ≤ nextID) :
      Effect actor w { w with dispatchMu := dispatchMu, nextID := nextID }
  | locks (locks : List Lock) (hKeeps : KeepsLocks w locks) : Effect actor w { w with locks := locks }
  | move (f : Item → Item) (hMoves : Moves w f) : Effect actor w { w with items := w.items.map f }
  | create (items : List Item) (hFresh : ∀ item ∈ items, w.getItem item.id = none ∧
      item.commandID = none ∧ item.transferID = none) (hKeys : (items.map Item.id).Nodup) :
      Effect actor w { w with items := w.items ++ items }
  | bind (id : ItemID) (item : Item) (hActor : actor = some id) (hItem : w.getItem id = some item)
      (hUnbound : Unbound w id) (hActive : item.state.terminal = false) (hLock : HoldsLock w item) :
      Effect actor w ({ w with nextID := w.nextID + 1 }.updateItem id (·.bindTo w.nextID))
  | send (id : ItemID) (token : Token) (dispatchMu : Option ItemID) (hActor : actor = some id)
      (hUnsent : Unsent w id token) : Effect actor w { w.send id token with dispatchMu := dispatchMu }
  | finish (token : Token) (hSent : ∃ id, (id, token) ∈ w.sent) : Effect actor w (w.finish token)

theorem Effect.refl (w : Shared) : Effect actor w w := .quiet w.dispatchMu w.nextID (Nat.le_refl _)

theorem Effect.weaken (h : Effect none w w') : Effect actor w w' := by
  cases h with
  | quiet mu n hDrawn => exact .quiet mu n hDrawn
  | locks locks hKeeps => exact .locks locks hKeeps
  | move f hMoves => exact .move f hMoves
  | create items hFresh hKeys => exact .create items hFresh hKeys
  | finish token hSent => exact .finish token hSent
  | bind id item hActor => cases hActor
  | send id token mu hActor => cases hActor

variable {f : Item → Item}

theorem Moves.le (hMoves : Moves w f) (hItem : w.getItem id = some item) : item.Le (f item) := by
  rcases hMoves.row item (mem_of_lookup hItem) with hSame | ⟨hActive, state, code, hMoved⟩
  · rw [hSame]
    exact .refl item
  rw [hMoved]
  refine ⟨rfl, rfl, rfl, rfl, fun _ h => h, fun _ h => h, fun h => ?_⟩
  rw [hActive] at h
  cases h

theorem Moves.binds_iff (hMoves : Moves w f) (hItem : w.getItem id = some item) :
    (f item).binds token ↔ item.binds token := by
  rcases hMoves.row item (mem_of_lookup hItem) with hSame | ⟨_, state, code, hMoved⟩
  · rw [hSame]
  · rw [hMoved]
    rfl

theorem bindTo_id : (item.bindTo token).id = item.id := by
  unfold Item.bindTo
  split
  · rfl
  · rfl

theorem binds_bindTo {new : Token} (h : (item.bindTo new).binds token) : item.binds token ∨ token = new := by
  unfold Item.bindTo at h
  split at h
  · rcases h with hCmd | hTransfer
    · exact .inl (.inl hCmd)
    · exact .inr (some.inj hTransfer).symm
  rcases h with hCmd | hTransfer
  · exact .inr (some.inj hCmd).symm
  · exact .inl (.inr hTransfer)

theorem getItem_map (hKey : ∀ item, (f item).id = item.id) :
    ({ w with items := w.items.map f } : Shared).getItem id = (w.getItem id).map f :=
  lookup_map hKey

theorem getItem_bind {target : ItemID} {n : Token} :
    ({ w with nextID := n }.updateItem target (·.bindTo token)).getItem id =
      if id = target then (w.getItem id).map (·.bindTo token) else w.getItem id := by
  have hMap : ({ w with nextID := n }.updateItem target (·.bindTo token)).getItem id =
      (w.getItem id).map fun item => if item.id = target then item.bindTo token else item := by
    refine lookup_map fun item => ?_
    split
    · exact bindTo_id
    · rfl
  rw [hMap]
  cases hItem : w.getItem id with
  | none => simp
  | some item =>
    have hID : item.id = id := id_of_getItem hItem
    by_cases hTarget : id = target
    · simp [hID, hTarget]
    · simp [hID, hTarget]

theorem getItem_create {items : List Item} :
    ({ w with items := w.items ++ items } : Shared).getItem id = (w.getItem id).or (lookup Item.id items id) :=
  lookup_append items

section

variable (h : Effect actor w w')
include h

namespace Effect

theorem le (hItem : w.getItem id = some item) : ∃ item', w'.getItem id = some item' ∧ item.Le item' := by
  cases h with
  | move f hMoves =>
    refine ⟨f item, ?_, hMoves.le hItem⟩
    rw [getItem_map hMoves.id, hItem]
    rfl
  | create items =>
    refine ⟨item, ?_, .refl item⟩
    rw [getItem_create, hItem]
    rfl
  | bind target old _ hOld hUnbound hActive =>
    by_cases hTarget : id = target
    · obtain rfl : item = old := by
        rw [hTarget, hOld] at hItem
        exact (some.inj hItem).symm
      refine ⟨item.bindTo w.nextID, by rw [getItem_bind, if_pos hTarget, hItem]; rfl, ?_⟩
      have hNone token h : False := hUnbound token ⟨item, hOld, h⟩
      have hFinal {p : Prop} (h : item.state.terminal = true) : p := by
        rw [hActive] at h
        cases h
      unfold Item.bindTo
      split
      · exact ⟨rfl, rfl, rfl, rfl, fun t h => (hNone t (.inl h)).elim, fun t h => (hNone t (.inr h)).elim, hFinal⟩
      · exact ⟨rfl, rfl, rfl, rfl, fun t h => (hNone t (.inl h)).elim, fun t h => (hNone t (.inr h)).elim, hFinal⟩
    · exact ⟨item, by rw [getItem_bind, if_neg hTarget, hItem], .refl item⟩
  | quiet | locks | send | finish => exact ⟨item, hItem, .refl item⟩

theorem binds (hBinds : Binds w id token) : Binds w' id token := by
  obtain ⟨item, hItem, hBinds⟩ := hBinds
  obtain ⟨item', hItem', hLe⟩ := h.le hItem
  exact ⟨item', hItem', hLe.binds hBinds⟩

theorem known (hKnown : Known w row) : Known w' row := by
  obtain ⟨item, hItem, hLe⟩ := hKnown
  obtain ⟨item', hItem', hLe'⟩ := h.le hItem
  exact ⟨item', hItem', hLe.trans hLe'⟩

theorem ended_subset (hEnded : token ∈ w.ended) : token ∈ w'.ended := by
  cases h with
  | finish => exact mem_cons_of_mem _ hEnded
  | _ => exact hEnded

theorem ended (hEnded : Ended w id) : Ended w' id := by
  obtain ⟨token, hBinds, hMem⟩ := hEnded
  exact ⟨token, h.binds hBinds, h.ended_subset hMem⟩

theorem binds_cases (hBinds : Binds w' id token) :
    Binds w id token ∨ (actor = some id ∧ token = w.nextID ∧ Unbound w id ∧ w'.nextID = w.nextID + 1) := by
  obtain ⟨item', hItem', hBinds⟩ := hBinds
  cases h with
  | move f hMoves =>
    rw [getItem_map hMoves.id, map_eq_some_iff] at hItem'
    obtain ⟨item, hItem, rfl⟩ := hItem'
    exact .inl ⟨item, hItem, (hMoves.binds_iff hItem).mp hBinds⟩
  | create items hFresh =>
    rw [getItem_create, or_eq_some_iff] at hItem'
    rcases hItem' with hItem | ⟨_, hNew⟩
    · exact .inl ⟨item', hItem, hBinds⟩
    · obtain ⟨_, hCmd, hTransfer⟩ := hFresh item' (mem_of_lookup hNew)
      simp [Item.binds, hCmd, hTransfer] at hBinds
  | bind target item hActor hItem hUnbound =>
    rw [getItem_bind] at hItem'
    split at hItem'
    next hTarget =>
      subst hTarget
      rw [hItem] at hItem'
      cases some.inj hItem'
      have hNone : ¬ item.binds token := fun h => hUnbound token ⟨item, hItem, h⟩
      exact .inr ⟨hActor, (binds_bindTo hBinds).resolve_left hNone, hUnbound, rfl⟩
    · exact .inl ⟨item', hItem', hBinds⟩
  | quiet | locks | send | finish => exact .inl ⟨item', hItem', hBinds⟩

theorem unbound (hNe : actor ≠ some id) (hUnbound : Unbound w id) : Unbound w' id := by
  intro token hBinds
  rcases h.binds_cases hBinds with hOld | ⟨hActor, _⟩
  · exact hUnbound token hOld
  · exact hNe hActor

theorem sent_cases {other : ItemID} (hSent : (other, token) ∈ w'.sent) :
    (other, token) ∈ w.sent ∨ (actor = some other ∧ Unsent w other token) := by
  cases h with
  | send sender sentToken mu hActor hUnsent =>
    rcases mem_cons.mp hSent with hNew | hOld
    · cases hNew
      exact .inr ⟨hActor, hUnsent⟩
    · exact .inl hOld
  | _ => exact .inl hSent

end Effect

end

theorem Effect.unsent (hs : Sound w) (h : Effect actor w w') (hNe : actor ≠ some id) (hUnsent : Unsent w id token) :
    Unsent w' id token := by
  refine ⟨h.binds hUnsent.1, fun other hSent => ?_⟩
  rcases h.sent_cases hSent with hOld | ⟨hActor, hOther⟩
  · exact hUnsent.2 other hOld
  · exact hNe (hs.owner id other token hUnsent.1 hOther.1 ▸ hActor)

theorem Effect.nextID_le (h : Effect actor w w') : w.nextID ≤ w'.nextID := by
  cases h with
  | quiet _ _ hDrawn => exact hDrawn
  | bind => exact Nat.le_succ _
  | _ => exact Nat.le_refl _

theorem Effect.keys (h : Effect actor w w') (hKeys : (w.items.map Item.id).Nodup) : (w'.items.map Item.id).Nodup := by
  have hMap {f : Item → Item} (hKey : ∀ item, (f item).id = item.id) : ((w.items.map f).map Item.id).Nodup := by
    have hSame : (w.items.map f).map Item.id = w.items.map Item.id := by
      rw [List.map_map]
      exact map_congr_left fun item _ => hKey item
    rw [hSame]
    exact hKeys
  cases h with
  | move f hMoves => exact hMap hMoves.id
  | bind =>
    refine hMap fun item => ?_
    split
    · exact bindTo_id
    · rfl
  | create items hFresh hNew =>
    rw [map_append]
    refine nodup_append.mpr ⟨hKeys, hNew, fun oldID hOld newID hNewID hEq => ?_⟩
    obtain ⟨old, hMem, rfl⟩ := mem_map.mp hOld
    obtain ⟨new, hNewMem, rfl⟩ := mem_map.mp hNewID
    have hFound := lookup_of_mem hKeys hMem
    have hNone := (hFresh new hNewMem).1
    rw [← hEq] at hNone
    cases hFound.symm.trans hNone
  | quiet | locks | send | finish => exact hKeys

theorem Effect.kinds (h : Effect actor w w') (hs : Sound w) {item' : Item} (hItem' : w'.getItem id = some item') :
    (item'.action = .peerCopy → item'.commandID = none) ∧ (item'.action ≠ .peerCopy → item'.transferID = none) := by
  cases h with
  | move f hMoves =>
    rw [getItem_map hMoves.id, map_eq_some_iff] at hItem'
    obtain ⟨item, hItem, rfl⟩ := hItem'
    rcases hMoves.row item (mem_of_lookup hItem) with hSame | ⟨_, state, code, hMoved⟩
    · rw [hSame]
      exact hs.kinds id item hItem
    · rw [hMoved]
      exact hs.kinds id item hItem
  | create items hFresh =>
    rw [getItem_create, or_eq_some_iff] at hItem'
    rcases hItem' with hItem | ⟨_, hNew⟩
    · exact hs.kinds id item' hItem
    · obtain ⟨_, hCmd, hTransfer⟩ := hFresh item' (mem_of_lookup hNew)
      exact ⟨fun _ => hCmd, fun _ => hTransfer⟩
  | bind target item hActor hItem =>
    rw [getItem_bind] at hItem'
    split at hItem'
    · obtain ⟨old, hOld, rfl⟩ := map_eq_some_iff.mp hItem'
      obtain ⟨hPeer, hOrigin⟩ := hs.kinds id old hOld
      dsimp only [Item.bindTo]
      split
      next hAct => exact ⟨fun _ => hPeer hAct, fun hNe => absurd hAct hNe⟩
      next hAct => exact ⟨fun hPeer => absurd hPeer hAct, fun _ => hOrigin hAct⟩
    · exact hs.kinds id item' hItem'
  | quiet | locks | send | finish => exact hs.kinds id item' hItem'

theorem HoldsLock.of_le {item' : Item} (h : HoldsLock w item) (hLe : item.Le item') (hLocks : w'.locks = w.locks) :
    HoldsLock w' item' := by
  obtain ⟨lock, hLock, hOwner⟩ := h
  refine ⟨lock, ?_, hLe.id ▸ hOwner⟩
  rw [hLe.nodeID, hLe.destination]
  unfold Shared.getLock at hLock ⊢
  rw [hLocks]
  exact hLock

theorem Effect.locked (h : Effect actor w w') (hs : Sound w) {item' : Item} (hItem' : w'.getItem id = some item')
    (hBinds : item'.binds token) (hLive : token ∉ w'.ended) : HoldsLock w' item' := by
  have hOld : token ∉ w.ended := fun hEnded => hLive (h.ended_subset hEnded)
  cases h with
  | quiet | send | finish => exact (hs.locked id item' token hItem' hBinds hOld).of_le (.refl item') rfl
  | locks locks hKeeps =>
    exact hKeeps id item' token hItem' hBinds hOld (hs.locked id item' token hItem' hBinds hOld)
  | move f hMoves =>
    rw [getItem_map hMoves.id, map_eq_some_iff] at hItem'
    obtain ⟨item, hItem, rfl⟩ := hItem'
    exact (hs.locked id item token hItem ((hMoves.binds_iff hItem).mp hBinds) hOld).of_le (hMoves.le hItem) rfl
  | create items hFresh =>
    rw [getItem_create, or_eq_some_iff] at hItem'
    rcases hItem' with hItem | ⟨_, hNew⟩
    · exact (hs.locked id item' token hItem hBinds hOld).of_le (.refl item') rfl
    · obtain ⟨_, hCmd, hTransfer⟩ := hFresh item' (mem_of_lookup hNew)
      simp [Item.binds, hCmd, hTransfer] at hBinds
  | bind target item hActor hItem hUnbound hActive hLock =>
    have hEffect : Effect actor w _ := .bind target item hActor hItem hUnbound hActive hLock
    by_cases hTarget : id = target
    · subst hTarget
      obtain ⟨bound, hBound, hLe⟩ := hEffect.le hItem
      obtain rfl : bound = item' := some.inj (hBound.symm.trans hItem')
      exact hLock.of_le hLe rfl
    · rw [getItem_bind, if_neg hTarget] at hItem'
      exact (hs.locked id item' token hItem' hBinds hOld).of_le (.refl item') rfl

theorem Effect.sound (h : Effect actor w w') (hs : Sound w) : Sound w' where
  keys := h.keys hs.keys
  kinds _ _ hItem := h.kinds hs hItem
  drawn id token hBinds := by
    rcases h.binds_cases hBinds with hOld | ⟨_, rfl, _, hNext⟩
    · exact Nat.lt_of_lt_of_le (hs.drawn id token hOld) h.nextID_le
    · rw [hNext]
      exact Nat.lt_succ_self _
  owner id other token hID hOther := by
    rcases h.binds_cases hID with hOld | ⟨hActor, rfl, _⟩
    · rcases h.binds_cases hOther with hOld' | ⟨_, rfl, _⟩
      · exact hs.owner id other token hOld hOld'
      · exact absurd (hs.drawn id _ hOld) (Nat.lt_irrefl _)
    rcases h.binds_cases hOther with hOld' | ⟨hActor', _⟩
    · exact absurd (hs.drawn other _ hOld') (Nat.lt_irrefl _)
    · exact some.inj (hActor.symm.trans hActor')
  locked _ _ _ hItem hBinds hLive := h.locked hs hItem hBinds hLive
  bound id token hSent := by
    rcases h.sent_cases hSent with hOld | ⟨_, hUnsent⟩
    · exact h.binds (hs.bound id token hOld)
    · exact h.binds hUnsent.1
  writing id token hWriter := by
    have hStays (hOld : Binds w id token ∧ token ∉ w.ended) (hSame : w'.ended = w.ended) :
        Binds w' id token ∧ token ∉ w'.ended := ⟨h.binds hOld.1, hSame ▸ hOld.2⟩
    cases h with
    | send sender sentToken mu hActor hUnsent =>
      rcases mem_cons.mp hWriter with hNew | hOld
      · cases hNew
        refine ⟨hUnsent.1, fun hEnded => ?_⟩
        obtain ⟨other, hSent⟩ := hs.heard _ hEnded
        exact hUnsent.2 other hSent
      · exact hs.writing id token hOld
    | finish ended =>
      obtain ⟨hOld, hNe⟩ := mem_filter.mp hWriter
      obtain ⟨hBinds, hLive⟩ := hs.writing id token hOld
      refine ⟨hBinds, fun hEnded => ?_⟩
      rcases mem_cons.mp hEnded with hEq | hEnded
      · simp [hEq] at hNe
      · exact hLive hEnded
    | quiet | locks | move | create | bind => exact hStays (hs.writing id token hWriter) rfl
  heard token hEnded := by
    have hKept id (hSent : (id, token) ∈ w.sent) : (id, token) ∈ w'.sent := by
      cases h with
      | send => exact mem_cons_of_mem _ hSent
      | _ => exact hSent
    cases h with
    | finish ended hSent =>
      rcases mem_cons.mp hEnded with rfl | hOld
      · exact hSent
      · exact hs.heard token hOld
    | _ =>
      obtain ⟨id, hSent⟩ := hs.heard token hEnded
      exact ⟨id, hKept id hSent⟩

end LocalModelWorks.Downloads
