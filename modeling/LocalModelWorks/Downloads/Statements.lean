import LocalModelWorks.Downloads.Ownership

/-!
# The statements as effects

Each statement of the store is one of the effects. A release needs that every
binding of its item has ended; a binding that its item had none.
-/

namespace LocalModelWorks.Downloads

variable {w w' : Shared} {actor : Option ItemID} {id : ItemID} {token : Token} {row item : Item}

theorem Sound.eq_of_id (hs : Sound w) (hItem : w.getItem id = some item) {other : Item} (hMem : other ∈ w.items)
    (hID : other.id = id) : other = item := by
  have hOther := Table.lookup_of_mem hs.keys hMem
  rw [hID] at hOther
  exact Option.some.inj (hOther.symm.trans hItem)

theorem transition_effect (hs : Sound w) (row : Item) (new : ItemState) (code : Option String) :
    Effect actor w (w.transition row new code).1 := by
  unfold Shared.transition
  split
  · exact .refl w
  rename_i item hItem
  split
  next hCas =>
    refine .move _ ⟨fun other => ?_, fun other hMem => ?_⟩
    · split
      · rfl
      · rfl
    by_cases hID : other.id = row.id
    · obtain rfl := hs.eq_of_id hItem hMem hID
      exact .inr ⟨hCas.2.2.1, new, code.or row.errorCode, if_pos hID⟩
    · exact .inl (if_neg hID)
  · exact .refl w

theorem interruptRun_effect (w : Shared) (runID : RunID) : Effect actor w (w.interruptRun runID) := by
  refine .move _ ⟨fun item => ?_, fun item _ => ?_⟩
  · split
    · rfl
    · rfl
  by_cases hRun : item.runID = runID ∧ item.state.terminal = false
  · exact .inr ⟨hRun.2, .interrupted, item.errorCode, if_pos hRun⟩
  · exact .inl (if_neg hRun)

theorem keepsLocks_cons {new : Lock} (hFree : w.getLock new.nodeID new.destination = none) :
    KeepsLocks w (new :: w.locks) := by
  rintro id item token _ _ _ ⟨lock, hLock, hOwner⟩
  refine ⟨lock, ?_, hOwner⟩
  have hNe : new.key ≠ (item.nodeID, item.destination) := by
    intro hKey
    obtain ⟨hNode, hDest⟩ := Prod.mk.inj hKey
    rw [hNode, hDest, hLock] at hFree
    cases hFree
  unfold Shared.getLock at hLock ⊢
  rw [Table.lookup_cons, if_neg hNe]
  exact hLock

theorem lock_effect (h : w.lock row = some w') : Effect actor w w' := by
  unfold Shared.lock at h
  split at h
  next hFree hItem =>
    split at h
    · cases h
      exact .locks _ (keepsLocks_cons hFree)
    · cases h
  · cases h

theorem lockOther_effect (w : Shared) (nodeID : NodeID) (destination : Destination) (owner : Owner) :
    Effect actor w (w.lockOther nodeID destination owner) := by
  unfold Shared.lockOther
  split
  next hFree => exact .locks _ (keepsLocks_cons hFree)
  · exact .refl w

theorem keepsLocks_map {f : Lock → Lock} (hKey : ∀ lock, (f lock).key = lock.key)
    (hOwner : ∀ lock, (f lock).owner = lock.owner) : KeepsLocks w (w.locks.map f) := by
  rintro id item token _ _ _ ⟨lock, hLock, hDownload⟩
  refine ⟨f lock, ?_, (hOwner lock).trans hDownload⟩
  unfold Shared.getLock at hLock ⊢
  rw [Table.lookup_map hKey, hLock]
  rfl

theorem unlock_effect (nodeID : NodeID) (destination : Destination) {owner : Owner}
    (hEnded : ∀ id token, owner = .download id → Binds w id token → token ∈ w.ended) :
    Effect actor w (w.unlock nodeID destination owner) := by
  unfold Shared.unlock
  split
  · exact .refl w
  rename_i found hFound
  split
  next hFoundOwner =>
    refine .locks _ ?_
    rintro id item token hItem hBinds hLive ⟨lock, hLock, hOwner⟩
    -- the lock of the item stands elsewhere: here it would be the released one
    have hElse : (item.nodeID, item.destination) ≠ (nodeID, destination) := by
      intro hKey
      obtain ⟨hNode, hDest⟩ := Prod.mk.inj hKey
      rw [hNode, hDest, hFound] at hLock
      cases hLock
      have hID : item.id = id := id_of_getItem hItem
      exact hLive (hEnded item.id token (hFoundOwner.symm.trans hOwner) ⟨item, hID ▸ hItem, hBinds⟩)
    refine ⟨lock, ?_, hOwner⟩
    refine (Table.lookup_filter fun other hKey => ?_).trans hLock
    simp [hKey, hElse]
  · exact .refl w

theorem quiesce_effect (hEnded : ∀ token, Binds w row.id token → token ∈ w.ended) : Effect actor w (w.quiesce row) :=
  unlock_effect row.nodeID row.destination fun id token hOwner hBinds => by
    cases hOwner
    exact hEnded token hBinds

def BindResult (w : Shared) (id : ItemID) (result : Shared × Bool) : Prop :=
  result = ({ w with nextID := w.nextID + 1 }, false) ∨
    ∃ bound, result = (bound, true) ∧ Effect (some id) w bound ∧ Unsent bound id w.nextID

theorem bind_result {column : Item → Option Token} {set : Item → Token → Item} (hs : Sound w)
    (hUnbound : Unbound w row.id)
    (hSet : ∀ item, w.getItem row.id = some item → set item w.nextID = item.bindTo w.nextID) :
    BindResult w row.id (w.bind row column set) := by
  unfold Shared.bind
  split
  · exact .inl rfl
  rename_i item hItem
  split
  next hCas =>
    obtain ⟨_, _, hActive, _, lock, hLock, hOwner, _⟩ := hCas
    have hSame : { w with nextID := w.nextID + 1 }.updateItem row.id (set · w.nextID) =
        { w with nextID := w.nextID + 1 }.updateItem row.id (·.bindTo w.nextID) := by
      unfold Shared.updateItem
      congr 1
      refine List.map_congr_left fun other hMem => ?_
      by_cases hID : other.id = row.id
      · obtain rfl := hs.eq_of_id hItem hMem hID
        rw [if_pos hID, if_pos hID]
        exact hSet other hItem
      · rw [if_neg hID, if_neg hID]
    have hEnd : item.state.terminal = false := by
      cases hState : item.state <;> rw [hState] at hActive <;> first | rfl | cases hActive
    have hBinds : (item.bindTo w.nextID).binds w.nextID := by
      unfold Item.bindTo
      split
      · exact .inr rfl
      · exact .inl rfl
    refine .inr ⟨_, rfl, ?_, ?_, fun other hSent => ?_⟩
    · rw [hSame]
      exact .bind row.id item rfl hItem hUnbound hEnd ⟨lock, hLock, hOwner⟩
    · rw [hSame]
      exact ⟨item.bindTo w.nextID, by rw [getItem_bind, if_pos rfl, hItem]; rfl, hBinds⟩
    · exact absurd (hs.drawn other _ (hs.bound other _ hSent)) (Nat.lt_irrefl _)
  · exact .inl rfl

theorem Known.action_eq (h : Known w row) (hItem : w.getItem row.id = some item) : item.action = row.action := by
  obtain ⟨item', hItem', hLe⟩ := h
  obtain rfl : item' = item := Option.some.inj (hItem'.symm.trans hItem)
  exact hLe.action

end LocalModelWorks.Downloads
