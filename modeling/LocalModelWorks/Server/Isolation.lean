import LocalModelWorks.Server.Messages

/-!
# What the messages of a node leave alone

Placements and download items are looked up under the node of the session, so no message
reaches those of another node.
-/

namespace LocalModelWorks.Server.Messages

open List Function Controller
open Deploy (Deployment DeploymentID Rank StateUpdate Apart Drained)
open Downloads (Item ItemID)

variable {env : Env} {node : NodeID} {c c' c'' : Controller} {drains : DeploymentID → Prop}

structure Confined (node : NodeID) (c c' : Controller) : Prop where
  placements : ∀ key, key.nodeID ≠ node → c'.placements key = c.placements key
  items : ∀ id item, item.nodeID ≠ node → (c'.downloads.getItem id = some item ↔ c.downloads.getItem id = some item)
  checkpoints : ∀ id item, item.nodeID ≠ node → c.downloads.getItem id = some item →
    c'.checkpoints id = c.checkpoints id

theorem Confined.of_eq (hPlacements : c'.placements = c.placements) (hItems : c'.downloads.items = c.downloads.items)
    (hCheckpoints : c'.checkpoints = c.checkpoints) : Confined node c c' where
  placements key _ := congrFun hPlacements key
  items id item _ := by unfold Downloads.Shared.getItem; rw [hItems]
  checkpoints id _ _ _ := congrFun hCheckpoints id

theorem Confined.refl (node : NodeID) (c : Controller) : Confined node c c := .of_eq rfl rfl rfl

theorem Confined.trans (hFirst : Confined node c c') (hSecond : Confined node c' c'') : Confined node c c'' where
  placements key hKey := (hSecond.placements key hKey).trans (hFirst.placements key hKey)
  items id item hNode := (hSecond.items id item hNode).trans (hFirst.items id item hNode)
  checkpoints id item hNode hItem := by
    have hLater := (hFirst.items id item hNode).mpr hItem
    exact (hSecond.checkpoints id item hNode hLater).trans (hFirst.checkpoints id item hNode hItem)

variable {row : Item} {s t : Deployment} {rank : Rank} {id : DeploymentID} {cr : CommandResult}

theorem node_of_itemByCommand {command : CommandID} (h : c.itemByCommand command node = some row) :
    row.nodeID = node := by
  have hFound := find?_some h
  simp only [Bool.and_eq_true, decide_eq_true_eq] at hFound
  exact hFound.2

theorem getItem_transition {w : Downloads.Shared} {item : Item} (new : Downloads.ItemState) (code : Option String)
    (id : ItemID) (hNode : item.nodeID ≠ row.nodeID) :
    (w.transition row new code).1.getItem id = some item ↔ w.getItem id = some item := by
  rcases w.transition_cases row new code with hSame | ⟨found, moved, hFound, hRow, _, hMoved, hGet⟩
  · rw [hSame]
  rw [hMoved, hGet id]
  split
  · -- The row under this key is the node's own before and after.
    rename_i hID
    rw [hID, hFound]
    constructor
    · intro h
      cases h
      exact absurd hRow hNode
    intro h
    cases h
    exact absurd hRow hNode
  · exact Iff.rfl

theorem confined_quiesced (hRow : row.nodeID = node) : Confined node c (c.quiesced row) := by
  have hFree : (c.downloads.quiesce row).items = c.downloads.items := Downloads.Shared.items_unlock _ _ _ _
  refine ⟨fun _ _ => rfl, fun id item hNode => ?_, fun _ _ _ _ => rfl⟩
  have hQuiet : (c.downloads.quiesce row).getItem id = some item ↔ c.downloads.getItem id = some item := by
    unfold Downloads.Shared.getItem
    rw [hFree]
  unfold quiesced
  split
  · exact (getItem_transition _ _ id (hRow ▸ hNode)).trans hQuiet
  · exact hQuiet

theorem confined_settleTransfer (id : CommandID) (transfer : Transfer) (cancel : Bool) (cr : CommandResult) :
    Confined node c (c.settleTransfer id transfer cancel cr).1 := by
  have hItems (locks : List Downloads.Lock) (w : Downloads.Shared) :
      (locks.foldl (fun w lock => w.unlock lock.nodeID lock.destination lock.owner) w).items = w.items := by
    induction locks generalizing w with
    | nil => rfl
    | cons lock locks ih => exact (ih _).trans (Downloads.Shared.items_unlock _ _ _ _)
  unfold settleTransfer
  dsimp only
  split
  · exact .refl node c
  · exact .of_eq rfl (hItems _ _) rfl

theorem confined_onTransferCommandResult (cr : CommandResult) :
    Confined node c (c.onTransferCommandResult node cr).1 := by
  have hTaken (cancel : Bool) : Confined node c
      (if cancel then { c with cancels := update c.cancels cr.command none } else c) := by
    split
    · exact .of_eq rfl rfl rfl
    · exact .refl node c
  unfold onTransferCommandResult
  dsimp only
  split
  · exact .refl node c
  split
  · exact .refl node c
  split
  · exact hTaken _
  · exact (hTaken _).trans (confined_settleTransfer _ _ _ _)

theorem confined_update (id : DeploymentID) (f : Deployment → Deployment) : Confined node c (c.update id f) :=
  .of_eq rfl rfl rfl

theorem confined_setPlacementContainer (id : DeploymentID) (s : Deployment) (rank : Rank) (containerID : String) :
    Confined node c (c.setPlacementContainer id s rank containerID) := by
  unfold setPlacementContainer
  split <;> exact .of_eq rfl rfl rfl

theorem confined_onStateUpdate (id : DeploymentID) (su : StateUpdate) :
    Confined node c (c.onStateUpdate env id su) := by
  unfold onStateUpdate
  split
  · exact .refl node c
  split
  · exact .refl node c
  · exact (confined_setPlacementContainer _ _ _ _).trans (confined_update _ _)

theorem confined_onCommandResult (cr : CommandResult) : Confined node c (c.onCommandResult env cr) := by
  unfold onCommandResult
  split
  · unfold onWorkloadResult
    split
    · exact .refl node c
    split
    · exact (confined_setPlacementContainer _ _ _ _).trans (confined_update _ _)
    · exact confined_update _ _
  · unfold completeRepositoryUpdateFetch
    split <;> exact .of_eq rfl rfl rfl

def OnOther (node : NodeID) (s : Deployment) (rank : Rank) : Prop :=
  rank ∈ s.placement.allRanks ∧ rank ∉ s.placement.ranksOnNode node

instance (s : Deployment) (rank : Rank) : Decidable (OnOther node s rank) := inferInstanceAs (Decidable (_ ∧ _))

def Delivery.Owned (node : NodeID) (d : Delivery) : Prop := ∀ other, d.node = some other → other = node

/-- Where `drains` holds the rank may have been driven to a stop; elsewhere nothing of it has changed. -/
structure Kept (drains : Prop) (s t : Deployment) (rank : Rank) : Prop where
  drained : Drained s t rank
  apart : ¬ drains → Apart s t rank

theorem Kept.of_apart {drains : Prop} (h : Apart s t rank) : Kept drains s t rank := ⟨h.drained, fun _ => h⟩

theorem Kept.refl {drains : Prop} (s : Deployment) (rank : Rank) : Kept drains s s rank := .of_apart (.refl s rank)

theorem Kept.trans {drains : Prop} {u : Deployment} (hFirst : Kept drains s t rank) (hSecond : Kept drains t u rank) :
    Kept drains s u rank :=
  ⟨hFirst.drained.trans hSecond.drained, fun h => (hFirst.apart h).trans (hSecond.apart h)⟩

structure Spared (node : NodeID) (drains : DeploymentID → Prop) (c c' : Controller) : Prop where
  ranks : ∀ id s, c.deployments id = some s → ∃ t, c'.deployments id = some t ∧ t.placement = s.placement ∧
    ∀ rank, OnOther node s rank → Kept (drains id) s t rank
  containers : ∀ id s rank, c.deployments id = some s → OnOther node s rank →
    c'.containers id rank = c.containers id rank
  logs : ∀ id s rank, c.deployments id = some s → OnOther node s rank → ∀ runID stream path,
    runLogPath runID id rank stream = some path → c'.logs path = c.logs path
  logEnds : ∀ id s rank, c.deployments id = some s → OnOther node s rank → ∀ runID stream,
    c'.logEnds ⟨runID, logDeployment id, rank, stream⟩ = c.logEnds ⟨runID, logDeployment id, rank, stream⟩
  delivered : ∃ heard, c'.delivered = heard ++ c.delivered ∧ ∀ d ∈ heard, d.Owned node

structure Still (c c' : Controller) : Prop where
  deployments : c'.deployments = c.deployments
  containers : c'.containers = c.containers
  logs : c'.logs = c.logs
  logEnds : c'.logEnds = c.logEnds
  sentTo : c'.sentTo = c.sentTo

theorem Still.refl (c : Controller) : Still c c := ⟨rfl, rfl, rfl, rfl, rfl⟩

theorem Still.trans (hFirst : Still c c') (hSecond : Still c' c'') : Still c c'' where
  deployments := hSecond.deployments.trans hFirst.deployments
  containers := hSecond.containers.trans hFirst.containers
  logs := hSecond.logs.trans hFirst.logs
  logEnds := hSecond.logEnds.trans hFirst.logEnds
  sentTo := hSecond.sentTo.trans hFirst.sentTo

theorem Still.spared (h : Still c c') (hHeard : ∃ heard, c'.delivered = heard ++ c.delivered ∧ ∀ d ∈ heard, d.Owned node) :
    Spared node drains c c' where
  ranks id s hs := ⟨s, by rw [h.deployments, hs], rfl, fun rank _ => Kept.refl s rank⟩
  containers id s rank _ _ := by rw [h.containers]
  logs id s rank _ _ runID stream path _ := by rw [h.logs]
  logEnds id s rank _ _ runID stream := by rw [h.logEnds]
  delivered := hHeard

theorem Still.spared_of_delivered (h : Still c c') (hSame : c'.delivered = c.delivered) : Spared node drains c c' :=
  h.spared ⟨[], hSame, fun _ hd => by cases hd⟩

theorem Spared.refl (c : Controller) : Spared node drains c c := (Still.refl c).spared_of_delivered rfl

theorem OnOther.of_placement (hPlace : t.placement = s.placement) (h : OnOther node s rank) : OnOther node t rank := by
  unfold OnOther
  rw [hPlace]
  exact h

theorem Spared.trans (hFirst : Spared node drains c c') (hSecond : Spared node drains c' c'') :
    Spared node drains c c'' where
  ranks id s hs := by
    obtain ⟨t, ht, hPlace, hKept⟩ := hFirst.ranks id s hs
    obtain ⟨u, hu, hPlace', hKept'⟩ := hSecond.ranks id t ht
    exact ⟨u, hu, hPlace'.trans hPlace, fun rank hRank =>
      (hKept rank hRank).trans (hKept' rank (hRank.of_placement hPlace))⟩
  containers id s rank hs hRank := by
    obtain ⟨t, ht, hPlace, _⟩ := hFirst.ranks id s hs
    rw [hSecond.containers id t rank ht (hRank.of_placement hPlace), hFirst.containers id s rank hs hRank]
  logs id s rank hs hRank runID stream path hPath := by
    obtain ⟨t, ht, hPlace, _⟩ := hFirst.ranks id s hs
    rw [hSecond.logs id t rank ht (hRank.of_placement hPlace) runID stream path hPath,
      hFirst.logs id s rank hs hRank runID stream path hPath]
  logEnds id s rank hs hRank runID stream := by
    obtain ⟨t, ht, hPlace, _⟩ := hFirst.ranks id s hs
    rw [hSecond.logEnds id t rank ht (hRank.of_placement hPlace) runID stream,
      hFirst.logEnds id s rank hs hRank runID stream]
  delivered := by
    obtain ⟨first, hFirstEq, hFirstOwned⟩ := hFirst.delivered
    obtain ⟨second, hSecondEq, hSecondOwned⟩ := hSecond.delivered
    refine ⟨second ++ first, by rw [hSecondEq, hFirstEq, append_assoc], fun d hd => ?_⟩
    exact (mem_append.mp hd).elim (hSecondOwned d) (hFirstOwned d)

/-- Both, for the calls that name nothing. -/
structure Local (node : NodeID) (drains : DeploymentID → Prop) (c c' : Controller) : Prop where
  confined : Confined node c c'
  spared : Spared node drains c c'

theorem Local.refl (c : Controller) : Local node drains c c := ⟨.refl node c, .refl c⟩

theorem Local.trans (hFirst : Local node drains c c') (hSecond : Local node drains c' c'') : Local node drains c c'' :=
  ⟨hFirst.confined.trans hSecond.confined, hFirst.spared.trans hSecond.spared⟩

theorem Local.foldl {α : Type} {f : Controller → α → Controller} (hStep : ∀ c a, Local node drains c (f c a))
    (l : List α) (c : Controller) : Local node drains c (l.foldl f c) := by
  induction l generalizing c with
  | nil => exact .refl c
  | cons a l ih => exact (hStep c a).trans (ih (f c a))

theorem spared_update {f : Deployment → Deployment}
    (hPlace : ∀ s, c.deployments id = some s → (f s).placement = s.placement)
    (hKept : ∀ s rank, c.deployments id = some s → OnOther node s rank → Kept (drains id) s (f s) rank) :
    Spared node drains c (c.update id f) := by
  refine { @Spared.refl node drains c with ranks := fun d s hs => ?_ }
  by_cases hd : d = id
  · subst hd
    refine ⟨f s, ?_, hPlace s hs, fun rank hRank => hKept s rank hs hRank⟩
    change update c.deployments d ((c.deployments d).map f) d = some (f s)
    rw [update_self, hs, Option.map_some]
  refine ⟨s, ?_, rfl, fun rank _ => Kept.refl s rank⟩
  change update c.deployments id ((c.deployments id).map f) d = some s
  rw [update_of_ne hd, hs]

theorem local_lateResult (hRow : row.nodeID = node) (accepted : Bool) :
    Local node drains c (c.lateResult row accepted) ∧ Still c (c.lateResult row accepted) := by
  unfold lateResult
  split
  · have hStill : Still c (c.quiesced row) := ⟨rfl, rfl, rfl, rfl, rfl⟩
    exact ⟨⟨confined_quiesced hRow, hStill.spared_of_delivered rfl⟩, hStill⟩
  · exact ⟨.refl c, .refl c⟩

theorem local_reply {peer : Bool} {w : DownloadWaiter} (hNode : w.node = node) :
    Local node drains c (c.reply peer cr w) ∧ Still c (c.reply peer cr w) := by
  unfold reply
  split
  · exact ⟨⟨.of_eq rfl rfl rfl, { Spared.refl c with }⟩, rfl, rfl, rfl, rfl, rfl⟩
  refine ⟨⟨.of_eq rfl rfl rfl, Still.spared ⟨rfl, rfl, rfl, rfl, rfl⟩ ⟨[_], rfl, fun d hd other hOther => ?_⟩⟩,
    rfl, rfl, rfl, rfl, rfl⟩
  cases mem_singleton.mp hd
  cases hOther
  exact hNode

theorem local_onPeerResult (cr : CommandResult) :
    Local node drains c (c.onPeerResult node cr).1 ∧ Still c (c.onPeerResult node cr).1 := by
  unfold onPeerResult
  split
  · split
    · exact ⟨.refl c, .refl c⟩
    next hNode => exact local_reply (not_not.mp hNode)
  split
  · exact ⟨.refl c, .refl c⟩
  next row hRow =>
    have hFound := find?_some hRow
    simp only [Bool.and_eq_true, decide_eq_true_eq] at hFound
    exact local_lateResult hFound.2 true

theorem local_onResult (cr : CommandResult) :
    Local node drains c (c.onResult node cr).1 ∧ Still c (c.onResult node cr).1 := by
  unfold onResult
  split
  · split
    · exact ⟨.refl c, .refl c⟩
    next hNode => exact local_reply (not_not.mp hNode)
  split
  next row hRow => exact local_lateResult (node_of_itemByCommand hRow) _
  · exact local_onPeerResult cr

theorem onTransferCommandResult_still (cr : CommandResult) : Still c (c.onTransferCommandResult node cr).1 ∧
      (c.onTransferCommandResult node cr).1.delivered = c.delivered := by
  unfold onTransferCommandResult settleTransfer
  dsimp only
  split
  · exact ⟨.refl c, rfl⟩
  split
  · exact ⟨.refl c, rfl⟩
  split <;> split <;> first
    | exact ⟨⟨rfl, rfl, rfl, rfl, rfl⟩, rfl⟩
    | (split <;> exact ⟨⟨rfl, rfl, rfl, rfl, rfl⟩, rfl⟩)

theorem spared_setPlacementContainer (containerID : String) (hs : c.deployments id = some s)
    (hOwn : ¬ OnOther node s rank) :
    Spared node drains c (c.setPlacementContainer id s rank containerID) := by
  unfold setPlacementContainer
  split
  · exact .refl c
  refine { Spared.refl c with containers := fun d t r ht hRank => ?_ }
  by_cases hd : d = id
  · subst hd
    rw [hs] at ht
    cases ht
    have hNe : r ≠ rank := fun h => hOwn (h ▸ hRank)
    change update c.containers d (update (c.containers d) rank containerID) d r = c.containers d r
    rw [update_self, update_of_ne hNe]
  · change update c.containers id (update (c.containers id) rank containerID) d r = c.containers d r
    rw [update_of_ne hd]

theorem deployments_setPlacementContainer (id : DeploymentID) (s : Deployment) (rank : Rank) (containerID : String) :
    (c.setPlacementContainer id s rank containerID).deployments = c.deployments := by
  unfold setPlacementContainer
  split <;> rfl

def OwnReport (node : NodeID) (c : Controller) (id : DeploymentID) (rank : Rank) : Prop :=
  ∀ s, c.deployments id = some s → ¬ OnOther node s rank

def reportEnds (c : Controller) (id : DeploymentID) (su : StateUpdate) : Prop :=
  ∃ s, c.deployments id = some s ∧ Deploy.endsRun s su = true

theorem spared_onStateUpdate {su : StateUpdate} (hOwn : OwnReport node c id su.rank)
    (hDrains : reportEnds c id su → drains id) : Spared node drains c (c.onStateUpdate env id su) := by
  unfold onStateUpdate
  split
  · exact .refl c
  rename_i s hs
  split
  · exact .refl c
  refine (spared_setPlacementContainer su.containerID hs (hOwn s hs)).trans (spared_update ?_ ?_)
  · intro t _
    -- Any other rank will do.
    exact (Deploy.drained_onStateUpdate (Nat.succ_ne_self su.rank)).placement
  intro t rank ht hRank
  rw [deployments_setPlacementContainer] at ht
  have hNe : rank ≠ su.rank := fun h => hOwn t ht (h ▸ hRank)
  refine ⟨Deploy.drained_onStateUpdate hNe, fun hKeeps => Deploy.apart_onStateUpdate hNe ?_⟩
  rw [Bool.eq_false_iff]
  exact fun hEnds => hKeeps (hDrains ⟨t, ht, hEnds⟩)

def OwnResult (node : NodeID) (c : Controller) (id : DeploymentID) (command : Deploy.CommandID) : Prop :=
  ∀ s, c.deployments id = some s → ∀ entry, s.inflight.find? (·.id = command) = some entry → ¬ OnOther node s entry.rank

def resultEnds (c : Controller) (id : DeploymentID) (command : Deploy.CommandID) (cr : Deploy.CommandResult) : Prop :=
  ∃ s, c.deployments id = some s ∧ ∃ entry, s.inflight.find? (·.id = command) = some entry ∧
    Deploy.resultEndsRun s entry cr = true

theorem placement_onCommandResult {env : Deploy.Env} (id : Deploy.CommandID) (cr : Deploy.CommandResult) :
    (s.onCommandResult env id cr).placement = s.placement := by
  -- Some rank is not the one of the command.
  have hOther : ∃ rank, ∀ entry, s.inflight.find? (·.id = id) = some entry → rank ≠ entry.rank := by
    cases hFind : s.inflight.find? (·.id = id) with
    | none => exact ⟨0, fun _ h => by cases h⟩
    | some entry => exact ⟨entry.rank + 1, fun _ h => by cases h; exact Nat.succ_ne_self _⟩
  obtain ⟨rank, hRank⟩ := hOther
  exact (Deploy.drained_onCommandResult hRank).placement

theorem rank_of_resultReport {id : Deploy.CommandID} {cr : Deploy.CommandResult} {su : StateUpdate}
    (h : resultReport s id cr = some su) :
    ∃ entry, s.inflight.find? (·.id = id) = some entry ∧ su.rank = entry.rank := by
  obtain ⟨entry, hFind, hReport⟩ := Option.bind_eq_some_iff.mp h
  refine ⟨entry, hFind, ?_⟩
  split at hReport
  · cases hReport
  · exact Deploy.rank_of_inspected hReport

theorem spared_onWorkloadResult {command : Deploy.CommandID} {cr : Deploy.CommandResult}
    (hOwn : OwnResult node c id command) (hDrains : resultEnds c id command cr → drains id) :
    Spared node drains c (c.onWorkloadResult env id command cr) := by
  have hSettled c' (hSame : c'.deployments = c.deployments) :
      Spared node drains c' (c'.update id (Deployment.onCommandResult (env.deploy id) · command cr)) := by
    refine spared_update (fun s _ => placement_onCommandResult command cr) fun s rank hs hRank => ?_
    rw [hSame] at hs
    have hNe (entry : Deploy.InflightCmd) hFind :
        rank ≠ entry.rank := fun h => hOwn s hs entry hFind (h ▸ hRank)
    refine ⟨Deploy.drained_onCommandResult hNe, fun hKeeps => Deploy.apart_onCommandResult hNe fun entry hFind => ?_⟩
    rw [Bool.eq_false_iff]
    exact fun hEnds => hKeeps (hDrains ⟨s, hs, entry, hFind, hEnds⟩)
  unfold onWorkloadResult
  split
  · exact .refl c
  rename_i s hs
  split
  next su hReport =>
    obtain ⟨entry, hFind, hRank⟩ := rank_of_resultReport hReport
    refine (spared_setPlacementContainer su.containerID hs (hRank ▸ hOwn s hs entry hFind)).trans (hSettled _ ?_)
    exact deployments_setPlacementContainer _ _ _ _
  · exact hSettled c rfl

theorem spared_completeRepositoryUpdateFetch (hSent : ∀ other, c.sentTo cr.command = some other → other = node) :
    Spared node drains c (c.completeRepositoryUpdateFetch cr) := by
  unfold completeRepositoryUpdateFetch
  split
  · exact .refl c
  rename_i waiter hWaiter
  refine Still.spared ⟨rfl, rfl, rfl, rfl, rfl⟩ ⟨[⟨waiter, cr.command, c.sentTo cr.command, cr.result⟩], rfl, ?_⟩
  intro d hd
  cases mem_singleton.mp hd
  exact hSent

theorem still_deliver (cr : CommandResult) : Still c (c.deliver cr) := ⟨rfl, rfl, rfl, rfl, rfl⟩

theorem spared_deliver (hSent : ∀ other, c.sentTo cr.command = some other → other = node) :
    Spared node drains c (c.deliver cr) := by
  refine (still_deliver cr).spared ⟨_, rfl, fun d hd => ?_⟩
  obtain ⟨waiter, _, rfl⟩ := mem_map.mp hd
  exact hSent

variable {f : Deployment → Rank → Deployment}

theorem kept_foldl {drains : Prop} {ranks : List Rank}
    (hStep : ∀ s r, r ∈ ranks → Kept drains s (f s r) rank) (s : Deployment) :
    Kept drains s (ranks.foldl f s) rank := by
  induction ranks generalizing s with
  | nil => exact .refl s rank
  | cons r ranks ih =>
    have hTail := ih fun s r hr => hStep s r (mem_cons_of_mem _ hr)
    exact (hStep s r mem_cons_self).trans (hTail (f s r))

theorem placement_foldl (hStep : ∀ s r, (f s r).placement = s.placement)
    (ranks : List Rank) (s : Deployment) : (ranks.foldl f s).placement = s.placement := by
  induction ranks generalizing s with
  | nil => rfl
  | cons r ranks ih => exact (ih (f s r)).trans (hStep s r)

theorem local_failRanks (id : DeploymentID) (target : NodeID) (code message : String) :
    Local node drains c (c.failRanks id target code message) := by
  refine ⟨confined_update _ _, spared_update (fun s _ => placement_foldl (fun s r => ?_) _ s) fun s rank _ _ =>
    kept_foldl (fun s r _ => .of_apart (Deploy.apart_failDispatch s r rank code message)) s⟩
  exact (Deploy.inert_failDispatch s r code message).placement

theorem local_wakeRanks (id : DeploymentID) : Local node drains c (c.wakeRanks env id node) := by
  refine ⟨confined_update _ _, spared_update (fun s _ => placement_foldl (fun s r => ?_) _ s) fun s rank _ hRank =>
    kept_foldl (fun s' r hr => ?_) s⟩
  · have hApart : Apart s (s.dispatchNext (env.deploy id) r (s.placement.entryFor r)) (r + 1) :=
      Deploy.apart_dispatchNext (Nat.succ_ne_self r)
    exact hApart.placement
  · exact .of_apart (Deploy.apart_dispatchNext fun h => hRank.2 (h ▸ hr))

theorem local_dropInflight (key : TransferKey) (id : CommandID) (state : TransferState) (diagnostic : Option String) :
    Local node drains c ((c.dropInflight key).setTransferState id state diagnostic) :=
  ⟨.of_eq rfl rfl rfl, { Spared.refl c with }⟩

variable (identity : String) (state : PlacementState)

theorem local_settleReport (c : Controller)
    (entry : TransferKey × CommandID) : Local node drains c (settleReport node identity state c entry) := by
  unfold settleReport
  split
  · exact local_dropInflight _ _ _ _
  · exact (local_dropInflight _ _ _ _).trans (local_failRanks _ _ _ _)

theorem local_onPlacementReport : Local node drains c (c.onPlacementReport env node identity state) := by
  have hSettled (entries : List (TransferKey × CommandID)) :
      Local node drains c (entries.foldl (settleReport node identity state) c) :=
    Local.foldl (local_settleReport identity state) entries c
  unfold onPlacementReport
  split
  · have hWoken c (entry : TransferKey × CommandID) :
        Local node drains c (c.wakeRanks env entry.1.deploymentID node) := local_wakeRanks _
    exact (hSettled _).trans (Local.foldl hWoken _ _)
  · exact hSettled _

theorem local_applyPlacementReport (pr : PlacementReport) :
    Local node drains c (c.applyPlacementReport env node pr) := by
  unfold applyPlacementReport
  split
  · exact .refl c
  rename_i artifactID hArt
  have hUpserted : Local node drains c { c with
      placements := update c.placements ⟨artifactID, node, pr.path⟩ (some ⟨pr.state, pr.sizeBytes, pr.verifiedAt⟩) } := by
    refine ⟨⟨fun key hKey => update_of_ne (fun h => hKey (by rw [h])) .., fun _ _ _ => Iff.rfl,
      fun _ _ _ _ => rfl⟩, { Spared.refl c with }⟩
  dsimp only
  split
  · exact hUpserted
  · exact hUpserted.trans (local_onPlacementReport _ _)

theorem local_onProgress (dp : DownloadProgress) : Local node drains c (c.onProgress node dp) := by
  unfold onProgress
  split
  · exact .refl c
  rename_i row hRow
  split
  · unfold recordCheckpoint
    split
    · exact .refl c
    rename_i item hItem
    split
    next hSame =>
      refine ⟨⟨fun _ _ => rfl, fun _ _ _ => Iff.rfl, fun id other hNode hOther => ?_⟩,
        { Spared.refl c with }⟩
      refine update_of_ne (fun hID => ?_) ..
      subst hID
      rw [hItem] at hOther
      cases hOther
      exact hNode (hSame.1.trans (node_of_itemByCommand hRow))
    · exact .refl c
  · exact .refl c

theorem local_applyTransferProgress (tp : TransferProgress) :
    Local node drains c (c.applyTransferProgress node tp) := by
  unfold applyTransferProgress
  split
  · split
    · exact local_onProgress _
    · exact .refl c
  split
  · exact .refl c
  split
  · exact .refl c
  · exact ⟨.of_eq rfl rfl rfl, { Spared.refl c with }⟩

theorem itoa_natCast (n : Nat) : itoa n = n.repr.toList := by
  unfold itoa
  by_cases hZero : n = 0
  · subst hZero
    rfl
  · rw [if_neg (by omega), if_neg (by omega), Int.toNat_natCast]

theorem notMem_itoa (n : Int) : '_' ∉ itoa n := by
  unfold itoa
  split
  · decide
  split
  · exact not_mem_nil
  · exact fun h => absurd (Json.isDigit_of_mem_repr h) (by decide)

theorem eq_of_itoa {n : Int} {m : Nat} (h : itoa n = itoa m) : n = m := by
  rw [itoa_natCast] at h
  cases n with
  | ofNat k =>
    rw [Int.ofNat_eq_natCast, itoa_natCast] at h
    rw [Json.repr_toList_injective h]
    rfl
  | negSucc k =>
    have hEmpty : itoa (Int.negSucc k) = [] := by simp [itoa]
    rw [hEmpty] at h
    exact absurd h.symm (Json.repr_ne_nil m)

theorem rank_of_runLogPath {runID runID' : String} {id' : DeploymentID} {n : Int} {m : Rank} {stream stream' : String}
    {path : LogPath} (h : runLogPath runID id n stream = some path)
    (h' : runLogPath runID' id' (m : Int) stream' = some path) : logDeployment id = logDeployment id' ∧ n = m := by
  unfold runLogPath at h h'
  dsimp only at h h'
  split at h
  · cases h
  split at h'
  · cases h'
  cases h
  obtain ⟨_, hID, hFile⟩ := LogPath.mk.inj (Option.some.inj h')
  rw [hID] at hFile
  have hRank := append_cancel_left (append_cancel_left hFile)
  exact ⟨hID.symm, eq_of_itoa (Separator.append_inj (notMem_itoa n) (notMem_itoa m) hRank.symm).1⟩

def OwnLog (node : NodeID) (c : Controller) (lc : LogChunk) : Prop :=
  ∀ id s, ∀ rank : Rank, logDeployment id = logDeployment lc.deploymentID → c.deployments id = some s →
    lc.rank = rank → ¬ OnOther node s rank

theorem appendLog_isolated (lc : LogChunk) :
    Confined node c (c.appendLog lc) ∧ (OwnLog node c lc → Spared node drains c (c.appendLog lc)) := by
  unfold appendLog
  split
  · exact ⟨.refl node c, fun _ => .refl c⟩
  split
  · unfold markLogEnd
    split
    · exact ⟨.refl node c, fun _ => .refl c⟩
    refine ⟨.of_eq rfl rfl rfl, fun hOwn => { Spared.refl c with logEnds := fun id s rank hs hRank runID stream => ?_ }⟩
    refine update_of_ne (fun h => ?_) ..
    obtain ⟨_, hID, hSame, _⟩ := LogKey.mk.inj h
    exact hOwn id s rank hID hs hSame.symm hRank
  split
  · exact ⟨.refl node c, fun _ => .refl c⟩
  rename_i path hPath
  refine ⟨.of_eq rfl rfl rfl, fun hOwn => { Spared.refl c with
    logs := fun id s rank hs hRank runID stream path' hPath' => ?_ }⟩
  refine update_of_ne (fun h => ?_) ..
  subst h
  obtain ⟨hID, hSame⟩ := rank_of_runLogPath hPath hPath'
  exact hOwn id s rank hID.symm hs hSame hRank

/-- The message names no rank of another node and no command that was sent to one. -/
def Own (node : NodeID) (c : Controller) : Message → Prop
  | .commandResult cr => (∀ other, c.sentTo cr.command = some other → other = node) ∧
      ∀ id command, cr.command = .workload id command → OwnResult node c id command
  | .stateUpdate id su => OwnReport node c id su.rank
  | .logChunk lc => OwnLog node c lc
  | _ => True

def Ends (c : Controller) (m : Message) (id : DeploymentID) : Prop :=
  match m with
  | .commandResult cr => ∃ command, cr.command = .workload id command ∧ resultEnds c id command cr.result
  | .stateUpdate target su => target = id ∧ reportEnds c id su
  | _ => False

theorem handleResult_isolated (cr : CommandResult) : Confined node c (handleResult env node c cr) ∧
    (Own node c (.commandResult cr) → Spared node (Ends c (.commandResult cr)) c (handleResult env node c cr)) := by
  obtain ⟨hDownloads, hStill⟩ : Local node (Ends c (.commandResult cr)) c (c.onResult node cr).1 ∧ _ := local_onResult cr
  unfold handleResult
  generalize c.onResult node cr = downloaded at hDownloads hStill ⊢
  have hConfined := hDownloads.confined.trans (confined_onTransferCommandResult cr)
  obtain ⟨hMoved, hDelivered⟩ : Still downloaded.1 (downloaded.1.onTransferCommandResult node cr).1 ∧ _ :=
    onTransferCommandResult_still cr
  dsimp only
  split
  · exact ⟨hDownloads.confined, fun _ => hDownloads.spared⟩
  generalize downloaded.1.onTransferCommandResult node cr = transferred at hMoved hDelivered hConfined ⊢
  have hTransfers := hDownloads.spared.trans (hMoved.spared_of_delivered hDelivered)
  have hPre : Still c transferred.1 := hStill.trans hMoved
  split
  · exact ⟨hConfined, fun _ => hTransfers⟩
  have hHeard : Confined node transferred.1 (transferred.1.deliver cr) := .of_eq rfl rfl rfl
  refine ⟨(hConfined.trans hHeard).trans (confined_onCommandResult cr), fun hOwn => ?_⟩
  have hSent : ∀ other, transferred.1.sentTo cr.command = some other → other = node := hPre.sentTo ▸ hOwn.1
  refine (hTransfers.trans (spared_deliver hSent)).trans ?_
  have hAfter : Still c (transferred.1.deliver cr) := hPre.trans (still_deliver cr)
  unfold onCommandResult
  split
  next id command hCmd =>
    refine spared_onWorkloadResult ?_ ?_
    · unfold OwnResult
      rw [hAfter.deployments]
      exact hOwn.2 id command hCmd
    · rintro ⟨s, hs, hEnds⟩
      exact ⟨command, hCmd, s, hAfter.deployments ▸ hs, hEnds⟩
  · exact spared_completeRepositoryUpdateFetch (hAfter.sentTo ▸ hOwn.1)

/-- A message changes no placement and no download item of another node. If it names only what belongs to its
own node, it also leaves the ranks and the logs of the other nodes alone and reaches none of their waiters, except
that the report of a rank that is down drives the other ranks of its deployment to a stop. -/
theorem message_isolation (env : Env) (node : NodeID) (c : Controller) (m : Message) :
    Confined node c (handle env node c m) ∧ (Own node c m → Spared node (Ends c m) c (handle env node c m)) := by
  have hLocal {c' : Controller} (h : Local node (Ends c m) c c') :
      Confined node c c' ∧ (Own node c m → Spared node (Ends c m) c c') := ⟨h.confined, fun _ => h.spared⟩
  cases m with
  | commandResult cr => exact handleResult_isolated cr
  | stateUpdate id su => exact ⟨confined_onStateUpdate id su, fun hOwn => spared_onStateUpdate hOwn fun h => ⟨rfl, h⟩⟩
  | logChunk lc => exact appendLog_isolated lc
  | placementReport pr => exact hLocal (local_applyPlacementReport pr)
  | transferProgress tp => exact hLocal (local_applyTransferProgress tp)
  | downloadProgress dp => exact hLocal (local_onProgress dp)
  | ack command ok error =>
    unfold handle
    dsimp only
    split
    · exact hLocal (.refl c)
    · exact hLocal ((Local.foldl (fun _ _ => (local_dropInflight _ _ _ _).trans (local_failRanks _ _ _ _)) _ _))

def fleetDeployment : Deployment :=
  { Deployment.createPlanned .calm Deploy.plainRecipe ⟨[⟨"a", 0⟩, ⟨"b", 1⟩], [("a", 0), ("b", 1)], false⟩ with
    dispatch := fun _ => .started
    rankStates := fun _ => .running }

def fleet : Controller where
  deployments id := if id = "d" then some fleetDeployment else none
  containers _ _ := ""
  fetches _ := none
  cancels _ := none
  transfers _ := none
  transferInflight := []
  downloads := ⟨[], [], none, 0, [], [], []⟩
  checkpoints _ := none
  downloadWaiters _ _ := none
  broker := ⟨fun command => if command = .other 0 then [7] else [], fun _ => none, []⟩
  placements _ := none
  logs _ := []
  logEnds _ := none
  sentTo command := if command = .other 0 then some "b" else none
  delivered := []

def fleetEnv : Env := ⟨fun _ => .calm, fun _ => none⟩

def exited (rank : Rank) : Message := .stateUpdate "d" ⟨fleetDeployment.runID, rank, .exited, "", [], 1, false⟩

def phaseAfter (m : Message) (rank : Rank) : Option Deploy.Phase :=
  ((handle fleetEnv "a" fleet m).deployments "d").map (·.dispatch rank)

theorem message_isolation_report :
    Own "a" fleet (exited 0) ∧ Spared "a" (Ends fleet (exited 0)) fleet (handle fleetEnv "a" fleet (exited 0)) := by
  have hOwn : Own "a" fleet (exited 0) := by
    intro s hs
    cases hs
    decide +kernel
  exact ⟨hOwn, (message_isolation fleetEnv "a" fleet (exited 0)).2 hOwn⟩

theorem message_crosses_nodes :
    (fleet.deployments "d").map (·.dispatch 1) = some .started ∧ phaseAfter (exited 0) 1 = some .stopping ∧
      phaseAfter (exited 1) 1 = some .stopped ∧
      (handle fleetEnv "a" fleet (.commandResult ⟨.other 0, Deploy.accepted, fun _ => false⟩)).delivered =
        [⟨7, .other 0, some "b", Deploy.accepted⟩] ∧
      (runLogPath "r" "d" 1 "stdout").map
        (handle fleetEnv "a" fleet (.logChunk ⟨"r", "d", 1, "stdout", [1], false, 0⟩)).logs = some [1] := by
  decide +kernel

end LocalModelWorks.Server.Messages
